import MrsOptimization.Player.Messages
import MrsOptimization.Player.XdrMessages

/-!
# Headers on the wire

The client encodes and decodes a header with its XDR streams. The server has the
functions that `playerxdrgen.py` makes of the fields of `player_msghdr_t`, which
fill up a short field with zeros where the client repeats its sign. Either end
reads what the other one writes.
-/

namespace MrsOptimization

/-- `PLAYERXDR_DEVADDR_SIZE` -/
def devAddrSize : ℕ :=
  16

/-- `PLAYERXDR_MSGHDR_SIZE` -/
def headerSize : ℕ :=
  40

section Client

/-- What the client encodes for an address. -/
def PlayerDevAddr.items (addr : PlayerDevAddr) : List XdrItem :=
  [.scalar .int addr.host, .scalar .int addr.robot, .scalar .short addr.interf,
    .scalar .short addr.index]

/-- What `sendHeader` encodes. -/
def PlayerMsgHdr.items (hdr : PlayerMsgHdr) : List XdrItem :=
  hdr.addr.items ++
    [.scalar .byte hdr.type, .scalar .byte hdr.subtype, .scalar .double hdr.timestamp,
      .scalar .int hdr.seq, .scalar .int hdr.size]

open XdrDecodingStream

variable {m : Type → Type} [Monad m] [XdrDecodingStream m]

def decodeDevAddr : m PlayerDevAddr := do
  let host ← xdrDecodeInt
  let robot ← xdrDecodeInt
  let interf ← xdrDecodeShort
  let index ← xdrDecodeShort
  pure ⟨host, robot, interf, index⟩

/-- The calls of `readHeader` between `beginDecoding` and `endDecoding` -/
def decodeHeader : m PlayerMsgHdr := do
  let addr ← decodeDevAddr
  let type ← xdrDecodeByte
  let subtype ← xdrDecodeByte
  let timestamp ← xdrDecodeDouble
  let seq ← xdrDecodeInt
  let size ← xdrDecodeInt
  pure ⟨addr, type, subtype, timestamp, seq, size⟩

end Client

section Server

/-- `xdr_u_short` and `xdr_u_char` -/
def xdrUnsigned {w : ℕ} (value : BitVec w) : List Byte :=
  beBytes (value.setWidth 32 : BitVec 32) 4

def PlayerDevAddr.packed (addr : PlayerDevAddr) : List Byte :=
  [beBytes addr.host 4, beBytes addr.robot 4, xdrUnsigned addr.interf,
    xdrUnsigned addr.index].flatten

/-- `player_msghdr_pack` with `PLAYERXDR_ENCODE` -/
def PlayerMsgHdr.packed (hdr : PlayerMsgHdr) : List Byte :=
  hdr.addr.packed ++
    [xdrUnsigned hdr.type, xdrUnsigned hdr.subtype,
      (XdrScalar.longChunks hdr.timestamp).flatten, beBytes hdr.seq 4, beBytes hdr.size 4].flatten

/-- `player_msghdr_pack` with `PLAYERXDR_DECODE` on the first 40 bytes of a buffer -/
def unpackHeader (buffer : List Byte) : Option PlayerMsgHdr :=
  match (decodeHeader : TextM PlayerMsgHdr) (buffer.take headerSize) with
  | .ok hdr _ => some hdr
  | .error _ _ => none

end Server

theorem length_packed (hdr : PlayerMsgHdr) : hdr.packed.length = headerSize := by
  simp [PlayerMsgHdr.packed, PlayerDevAddr.packed, xdrUnsigned, XdrScalar.longChunks, headerSize]

section Reading

open XdrDecodingStream

theorem reads_short (word : BitVec 32) :
    Reads (xdrDecodeShort : TextM (BitVec 16)) (beBytes word 4) (word.setWidth 16) :=
  (reads_int word).map _

theorem reads_byte (word : BitVec 32) :
    Reads (xdrDecodeByte : TextM Byte) (beBytes word 4) (word.setWidth 8) :=
  (reads_int word).map _

/-- Four words are an address, whatever the upper halves of the last two hold. -/
theorem reads_devAddr_words (host robot interf index : BitVec 32) :
    Reads (decodeDevAddr : TextM PlayerDevAddr)
      [beBytes host 4, beBytes robot 4, beBytes interf 4, beBytes index 4].flatten
      ⟨host, robot, interf.setWidth 16, index.setWidth 16⟩ := by
  apply (reads_int host).bind
  apply (reads_int robot).bind
  apply (reads_short interf).bind
  apply (reads_short index).bind
  exact .pure _

/-- The rest of a header behind its address. -/
theorem reads_header_words {addr : PlayerDevAddr} {text : List Byte}
    (address : Reads (decodeDevAddr : TextM PlayerDevAddr) text addr) (type subtype : BitVec 32)
    (timestamp : BitVec 64) (seq size : BitVec 32) :
    Reads (decodeHeader : TextM PlayerMsgHdr)
      (text ++ [beBytes type 4, beBytes subtype 4, (XdrScalar.longChunks timestamp).flatten,
        beBytes seq 4, beBytes size 4].flatten)
      ⟨addr, type.setWidth 8, subtype.setWidth 8, timestamp, seq, size⟩ := by
  apply address.bind
  apply (reads_byte type).bind
  apply (reads_byte subtype).bind
  apply (reads_long timestamp).bind
  apply (reads_int seq).bind
  apply (reads_int size).bind
  exact .pure _

theorem setWidth_setWidth {w : ℕ} (few : w ≤ 32) (value : BitVec w) :
    (value.setWidth 32 : BitVec 32).setWidth w = value := by
  rw [BitVec.setWidth_setWidth_of_le _ few, BitVec.setWidth_eq]

/-- What the server packs is read as it was. -/
theorem reads_packed (hdr : PlayerMsgHdr) :
    Reads (decodeHeader : TextM PlayerMsgHdr) hdr.packed hdr := by
  have address := reads_devAddr_words hdr.addr.host hdr.addr.robot (hdr.addr.interf.setWidth 32)
    (hdr.addr.index.setWidth 32)
  rw [setWidth_setWidth (by decide), setWidth_setWidth (by decide)] at address
  have reads := reads_header_words address (hdr.type.setWidth 32) (hdr.subtype.setWidth 32)
    hdr.timestamp hdr.seq hdr.size
  rw [setWidth_setWidth (by decide), setWidth_setWidth (by decide)] at reads
  exact reads

/-- A header as the client sends it: a timestamp that is no number loses its bits. -/
def PlayerMsgHdr.normal (hdr : PlayerMsgHdr) : PlayerMsgHdr :=
  { hdr with timestamp := doubleToLongBits hdr.timestamp }

def PlayerMsgHdr.bytes (charset : Charset) (hdr : PlayerMsgHdr) : List Byte :=
  (hdr.items.map (XdrItem.bytes charset)).flatten

theorem length_bytes (charset : Charset) (hdr : PlayerMsgHdr) :
    (hdr.bytes charset).length = headerSize := by
  simp [PlayerMsgHdr.bytes, PlayerMsgHdr.items, PlayerDevAddr.items, XdrItem.bytes,
    XdrItem.chunks, XdrScalar.chunks, XdrScalar.longChunks, headerSize]

/-- What the client encodes is read as it was, apart from a timestamp that is no number. -/
theorem reads_bytes (charset : Charset) (hdr : PlayerMsgHdr) :
    Reads (decodeHeader : TextM PlayerMsgHdr) (hdr.bytes charset) hdr.normal := by
  have address := reads_devAddr_words hdr.addr.host hdr.addr.robot (hdr.addr.interf.signExtend 32)
    (hdr.addr.index.signExtend 32)
  rw [setWidth_signExtend (by decide), setWidth_signExtend (by decide)] at address
  have reads := reads_header_words address (hdr.type.signExtend 32) (hdr.subtype.signExtend 32)
    (doubleToLongBits hdr.timestamp) hdr.seq hdr.size
  rw [setWidth_signExtend (by decide), setWidth_signExtend (by decide)] at reads
  simpa [PlayerMsgHdr.bytes, PlayerMsgHdr.items, PlayerDevAddr.items, XdrItem.bytes,
    XdrItem.chunks, XdrScalar.chunks, PlayerMsgHdr.normal] using reads

theorem unpackHeader_of_reads {text : List Byte} {hdr : PlayerMsgHdr}
    (reads : Reads (decodeHeader : TextM PlayerMsgHdr) text hdr)
    (whole : text.length = headerSize) (more : List Byte) :
    unpackHeader (text ++ more) = some hdr := by
  have runs := reads []
  rw [List.append_nil] at runs
  rw [unpackHeader, List.take_left' whole, runs]

theorem takes_int : Takes (xdrDecodeInt : TextM (BitVec 32)) 4 := by
  intro text enough
  change ∃ value, (if 4 ≤ text.length then _ else _ : EStateM.Result _ _ _) = _
  rw [if_pos enough]
  exact ⟨_, rfl⟩

theorem takes_map {α : Type} (f : BitVec 32 → α) :
    Takes (xdrDecodeInt >>= fun word => pure (f word) : TextM α) 4 :=
  takes_int.bind fun word => .pure (f word)

theorem takes_double : Takes (xdrDecodeDouble : TextM (BitVec 64)) 8 := by
  apply takes_int.bind (n := 4)
  intro high
  apply takes_int.bind (n := 0)
  intro low
  exact .pure _

theorem takes_devAddr : Takes (decodeDevAddr : TextM PlayerDevAddr) devAddrSize := by
  apply takes_int.bind (n := 12)
  intro host
  apply takes_int.bind (n := 8)
  intro robot
  apply (takes_map _).bind (n := 4)
  intro interf
  apply (takes_map _).bind (n := 0)
  intro index
  exact .pure _

theorem takes_header : Takes (decodeHeader : TextM PlayerMsgHdr) headerSize := by
  apply takes_devAddr.bind (n := 24)
  intro addr
  apply (takes_map _).bind (n := 20)
  intro type
  apply (takes_map _).bind (n := 16)
  intro subtype
  apply takes_double.bind (n := 8)
  intro timestamp
  apply takes_int.bind (n := 4)
  intro seq
  apply takes_int.bind (n := 0)
  intro size
  exact .pure _

/-- Any 40 bytes are a header. -/
theorem exists_unpackHeader {buffer : List Byte} (enough : headerSize ≤ buffer.length) :
    ∃ hdr, unpackHeader buffer = some hdr := by
  rcases takes_header (buffer.take headerSize) (by simp [enough]) with ⟨hdr, runs⟩
  exact ⟨hdr, by rw [unpackHeader, runs]⟩

/-- Only the first 40 bytes matter. -/
theorem unpackHeader_take {buffer : List Byte} {n : ℕ} (enough : headerSize ≤ n) :
    unpackHeader (buffer.take n) = unpackHeader buffer := by
  rw [unpackHeader, unpackHeader, List.take_take, min_eq_left enough]

theorem unpackHeader_append {buffer : List Byte} (enough : headerSize ≤ buffer.length)
    (more : List Byte) : unpackHeader (buffer ++ more) = unpackHeader buffer := by
  rw [unpackHeader, unpackHeader, List.take_append_of_le_length enough]

end Reading

end MrsOptimization
