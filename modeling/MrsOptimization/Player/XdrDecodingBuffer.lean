import MrsOptimization.Library.BigEndian
import MrsOptimization.Library.MachineInt
import MrsOptimization.Player.XdrItems

/-!
# Decoding from a buffer

`XdrBufferDecodingStream` reads the first `encodedLength` bytes of an array. Its
purpose is a list of bytes of which the first ones are taken away: `Reading`
relates the two.
-/

namespace MrsOptimization

structure XdrBufferDecodingStream where
  /-- `none` once the stream is closed. -/
  buffer : Option (JavaArray Byte)
  encodedLength : ℤ
  bufferIndex : ℤ
  bufferHighmark : ℤ
deriving DecidableEq, Repr

/-- Programs on a buffer that is decoded from. -/
abbrev DecodeM := EStateM XdrException XdrBufferDecodingStream

namespace XdrBufferDecodingStream

def encodedLengthMessage : String :=
  "length of encoded data must be a multiple of four and must not be negative"

/-- `setXdrData`, as the constructors call it. -/
def ofData (buffer : JavaArray Byte) (encodedLength : BitVec 32) :
    Except XdrException XdrBufferDecodingStream :=
  if encodedLength.toInt < 0 ∨ encodedLength.toInt % 4 ≠ 0 then
    .error (.illegalArgument encodedLengthMessage)
  else .ok ⟨some buffer, encodedLength.toInt, 0, -4⟩

/-- `new XdrBufferDecodingStream(buffer)` -/
def ofBuffer (buffer : JavaArray Byte) : Except XdrException XdrBufferDecodingStream :=
  ofData buffer buffer.length

def beginDecoding : DecodeM Unit :=
  modify fun stream =>
    { stream with bufferIndex := 0, bufferHighmark := stream.encodedLength - 4 }

def endDecoding : DecodeM Unit :=
  modify fun stream => { stream with bufferIndex := 0, bufferHighmark := -4 }

def close : DecodeM Unit :=
  modify fun stream => { stream with buffer := none }

/-- `buffer[bufferIndex++]`: the index grows even if the access fails. -/
def takeByte : DecodeM Byte := fun stream =>
  let next := { stream with bufferIndex := wrap 32 (stream.bufferIndex + 1) }
  match stream.buffer with
  | none => .error .nullPointer next
  | some buffer =>
    match buffer.get stream.bufferIndex with
    | none => .error .indexOutOfBounds next
    | some byte => .ok byte next

/-- `(value << 8) + (byte & 0xFF)` -/
def shiftIn (value : BitVec 32) (byte : Byte) : BitVec 32 :=
  (value <<< 8) + (byte.signExtend 32 &&& 0xFF#32)

def xdrDecodeInt : DecodeM (BitVec 32) := do
  let stream ← get
  if stream.bufferIndex ≤ stream.bufferHighmark then do
    let first ← takeByte
    let second ← takeByte
    let third ← takeByte
    let fourth ← takeByte
    pure (shiftIn (shiftIn (shiftIn (first.signExtend 32) second) third) fourth)
  else throw .bufferUnderflow

/-- The next multiple of four, in 32 bits. -/
def alignedLength (length : ℤ) : ℤ :=
  if length % 4 ≠ 0 then wrap 32 (length - length % 4 + 4) else length

/-- The test of `xdrDecodeOpaque`, in 32 bits. -/
def hasData (bufferIndex bufferHighmark length : ℤ) : Bool :=
  bufferIndex ≤ wrap 32 (bufferHighmark - alignedLength length + 4)

/-- `System.arraycopy(buffer, bufferIndex, target, offset, length)` -/
def copyBytes (target : JavaArray Byte) (offset length : ℤ) : DecodeM (JavaArray Byte) :=
  fun stream =>
    match stream.buffer with
    | none => .error .nullPointer stream
    | some buffer =>
      match JavaArray.arraycopy buffer stream.bufferIndex target offset length with
      | none => .error .indexOutOfBounds stream
      | some target => .ok target stream

def skip (length : ℤ) : DecodeM Unit :=
  modify fun stream => { stream with bufferIndex := wrap 32 (stream.bufferIndex + length) }

/-- The copy of `xdrDecodeOpaque` behind its two tests. -/
def copyOpaque (target : JavaArray Byte) (offset length : ℤ) : DecodeM (JavaArray Byte) := do
  let stream ← get
  if 0 < length then
    if hasData stream.bufferIndex stream.bufferHighmark length then copyBytes target offset length
    else throw .bufferUnderflow
  else pure target

/-- `xdrDecodeOpaque(opaque, offset, length)`; a negative length moves the index back. -/
def xdrDecodeOpaqueInto (target : JavaArray Byte) (offset length : BitVec 32) :
    DecodeM (JavaArray Byte) := do
  let filled ← copyOpaque target offset.toInt length.toInt
  skip (alignedLength length.toInt)
  pure filled

/-- `xdrDecodeOpaque(length)`: the same with a new array. -/
def xdrDecodeOpaque (length : BitVec 32) : DecodeM (JavaArray Byte) := do
  let bytes ← XdrDecodingStream.newBytes length
  xdrDecodeOpaqueInto bytes 0 length

instance : XdrDecodingStream DecodeM where
  xdrDecodeInt := xdrDecodeInt
  xdrDecodeOpaque := xdrDecodeOpaque
  xdrDecodeOpaqueInto := xdrDecodeOpaqueInto

end XdrBufferDecodingStream

/-- The first bytes of a text, as an array. -/
def firstBytes (text : List Byte) (length : BitVec 32) : JavaArray Byte :=
  ⟨text.take length.toInt.toNat, by
    have := length.toInt_lt
    rw [List.length_take]
    omega⟩

/-- Take the first bytes of a text and the padding behind them. -/
def readOpaque (target : JavaArray Byte) (offset length : BitVec 32) :
    EStateM XdrException (List Byte) (JavaArray Byte) := fun text =>
  if length.toInt ≤ 0 then .ok target text
  else if (length.toInt.toNat + 3) / 4 * 4 ≤ text.length then
    match JavaArray.arraycopy (firstBytes text length) 0 target offset.toInt length.toInt with
    | none => .error .indexOutOfBounds text
    | some target => .ok target (text.drop ((length.toInt.toNat + 3) / 4 * 4))
  else .error .bufferUnderflow text

/-- What the decoding stream is for. A text cannot be read backwards. -/
instance : XdrDecodingStream (EStateM XdrException (List Byte)) where
  xdrDecodeInt := fun text =>
    if 4 ≤ text.length then .ok (ofBytes 32 (text.take 4)) (text.drop 4)
    else .error .bufferUnderflow text
  xdrDecodeOpaque length := do
    let bytes ← XdrDecodingStream.newBytes length
    readOpaque bytes 0 length
  xdrDecodeOpaqueInto := readOpaque

namespace XdrBufferDecodingStream

/-- A stream that has read some of its data, and has a text left to read. -/
structure Reading (data : List Byte) (stream : XdrBufferDecodingStream) (text : List Byte) :
    Prop where
  intro ::
  buffer : ∃ buffer, stream.buffer = some buffer ∧ data <+: buffer.values
  highmark : stream.bufferHighmark = data.length - 4
  unread : ∃ read, data = read ++ text ∧ stream.bufferIndex = read.length

variable {data text : List Byte} {stream : XdrBufferDecodingStream}

namespace Reading

theorem index (state : Reading data stream text) :
    stream.bufferIndex = data.length - text.length := by
  rcases state.unread with ⟨read, rfl, index⟩
  rw [index, List.length_append]
  omega

theorem length_lt (state : Reading data stream text) : data.length < 2 ^ 31 := by
  rcases state.buffer with ⟨buffer, -, initial⟩
  exact lt_of_le_of_lt initial.length_le buffer.length_lt

theorem length_le (state : Reading data stream text) : text.length ≤ data.length := by
  rcases state.unread with ⟨read, rfl, -⟩
  simp

/-- The stream after some more bytes. -/
theorem skipped {front rest : List Byte} (state : Reading data stream (front ++ rest))
    {stream' : XdrBufferDecodingStream}
    (moved : stream' = { stream with bufferIndex := stream.bufferIndex + front.length }) :
    Reading data stream' rest := by
  rcases state with ⟨buffer, highmark, read, split, index⟩
  subst moved
  exact ⟨buffer, highmark, read ++ front, by simp [split], by simp [index]⟩

end Reading

theorem takeByte_reading {byte : Byte} (state : Reading data stream (byte :: text)) :
    ∃ stream', takeByte stream = .ok byte stream' ∧ Reading data stream' text := by
  have small := state.length_lt
  rcases state.buffer with ⟨buffer, open_, rest, whole⟩
  rcases state.unread with ⟨read, parts, index⟩
  have found : buffer.values[read.length]? = some byte := by
    rw [← whole, parts]
    simp
  have next : wrap 32 (stream.bufferIndex + 1) = stream.bufferIndex + 1 := by
    have := congrArg List.length parts
    rw [List.length_append, List.length_cons] at this
    apply wrap_of_mem_range <;> omega
  have access : buffer.get stream.bufferIndex = some byte := by
    rw [index]
    exact JavaArray.get_eq_some found
  refine ⟨{ stream with bufferIndex := stream.bufferIndex + 1 }, ?_, ?_⟩
  · simp only [takeByte, open_, next, access]
  · have split : Reading data stream ([byte] ++ text) := state
    exact split.skipped rfl

theorem shiftIn_eq (value : BitVec 32) (byte : Byte) :
    shiftIn value byte = appendByte value byte := by
  have masked : byte.signExtend 32 &&& 0xFF#32 = byte.setWidth 32 := by
    apply BitVec.eq_of_toNat_eq
    have mask : (0xFF#32).toNat = 2 ^ 8 - 1 := rfl
    rw [BitVec.toNat_and, mask, Nat.and_two_pow_sub_one_eq_mod, BitVec.toNat_signExtend,
      BitVec.toNat_setWidth]
    have := byte.isLt
    split <;> omega
  rw [shiftIn, appendByte, masked]

/-- The bits that the sign of the first byte sets are shifted out. -/
theorem shiftIn_signExtend (first second third fourth : Byte) :
    shiftIn (shiftIn (shiftIn (first.signExtend 32) second) third) fourth =
      ofBytes 32 [first, second, third, fourth] := by
  simp only [shiftIn_eq]
  apply BitVec.eq_of_toNat_eq
  have folded := toNat_foldl_appendByte [second, third, fourth] (first.signExtend 32)
  simp only [List.foldl_cons, List.foldl_nil] at folded
  rw [folded, toNat_ofBytes, BitVec.toNat_signExtend]
  simp only [digitsValue, List.length_cons, List.length_nil, BitVec.toNat_setWidth]
  have := first.isLt
  split <;> omega

theorem xdrDecodeInt_related :
    (stateRelation (Reading data)).Related xdrDecodeInt
      (XdrDecodingStream.xdrDecodeInt : EStateM XdrException (List Byte) (BitVec 32)) := by
  intro stream text state
  have test : stream.bufferIndex ≤ stream.bufferHighmark ↔ 4 ≤ text.length := by
    rw [state.index, state.highmark]
    omega
  change SameResult _
    ((if stream.bufferIndex ≤ stream.bufferHighmark then _ else _ : DecodeM (BitVec 32)) stream)
    (if 4 ≤ text.length then _ else _)
  by_cases room : 4 ≤ text.length
  · rcases text with _ | ⟨first, _ | ⟨second, _ | ⟨third, _ | ⟨fourth, rest⟩⟩⟩⟩ <;>
      try (simp at room; done)
    rcases takeByte_reading state with ⟨_, takesFirst, state⟩
    rcases takeByte_reading state with ⟨_, takesSecond, state⟩
    rcases takeByte_reading state with ⟨_, takesThird, state⟩
    rcases takeByte_reading state with ⟨_, takesFourth, state⟩
    rw [if_pos (test.mpr room), if_pos room, bind_ok takesFirst, bind_ok takesSecond,
      bind_ok takesThird, bind_ok takesFourth, shiftIn_signExtend]
    exact .ok _ state
  · rw [if_neg (mt test.mp room), if_neg room]
    exact .error _ state

theorem alignedLength_eq {length : ℕ} (small : length ≤ 2 ^ 31 - 4) :
    alignedLength length = ((length + 3) / 4 * 4 : ℕ) := by
  rw [alignedLength]
  split
  · rw [wrap_of_mem_range] <;> omega
  · omega

theorem alignedLength_overflow {length : ℤ} (large : 2 ^ 31 - 4 < length)
    (small : length < 2 ^ 31) :
    alignedLength length = -2 ^ 31 := by
  rw [alignedLength, if_pos (by omega), wrap, Int.bmod_def]
  omega

/-- The test asks whether the bytes are there with their padding, overflow included. -/
theorem hasData_iff (state : Reading data stream text) (length : ℕ) (small : length < 2 ^ 31) :
    hasData stream.bufferIndex stream.bufferHighmark length ↔
      (length + 3) / 4 * 4 ≤ text.length := by
  have dataSmall := state.length_lt
  have textSmall := state.length_le
  rw [hasData, state.index, state.highmark, decide_eq_true_iff]
  by_cases fits : length ≤ 2 ^ 31 - 4
  · rw [alignedLength_eq fits, wrap_of_mem_range] <;> omega
  · rw [alignedLength_overflow (by omega) (by omega), wrap, Int.bmod_def]
    omega

theorem skip_reading {front rest : List Byte} (state : Reading data stream (front ++ rest)) :
    ∃ stream', skip front.length stream = .ok () stream' ∧ Reading data stream' rest := by
  have small := state.length_lt
  have fits := state.length_le
  rw [List.length_append] at fits
  have next : wrap 32 (stream.bufferIndex + front.length) = stream.bufferIndex + front.length := by
    rw [state.index, List.length_append]
    apply wrap_of_mem_range <;> omega
  refine ⟨{ stream with bufferIndex := stream.bufferIndex + front.length }, ?_,
    state.skipped rfl⟩
  rw [← next]
  rfl

/-- The bytes left in the array are the ones of the text. -/
theorem copyBytes_reading (state : Reading data stream text) (target : JavaArray Byte)
    (offset : ℤ) {length : BitVec 32} (nonneg : 0 ≤ length.toInt)
    (enough : length.toInt.toNat ≤ text.length) :
    copyBytes target offset length.toInt stream =
      match JavaArray.arraycopy (firstBytes text length) 0 target offset length.toInt with
      | none => .error .indexOutOfBounds stream
      | some target => .ok target stream := by
  rcases state.buffer with ⟨buffer, open_, rest, whole⟩
  rcases state.unread with ⟨read, split, index⟩
  have values : buffer.values = read ++ (text ++ rest) := by
    rw [← whole, split, List.append_assoc]
  have same : JavaArray.arraycopy buffer stream.bufferIndex target offset length.toInt =
      JavaArray.arraycopy (firstBytes text length) 0 target offset length.toInt := by
    rw [index, ← Int.toNat_of_nonneg nonneg]
    apply JavaArray.arraycopy_congr
    · rw [values, List.length_append, List.length_append]
      omega
    · simp [firstBytes, enough]
    · simp [values, firstBytes, List.take_append_of_le_length enough, List.take_take]
  simp only [copyBytes, open_, same]

theorem copyOpaque_eq (stream : XdrBufferDecodingStream) (target : JavaArray Byte)
    (offset length : ℤ) :
    copyOpaque target offset length stream =
      if 0 < length then
        if hasData stream.bufferIndex stream.bufferHighmark length then
          copyBytes target offset length stream
        else .error .bufferUnderflow stream
      else .ok target stream := by
  change (if 0 < length then _ else _ : DecodeM (JavaArray Byte)) stream = _
  split
  · split <;> rfl
  · rfl

theorem xdrDecodeOpaqueInto_related (target : JavaArray Byte) (offset : BitVec 32)
    {length : BitVec 32} (nonneg : 0 ≤ length.toInt) :
    (stateRelation (Reading data)).Related (xdrDecodeOpaqueInto target offset length)
      (readOpaque target offset length) := by
  intro stream text state
  have copied := copyOpaque_eq stream target offset.toInt length.toInt
  have bound := state.length_lt
  have shorter := state.length_le
  have test := hasData_iff state length.toInt.toNat (by
    have := length.toInt_lt
    omega)
  rw [Int.toNat_of_nonneg nonneg] at test
  generalize aligned : (length.toInt.toNat + 3) / 4 * 4 = size at test
  by_cases positive : 0 < length.toInt
  · rw [if_pos positive] at copied
    by_cases enough : size ≤ text.length
    · have moves : alignedLength length.toInt = size := by
        rw [← Int.toNat_of_nonneg nonneg, alignedLength_eq (by omega), aligned]
      have front : (text.take size).length = size := by rw [List.length_take, min_eq_left enough]
      rw [if_pos (test.mpr enough), copyBytes_reading state target _ nonneg (by omega)] at copied
      cases filled : JavaArray.arraycopy (firstBytes text length) 0 target offset.toInt
          length.toInt with
      | none =>
          simp only [filled] at copied
          rw [xdrDecodeOpaqueInto, bind_error copied]
          simp only [readOpaque, aligned, if_neg (not_le.mpr positive), if_pos enough, filled]
          exact .error _ state
      | some array =>
          simp only [filled] at copied
          have split := state
          rw [← List.take_append_drop size text] at split
          rcases skip_reading split with ⟨stream', skips, final⟩
          rw [front, ← moves] at skips
          rw [xdrDecodeOpaqueInto, bind_ok copied, bind_ok skips]
          simp only [readOpaque, aligned, if_neg (not_le.mpr positive), if_pos enough, filled]
          exact .ok _ final
    · rw [if_neg (mt test.mp enough)] at copied
      rw [xdrDecodeOpaqueInto, bind_error copied]
      simp only [readOpaque, aligned, if_neg (not_le.mpr positive), if_neg enough]
      exact .error _ state
  · have zero : length.toInt = 0 := by omega
    have split : Reading data stream ([] ++ text) := state
    rcases skip_reading split with ⟨stream', skips, final⟩
    have moves : alignedLength length.toInt = ([] : List Byte).length := by
      rw [zero]
      rfl
    rw [if_neg positive] at copied
    rw [← moves] at skips
    rw [xdrDecodeOpaqueInto, bind_ok copied, bind_ok skips, readOpaque, if_pos (by omega)]
    exact .ok _ final

theorem xdrDecodeOpaque_related (length : BitVec 32) :
    (stateRelation (Reading data)).Related (xdrDecodeOpaque length)
      (XdrDecodingStream.xdrDecodeOpaque length :
        EStateM XdrException (List Byte) (JavaArray Byte)) := by
  change (stateRelation (Reading data)).Related
    (XdrDecodingStream.newBytes length >>= fun bytes => xdrDecodeOpaqueInto bytes 0 length)
    (XdrDecodingStream.newBytes length >>= fun bytes => readOpaque bytes 0 length)
  by_cases nonneg : 0 ≤ length.toInt
  · simp only [XdrDecodingStream.newBytes, JavaArray.ofLength, if_pos nonneg]
    apply (stateRelation (Reading data)).bind ((stateRelation (Reading data)).pure _)
    intro bytes
    exact xdrDecodeOpaqueInto_related bytes 0 nonneg
  · simp only [XdrDecodingStream.newBytes, JavaArray.ofLength, if_neg nonneg]
    intro stream text state
    exact .error _ state

/-- Every decoding method does on a buffer what it does on the text left in it. -/
def textRelation (data : List Byte) :
    DecoderRelation DecodeM (EStateM XdrException (List Byte)) where
  toMonadRelation := stateRelation (Reading data)
  throw := stateRelation_throw _
  int := xdrDecodeInt_related
  opaqueBytes := xdrDecodeOpaque_related
  opaqueInto target offset _ nonneg := xdrDecodeOpaqueInto_related target offset nonneg

end XdrBufferDecodingStream

end MrsOptimization
