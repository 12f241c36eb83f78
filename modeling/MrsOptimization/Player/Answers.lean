import MrsOptimization.Player.ClientReads
import MrsOptimization.Player.PlayerRequests

/-!
# Requests and answers

A client makes a call, the server answers it, and the client reads the answer.
The bytes in between do not matter: the server gets the structure that the call
is about, and the client learns the structure that the server answers with.
-/

namespace MrsOptimization

namespace PlayerClient

open TcpServer PlayerCore XdrDecodingStream

variable {ω δ ι : Type}

section Request

theorem reads_items_of_addr (charset : Charset) (addr : PlayerDevAddr) :
    Reads (decodeDevAddr : TextM PlayerDevAddr)
      (addr.items.map (XdrItem.bytes charset)).flatten addr := by
  have words := reads_devAddr_words addr.host addr.robot (addr.interf.signExtend 32)
    (addr.index.signExtend 32)
  rw [setWidth_signExtend (by decide), setWidth_signExtend (by decide)] at words
  simpa [PlayerDevAddr.items, XdrItem.bytes, XdrItem.chunks, XdrScalar.chunks] using words

theorem reads_byte_item (charset : Charset) (value : Byte) :
    Reads (xdrDecodeByte : TextM Byte) (XdrItem.bytes charset (.scalar .byte value)) value := by
  have word := reads_byte (value.signExtend 32)
  rw [setWidth_signExtend (by decide)] at word
  simpa [XdrItem.bytes, XdrItem.chunks, XdrScalar.chunks] using word

theorem reads_unpackBytes_nil (most : ℕ) :
    Reads (unpackBytes most) (beBytes (0 : BitVec 32) 4) [] := by
  intro rest
  rw [unpackBytes, bind_ok (reads_int (0 : BitVec 32) rest)]
  simp

theorem reads_unpackAddrs_nil (most : ℕ) :
    Reads (unpackAddrs most) (beBytes (0 : BitVec 32) 4) [] := by
  intro rest
  rw [unpackAddrs, bind_ok (reads_int (0 : BitVec 32) rest)]
  simp [times]
  rfl

/-- The header of a request as the server handles it. The size does not matter any more. -/
def requestHeader (place : Place) (timestamp : BitVec 64) (subtype : BitVec 8) : PlayerMsgHdr :=
  ⟨⟨place.connection, place.port, playerCode, 0⟩, MsgType.req, subtype,
    doubleToLongBits timestamp, 0, 0⟩

variable {place : Place} {drivers : Drivers ω δ} {devices : FunctionTable δ}

/-- A request with data that the function for it decodes. -/
theorem dispatch_data {charset : Charset} {out : Outgoing} {n : ℕ} {program : TextM (Data δ)}
    {data : Data δ} (exact_ : out.Exact charset) (addr : out.addr = playerAddr)
    (type : out.type = MsgType.req) (request : unpackRequest out.subtype = some (n, program))
    (positive : 0 < n) (size : out.bufferSize ≠ 0)
    (reads : Reads program (out.data charset) data) (timestamp : BitVec 64)
    (server : Server ω δ) :
    (dispatch (environment place drivers devices) (out.header timestamp).normal
      (out.data charset) none (some server)).2 =
      handlePlayerMessage place drivers (requestHeader place timestamp out.subtype) (some data)
        server := by
  have function : (environment place drivers devices).getPackfunc playerCode MsgType.req
      out.subtype = some (packFunction (n, program)) := by
    simp [environment, playerFunction, request]
  have some_ : out.data charset ≠ [] := by
    intro nothing
    have length := exact_.length
    rw [nothing, List.length_nil] at length
    exact size (BitVec.eq_of_toNat_eq length.symm)
  have decodes : packFunction (n, program) (out.data charset) = ((n : ℤ), data) := by
    have run := reads []
    rw [List.append_nil] at run
    rw [packFunction, if_neg some_]
    simp only [run]
  simp only [dispatch, Outgoing.header, PlayerMsgHdr.normal, addr, playerAddr, type, ne_eq, size,
    not_false_eq_true, if_true, or_true]
  rw [function]
  have some__ : ¬ (n : ℤ) < 0 := by omega
  have nonzero : ¬ (n : ℤ) = 0 := by omega
  simp only [decodes, if_neg some__, nonzero, not_false_eq_true, if_true]
  rfl

/-- A request without data. -/
theorem dispatch_empty {out : Outgoing} (addr : out.addr = playerAddr)
    (type : out.type = MsgType.req) (size : out.bufferSize = 0) (payload : List Byte)
    (timestamp : BitVec 64) (server : Server ω δ) :
    (dispatch (environment place drivers devices) (out.header timestamp).normal payload none
      (some server)).2 =
      handlePlayerMessage place drivers (requestHeader place timestamp out.subtype) none
        server := by
  simp only [dispatch, Outgoing.header, PlayerMsgHdr.normal, addr, playerAddr, type, size, ne_eq,
    not_true_eq_false, if_false, or_true, if_true]
  rfl

/-- What the server is asked: the number of the request and the structure behind it. The server
does not answer all calls. -/
def ClientCall.asks : ClientCall → Option (BitVec 8 × Option (Data δ))
  | .requestDeviceList => some (1, some (.devlist []))
  | .requestDriverInfo device => some (2, some (.driverinfo device []))
  | .requestDeviceAccess code index access =>
      some (3, some (.devreq ⟨0, 0, code.setWidth 16, index.setWidth 16⟩ (access.setWidth 8) []))
  | .requestData => some (4, none)
  | .requestDataDeliveryMode mode => some (5, some (.datamode (mode.setWidth 8)))
  | .requestAuthentication [] => some (7, some (.auth []))
  | .requestIdent => some (9, none)
  | .requestAddReplaceRule interf index type subtype replace =>
      some (10, some (.replaceRule interf index type subtype replace))
  | _ => none

/-- The bytes of an address and of what follows it. -/
theorem data_of_addr (charset : Charset) {out : Outgoing} {addr : PlayerDevAddr}
    {rest : List XdrItem} (items : out.items = addr.items ++ rest) :
    out.data charset = (addr.items.map (XdrItem.bytes charset)).flatten ++
      (rest.map (XdrItem.bytes charset)).flatten := by
  rw [Outgoing.data, items, List.map_append, List.flatten_append]

/-- Whatever a call asks the server, the server handles it as the structure that was asked. -/
theorem dispatch_call {charset : Charset} {call : ClientCall} {subtype : BitVec 8}
    {data : Option (Data δ)} (asks : call.asks = some (subtype, data)) {out : Outgoing}
    (sends : call.outgoing charset = some out) (timestamp : BitVec 64) (server : Server ω δ) :
    (dispatch (environment place drivers devices) (out.header timestamp).normal
      (out.data charset) none (some server)).2 =
      handlePlayerMessage place drivers (requestHeader place timestamp subtype) data server := by
  have exact_ := Outgoing.exact_of_call sends
  cases call
  case requestDeviceList =>
    cases asks
    cases sends
    apply dispatch_data exact_ rfl rfl rfl (by decide) (by decide)
    apply (reads_int (0 : BitVec 32)).bind
    apply (reads_unpackAddrs_nil _).bind
    exact .pure _
  case requestDriverInfo device =>
    cases asks
    cases sends
    apply dispatch_data exact_ rfl rfl rfl (by decide) (by decide : (24 : BitVec 32) ≠ 0)
    rw [data_of_addr charset rfl]
    apply (reads_items_of_addr charset device).bind
    apply (reads_int (0 : BitVec 32)).bind
    apply (reads_unpackBytes_nil _).bind
    exact .pure _
  case requestDeviceAccess code index access =>
    cases asks
    cases sends
    apply dispatch_data exact_ rfl rfl rfl (by decide) (by decide : (28 : BitVec 32) ≠ 0)
    rw [data_of_addr charset rfl]
    apply (reads_items_of_addr charset _).bind
    apply (reads_byte_item charset _).bind
    apply (reads_int (0 : BitVec 32)).bind
    apply (reads_unpackBytes_nil _).bind
    exact .pure _
  case requestData =>
    cases asks
    cases sends
    exact dispatch_empty rfl rfl rfl _ timestamp server
  case requestDataDeliveryMode mode =>
    cases asks
    cases sends
    apply dispatch_data exact_ rfl rfl rfl (by decide) (by decide : (4 : BitVec 32) ≠ 0)
    apply (reads_byte mode).bind
    exact .pure _
  case requestAuthentication key =>
    cases key with
    | cons _ _ => cases asks
    | nil =>
        cases asks
        cases sends
        apply dispatch_data exact_ rfl rfl rfl (by decide) (by decide : (8 : BitVec 32) ≠ 0)
        apply (reads_int (0 : BitVec 32)).bind
        apply (reads_unpackBytes_nil _).bind
        exact .pure _
  case requestIdent =>
    cases asks
    cases sends
    exact dispatch_empty rfl rfl rfl _ timestamp server
  case requestAddReplaceRule interf index type subtype replace =>
    cases asks
    cases sends
    apply dispatch_data exact_ rfl rfl rfl (by decide) (by decide : (20 : BitVec 32) ≠ 0)
    apply (reads_int interf).bind
    apply (reads_int index).bind
    apply (reads_int type).bind
    apply (reads_int subtype).bind
    apply (reads_int replace).bind
    exact .pure _
  all_goals cases asks

end Request

section Response

/-- What the client knows after an answer. -/
def learn (interfaces : Interfaces ι) (msg : PlayerCore.Message (Content (Data δ)))
    (client : PlayerClient ι) : PlayerClient ι :=
  if msg.header.type ≠ MsgType.respAck then client
  else
    match msg.content.payload with
    | some (.devlist devices) => { client with pddlist := some devices, readyPDDList := true }
    | some (.driverinfo addr name) => { client with pddi := some ⟨addr, name⟩, readyPDDI := true }
    | some (.devreq addr access name) =>
      { requestSatisfy interfaces addr access name client with readyRequestDevice := true }
    | _ => client

/-- The answers that the client understands. A name has at least one byte and its zero. -/
inductive Answer : PlayerCore.Message (Content (Data δ)) → Prop
  | deviceList {timestamp : BitVec 64} {seq : BitVec 32} {addr : PlayerDevAddr}
      {devices : List PlayerDevAddr} (player : addr.interf = playerCode)
      (few : devices.length ≤ maxDevices) :
      Answer ⟨⟨addr, MsgType.respAck, 1⟩, ⟨timestamp, seq, some (.devlist devices)⟩⟩
  | driverInfo {timestamp : BitVec 64} {seq : BitVec 32} {addr device : PlayerDevAddr}
      {name : List Byte} (player : addr.interf = playerCode) (several : name.length ≠ 1)
      (fits : name.length ≤ maxNameLength) :
      Answer ⟨⟨addr, MsgType.respAck, 2⟩, ⟨timestamp, seq, some (.driverinfo device name)⟩⟩
  | deviceAccess {timestamp : BitVec 64} {seq : BitVec 32} {addr device : PlayerDevAddr}
      {access : Byte} {name : List Byte} (player : addr.interf = playerCode)
      (granted : access ≠ errorMode) (several : name.length ≠ 1)
      (fits : name.length ≤ maxNameLength) :
      Answer ⟨⟨addr, MsgType.respAck, 3⟩, ⟨timestamp, seq, some (.devreq device access name)⟩⟩
  | ack {timestamp : BitVec 64} {seq : BitVec 32} {addr : PlayerDevAddr} {subtype : BitVec 8}
      (player : addr.interf = playerCode)
      (other : subtype ∉ ([1, 2, 3, 7, 8] : List (BitVec 8))) :
      Answer ⟨⟨addr, MsgType.respAck, subtype⟩, ⟨timestamp, seq, none⟩⟩
  | nack {timestamp : BitVec 64} {seq : BitVec 32} {addr : PlayerDevAddr} {subtype : BitVec 8} :
      Answer ⟨⟨addr, MsgType.respNack, subtype⟩, ⟨timestamp, seq, none⟩⟩

theorem reads_packed_addr (addr : PlayerDevAddr) :
    Reads (decodeDevAddr : TextM PlayerDevAddr) addr.packed addr := by
  have words := reads_devAddr_words addr.host addr.robot (addr.interf.setWidth 32)
    (addr.index.setWidth 32)
  rwa [setWidth_setWidth (by decide), setWidth_setWidth (by decide)] at words

theorem field_packed_addr (addr : PlayerDevAddr) :
    Field devAddrSize decodeDevAddr addr addr.packed :=
  field_of_reads (reads_packed_addr addr)
    (by simp [PlayerDevAddr.packed, xdrUnsigned, devAddrSize])

/-- A count that is there twice. -/
theorem field_counts (count : BitVec 32) (text : List Byte) (length : text.length = 4) :
    Field 8 (xdrDecodeInt : TextM (BitVec 32)) count (beBytes count 4 ++ text) :=
  ⟨by simp [length], text, reads_int count text⟩

theorem field_access (access : Byte) (count : BitVec 32) (text : List Byte)
    (length : text.length = 4) :
    Field 12 (decodeAccess : TextM (Byte × BitVec 32)) (access, count)
      (xdrUnsigned access ++ beBytes count 4 ++ text) := by
  refine ⟨by simp [xdrUnsigned, length], text, ?_⟩
  have byte := reads_byte (access.setWidth 32)
  rw [setWidth_setWidth (by decide)] at byte
  have reads : Reads (decodeAccess : TextM (Byte × BitVec 32))
      (xdrUnsigned access ++ (beBytes count 4 ++ [])) (access, count) := by
    apply byte.bind
    apply (reads_int count).bind
    exact .pure _
  rw [List.append_nil] at reads
  exact reads text

theorem residual_padded {name : List Byte} (several : name.length ≠ 1) :
    ∃ residual, padded name = name ++ residual ∧ Residual name residual :=
  ⟨_, rfl, several, List.length_replicate⟩

variable (packs : PackTable δ) {interfaces : Interfaces ι}

theorem packTable_player {signature : Signature} (player : signature.addr.interf = playerCode)
    (row : playerPacks signature.type signature.subtype) :
    packTable packs signature = some packData := by
  rw [packTable, if_pos ⟨player, row⟩]

theorem encode_player {msg : PlayerCore.Message (Content (Data δ))} {data : Data δ}
    {payload : List Byte}
    (player : msg.header.addr.interf = playerCode)
    (row : playerPacks msg.header.type msg.header.subtype)
    (has : msg.content.payload = some data) (packed : packData data = some payload) :
    encode (packTable packs) msg = .bytes (headerOf msg payload.length) payload := by
  rw [encode]
  simp only [has, packTable_player packs player row, packed]

/-- The most bytes that an answer has behind its header. -/
def maxAnswerSize : ℕ :=
  8 + maxDevices * devAddrSize

theorem length_packed_addr (addr : PlayerDevAddr) : addr.packed.length = devAddrSize := by
  simp [PlayerDevAddr.packed, xdrUnsigned, devAddrSize]

theorem length_packed_addrs (addrs : List PlayerDevAddr) :
    (addrs.map PlayerDevAddr.packed).flatten.length = addrs.length * devAddrSize := by
  simp [List.length_flatten, Function.comp_def, length_packed_addr]

/-- The server can encode an answer, and the client understands what it has encoded. -/
theorem understands_answer (grammar : InterfaceGrammar interfaces)
    {msg : PlayerCore.Message (Content (Data δ))} (answer : Answer msg) :
    ∃ payload, encode (packTable packs) msg = .bytes (headerOf msg payload.length) payload ∧
      payload.length ≤ maxAnswerSize ∧
      ∀ client, Understands grammar client (headerOf msg payload.length)
        (learn interfaces msg client) payload := by
  cases answer with
  | @deviceList timestamp seq addr devices player few =>
      let head := beBytes (BitVec.ofNat 32 devices.length) 4
      refine ⟨head ++ (head ++ (devices.map PlayerDevAddr.packed).flatten), ?_, ?_, ?_⟩
      · apply encode_player packs player rfl rfl
        rw [packData, packAddrs, if_pos few]
        rfl
      · have length := length_packed_addrs devices
        simp only [head, List.length_append, length_beBytes, maxAnswerSize, devAddrSize] at length ⊢
        omega
      · intro client
        rw [← List.append_assoc]
        apply Understands.player rfl player
        apply PlayerResponse.deviceList (field_counts _ head (length_beBytes _ _))
        · exact (JavaArray.toInt_ofNat (few.trans_lt (by decide))).symm
        · rw [List.forall₂_map_right_iff, List.forall₂_same]
          intro device _
          exact field_packed_addr device
  | @driverInfo timestamp seq addr device name player several fits =>
      let head := beBytes (BitVec.ofNat 32 name.length) 4
      have small : name.length < 2 ^ 31 := fits.trans_lt (by decide)
      rcases residual_padded several with ⟨residual, padding, rest⟩
      refine ⟨device.packed ++ (head ++ (head ++ padded name)), ?_, ?_, ?_⟩
      · apply encode_player packs player rfl rfl
        rw [packData, packBytes, if_pos fits]
        rfl
      · have length := length_padded name
        have front := length_packed_addr device
        simp only [head, List.length_append, length_beBytes, maxAnswerSize, maxNameLength,
          maxDevices, devAddrSize] at length front fits ⊢
        omega
      · intro client
        rw [padding, ← List.append_assoc head]
        apply Understands.player rfl player
        exact .driverInfo (field_packed_addr device) (field_counts _ head (length_beBytes _ _))
          (JavaArray.toInt_ofNat small).symm rest
  | @deviceAccess timestamp seq addr device access name player granted several fits =>
      let head := beBytes (BitVec.ofNat 32 name.length) 4
      have small : name.length < 2 ^ 31 := fits.trans_lt (by decide)
      rcases residual_padded several with ⟨residual, padding, rest⟩
      refine ⟨device.packed ++ (xdrUnsigned access ++ head ++ (head ++ padded name)), ?_, ?_, ?_⟩
      · apply encode_player packs player rfl rfl
        rw [packData, packBytes, if_pos fits]
        rfl
      · have length := length_padded name
        have front := length_packed_addr device
        simp only [head, xdrUnsigned, List.length_append, length_beBytes, maxAnswerSize,
          maxNameLength, maxDevices, devAddrSize] at length front fits ⊢
        omega
      · intro client
        rw [padding, ← List.append_assoc (xdrUnsigned access ++ head)]
        apply Understands.player rfl player
        exact .deviceAccess (field_packed_addr device)
          (field_access access _ head (length_beBytes _ _)) (JavaArray.toInt_ofNat small).symm
          granted rest
  | @ack timestamp seq addr subtype player other =>
      refine ⟨[], rfl, Nat.zero_le _, ?_⟩
      intro client
      exact .player rfl player (.other other)
  | @nack timestamp seq addr subtype =>
      refine ⟨[], rfl, Nat.zero_le _, ?_⟩
      intro client
      have noData : MsgType.respNack ≠ MsgType.data := by decide
      have noResponse : MsgType.respNack ≠ MsgType.respAck := by decide
      exact .nothing (fun isData => absurd isData noData) noResponse

/-- The client reads an answer up to its end. -/
theorem reads_answer (grammar : InterfaceGrammar interfaces)
    {msg : PlayerCore.Message (Content (Data δ))}
    (answer : Answer msg) (client : PlayerClient ι) :
    ∃ size, Reads (PlayerClient.read interfaces client) (encode (packTable packs) msg).wire
      (learn interfaces msg client, headerOf msg size) := by
  rcases understands_answer packs grammar answer with ⟨payload, encodes, -, understands⟩
  refine ⟨payload.length, (recognizes_read grammar client).reads.mpr ?_⟩
  rw [encodes]
  exact ⟨_, payload, rfl, field_of_reads (reads_packed _) (length_packed _), understands client⟩

end Response

end PlayerClient

end MrsOptimization
