import MrsOptimization.Player.TcpServerRuns

/-!
# What a client sends

The methods of `PlayerClient` and of `Position2DInterface` that talk to the
server all encode some items into a buffer of a fixed size and send a header with
the length in front of them. Two requests write more than their header announces.
-/

namespace MrsOptimization

namespace PlayerClient

section Encoding

variable (charset : Charset)

/-- The bytes of `getXdrData` up to `getXdrLength`, behind the calls on a new stream. -/
def encoded (bufferSize : BitVec 32) (items : List XdrItem) : Except XdrException (List Byte) :=
  match XdrBufferEncodingStream.ofSize bufferSize with
  | .error exception => .error exception
  | .ok stream =>
    match XdrBufferEncodingStream.encodeMessage charset items stream with
    | .error exception _ => .error exception
    | .ok () final =>
      match final.getXdrData with
      | some data => .ok (data.values.take final.getXdrLength.toNat)
      | none => .error .nullPointer

/-- A header fills its buffer. -/
def sendHeader (hdr : PlayerMsgHdr) : Except XdrException (List Byte) :=
  encoded charset (BitVec.ofNat 32 headerSize) hdr.items

end Encoding

/-- What one of the methods writes. -/
structure Outgoing where
  addr : PlayerDevAddr
  type : BitVec 8
  subtype : BitVec 8
  /-- The size in the header, if it is not the length of the encoded items. -/
  announced : Option (BitVec 32)
  /-- There is no buffer if there are no items. -/
  bufferSize : BitVec 32
  items : List XdrItem
  /-- Bytes behind the message that the header does not count. -/
  trailing : List Byte := []

namespace Outgoing

def data (charset : Charset) (out : Outgoing) : List Byte :=
  (out.items.map (XdrItem.bytes charset)).flatten

def encode (charset : Charset) (out : Outgoing) : Except XdrException (List Byte) :=
  if out.items.isEmpty then .ok [] else encoded charset out.bufferSize out.items

def write (charset : Charset) (timestamp : BitVec 64) (out : Outgoing) :
    Except XdrException (List Byte) := do
  let data ← out.encode charset
  let size := out.announced.getD (BitVec.ofNat 32 data.length)
  let header ← sendHeader charset ⟨out.addr, out.type, out.subtype, timestamp, 0, size⟩
  pure (header ++ data ++ out.trailing)

end Outgoing

/-- The server itself, as the client addresses it. -/
def playerAddr : PlayerDevAddr :=
  ⟨0, 0, playerCode, 0⟩

/-- A request of `PlayerClient`: its size is the length of what it encodes. -/
def request (subtype : BitVec 8) (bufferSize : BitVec 32) (items : List XdrItem) : Outgoing :=
  ⟨playerAddr, MsgType.req, subtype, none, bufferSize, items, []⟩

def requestDeviceList : Outgoing :=
  request 1 8 [.scalar .int 0, .scalar .int 0]

def requestDriverInfo (device : PlayerDevAddr) : Outgoing :=
  request 2 24 (device.items ++ [.scalar .int 0, .scalar .int 0])

/-- The request itself. The method checks the list of devices before. -/
def requestDeviceAccess (code index access : BitVec 32) : Outgoing :=
  request 3 28 (PlayerDevAddr.items ⟨0, 0, code.setWidth 16, index.setWidth 16⟩ ++
    [.scalar .byte (access.setWidth 8), .scalar .int 0, .scalar .int 0])

def requestData : Outgoing :=
  request 4 0 []

def requestDataDeliveryMode (mode : BitVec 32) : Outgoing :=
  request 5 4 [.scalar .int mode]

def requestIdent : Outgoing :=
  request 9 0 []

def requestAddReplaceRule (interf index type subtype replace : BitVec 32) : Outgoing :=
  request 10 20 [.scalar .int interf, .scalar .int index, .scalar .int type,
    .scalar .int subtype, .scalar .int replace]

/-- A text and zeros that fill it up to a multiple of 4, behind a message that only holds the
length, twice. -/
def requestText (subtype : BitVec 8) (length : ℕ) (text : List Byte) : Outgoing :=
  { request subtype 8 [.scalar .int (BitVec.ofNat 32 length), .scalar .byte (BitVec.ofNat 8 length)]
    with trailing := text ++ List.replicate (if length % 4 = 0 then 0 else 4 - length % 4) 0 }

def keyLength : ℕ :=
  32

def maxDriverStringLength : ℕ :=
  64

/-- `none` is a `PlayerException`: the key is too long. -/
def requestAuthentication (key : List Byte) : Option Outgoing :=
  if keyLength < key.length then none else some (requestText 7 key.length key)

def requestNameService (charset : Charset) (name : JavaString) : Option Outgoing :=
  if maxDriverStringLength < name.length then none
  else some (requestText 8 name.length (charset.getBytes name).values)

end PlayerClient

namespace Position2DInterface

open PlayerClient

structure PlayerPose2d where
  px : BitVec 64
  py : BitVec 64
  pa : BitVec 64
deriving DecidableEq, Repr

def PlayerPose2d.items (pose : PlayerPose2d) : List XdrItem :=
  [.scalar .double pose.px, .scalar .double pose.py, .scalar .double pose.pa]

variable (device : PlayerDevAddr)

/-- A command or a request: the header has the size of the buffer. -/
def send (type subtype : BitVec 8) (size : BitVec 32) (items : List XdrItem) : Outgoing :=
  ⟨device, type, subtype, some size, size, items, []⟩

def setPosition (pos vel : PlayerPose2d) (state : BitVec 32) : Outgoing :=
  send device MsgType.cmd 2 52 (pos.items ++ vel.items ++ [.scalar .byte (state.setWidth 8)])

def setVelocity (vel : PlayerPose2d) (state : BitVec 32) : Outgoing :=
  send device MsgType.cmd 1 28 (vel.items ++ [.scalar .byte (state.setWidth 8)])

def setCarCMD (velocity angle : BitVec 64) : Outgoing :=
  send device MsgType.cmd 3 16 [.scalar .double velocity, .scalar .double angle]

def setVelHead (velocity angle : BitVec 64) : Outgoing :=
  send device MsgType.cmd 4 16 [.scalar .double velocity, .scalar .double angle]

def queryGeometry : Outgoing :=
  send device MsgType.req 1 0 []

def setMotorPower (state : BitVec 32) : Outgoing :=
  send device MsgType.req 2 4 [.scalar .byte (state.setWidth 8)]

def setVelocityControl (mode : BitVec 32) : Outgoing :=
  send device MsgType.req 3 4 [.scalar .byte (mode.setWidth 8)]

def setControlMode (state : BitVec 32) : Outgoing :=
  send device MsgType.req 4 4 [.scalar .int state]

def setOdometry (pose : PlayerPose2d) : Outgoing :=
  send device MsgType.req 5 24 pose.items

def resetOdometry : Outgoing :=
  send device MsgType.req 6 0 []

/-- The arguments are widened to `double`. -/
def setVelocityPIDParams (kp ki kd : BitVec 64) : Outgoing :=
  send device MsgType.req 7 24 [.scalar .double kp, .scalar .double ki, .scalar .double kd]

def setPositionPIDParams (kp ki kd : BitVec 32) : Outgoing :=
  send device MsgType.req 8 12 [.scalar .float kp, .scalar .float ki, .scalar .float kd]

def setSpeedProfileParams (speed acc : BitVec 32) : Outgoing :=
  send device MsgType.req 9 8 [.scalar .float speed, .scalar .float acc]

end Position2DInterface

namespace PlayerClient

open Position2DInterface in
/-- A call of one of the methods. -/
inductive ClientCall
  | requestDeviceList
  | requestDriverInfo (device : PlayerDevAddr)
  | requestDeviceAccess (code index access : BitVec 32)
  | requestData
  | requestDataDeliveryMode (mode : BitVec 32)
  | requestAuthentication (key : List Byte)
  | requestNameService (name : JavaString)
  | requestIdent
  | requestAddReplaceRule (interf index type subtype replace : BitVec 32)
  | setPosition (device : PlayerDevAddr) (pos vel : PlayerPose2d) (state : BitVec 32)
  | setVelocity (device : PlayerDevAddr) (vel : PlayerPose2d) (state : BitVec 32)
  | setCarCMD (device : PlayerDevAddr) (velocity angle : BitVec 64)
  | setVelHead (device : PlayerDevAddr) (velocity angle : BitVec 64)
  | queryGeometry (device : PlayerDevAddr)
  | setMotorPower (device : PlayerDevAddr) (state : BitVec 32)
  | setVelocityControl (device : PlayerDevAddr) (mode : BitVec 32)
  | setControlMode (device : PlayerDevAddr) (state : BitVec 32)
  | setOdometry (device : PlayerDevAddr) (pose : PlayerPose2d)
  | resetOdometry (device : PlayerDevAddr)
  | setVelocityPIDParams (device : PlayerDevAddr) (kp ki kd : BitVec 64)
  | setPositionPIDParams (device : PlayerDevAddr) (kp ki kd : BitVec 32)
  | setSpeedProfileParams (device : PlayerDevAddr) (speed acc : BitVec 32)
deriving DecidableEq, Repr

/-- What the call writes, or `none` if it throws before it writes anything. -/
def ClientCall.outgoing (charset : Charset) : ClientCall → Option Outgoing
  | .requestDeviceList => some PlayerClient.requestDeviceList
  | .requestDriverInfo device => some (PlayerClient.requestDriverInfo device)
  | .requestDeviceAccess code index access =>
      some (PlayerClient.requestDeviceAccess code index access)
  | .requestData => some PlayerClient.requestData
  | .requestDataDeliveryMode mode => some (PlayerClient.requestDataDeliveryMode mode)
  | .requestAuthentication key => PlayerClient.requestAuthentication key
  | .requestNameService name => PlayerClient.requestNameService charset name
  | .requestIdent => some PlayerClient.requestIdent
  | .requestAddReplaceRule interf index type subtype replace =>
      some (PlayerClient.requestAddReplaceRule interf index type subtype replace)
  | .setPosition device pos vel state =>
      some (Position2DInterface.setPosition device pos vel state)
  | .setVelocity device vel state => some (Position2DInterface.setVelocity device vel state)
  | .setCarCMD device velocity angle => some (Position2DInterface.setCarCMD device velocity angle)
  | .setVelHead device velocity angle =>
      some (Position2DInterface.setVelHead device velocity angle)
  | .queryGeometry device => some (Position2DInterface.queryGeometry device)
  | .setMotorPower device state => some (Position2DInterface.setMotorPower device state)
  | .setVelocityControl device mode => some (Position2DInterface.setVelocityControl device mode)
  | .setControlMode device state => some (Position2DInterface.setControlMode device state)
  | .setOdometry device pose => some (Position2DInterface.setOdometry device pose)
  | .resetOdometry device => some (Position2DInterface.resetOdometry device)
  | .setVelocityPIDParams device kp ki kd =>
      some (Position2DInterface.setVelocityPIDParams device kp ki kd)
  | .setPositionPIDParams device kp ki kd =>
      some (Position2DInterface.setPositionPIDParams device kp ki kd)
  | .setSpeedProfileParams device speed acc =>
      some (Position2DInterface.setSpeedProfileParams device speed acc)

section Encoding

variable (charset : Charset)

theorem encoded_eq {bufferSize : BitVec 32} {items : List XdrItem}
    (valid : 0 ≤ bufferSize.toInt) (whole : bufferSize.toInt % 4 = 0)
    (fits : (items.map (XdrItem.bytes charset)).flatten.length ≤ bufferSize.toInt) :
    encoded charset bufferSize items = .ok (items.map (XdrItem.bytes charset)).flatten := by
  have made : ∃ stream, XdrBufferEncodingStream.ofSize bufferSize = .ok stream := by
    rw [XdrBufferEncodingStream.ofSize, if_neg (by omega), JavaArray.ofLength, if_pos valid]
    exact ⟨_, rfl⟩
  rcases made with ⟨stream, made⟩
  have fits : (items.map (XdrItem.bytes charset)).flatten.length ≤ bufferSize.toInt.toNat := by
    omega
  rcases XdrBufferEncodingStream.encodeMessage_of_fits charset (.ofSize made)
    (List.not_mem_nil : EncodeCall.close ∉ []) fits with
    ⟨final, buffer, runs, open_, -, length, initial⟩
  have runs : XdrBufferEncodingStream.encodeMessage charset items stream = .ok () final := runs
  rw [encoded, made]
  simp only [runs, open_, length, Int.toNat_natCast]
  rw [← List.prefix_iff_eq_take.mp initial]

theorem sendHeader_eq (hdr : PlayerMsgHdr) : sendHeader charset hdr = .ok (hdr.bytes charset) := by
  apply encoded_eq charset (by decide) (by decide)
  have length := length_bytes charset hdr
  rw [PlayerMsgHdr.bytes] at length
  rw [length]
  decide

namespace Outgoing

/-- The sizes of the buffers that the methods make. -/
def bufferSizes : List (BitVec 32) :=
  [0, 4, 8, 12, 16, 20, 24, 28, 52]

/-- The items fill the buffer, and the header announces them. -/
structure Exact (out : Outgoing) : Prop where
  length : (out.data charset).length = out.bufferSize.toNat
  announced : ∀ size, out.announced = some size → size = out.bufferSize
  bufferSize : out.bufferSize ∈ bufferSizes

theorem small_and_whole :
    ∀ size ∈ bufferSizes, size.toNat ≤ 52 ∧ size.toNat % 4 = 0 := by
  simp [bufferSizes]

variable {charset}

/-- The header that goes with the items. -/
def header (timestamp : BitVec 64) (out : Outgoing) : PlayerMsgHdr :=
  ⟨out.addr, out.type, out.subtype, timestamp, 0, out.bufferSize⟩

theorem Exact.write_eq {out : Outgoing} (exact_ : out.Exact charset) (timestamp : BitVec 64) :
    out.write charset timestamp =
      .ok ((out.header timestamp).bytes charset ++ out.data charset ++ out.trailing) := by
  rcases exact_ with ⟨length, announced, size⟩
  rcases small_and_whole _ size with ⟨small, whole⟩
  have number : out.bufferSize.toInt = out.bufferSize.toNat := by
    apply BitVec.toInt_eq_toNat_of_lt
    omega
  have data : out.encode charset = .ok (out.data charset) := by
    rw [encode]
    split
    · next nothing =>
        rw [data, List.isEmpty_iff.mp nothing]
        rfl
    · exact encoded_eq charset (by omega) (by omega) (by rw [number]; exact_mod_cast length.le)
  have size : out.announced.getD (BitVec.ofNat 32 (out.data charset).length) =
      out.bufferSize := by
    cases given : out.announced with
    | none => rw [Option.getD_none, length, BitVec.ofNat_toNat, BitVec.setWidth_eq]
    | some size => exact announced size given
  simp only [write, data, bind, Except.bind, size, sendHeader_eq]
  rfl

/-- Each of the methods fills the buffer that it makes. -/
theorem exact_of_call {call : ClientCall} {out : Outgoing}
    (sends : call.outgoing charset = some out) : out.Exact charset := by
  cases call
  case requestAuthentication key =>
    simp only [ClientCall.outgoing, requestAuthentication] at sends
    split at sends <;> cases sends
    exact ⟨rfl, nofun, List.mem_of_elem_eq_true rfl⟩
  case requestNameService name =>
    simp only [ClientCall.outgoing, requestNameService] at sends
    split at sends <;> cases sends
    exact ⟨rfl, nofun, List.mem_of_elem_eq_true rfl⟩
  all_goals
    cases sends
    refine ⟨rfl, ?_, List.mem_of_elem_eq_true rfl⟩
    intro size given
    cases given <;> rfl

end Outgoing

end Encoding

section Stream

open TcpServer

variable {σ δ : Type} (charset : Charset)

/-- A message as it arrives at the server: its header and its data. -/
def Outgoing.message (timestamp : BitVec 64) (out : Outgoing) : List Byte :=
  (out.header timestamp).bytes charset ++ out.data charset

/-- The messages of some calls, each of them at a time. -/
def outgoings (calls : List (BitVec 64 × ClientCall)) : List (BitVec 64 × Outgoing) :=
  calls.filterMap fun call => (call.2.outgoing charset).map (call.1, ·)

/-- The bytes of one call, or `none` if it throws. -/
def ClientCall.run (call : BitVec 64 × ClientCall) : Option (List Byte) :=
  (call.2.outgoing charset).bind fun out => (out.write charset call.1).toOption

/-- What is written to the socket. -/
def written (calls : List (BitVec 64 × ClientCall)) : List Byte :=
  (calls.filterMap (ClientCall.run charset)).flatten

variable {charset}

theorem exact_of_mem {calls : List (BitVec 64 × ClientCall)} {sent : BitVec 64 × Outgoing}
    (member : sent ∈ outgoings charset calls) : sent.2.Exact charset := by
  rcases List.mem_filterMap.mp member with ⟨call, -, found⟩
  rcases Option.map_eq_some_iff.mp found with ⟨out, sends, rfl⟩
  exact Outgoing.exact_of_call sends

theorem written_eq (calls : List (BitVec 64 × ClientCall)) :
    written charset calls = ((outgoings charset calls).map fun sent =>
      sent.2.message charset sent.1 ++ sent.2.trailing).flatten := by
  rw [written, outgoings, List.map_filterMap]
  congr 1
  apply List.filterMap_congr
  intro call _
  rw [ClientCall.run]
  cases sends : call.2.outgoing charset with
  | none => rfl
  | some out =>
      rw [Option.bind_some, (Outgoing.exact_of_call sends).write_eq]
      rfl

theorem Outgoing.Exact.front {out : Outgoing} (exact_ : out.Exact charset)
    (timestamp : BitVec 64) :
    TcpServer.front (out.message charset timestamp) =
      .frame (out.message charset timestamp).length := by
  apply front_of_message (reads_bytes charset (out.header timestamp)) (length_bytes charset _)
  · exact exact_.length.symm
  · have small := (Outgoing.small_and_whole _ exact_.bufferSize).1
    have length := exact_.length
    simp only [headerSize, maxMessageSize]
    omega

/-- The messages and what stands behind each of them. -/
def parts (charset : Charset) (calls : List (BitVec 64 × ClientCall)) :
    List (List Byte × List Byte) :=
  (outgoings charset calls).map fun sent => (sent.2.message charset sent.1, sent.2.trailing)

theorem front_of_part {calls : List (BitVec 64 × ClientCall)} :
    ∀ part ∈ parts charset calls, framing.front part.1 = .frame part.1.length := by
  intro part member
  rcases List.mem_map.mp member with ⟨sent, here, same⟩
  rw [← same, framing_front]
  exact (exact_of_mem here).front sent.1

/-- Without bytes that no header counts, the messages are the frames of the stream. -/
theorem split_written {calls : List (BitVec 64 × ClientCall)}
    (plain : ∀ sent ∈ outgoings charset calls, sent.2.trailing = []) :
    framing.split (written charset calls) =
      ((outgoings charset calls).map fun sent => sent.2.message charset sent.1, []) := by
  have nothing : ∀ part ∈ parts charset calls, part.2 = [] := by
    simpa only [parts, List.forall_mem_map] using plain
  have split := (Framing.split_eq_iff front_of_part).mpr nothing
  simpa only [parts, List.map_map, Function.comp_def, ← written_eq] using split

/-- What one message of the client does to the server. -/
theorem process_message (env : Environment σ δ) (timestamp : BitVec 64)
    (out : Outgoing) (server : σ) :
    TcpServer.process env server (out.message charset timestamp) =
      (dispatch env (out.header timestamp).normal (out.data charset) none server).2 := by
  have reads := unpackHeader_of_reads (reads_bytes charset (out.header timestamp))
    (length_bytes charset _) (out.data charset)
  have whole : ¬ (out.message charset timestamp).length < headerSize := by
    rw [Outgoing.message, List.length_append, length_bytes]
    omega
  rw [TcpServer.process, if_neg whole, Outgoing.message, reads]
  simp only [List.drop_left' (length_bytes charset (out.header timestamp))]

/-- No call of the client has a header that announces less than a header. -/
theorem not_malformed_written {calls : List (BitVec 64 × ClientCall)}
    (plain : ∀ sent ∈ outgoings charset calls, sent.2.trailing = []) :
    ¬ Malformed (written charset calls) := by
  rw [Malformed, split_written plain]
  rintro (invalid | ⟨frame, member, short⟩)
  · rw [front_of_short (by decide : ([] : List Byte).length < headerSize)] at invalid
    cases invalid
  · rcases List.mem_map.mp member with ⟨sent, -, rfl⟩
    rw [Outgoing.message, List.length_append, length_bytes] at short
    omega

end Stream

end PlayerClient

end MrsOptimization
