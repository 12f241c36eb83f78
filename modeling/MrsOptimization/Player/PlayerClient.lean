import MrsOptimization.Player.ClientMessages

/-!
# What a client reads

`read` takes one message from the socket: the header, and then what the client
knows to come behind such a header. It does not look at the size that the header
announces. A program on the list of the bytes that have arrived stands for a
method that reads; one that finds too few bytes waits, or throws at the end of
the stream.

The classes of the devices are a parameter. `Position2DInterface` is one of them.
-/

namespace MrsOptimization

/-- What ends a method that reads, apart from a value. -/
inductive ReadException
  | endOfStream
  | indexOutOfBounds
  | negativeArraySize
  | xdr (exception : XdrException)
  /-- An access that the server has not granted. -/
  | subscribing (addr : PlayerDevAddr)
deriving DecidableEq, Repr

abbrev ReadM := EStateM ReadException (List Byte)

section Reading

/-- `new byte[size]` -/
def newBuffer (size : BitVec 32) : ReadM (JavaArray Byte) :=
  match JavaArray.ofLength 0#8 size with
  | some buffer => pure buffer
  | none => throw .negativeArraySize

/-- `is.readFully(buffer, 0, length)` -/
def readFully (buffer : JavaArray Byte) (length : ℕ) : ReadM (JavaArray Byte) := fun text =>
  if inside : length ≤ buffer.values.length then
    if length ≤ text.length then
      .ok ⟨text.take length ++ buffer.values.drop length, by
        have := buffer.length_lt
        rw [List.length_append, List.length_take, List.length_drop]
        omega⟩ (text.drop length)
    else .error .endOfStream text
  else .error .indexOutOfBounds text

/-- A new buffer, filled. -/
def readBytes (size : BitVec 32) : ReadM (JavaArray Byte) := do
  let buffer ← newBuffer size
  readFully buffer buffer.values.length

/-- The calls of a new decoding stream on the buffer, between `beginDecoding` and `endDecoding`. -/
def decodeBuffer {α : Type} (program : DecodeM α) (buffer : JavaArray Byte) : ReadM α :=
  match XdrBufferDecodingStream.ofBuffer buffer with
  | .error exception => throw (.xdr exception)
  | .ok stream =>
    match (XdrBufferDecodingStream.beginDecoding >>= fun _ => program : DecodeM α) stream with
    | .ok value _ => pure value
    | .error exception _ => throw (.xdr exception)

def readDecoded {α : Type} (size : BitVec 32) (program : DecodeM α) : ReadM α := do
  let buffer ← readBytes size
  decodeBuffer program buffer

end Reading

/-- The device classes, whose objects have the states `ι`. -/
structure Interfaces (ι : Type) where
  /-- The switch of `requestSatisfy`: some codes have no class. -/
  create : BitVec 16 → Option ι
  readData : ι → PlayerMsgHdr → ReadM ι
  handleResponse : ι → PlayerMsgHdr → ReadM ι

namespace Position2DInterface

structure PlayerPosition2dData where
  pos : PlayerPose2d
  vel : PlayerPose2d
  stall : Byte
deriving DecidableEq, Repr

/-- The pose and the size of the robot. -/
structure PlayerPosition2dGeom where
  pose : Vector (BitVec 64) 6
  size : Vector (BitVec 64) 3
deriving DecidableEq, Repr

/-- The fields that reading sets. -/
structure State where
  timestamp : BitVec 64 := 0
  pp2ddata : Option PlayerPosition2dData := none
  readyPp2ddata : Bool := false
  pp2dgeom : Option PlayerPosition2dGeom := none
  readyPp2dgeom : Bool := false
deriving DecidableEq, Repr

open XdrDecodingStream

variable {m : Type → Type} [Monad m] [XdrDecodingStream m]

def decodePose : m PlayerPose2d := do
  let px ← xdrDecodeDouble
  let py ← xdrDecodeDouble
  let pa ← xdrDecodeDouble
  pure ⟨px, py, pa⟩

def decodeData : m PlayerPosition2dData := do
  let pos ← decodePose
  let vel ← decodePose
  let stall ← xdrDecodeByte
  pure ⟨pos, vel, stall⟩

def decodeGeom : m PlayerPosition2dGeom := do
  let position ← decodePose
  let rotation ← decodePose
  let size ← decodePose
  pure ⟨#v[position.px, position.py, position.pa, rotation.px, rotation.py, rotation.pa],
    #v[size.px, size.py, size.pa]⟩

def readGeom (state : State) : ReadM State := do
  let geom ← readDecoded 72 decodeGeom
  pure { state with pp2dgeom := some geom, readyPp2dgeom := true }

/-- `PLAYER_POSITION2D_DATA_STATE` and `PLAYER_POSITION2D_DATA_GEOM` -/
def readData (state : State) (header : PlayerMsgHdr) : ReadM State :=
  if header.subtype = 1 then do
    let data ← readDecoded 52 decodeData
    pure { state with timestamp := header.timestamp, pp2ddata := some data, readyPp2ddata := true }
  else if header.subtype = 2 then readGeom { state with timestamp := header.timestamp }
  else pure state

/-- `PLAYER_POSITION2D_REQ_GET_GEOM`. The other responses are empty. -/
def handleResponse (state : State) (header : PlayerMsgHdr) : ReadM State :=
  if header.subtype = 1 then readGeom state else pure state

/-- A client that knows the class for `PLAYER_POSITION2D_CODE` only. -/
def interfaces : Interfaces State where
  create code := if code = 4 then some {} else none
  readData := readData
  handleResponse := handleResponse

end Position2DInterface

structure PlayerDevice (ι : Type) where
  deviceAddress : PlayerDevAddr
  deviceAccess : Byte
  /-- The bytes of the name, which ends with a zero. -/
  deviceDriverName : List Byte
  interface : ι
deriving DecidableEq, Repr

structure PlayerDeviceDriverInfo where
  addr : PlayerDevAddr
  driverName : List Byte
deriving DecidableEq, Repr

/-- The fields that reading sets. -/
structure PlayerClient (ι : Type) where
  pddlist : Option (List PlayerDevAddr) := none
  readyPDDList : Bool := false
  pddi : Option PlayerDeviceDriverInfo := none
  readyPDDI : Bool := false
  newpd : Option (PlayerDevice ι) := none
  readyRequestDevice : Bool := false
  deviceList : List (PlayerDevice ι) := []
  receivedAuthentication : Bool := false
  readyPortNumber : Bool := false
deriving DecidableEq, Repr

namespace PlayerClient

variable {ι : Type}

def readHeader : ReadM PlayerMsgHdr :=
  readDecoded (BitVec.ofNat 32 headerSize) decodeHeader

def readDevAddr : ReadM PlayerDevAddr :=
  readDecoded (BitVec.ofNat 32 devAddrSize) decodeDevAddr

/-- The first device with the address does something. -/
def onDevice (addr : PlayerDevAddr) (action : ι → ReadM ι) :
    List (PlayerDevice ι) → ReadM (List (PlayerDevice ι))
  | [] => pure []
  | device :: rest =>
    if device.deviceAddress = addr then do
      let interface ← action device.interface
      pure ({ device with interface := interface } :: rest)
    else do
      let rest ← onDevice addr action rest
      pure (device :: rest)

/-- What stands between a name and the next multiple of 4, read into the buffer of the name. -/
def readResidual (name : JavaArray Byte) : ReadM Unit :=
  if name.values.length % 4 ≠ 0 then do
    let _ ← readFully name (4 - name.values.length % 4)
    pure ()
  else pure ()

/-- Only the first of the two counts matters. -/
def readDeviceList (client : PlayerClient ι) : ReadM (PlayerClient ι) := do
  let count ← readDecoded 8 XdrDecodingStream.xdrDecodeInt
  if count.toInt < 0 then throw .negativeArraySize
  else do
    let addrs ← times readDevAddr count.toInt.toNat
    pure { client with pddlist := some addrs.1, readyPDDList := true }

def readDriverInfo (client : PlayerClient ι) : ReadM (PlayerClient ι) := do
  let addr ← readDevAddr
  let count ← readDecoded 8 XdrDecodingStream.xdrDecodeInt
  let name ← readBytes count
  readResidual name
  pure { client with pddi := some ⟨addr, name.values⟩, readyPDDI := true }

/-- `PLAYER_OPEN_MODE`, `PLAYER_CLOSE_MODE` and `PLAYER_ERROR_MODE` -/
def openMode : Byte :=
  1

def closeMode : Byte :=
  2

def errorMode : Byte :=
  3

def requestSatisfy (interfaces : Interfaces ι) (addr : PlayerDevAddr) (access : Byte)
    (driverName : List Byte) (client : PlayerClient ι) : PlayerClient ι :=
  if access = closeMode then { client with newpd := none }
  else
    match interfaces.create addr.interf with
    | none => { client with newpd := none }
    | some interface =>
      { client with
        newpd := some ⟨addr, access, driverName, interface⟩
        deviceList := client.deviceList ++ [⟨addr, access, driverName, interface⟩] }

/-- The access and the length of the name. -/
def decodeAccess {m : Type → Type} [Monad m] [XdrDecodingStream m] : m (Byte × BitVec 32) := do
  let access ← XdrDecodingStream.xdrDecodeByte
  let count ← XdrDecodingStream.xdrDecodeInt
  pure (access, count)

/-- An access that is not granted leaves what follows the name unread. -/
def readDeviceAccess (interfaces : Interfaces ι) (client : PlayerClient ι) :
    ReadM (PlayerClient ι) := do
  let addr ← readDevAddr
  let access ← readDecoded 12 decodeAccess
  let name ← readBytes access.2
  if access.1 = errorMode then throw (.subscribing addr)
  else do
    readResidual name
    pure { requestSatisfy interfaces addr access.1 name.values client with
      readyRequestDevice := true }

/-- The data of an acknowledgement of the server itself, by the request. -/
def readPlayerResponse (interfaces : Interfaces ι) (subtype : BitVec 8)
    (client : PlayerClient ι) : ReadM (PlayerClient ι) :=
  if subtype = 1 then readDeviceList client
  else if subtype = 2 then readDriverInfo client
  else if subtype = 3 then readDeviceAccess interfaces client
  else if subtype = 7 then pure { client with receivedAuthentication := true }
  else if subtype = 8 then pure { client with readyPortNumber := true }
  else pure client

/-- What `read` does behind the header. -/
def readData (interfaces : Interfaces ι) (header : PlayerMsgHdr) (client : PlayerClient ι) :
    ReadM (PlayerClient ι) :=
  if header.type = MsgType.data ∧ header.addr.interf ≠ 0 ∧ header.addr.interf ≠ playerCode then do
    let deviceList ← onDevice header.addr (interfaces.readData · header) client.deviceList
    pure { client with deviceList := deviceList }
  else if header.type = MsgType.respAck then
    if header.addr.interf ≠ playerCode then do
      let deviceList ← onDevice header.addr (interfaces.handleResponse · header) client.deviceList
      pure { client with deviceList := deviceList }
    else readPlayerResponse interfaces header.subtype client
  else pure client

def read (interfaces : Interfaces ι) (client : PlayerClient ι) :
    ReadM (PlayerClient ι × PlayerMsgHdr) := do
  let header ← readHeader
  let client ← readData interfaces header client
  pure (client, header)

end PlayerClient

end MrsOptimization
