import MrsOptimization.Player.TcpServer
import MrsOptimization.Player.TcpServerWrites

/-!
# Requests to the server itself

`HandlePlayerMessage` answers the messages that address the server and not one of
its devices. Every answer is pushed onto the queue of the client. The drivers and
the messages of their devices are parameters.
-/

namespace MrsOptimization

namespace TcpServer

open PlayerCore XdrDecodingStream

/-- `PLAYER_MAX_DEVICES` -/
def maxDevices : ℕ :=
  4096

/-- `PLAYER_MAX_DRIVER_STRING_LEN` -/
def maxNameLength : ℕ :=
  64

/-- An entry of the device table. -/
structure Device where
  addr : PlayerDevAddr
  /-- Up to the zero that ends it. -/
  drivername : List Byte
  fits : drivername.length < maxNameLength
deriving DecidableEq, Repr

/-- The structures of the messages of the server itself, and data of the devices. The counts are
the lengths of the lists. -/
inductive Data (δ : Type)
  | devlist (devices : List PlayerDevAddr)
  | driverinfo (addr : PlayerDevAddr) (driverName : List Byte)
  | devreq (addr : PlayerDevAddr) (access : Byte) (driverName : List Byte)
  | datamode (mode : Byte)
  | auth (key : List Byte)
  | nameservice (name : List Byte) (port : BitVec 16)
  | replaceRule (interf index type subtype replace : BitVec 32)
  | overflow (count : BitVec 32)
  | device (data : δ)
deriving DecidableEq, Repr

variable {ω δ : Type}

/-- The data of a device. -/
def Data.forDriver : Data δ → Option δ
  | .device data => some data
  | _ => none

section Encode

/-- `xdr_bytes`, which fails if there are too many. -/
def packBytes (most : ℕ) (bytes : List Byte) : Option (List Byte) :=
  if bytes.length ≤ most then some (beBytes (BitVec.ofNat 32 bytes.length) 4 ++ padded bytes)
  else none

/-- `xdr_array` of addresses -/
def packAddrs (most : ℕ) (addrs : List PlayerDevAddr) : Option (List Byte) :=
  if addrs.length ≤ most then
    some (beBytes (BitVec.ofNat 32 addrs.length) 4 ++ (addrs.map PlayerDevAddr.packed).flatten)
  else none

/-- The generated functions with `PLAYERXDR_ENCODE`. An array has its count in front of it, twice.
A structure of another message has none of its own. -/
def packData : Data δ → Option (List Byte)
  | .devlist devices =>
      (packAddrs maxDevices devices).map (beBytes (BitVec.ofNat 32 devices.length) 4 ++ ·)
  | .driverinfo addr name =>
      (packBytes maxNameLength name).map fun bytes =>
        addr.packed ++ (beBytes (BitVec.ofNat 32 name.length) 4 ++ bytes)
  | .devreq addr access name =>
      (packBytes maxNameLength name).map fun bytes =>
        addr.packed ++ (xdrUnsigned access ++ beBytes (BitVec.ofNat 32 name.length) 4 ++ bytes)
  | .datamode mode => some (xdrUnsigned mode)
  | .overflow count => some (beBytes count 4)
  | .replaceRule interf index type subtype replace =>
      some ([interf, index, type, subtype, replace].flatMap fun word => beBytes word 4)
  | _ => none

/-- The rows of the function table: the types of responses stand for the type of requests. -/
def playerPacks (type subtype : BitVec 8) : Bool :=
  if type = MsgType.req ∨ type = MsgType.respAck ∨ type = MsgType.respNack then
    subtype = 1 ∨ subtype = 2 ∨ subtype = 3 ∨ subtype = 5 ∨ subtype = 7 ∨ subtype = 8 ∨ subtype = 10
  else type = MsgType.synch ∧ (subtype = 0 ∨ subtype = 2)

def packTable (devices : PackTable δ) : PackTable (Data δ) := fun hdr =>
  if hdr.addr.interf = playerCode ∧ playerPacks hdr.type hdr.subtype then some packData
  else (devices hdr).map fun pack data => data.forDriver.bind pack

end Encode

section Decode

/-- `xdr_bytes` -/
def unpackBytes (most : ℕ) : TextM (List Byte) := do
  let count ← xdrDecodeInt
  if most < count.toNat then throw .bufferUnderflow
  else fun text =>
    if (count.toNat + 3) / 4 * 4 ≤ text.length then
      .ok (text.take count.toNat) (text.drop ((count.toNat + 3) / 4 * 4))
    else .error .bufferUnderflow text

/-- `xdr_array` of addresses -/
def unpackAddrs (most : ℕ) : TextM (List PlayerDevAddr) := do
  let count ← xdrDecodeInt
  if most < count.toNat then throw .bufferUnderflow
  else do
    let addrs ← times decodeDevAddr count.toNat
    pure addrs.1

/-- What the function for a request decodes, and the size of the structure. -/
def unpackRequest (subtype : BitVec 8) : Option (ℕ × TextM (Data δ)) :=
  match subtype.toNat with
  | 1 => some (49156, do
      let _ ← xdrDecodeInt
      let devices ← unpackAddrs maxDevices
      pure (.devlist devices))
  | 2 => some (80, do
      let addr ← decodeDevAddr
      let _ ← xdrDecodeInt
      let name ← unpackBytes maxNameLength
      pure (.driverinfo addr name))
  | 3 => some (84, do
      let addr ← decodeDevAddr
      let access ← xdrDecodeByte
      let _ ← xdrDecodeInt
      let name ← unpackBytes maxNameLength
      pure (.devreq addr access name))
  | 5 => some (1, do
      let mode ← xdrDecodeByte
      pure (.datamode mode))
  | 7 => some (36, do
      let _ ← xdrDecodeInt
      let key ← unpackBytes 32
      pure (.auth key))
  | 8 => some (72, do
      let _ ← xdrDecodeInt
      let name ← unpackBytes maxNameLength
      let port ← xdrDecodeShort
      pure (.nameservice name port))
  | 10 => some (20, do
      let interf ← xdrDecodeInt
      let index ← xdrDecodeInt
      let type ← xdrDecodeInt
      let subtype ← xdrDecodeInt
      let replace ← xdrDecodeInt
      pure (.replaceRule interf index type subtype replace))
  | _ => none

/-- The generated function with `PLAYERXDR_DECODE`. What is in the structure after a failure does
not matter. -/
def packFunction (request : ℕ × TextM (Data δ)) : PackFunction (Data δ) := fun bytes =>
  if bytes = [] then (0, .overflow 0)
  else
    match request.2 bytes with
    | .ok data _ => (request.1, data)
    | .error _ _ => (-1, .overflow 0)

end Decode

/-- The drivers of the devices; `ω` is their state. `subscribe` and `unsubscribe` return a code. -/
structure Drivers (ω δ : Type) where
  subscribe : ω → PlayerDevAddr → ℤ × ω
  unsubscribe : ω → PlayerDevAddr → ℤ × ω
  putMsg : ω → PlayerMsgHdr → Option δ → ω
  /-- `GetTimeDouble` -/
  time : ω → BitVec 64

/-- What a connection shares with the server, and its queue. -/
structure Server (ω δ : Type) where
  table : List Device
  drivers : ω
  queue : MessageQueue (Content (Data δ))
  devSubs : List (Option PlayerDevAddr)

/-- The host of the connection, the host of the server and the port. -/
structure Place where
  connection : BitVec 32
  host : BitVec 32
  port : BitVec 32
deriving DecidableEq, Repr

/-- `LOCALHOST_ADDR` -/
def localhostAddr : BitVec 32 :=
  16777343

/-- Two addresses of the local host are the same. -/
def matchDeviceAddress (addr1 addr2 : PlayerDevAddr) : Bool :=
  (addr1.host = addr2.host ∨ addr1.host = 0 ∧ addr2.host = localhostAddr ∨
      addr1.host = localhostAddr ∧ addr2.host = 0) ∧
    addr1.robot = addr2.robot ∧ addr1.interf = addr2.interf ∧ addr1.index = addr2.index

/-- `GetDevice` without looking for remote devices -/
def getDevice (table : List Device) (addr : PlayerDevAddr) : Option Device :=
  if addr.interf = 0 then none else table.find? fun device => matchDeviceAddress device.addr addr

/-- The header of a reply is that of the request, at another time and with another type. -/
def responseTo (hdr : PlayerMsgHdr) (type : BitVec 8) (now : BitVec 64)
    (payload : Option (Data δ)) : PlayerCore.Message (Content (Data δ)) :=
  ⟨⟨hdr.addr, type, hdr.subtype⟩, ⟨now, hdr.seq, payload⟩⟩

/-- Push out the reply. -/
def Server.push (msg : PlayerCore.Message (Content (Data δ))) (server : Server ω δ) : Server ω δ :=
  { server with queue := server.queue.push msg }

/-- The first slot that is free gets the device. -/
def recordSubscription (addr : PlayerDevAddr) :
    List (Option PlayerDevAddr) → List (Option PlayerDevAddr)
  | [] => [some addr]
  | none :: rest => some addr :: rest
  | some other :: rest => some other :: recordSubscription addr rest

def recordUnsubscription (addr : PlayerDevAddr) :
    List (Option PlayerDevAddr) → List (Option PlayerDevAddr)
  | [] => []
  | slot :: rest =>
    if slot = some addr then none :: rest else slot :: recordUnsubscription addr rest

/-- The access that the server grants: `PLAYER_ERROR_MODE` unless it is told otherwise. -/
def changeAccess (drivers : Drivers ω δ) (addr : PlayerDevAddr) (access : Byte)
    (server : Server ω δ) : Byte × Server ω δ :=
  if access = 1 then
    let result := drivers.subscribe server.drivers addr
    if result.1 < 0 then (3, { server with drivers := result.2 })
    else (access, { server with
      drivers := result.2
      devSubs := recordSubscription addr server.devSubs })
  else if access = 2 then
    let result := drivers.unsubscribe server.drivers addr
    if result.1 ≠ 0 then (3, { server with drivers := result.2 })
    else (access, { server with
      drivers := result.2
      devSubs := recordUnsubscription addr server.devSubs })
  else (3, server)

/-- The name with the zero at its end. -/
def Device.name (device : Device) : List Byte :=
  device.drivername ++ [0]

/-- `none` if there are no data where the method takes them for granted. -/
def handlePlayerMessage (place : Place) (drivers : Drivers ω δ) (hdr : PlayerMsgHdr)
    (data : Option (Data δ)) (server : Server ω δ) : Option (Server ω δ) :=
  let now := drivers.time server.drivers
  let ack := responseTo hdr MsgType.respAck now
  let nack := responseTo hdr MsgType.respNack now
  if hdr.type ≠ MsgType.req then some (server.push (nack none))
  else
    match hdr.subtype.toNat, data with
    | 3, some (.devreq addr access _) =>
      let addr := { addr with host := place.host, robot := place.port }
      match getDevice server.table addr with
      | none => some (server.push (nack (some (.devreq addr 3 []))))
      | some device =>
        let changed := changeAccess drivers addr access server
        some (changed.2.push (ack (some (.devreq addr changed.1 device.name))))
    | 1, _ =>
      let devices := (server.table.map Device.addr).filter fun addr =>
        addr.robot = place.port ∧ addr.host = place.host
      some (server.push (ack (some (.devlist (devices.take maxDevices)))))
    | 2, some (.driverinfo addr _) =>
      let addr := { addr with host := place.host, robot := place.port }
      match getDevice server.table addr with
      | none => some (server.push (nack none))
      | some device => some (server.push (ack (some (.driverinfo addr device.name))))
    | 10, some (.replaceRule interf index type subtype replace) =>
      some ({ server with
        queue := server.queue.addReplaceRule ⟨-1, -1, interf, index, type, subtype, replace⟩
        }.push (ack none))
    | 5, some (.datamode mode) =>
      some ({ server with
        queue := if mode = 1 then server.queue.setPull false
          else if mode = 2 then server.queue.setPull true else server.queue }.push (ack none))
    | 4, _ =>
      some { server with queue := (server.queue.pushFront (ack none)).setDataRequested true }
    | 3, _ => none
    | 2, _ => none
    | 10, _ => none
    | 5, _ => none
    | _, _ => some (server.push (nack none))

/-- `playerxdr_get_packfunc` for the messages of the server itself -/
def playerFunction (type subtype : BitVec 8) : Option (PackFunction (Data δ)) :=
  if type = MsgType.req ∨ type = MsgType.respAck ∨ type = MsgType.respNack then
    (unpackRequest subtype).map packFunction
  else if type = MsgType.synch ∧ subtype = 0 then (unpackRequest 10).map packFunction
  else if type = MsgType.synch ∧ subtype = 2 then
    some (packFunction (4, xdrDecodeInt >>= fun count => pure (.overflow count)))
  else none

/-- The functions of the devices, some of which serve all interfaces. -/
abbrev FunctionTable (δ : Type) :=
  BitVec 16 → BitVec 8 → BitVec 8 → Option (PackFunction δ)

def deviceFunction (devices : FunctionTable δ) (interf : BitVec 16) (type subtype : BitVec 8) :
    Option (PackFunction (Data δ)) :=
  (devices interf type subtype).map fun pack bytes => ((pack bytes).1, .device (pack bytes).2)

/-- The server as `ParseBuffer` uses it, as long as it has not crashed. -/
def environment (place : Place) (drivers : Drivers ω δ) (devices : FunctionTable δ) :
    Environment (Option (Server ω δ)) (Data δ) where
  host := place.connection
  port := place.port
  knowsDevice state addr := state.any fun server => (getDevice server.table addr).isSome
  getPackfunc interf type subtype :=
    if interf = playerCode then
      (playerFunction type subtype).orElse fun _ => deviceFunction devices interf type subtype
    else deviceFunction devices interf type subtype
  handle state hdr data := state.bind fun server =>
    if hdr.addr.interf = playerCode then handlePlayerMessage place drivers hdr data server
    else (getDevice server.table hdr.addr).map fun device => { server with
      drivers := drivers.putMsg server.drivers { hdr with addr := device.addr }
        (data.bind Data.forDriver) }
  close state := state.map fun server => { server with
    drivers := server.devSubs.reduceOption.foldl
      (fun state addr => (drivers.unsubscribe state addr).2) server.drivers
    devSubs := [] }

end TcpServer

end MrsOptimization
