import MrsOptimization.Player.PlayerRequests
import MrsOptimization.Player.RobotGrammar
import MrsOptimization.Player.RobotReads

/-!
# The messages of the devices of a robot

The server encodes the structure that its table has for a message. A client that
understands the message stores the structure; of any other message it takes the
header away and leaves the data.
-/

namespace MrsOptimization

open Position2DInterface (PlayerPose2d PlayerPosition2dData PlayerPosition2dGeom)
open RangerInterface (PlayerRangerGeom)
open FiducialInterface (PlayerFiducialItem)

/-- The geometry and the configuration that go with ranges or intensities. -/
structure RangerStamp where
  haveGeom : Byte
  geom : PlayerRangerGeom
  haveConfig : Byte
  config : Doubles 7
deriving DecidableEq, Repr

/-- The structures that none of the classes reads: commands, settings and stamped data. Values of
type `float` are bits. -/
inductive UnreadData
  | position2dCmdVel (vel : PlayerPose2d) (state : Byte)
  | position2dCmdPos (pos vel : PlayerPose2d) (state : Byte)
  | position2dCmdCar (velocity angle : BitVec 64)
  | position2dCmdVelHead (velocity angle : BitVec 64)
  | position2dPowerConfig (state : Byte)
  | position2dVelocityModeConfig (value : BitVec 32)
  | position2dPositionModeReq (state : BitVec 32)
  | position2dSetOdomReq (pose : PlayerPose2d)
  | position2dSpeedPidReq (kp ki kd : BitVec 32)
  | position2dPositionPidReq (kp ki kd : BitVec 32)
  | position2dSpeedProfReq (speed acc : BitVec 32)
  | blobfinderColorConfig (channel rmin rmax gmin gmax bmin bmax : BitVec 32)
  | blobfinderImagerConfig (brightness contrast colormode autogain : BitVec 32)
  | rangerDataRangestamped (ranges : List (BitVec 64)) (stamp : RangerStamp)
  | rangerDataIntnsstamped (intensities : List (BitVec 64)) (stamp : RangerStamp)
  | rangerPowerConfig (state : Byte)
  | rangerIntnsConfig (state : Byte)
deriving DecidableEq, Repr

/-- The structures that the messages of these devices may have for data. -/
inductive RobotData
  | position2dData (data : PlayerPosition2dData)
  | position2dGeom (geom : PlayerPosition2dGeom)
  | rangerDataRange (ranges : List (BitVec 64))
  | rangerDataIntns (intensities : List (BitVec 64))
  | rangerGeom (geom : PlayerRangerGeom)
  | rangerConfig (config : Doubles 7)
  | blobfinderData (data : BlobfinderInterface.PlayerBlobfinderData)
  | fiducialData (fiducials : List PlayerFiducialItem)
  | fiducialGeom (geom : Doubles 11)
  | fiducialFov (fov : BitVec 32 × BitVec 32 × BitVec 32)
  | fiducialId (id : BitVec 32)
  | unread (data : UnreadData)
deriving DecidableEq, Repr

/-- The names of the structures that are not read. -/
inductive UnreadStructure
  | position2dCmdVel
  | position2dCmdPos
  | position2dCmdCar
  | position2dCmdVelHead
  | position2dPowerConfig
  | position2dVelocityModeConfig
  | position2dPositionModeReq
  | position2dSetOdomReq
  | position2dSpeedPidReq
  | position2dPositionPidReq
  | position2dSpeedProfReq
  | blobfinderColorConfig
  | blobfinderImagerConfig
  | rangerDataRangestamped
  | rangerDataIntnsstamped
  | rangerPowerConfig
  | rangerIntnsConfig
deriving DecidableEq, Repr

/-- The names of the structures. -/
inductive RobotStructure
  | position2dData
  | position2dGeom
  | rangerDataRange
  | rangerDataIntns
  | rangerGeom
  | rangerConfig
  | blobfinderData
  | fiducialData
  | fiducialGeom
  | fiducialFov
  | fiducialId
  | unread (name : UnreadStructure)
deriving DecidableEq, Repr

/-- The code of the interface that has the structure. -/
def UnreadStructure.code : UnreadStructure → BitVec 16
  | position2dCmdVel | position2dCmdPos | position2dCmdCar | position2dCmdVelHead => 4
  | position2dPowerConfig | position2dVelocityModeConfig | position2dPositionModeReq => 4
  | position2dSetOdomReq | position2dSpeedPidReq | position2dPositionPidReq => 4
  | position2dSpeedProfReq => 4
  | blobfinderColorConfig | blobfinderImagerConfig => 7
  | rangerDataRangestamped | rangerDataIntnsstamped | rangerPowerConfig | rangerIntnsConfig => 62

namespace RobotStructure

def code : RobotStructure → BitVec 16
  | position2dData | position2dGeom => 4
  | blobfinderData => 7
  | fiducialData | fiducialGeom | fiducialFov | fiducialId => 10
  | rangerDataRange | rangerDataIntns | rangerGeom | rangerConfig => 62
  | unread name => name.code

/-- One of the classes reads the structure from some message. -/
def isRead : RobotStructure → Bool
  | unread _ => false
  | _ => true

end RobotStructure

namespace UnreadData

def name : UnreadData → UnreadStructure
  | position2dCmdVel .. => .position2dCmdVel
  | position2dCmdPos .. => .position2dCmdPos
  | position2dCmdCar .. => .position2dCmdCar
  | position2dCmdVelHead .. => .position2dCmdVelHead
  | position2dPowerConfig .. => .position2dPowerConfig
  | position2dVelocityModeConfig .. => .position2dVelocityModeConfig
  | position2dPositionModeReq .. => .position2dPositionModeReq
  | position2dSetOdomReq .. => .position2dSetOdomReq
  | position2dSpeedPidReq .. => .position2dSpeedPidReq
  | position2dPositionPidReq .. => .position2dPositionPidReq
  | position2dSpeedProfReq .. => .position2dSpeedProfReq
  | blobfinderColorConfig .. => .blobfinderColorConfig
  | blobfinderImagerConfig .. => .blobfinderImagerConfig
  | rangerDataRangestamped .. => .rangerDataRangestamped
  | rangerDataIntnsstamped .. => .rangerDataIntnsstamped
  | rangerPowerConfig .. => .rangerPowerConfig
  | rangerIntnsConfig .. => .rangerIntnsConfig

/-- Values of 32 bits. -/
def packWords (words : List (BitVec 32)) : List Byte :=
  words.flatMap fun word => beBytes word 4

/-- The members of `player_ranger_data_rangestamped_t` behind the ranges. -/
def packStamp (stamp : RangerStamp) : List Byte :=
  xdrUnsigned stamp.haveGeom ++ packRangerGeom stamp.geom ++
    (xdrUnsigned stamp.haveConfig ++ packDoubles stamp.config.1)

/-- The generated functions with `PLAYERXDR_ENCODE`. -/
def packed : UnreadData → List Byte
  | position2dCmdVel vel state => packPose vel ++ xdrUnsigned state
  | position2dCmdPos pos vel state => packPose pos ++ packPose vel ++ xdrUnsigned state
  | position2dCmdCar velocity angle => packDoubles [velocity, angle]
  | position2dCmdVelHead velocity angle => packDoubles [velocity, angle]
  | position2dPowerConfig state => xdrUnsigned state
  | position2dVelocityModeConfig value => packWords [value]
  | position2dPositionModeReq state => packWords [state]
  | position2dSetOdomReq pose => packPose pose
  | position2dSpeedPidReq kp ki kd => packWords [kp, ki, kd]
  | position2dPositionPidReq kp ki kd => packWords [kp, ki, kd]
  | position2dSpeedProfReq speed acc => packWords [speed, acc]
  | blobfinderColorConfig channel rmin rmax gmin gmax bmin bmax =>
      packWords [channel, rmin, rmax, gmin, gmax, bmin, bmax]
  | blobfinderImagerConfig brightness contrast colormode autogain =>
      packWords [brightness, contrast, colormode, autogain]
  | rangerDataRangestamped ranges stamp => packArray packDouble ranges ++ packStamp stamp
  | rangerDataIntnsstamped intensities stamp => packArray packDouble intensities ++ packStamp stamp
  | rangerPowerConfig state => xdrUnsigned state
  | rangerIntnsConfig state => xdrUnsigned state

theorem packed_ne_nil (data : UnreadData) : data.packed ≠ [] := by
  intro nothing
  have length := congrArg List.length nothing
  cases data <;> simp [packed, packPose, packArray, packWords, xdrUnsigned] at length

end UnreadData

namespace RobotData

def name : RobotData → RobotStructure
  | position2dData _ => .position2dData
  | position2dGeom _ => .position2dGeom
  | rangerDataRange _ => .rangerDataRange
  | rangerDataIntns _ => .rangerDataIntns
  | rangerGeom _ => .rangerGeom
  | rangerConfig _ => .rangerConfig
  | blobfinderData _ => .blobfinderData
  | fiducialData _ => .fiducialData
  | fiducialGeom _ => .fiducialGeom
  | fiducialFov _ => .fiducialFov
  | fiducialId _ => .fiducialId
  | unread data => .unread data.name

/-- The generated functions with `PLAYERXDR_ENCODE`. -/
def packed : RobotData → List Byte
  | position2dData data => packPositionData data
  | position2dGeom geom => packPositionGeom geom
  | rangerDataRange ranges => packArray packDouble ranges
  | rangerDataIntns intensities => packArray packDouble intensities
  | rangerGeom geom => packRangerGeom geom
  | rangerConfig config => packDoubles config.1
  | blobfinderData data => packBlobs data
  | fiducialData fiducials => packArray packFiducial fiducials
  | fiducialGeom geom => packDoubles geom.1
  | fiducialFov fov => packFov fov
  | fiducialId id => beBytes id 4
  | unread data => data.packed

theorem packed_ne_nil (data : RobotData) : data.packed ≠ [] := by
  intro nothing
  have length := congrArg List.length nothing
  cases data with
  | rangerConfig config => simp [packed, config.2] at length
  | fiducialGeom geom => simp [packed, geom.2] at length
  | unread data => exact data.packed_ne_nil nothing
  | _ =>
      simp [packed, packPositionData, packPositionGeom, packRangerGeom, packBlobs, packArray,
        packPose, packFov] at length

/-- A geometry has elements, and their sizes take no more bytes than their poses. -/
def Readable : RobotData → Prop
  | rangerGeom geom =>
      geom.poses ≠ [] ∧ geom.sizes.length * 24 ≤ geom.poses.length * 48 + 4
  | _ => True

end RobotData

section Tables

/-- The rows of the function table from the definitions of the four interfaces. The rows for
properties and capabilities, which are for every interface, have subtypes of their own. -/
def robotTable : List (BitVec 16 × BitVec 8 × BitVec 8 × RobotStructure) :=
  [(4, MsgType.req, 1, .position2dGeom), (4, MsgType.req, 2, .unread .position2dPowerConfig),
    (4, MsgType.req, 3, .unread .position2dVelocityModeConfig),
    (4, MsgType.req, 4, .unread .position2dPositionModeReq),
    (4, MsgType.req, 5, .unread .position2dSetOdomReq),
    (4, MsgType.req, 7, .unread .position2dSpeedPidReq),
    (4, MsgType.req, 8, .unread .position2dPositionPidReq),
    (4, MsgType.req, 9, .unread .position2dSpeedProfReq),
    (4, MsgType.data, 1, .position2dData), (4, MsgType.data, 2, .position2dGeom),
    (4, MsgType.cmd, 1, .unread .position2dCmdVel), (4, MsgType.cmd, 2, .unread .position2dCmdPos),
    (4, MsgType.cmd, 3, .unread .position2dCmdCar),
    (4, MsgType.cmd, 4, .unread .position2dCmdVelHead),
    (7, MsgType.data, 1, .blobfinderData), (7, MsgType.req, 1, .unread .blobfinderColorConfig),
    (7, MsgType.req, 2, .unread .blobfinderImagerConfig),
    (7, MsgType.req, 3, .unread .blobfinderColorConfig),
    (10, MsgType.data, 1, .fiducialData), (10, MsgType.req, 1, .fiducialGeom),
    (10, MsgType.req, 2, .fiducialFov), (10, MsgType.req, 3, .fiducialFov),
    (10, MsgType.req, 7, .fiducialId), (10, MsgType.req, 8, .fiducialId),
    (62, MsgType.data, 1, .rangerDataRange),
    (62, MsgType.data, 2, .unread .rangerDataRangestamped),
    (62, MsgType.data, 3, .rangerDataIntns),
    (62, MsgType.data, 4, .unread .rangerDataIntnsstamped),
    (62, MsgType.data, 5, .rangerGeom), (62, MsgType.req, 1, .rangerGeom),
    (62, MsgType.req, 2, .unread .rangerPowerConfig),
    (62, MsgType.req, 3, .unread .rangerIntnsConfig),
    (62, MsgType.req, 4, .rangerConfig), (62, MsgType.req, 5, .rangerConfig)]

/-- The first row for the message. The types of responses stand for the type of requests. -/
def robotStructure (hdr : Signature) : Option RobotStructure :=
  (robotTable.find? fun row => row.1 = hdr.addr.interf ∧
    row.2.1 = (if hdr.IsResponse then MsgType.req else hdr.type) ∧
    row.2.2.1 = hdr.subtype).map fun row => row.2.2.2

/-- `playerxdr_get_packfunc` for these messages. A structure of another message has no function of
its own. -/
def robotPacks : TcpServer.PackTable RobotData := fun hdr =>
  (robotStructure hdr).map fun name data => if data.name = name then some data.packed else none

/-- The messages whose structures the classes read. -/
def heardRows : List (BitVec 16 × BitVec 8 × BitVec 8) :=
  [(4, MsgType.data, 1), (4, MsgType.data, 2), (4, MsgType.respAck, 1),
    (7, MsgType.data, 1),
    (10, MsgType.data, 1), (10, MsgType.respAck, 1), (10, MsgType.respAck, 2),
    (10, MsgType.respAck, 7),
    (62, MsgType.data, 1), (62, MsgType.data, 3), (62, MsgType.respAck, 1),
    (62, MsgType.respAck, 5)]

/-- The client reads the structure of the message. -/
structure Heard (hdr : Signature) (data : RobotData) : Prop where
  row : robotStructure hdr = some data.name
  read : (hdr.addr.interf, hdr.type, hdr.subtype) ∈ heardRows
  readable : data.Readable

/-- The row that has been found. -/
theorem robotStructure_mem {hdr : Signature} {name : RobotStructure}
    (row : robotStructure hdr = some name) :
    (hdr.addr.interf, if hdr.IsResponse then MsgType.req else hdr.type, hdr.subtype, name) ∈
      robotTable := by
  rcases Option.map_eq_some_iff.mp row with ⟨found, finds, rfl⟩
  have same := List.find?_some finds
  simp only [decide_eq_true_eq] at same
  rcases same with ⟨interf, type, subtype⟩
  rw [← interf, ← type, ← subtype]
  exact List.mem_of_find?_eq_some finds

theorem code_of_row {hdr : Signature} {name : RobotStructure}
    (row : robotStructure hdr = some name) : name.code = hdr.addr.interf := by
  have all : ∀ row ∈ robotTable, row.2.2.2.code = row.1 := by decide
  exact all _ (robotStructure_mem row)

/-- The subtypes of the data that the client reads, and the structures. -/
def heardData : List (BitVec 8 × RobotStructure) :=
  [(1, .position2dData), (2, .position2dGeom), (1, .rangerDataRange), (3, .rangerDataIntns),
    (1, .blobfinderData), (1, .fiducialData)]

/-- The same for the data of positive responses. -/
def heardAcks : List (BitVec 8 × RobotStructure) :=
  [(1, .position2dGeom), (1, .rangerGeom), (5, .rangerConfig), (1, .fiducialGeom),
    (2, .fiducialFov), (7, .fiducialId)]

theorem row_of_data {hdr : Signature} {name : RobotStructure} (isData : hdr.type = MsgType.data)
    (row : robotStructure hdr = some name)
    (read : (hdr.addr.interf, hdr.type, hdr.subtype) ∈ heardRows) :
    (hdr.subtype, name) ∈ heardData := by
  have all : ∀ row ∈ robotTable, row.2.1 = MsgType.data →
      (row.1, MsgType.data, row.2.2.1) ∈ heardRows → (row.2.2.1, row.2.2.2) ∈ heardData := by
    decide
  have noResponse : ¬ hdr.IsResponse := by rw [Signature.IsResponse, isData]; decide
  have member := robotStructure_mem row
  rw [if_neg noResponse] at member
  rw [isData] at read
  exact all _ member isData read

theorem row_of_ack {hdr : Signature} {name : RobotStructure} (isAck : hdr.type = MsgType.respAck)
    (row : robotStructure hdr = some name)
    (read : (hdr.addr.interf, hdr.type, hdr.subtype) ∈ heardRows) :
    (hdr.subtype, name) ∈ heardAcks := by
  have all : ∀ row ∈ robotTable, row.2.1 = MsgType.req →
      (row.1, MsgType.respAck, row.2.2.1) ∈ heardRows → (row.2.2.1, row.2.2.2) ∈ heardAcks := by
    decide
  have response : hdr.IsResponse := Or.inr isAck
  have member := robotStructure_mem row
  rw [if_pos response] at member
  rw [isAck] at read
  exact all _ member rfl read

variable {hdr : Signature} {data : RobotData}

theorem Heard.type (heard : Heard hdr data) :
    hdr.type = MsgType.data ∨ hdr.type = MsgType.respAck := by
  have all : heardRows.all fun row => row.2.1 = MsgType.data ∨ row.2.1 = MsgType.respAck := by
    decide
  exact of_decide_eq_true (List.all_eq_true.mp all _ heard.read)

theorem Heard.isRead (heard : Heard hdr data) : data.name.isRead := by
  have datas : ∀ row ∈ heardData, row.2.isRead := by decide
  have acks : ∀ row ∈ heardAcks, row.2.isRead := by decide
  rcases heard.type with isData | isAck
  · exact datas _ (row_of_data isData heard.row heard.read)
  · exact acks _ (row_of_ack isAck heard.row heard.read)

end Tables

namespace RobotInterface

variable {ι : Type}

/-- What becomes of a device that has read the data of a message. -/
def deliver (type : BitVec 8) (timestamp : BitVec 64) (data : RobotData) :
    RobotInterface ι → RobotInterface ι
  | position2d state =>
    match data with
    | .position2dData data => position2d { state with
        timestamp := timestamp, pp2ddata := some data, readyPp2ddata := true }
    | .position2dGeom geom => position2d { state with
        timestamp := if type = MsgType.data then timestamp else state.timestamp
        pp2dgeom := some geom, readyPp2dgeom := true }
    | _ => position2d state
  | ranger state =>
    match data with
    | .rangerDataRange ranges => ranger { state with
        timestamp := timestamp, prdata := some ranges, readyPrdata := true }
    | .rangerDataIntns intensities => ranger { state with
        timestamp := timestamp, printn := some intensities, readyPrintn := true }
    | .rangerGeom geom => ranger { state with prgeom := some geom, readyPrgeom := true }
    | .rangerConfig config => ranger { state with prconf := some config, readyPrconf := true }
    | _ => ranger state
  | blobfinder state =>
    match data with
    | .blobfinderData data => blobfinder { state with
        timestamp := timestamp, pbdata := some data, readyPbdata := true }
    | _ => blobfinder state
  | fiducial state =>
    match data with
    | .fiducialData fiducials => fiducial { state with
        timestamp := timestamp, pfdata := some fiducials, readyPfdata := true }
    | .fiducialGeom geom => fiducial { state with pfgeom := some geom, readyPfgeom := true }
    | .fiducialFov fov => fiducial { state with pffov := some fov, readyPffov := true }
    | .fiducialId id => fiducial { state with pfid := id, readyPfid := true }
    | _ => fiducial state
  | other interface => other interface

/-- What the getters of a class return, if there is something to return. -/
def shows : RobotInterface ι → RobotStructure → Option RobotData
  | position2d state, .position2dData => state.pp2ddata.map .position2dData
  | position2d state, .position2dGeom => state.pp2dgeom.map .position2dGeom
  | ranger state, .rangerDataRange => state.prdata.map .rangerDataRange
  | ranger state, .rangerDataIntns => state.printn.map .rangerDataIntns
  | ranger state, .rangerGeom => state.prgeom.map .rangerGeom
  | ranger state, .rangerConfig => state.prconf.map .rangerConfig
  | blobfinder state, .blobfinderData => state.pbdata.map .blobfinderData
  | fiducial state, .fiducialData => state.pfdata.map .fiducialData
  | fiducial state, .fiducialGeom => state.pfgeom.map .fiducialGeom
  | fiducial state, .fiducialFov => state.pffov.map .fiducialFov
  | fiducial state, .fiducialId => if state.readyPfid then some (.fiducialId state.pfid) else none
  | _, _ => none

theorem isFor_deliver (type : BitVec 8) (timestamp : BitVec 64) (data : RobotData)
    {interface : RobotInterface ι} {code : BitVec 16} (own : interface.IsFor code) :
    (interface.deliver type timestamp data).IsFor code := by
  cases interface <;> cases data <;> exact own

/-- The data replace the data of the same structure, and nothing else. -/
theorem shows_deliver {interface : RobotInterface ι} {data : RobotData}
    (own : interface.IsFor data.name.code) (isRead : data.name.isRead) (type : BitVec 8)
    (timestamp : BitVec 64) (name : RobotStructure) :
    (interface.deliver type timestamp data).shows name =
      if data.name = name then some data else interface.shows name := by
  cases interface <;> cases data <;> first
    | cases name <;> rfl
    | exact absurd isRead Bool.false_ne_true
    | simp [IsFor, RobotData.name, RobotStructure.code] at own

variable {interface : RobotInterface ι}

theorem position2d_of_code (own : interface.IsFor 4) : ∃ state, interface = position2d state := by
  cases interface with
  | position2d state => exact ⟨state, rfl⟩
  | _ => simp [IsFor] at own

theorem ranger_of_code (own : interface.IsFor 62) : ∃ state, interface = ranger state := by
  cases interface with
  | ranger state => exact ⟨state, rfl⟩
  | _ => simp [IsFor] at own

theorem blobfinder_of_code (own : interface.IsFor 7) : ∃ state, interface = blobfinder state := by
  cases interface with
  | blobfinder state => exact ⟨state, rfl⟩
  | _ => simp [IsFor] at own

theorem fiducial_of_code (own : interface.IsFor 10) : ∃ state, interface = fiducial state := by
  cases interface with
  | fiducial state => exact ⟨state, rfl⟩
  | _ => simp [IsFor] at own

variable {others : Interfaces ι} {header : PlayerMsgHdr} {data : RobotData}

theorem reads_readData (isData : header.type = MsgType.data)
    (row : (header.subtype, data.name) ∈ heardData) (own : interface.IsFor data.name.code)
    (small : data.packed.length ≤ TcpServer.maxMessageSize) :
    Reads (readData others header interface) data.packed
      (interface.deliver header.type header.timestamp data) := by
  simp only [TcpServer.maxMessageSize] at small
  cases data with
  | position2dData data =>
      rcases position2d_of_code own with ⟨state, rfl⟩
      have isState : header.subtype = 1 := by simpa [RobotData.name, heardData] using row
      exact (Position2DInterface.reads_state state data isState).map position2d
  | position2dGeom geom =>
      rcases position2d_of_code own with ⟨state, rfl⟩
      have isGeom : header.subtype = 2 := by simpa [RobotData.name, heardData] using row
      have reads : Reads (Position2DInterface.readData state header) (packPositionGeom geom)
          { state with
            timestamp := header.timestamp, pp2dgeom := some geom, readyPp2dgeom := true } := by
        rw [Position2DInterface.readData, if_neg (by rw [isGeom]; decide), if_pos isGeom]
        exact Position2DInterface.reads_readGeom _ geom
      simp only [deliver, if_pos isData]
      exact reads.map position2d
  | rangerDataRange ranges =>
      rcases ranger_of_code own with ⟨state, rfl⟩
      have isRange : header.subtype = 1 := by simpa [RobotData.name, heardData] using row
      rw [RobotData.packed, length_packArray length_packDouble] at small
      exact (RangerInterface.reads_ranges state (by omega) isRange).map ranger
  | rangerDataIntns intensities =>
      rcases ranger_of_code own with ⟨state, rfl⟩
      have isIntns : header.subtype = 3 := by simpa [RobotData.name, heardData] using row
      rw [RobotData.packed, length_packArray length_packDouble] at small
      exact (RangerInterface.reads_intensities state (by omega) isIntns).map ranger
  | blobfinderData data =>
      rcases blobfinder_of_code own with ⟨state, rfl⟩
      have isBlobs : header.subtype = 1 := by simpa [RobotData.name, heardData] using row
      rw [RobotData.packed, packBlobs, List.length_append, List.length_append,
        length_packArray length_packBlob] at small
      exact (BlobfinderInterface.reads_blobs state (by omega) isBlobs).map blobfinder
  | fiducialData fiducials =>
      rcases fiducial_of_code own with ⟨state, rfl⟩
      have isScan : header.subtype = 1 := by simpa [RobotData.name, heardData] using row
      rw [RobotData.packed, length_packArray length_packFiducial] at small
      exact (FiducialInterface.reads_scan state (by omega) isScan).map fiducial
  | _ => simp [RobotData.name, heardData] at row

theorem reads_handleResponse (isAck : header.type = MsgType.respAck)
    (row : (header.subtype, data.name) ∈ heardAcks) (own : interface.IsFor data.name.code)
    (readable : data.Readable) (small : data.packed.length ≤ TcpServer.maxMessageSize) :
    Reads (handleResponse others header interface) data.packed
      (interface.deliver header.type header.timestamp data) := by
  simp only [TcpServer.maxMessageSize] at small
  cases data with
  | position2dGeom geom =>
      rcases position2d_of_code own with ⟨state, rfl⟩
      have isGeom : header.subtype = 1 := by simpa [RobotData.name, heardAcks] using row
      have noData : header.type ≠ MsgType.data := by rw [isAck]; decide
      have reads : Reads (Position2DInterface.handleResponse state header)
          (packPositionGeom geom) { state with pp2dgeom := some geom, readyPp2dgeom := true } := by
        rw [Position2DInterface.handleResponse, if_pos isGeom]
        exact Position2DInterface.reads_readGeom state geom
      simp only [deliver, if_neg noData]
      exact reads.map position2d
  | rangerGeom geom =>
      rcases ranger_of_code own with ⟨state, rfl⟩
      have isGeom : header.subtype = 1 := by simpa [RobotData.name, heardAcks] using row
      have fits : geom.poses.length * 48 + 4 < 2 ^ 31 := by
        rw [RobotData.packed, length_packRangerGeom] at small
        omega
      have reads : Reads (RangerInterface.handleResponse state header) (packRangerGeom geom)
          { state with prgeom := some geom, readyPrgeom := true } := by
        rw [RangerInterface.handleResponse, if_pos isGeom]
        exact reads_readGeom state fits readable.1 readable.2
      exact reads.map ranger
  | rangerConfig config =>
      rcases ranger_of_code own with ⟨state, rfl⟩
      have isConfig : header.subtype = 5 := by simpa [RobotData.name, heardAcks] using row
      exact (RangerInterface.reads_config state config isConfig).map ranger
  | fiducialGeom geom =>
      rcases fiducial_of_code own with ⟨state, rfl⟩
      have isGeom : header.subtype = 1 := by simpa [RobotData.name, heardAcks] using row
      exact (FiducialInterface.reads_geom state geom isGeom).map fiducial
  | fiducialFov fov =>
      rcases fiducial_of_code own with ⟨state, rfl⟩
      have isFov : header.subtype = 2 := by simpa [RobotData.name, heardAcks] using row
      exact (FiducialInterface.reads_fov state fov isFov).map fiducial
  | fiducialId id =>
      rcases fiducial_of_code own with ⟨state, rfl⟩
      have isId : header.subtype = 7 := by simpa [RobotData.name, heardAcks] using row
      exact (FiducialInterface.reads_id state id isId).map fiducial
  | _ => simp [RobotData.name, heardAcks] at row

/-- Data of a message that the class does not know stay where they are. -/
theorem readData_of_unheard {code : BitVec 16} (own : interface.IsFor code)
    (known : code ∈ [4, 7, 10, 62]) (unheard : (code, MsgType.data, header.subtype) ∉ heardRows) :
    readData others header interface = pure interface := by
  cases interface with
  | position2d state =>
      cases own
      have other : header.subtype ≠ 1 ∧ header.subtype ≠ 2 := by
        simpa [heardRows, MsgType.data, MsgType.respAck] using unheard
      rw [readData, Position2DInterface.readData, if_neg other.1, if_neg other.2, pure_bind]
  | ranger state =>
      cases own
      have other : header.subtype ≠ 1 ∧ header.subtype ≠ 3 := by
        simpa [heardRows, MsgType.data, MsgType.respAck] using unheard
      rw [readData, RangerInterface.readData, if_neg other.1, if_neg other.2, pure_bind]
  | blobfinder state =>
      cases own
      have other : header.subtype ≠ 1 := by
        simpa [heardRows, MsgType.data, MsgType.respAck] using unheard
      rw [readData, BlobfinderInterface.readData, if_neg other, pure_bind]
  | fiducial state =>
      cases own
      have other : header.subtype ≠ 1 := by
        simpa [heardRows, MsgType.data, MsgType.respAck] using unheard
      rw [readData, FiducialInterface.readData, if_neg other, pure_bind]
  | other interface => exact absurd known own

theorem handleResponse_of_unheard {code : BitVec 16} (own : interface.IsFor code)
    (known : code ∈ [4, 7, 10, 62])
    (unheard : (code, MsgType.respAck, header.subtype) ∉ heardRows) :
    handleResponse others header interface = pure interface := by
  cases interface with
  | position2d state =>
      cases own
      have other : header.subtype ≠ 1 := by
        simpa [heardRows, MsgType.data, MsgType.respAck] using unheard
      rw [handleResponse, Position2DInterface.handleResponse, if_neg other, pure_bind]
  | ranger state =>
      cases own
      have other : header.subtype ≠ 1 ∧ header.subtype ≠ 5 := by
        simpa [heardRows, MsgType.data, MsgType.respAck] using unheard
      rw [handleResponse, RangerInterface.handleResponse, if_neg other.1, if_neg other.2, pure_bind]
  | blobfinder state =>
      rw [handleResponse, BlobfinderInterface.handleResponse, pure_bind]
  | fiducial state =>
      cases own
      have other : header.subtype ≠ 1 ∧ header.subtype ≠ 2 ∧ header.subtype ≠ 7 := by
        simpa [heardRows, MsgType.data, MsgType.respAck] using unheard
      rw [handleResponse, FiducialInterface.handleResponse, if_neg other.1, if_neg other.2.1,
        if_neg other.2.2, pure_bind]
  | other interface => exact absurd known own

/-- The buffer of the poses is too small. -/
theorem misses_geom (row : (header.subtype, data.name) ∈ heardAcks)
    (own : interface.IsFor data.name.code) (unreadable : ¬ data.Readable)
    (small : data.packed.length ≤ TcpServer.maxMessageSize) :
    Misses (handleResponse others header interface) data.packed := by
  simp only [TcpServer.maxMessageSize] at small
  cases data with
  | rangerGeom geom =>
      rcases ranger_of_code own with ⟨state, rfl⟩
      have isGeom : header.subtype = 1 := by simpa [RobotData.name, heardAcks] using row
      rw [RobotData.packed, length_packRangerGeom] at small
      have full : geom.poses = [] ∨ geom.poses.length * 48 + 4 < geom.sizes.length * 24 := by
        by_contra fits
        rw [not_or, not_lt] at fits
        exact unreadable fits
      have misses : Misses (RangerInterface.handleResponse state header) (packRangerGeom geom) := by
        rw [RangerInterface.handleResponse, if_pos isGeom]
        exact .of_error fun rest => readGeom_fails state (by omega) (by omega) full rest
      exact misses.map ranger
  | _ => exact absurd trivial unreadable

end RobotInterface

namespace PlayerClient

open TcpServer PlayerCore

section Devices

variable {ι : Type}

/-- The first device with the address changes. -/
def updateDevice (addr : PlayerDevAddr) (f : ι → ι) : List (PlayerDevice ι) → List (PlayerDevice ι)
  | [] => []
  | device :: rest =>
    if device.deviceAddress = addr then { device with interface := f device.interface } :: rest
    else device :: updateDevice addr f rest

variable {addr : PlayerDevAddr} {action : ι → ReadM ι} {text : List Byte}
variable {devices : List (PlayerDevice ι)}

theorem reads_onDevice {f : ι → ι} (has : ∃ device ∈ devices, device.deviceAddress = addr)
    (reads : ∀ device ∈ devices, device.deviceAddress = addr →
      Reads (action device.interface) text (f device.interface)) :
    Reads (onDevice addr action devices) text (updateDevice addr f devices) := by
  induction devices with
  | nil => simp at has
  | cons device rest ih =>
      rw [onDevice, updateDevice]
      split
      · next same =>
          exact (reads device (List.mem_cons_self ..) same).map fun interface =>
            { device with interface := interface } :: rest
      · next other =>
          have later : ∃ device ∈ rest, device.deviceAddress = addr := by simpa [other] using has
          exact (ih later fun device member => reads device (List.mem_cons_of_mem _ member)).map
            fun rest => device :: rest

theorem misses_onDevice (has : ∃ device ∈ devices, device.deviceAddress = addr)
    (misses : ∀ device ∈ devices, device.deviceAddress = addr →
      Misses (action device.interface) text) :
    Misses (onDevice addr action devices) text := by
  induction devices with
  | nil => simp at has
  | cons device rest ih =>
      rw [onDevice]
      split
      · next same =>
          exact (misses device (List.mem_cons_self ..) same).map fun interface =>
            { device with interface := interface } :: rest
      · next other =>
          have later : ∃ device ∈ rest, device.deviceAddress = addr := by simpa [other] using has
          exact (ih later fun device member => misses device (List.mem_cons_of_mem _ member)).map
            fun rest => device :: rest

end Devices

variable {ι : Type}

/-- Every device has the class of its interface. -/
def Matched (client : PlayerClient (RobotInterface ι)) : Prop :=
  ∀ device ∈ client.deviceList, device.interface.IsFor device.deviceAddress.interf

/-- The client has subscribed to a device with the address. -/
def Has (client : PlayerClient (RobotInterface ι)) (addr : PlayerDevAddr) : Prop :=
  ∃ device ∈ client.deviceList, device.deviceAddress = addr

/-- A message that the server can send, with data of a device. -/
structure Carries (msg : PlayerCore.Message (Content (Data RobotData))) (data : RobotData) :
    Prop where
  payload : msg.content.payload = some (.device data)
  row : robotStructure msg.header = some data.name
  small : data.packed.length ≤ maxMessageSize

/-- What becomes of a client that understands the message. -/
def hear (msg : PlayerCore.Message (Content (Data RobotData)))
    (client : PlayerClient (RobotInterface ι)) : PlayerClient (RobotInterface ι) :=
  match msg.content.payload with
  | some (.device data) => { client with
      deviceList := updateDevice msg.header.addr
        (RobotInterface.deliver msg.header.type msg.content.timestamp data) client.deviceList }
  | _ => client

variable {others : Interfaces ι} {client : PlayerClient (RobotInterface ι)}
variable {msg : PlayerCore.Message (Content (Data RobotData))} {data : RobotData}

theorem Carries.known (carries : Carries msg data) :
    msg.header.addr.interf ∈ [4, 7, 10, 62] := by
  have all : ∀ row ∈ robotTable, row.1 ∈ [4, 7, 10, 62] := by decide
  exact all _ (robotStructure_mem carries.row)

theorem Carries.device (carries : Carries msg data) :
    msg.header.addr.interf ≠ 0 ∧ msg.header.addr.interf ≠ playerCode := by
  rw [← code_of_row carries.row]
  have all : ∀ row ∈ robotTable, row.2.2.2.code ≠ 0 ∧ row.2.2.2.code ≠ playerCode := by decide
  exact all _ (robotStructure_mem carries.row)

theorem Carries.encode (carries : Carries msg data) :
    TcpServer.encode (packTable robotPacks) msg =
      .bytes (headerOf msg data.packed.length) data.packed := by
  have function : packTable robotPacks msg.header = some fun data' =>
      data'.forDriver.bind fun device =>
        if device.name = data.name then some device.packed else none := by
    rw [packTable, if_neg fun player => carries.device.2 player.1, robotPacks, carries.row]
    rfl
  rw [TcpServer.encode, carries.payload]
  simp only [function, Data.forDriver, Option.bind_some, if_true]

theorem Carries.own (carries : Carries msg data) (matched : client.Matched) :
    ∀ device ∈ client.deviceList, device.deviceAddress = msg.header.addr →
      device.interface.IsFor data.name.code := by
  intro device member same
  have own := matched device member
  rwa [same, ← code_of_row carries.row] at own

/-- Data are for the device with the address of the message. -/
theorem readData_of_data (carries : Carries msg data) (isData : msg.header.type = MsgType.data)
    (size : ℕ) :
    readData (RobotInterface.interfaces others) (headerOf msg size) client = (do
      let deviceList ← onDevice msg.header.addr (RobotInterface.readData others (headerOf msg size))
        client.deviceList
      pure { client with deviceList := deviceList } : ReadM (PlayerClient (RobotInterface ι))) :=
  if_pos ⟨isData, carries.device⟩

theorem readData_of_ack (carries : Carries msg data) (isAck : msg.header.type = MsgType.respAck)
    (size : ℕ) :
    readData (RobotInterface.interfaces others) (headerOf msg size) client = (do
      let deviceList ← onDevice msg.header.addr
        (RobotInterface.handleResponse others (headerOf msg size)) client.deviceList
      pure { client with deviceList := deviceList } : ReadM (PlayerClient (RobotInterface ι))) := by
  have noData : ¬ ((headerOf msg size).type = MsgType.data ∧
      (headerOf msg size).addr.interf ≠ 0 ∧ (headerOf msg size).addr.interf ≠ playerCode) := by
    rintro ⟨isData, -⟩
    have contradiction := isAck.symm.trans isData
    cases contradiction
  have ack : (headerOf msg size).type = MsgType.respAck := isAck
  rw [readData, if_neg noData, if_pos ack]
  exact if_pos carries.device.2

/-- Behind the header of a message, the device with its address has to read the data. -/
theorem reads_data (carries : Carries msg data) (matched : client.Matched)
    (has : client.Has msg.header.addr) (heard : Heard msg.header data) (size : ℕ) :
    Reads (readData (RobotInterface.interfaces others) (headerOf msg size) client) data.packed
      (hear msg client) := by
  have result : hear msg client = { client with
      deviceList := updateDevice msg.header.addr
        (RobotInterface.deliver msg.header.type msg.content.timestamp data)
        client.deviceList } := by
    rw [hear, carries.payload]
  rw [result]
  rcases heard.type with isData | isAck
  · have row : ((headerOf msg size).subtype, data.name) ∈ heardData :=
      row_of_data isData heard.row heard.read
    rw [readData_of_data carries isData]
    exact (reads_onDevice has fun device member same =>
      RobotInterface.reads_readData isData row (carries.own matched device member same)
        carries.small).map fun deviceList => { client with deviceList := deviceList }
  · have row : ((headerOf msg size).subtype, data.name) ∈ heardAcks :=
      row_of_ack isAck heard.row heard.read
    rw [readData_of_ack carries isAck]
    exact (reads_onDevice has fun device member same =>
      RobotInterface.reads_handleResponse isAck row (carries.own matched device member same)
        heard.readable carries.small).map fun deviceList => { client with deviceList := deviceList }

/-- Only the geometry of a ranger can be unreadable. -/
theorem readable_of_heardData {subtype : BitVec 8} (row : (subtype, data.name) ∈ heardData) :
    data.Readable := by
  cases data with
  | rangerGeom geom => simp [heardData, RobotData.name] at row
  | _ => exact trivial

/-- The data of any other message are not taken away. -/
theorem misses_data (carries : Carries msg data) (matched : client.Matched)
    (has : client.Has msg.header.addr) (unheard : ¬ Heard msg.header data) (size : ℕ) :
    Misses (readData (RobotInterface.interfaces others) (headerOf msg size) client)
      data.packed := by
  by_cases isData : msg.header.type = MsgType.data
  · have unread : (msg.header.addr.interf, MsgType.data, (headerOf msg size).subtype) ∉
        heardRows := by
      intro read
      rw [← isData] at read
      have row := row_of_data isData carries.row read
      exact unheard ⟨carries.row, read, readable_of_heardData row⟩
    rw [readData_of_data carries isData]
    refine (misses_onDevice has fun device member same => ?_).map fun deviceList =>
      { client with deviceList := deviceList }
    have own := matched device member
    rw [same] at own
    rw [RobotInterface.readData_of_unheard own carries.known unread]
    exact .pure device.interface data.packed_ne_nil
  by_cases isAck : msg.header.type = MsgType.respAck
  · rw [readData_of_ack carries isAck]
    by_cases read : (msg.header.addr.interf, msg.header.type, msg.header.subtype) ∈ heardRows
    · have unreadable : ¬ data.Readable := fun readable =>
        unheard ⟨carries.row, read, readable⟩
      have row : ((headerOf msg size).subtype, data.name) ∈ heardAcks :=
        row_of_ack isAck carries.row read
      exact (misses_onDevice has fun device member same =>
        RobotInterface.misses_geom row (carries.own matched device member same) unreadable
          carries.small).map fun deviceList => { client with deviceList := deviceList }
    · have unread : (msg.header.addr.interf, MsgType.respAck, (headerOf msg size).subtype) ∉
          heardRows := by rwa [isAck] at read
      refine (misses_onDevice has fun device member same => ?_).map fun deviceList =>
        { client with deviceList := deviceList }
      have own := matched device member
      rw [same] at own
      rw [RobotInterface.handleResponse_of_unheard own carries.known unread]
      exact .pure device.interface data.packed_ne_nil
  · have noAck : (headerOf msg size).type ≠ MsgType.respAck := isAck
    have nothing : readData (RobotInterface.interfaces others) (headerOf msg size) client =
        pure client := by
      rw [readData, if_neg fun news => isData news.1, if_neg noAck]
    rw [nothing]
    exact .pure client data.packed_ne_nil

theorem reads_headerOf (msg : PlayerCore.Message (Content (Data RobotData))) (size : ℕ) :
    Reads readHeader (headerOf msg size).packed (headerOf msg size) :=
  recognizes_readHeader.reads.mpr (field_of_reads (reads_packed _) (length_packed _))

/-- The client takes away what the server sends. -/
theorem reads_heard (carries : Carries msg data) (matched : client.Matched)
    (has : client.Has msg.header.addr) (heard : Heard msg.header data) :
    Reads (PlayerClient.read (RobotInterface.interfaces others) client)
      (TcpServer.encode (packTable robotPacks) msg).wire
      (hear msg client, headerOf msg data.packed.length) := by
  rw [carries.encode]
  apply (reads_headerOf msg _).bind
  exact (reads_data carries matched has heard _).map fun client =>
    (client, headerOf msg data.packed.length)

/-- A client stays in step with the server exactly if it reads the structure of the message. -/
theorem in_step_iff_heard (carries : Carries msg data) (matched : client.Matched)
    (has : client.Has msg.header.addr) :
    (∃ result rest, PlayerClient.read (RobotInterface.interfaces others) client
      ((TcpServer.encode (packTable robotPacks) msg).wire ++ rest) = .ok result rest) ↔
      Heard msg.header data := by
  constructor
  · rintro ⟨result, rest, runs⟩
    by_contra unheard
    have misses : Misses (PlayerClient.read (RobotInterface.interfaces others) client)
        (TcpServer.encode (packTable robotPacks) msg).wire := by
      rw [carries.encode]
      exact .bind (reads_headerOf msg _) ((misses_data carries matched has unheard _).map _)
    exact misses rest result runs
  · intro heard
    exact ⟨_, [], reads_heard carries matched has heard []⟩

/-- The identifier of a fiducial, the answer to a request. -/
def fiducialAnswer : PlayerCore.Message (Content (Data RobotData)) :=
  ⟨⟨⟨0, 6665, 10, 0⟩, MsgType.respAck, 7⟩, ⟨0, 0, some (.device (.fiducialId 3))⟩⟩

/-- A client without other classes. -/
def noOthers : Interfaces Empty where
  create _ := none
  readData interface _ := interface.elim
  handleResponse interface _ := interface.elim

/-- A client with a fiducial finder. -/
def fiducialClient : PlayerClient (RobotInterface Empty) where
  deviceList := [⟨⟨0, 6665, 10, 0⟩, openMode, [0], .fiducial {}⟩]

theorem in_step_iff_heard_id :
    (∃ result rest, PlayerClient.read (RobotInterface.interfaces noOthers) fiducialClient
      ((TcpServer.encode (packTable robotPacks) fiducialAnswer).wire ++ rest) =
        .ok result rest) ↔ Heard fiducialAnswer.header (.fiducialId 3) := by
  have carries : Carries fiducialAnswer (.fiducialId 3) :=
    ⟨rfl, by decide, by simp [RobotData.packed, maxMessageSize]⟩
  have matched : fiducialClient.Matched := by
    intro device member
    rw [List.mem_singleton.mp member]
    rfl
  have has : fiducialClient.Has fiducialAnswer.header.addr := ⟨_, List.mem_singleton_self _, rfl⟩
  exact in_step_iff_heard carries matched has

end PlayerClient

end MrsOptimization
