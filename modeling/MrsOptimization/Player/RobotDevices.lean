import MrsOptimization.Player.ClientReads

/-!
# The devices of a robot

Besides its position, the control of a robot looks at a ranger, a blobfinder and
a fiducial detector. Each of the classes reads a count, and then so many items
into a buffer of its own. A ranger also has a geometry, whose last part is read
into the buffer of the part in front of it. The other classes of the client are
a parameter.
-/

namespace MrsOptimization

open XdrDecodingStream

section Decoding

variable {m : Type → Type} [Monad m] [XdrDecodingStream m]

/-- So many doubles: a `PlayerPose3d` has 6, a `PlayerBbox3d` has 3. -/
abbrev Doubles (n : ℕ) :=
  {values : List (BitVec 64) // values.length = n}

def decodeDoubles (n : ℕ) : m (Doubles n) :=
  times xdrDecodeDouble n

end Decoding

section Reading

/-- `is.readFully(buffer, 0, length)` with a computed length. -/
def readFullyInt (buffer : JavaArray Byte) (length : BitVec 32) : ReadM (JavaArray Byte) :=
  if 0 ≤ length.toInt then readFully buffer length.toInt.toNat else throw .indexOutOfBounds

/-- A buffer of `count * size` bytes, from which `count` items are decoded. -/
def readItems {α : Type} (size count : BitVec 32) (item : DecodeM α) : ReadM (List α) := do
  let items ← readDecoded (count * size) (decodeFixedVector item count)
  pure items.values

end Reading

namespace RangerInterface

structure PlayerRangerGeom where
  pose : Doubles 6
  size : Doubles 3
  poses : List (Doubles 6)
  sizes : List (Doubles 3)
deriving DecidableEq, Repr

/-- The fields that reading sets. -/
structure State where
  timestamp : BitVec 64 := 0
  prdata : Option (List (BitVec 64)) := none
  readyPrdata : Bool := false
  printn : Option (List (BitVec 64)) := none
  readyPrintn : Bool := false
  prgeom : Option PlayerRangerGeom := none
  readyPrgeom : Bool := false
  prconf : Option (Doubles 7) := none
  readyPrconf : Bool := false
deriving DecidableEq, Repr

/-- A count, and then a vector that begins with the same count. -/
def readVector : ReadM (List (BitVec 64)) := do
  let count ← readDecoded 4 xdrDecodeInt
  let values ← readDecoded (count * 8 + 4) xdrDecodeDoubleVector
  pure values.values

/-- `PLAYER_RANGER_DATA_RANGE` and `PLAYER_RANGER_DATA_INTNS` -/
def readData (state : State) (header : PlayerMsgHdr) : ReadM State :=
  if header.subtype = 1 then do
    let ranges ← readVector
    pure { state with
      timestamp := header.timestamp, prdata := some ranges, readyPrdata := true }
  else if header.subtype = 3 then do
    let intens ← readVector
    pure { state with
      timestamp := header.timestamp, printn := some intens, readyPrintn := true }
  else pure state

/-- The pose and the size of the device. -/
def decodeFrame {m : Type → Type} [Monad m] [XdrDecodingStream m] : m (Doubles 6 × Doubles 3) := do
  let pose ← decodeDoubles 6
  let size ← decodeDoubles 3
  pure (pose, size)

/-- The poses of the elements behind their count, which is skipped. -/
def decodePoses {m : Type → Type} [Monad m] [MonadExceptOf XdrException m] [XdrDecodingStream m]
    (count : BitVec 32) : m (JavaArray (Doubles 6)) := do
  let _ ← xdrDecodeInt
  decodeFixedVector (decodeDoubles 6) count

/-- The sizes go into the buffer of the poses. -/
def readSizes (buffer : JavaArray Byte) : ReadM (List (Doubles 3)) := do
  let buffer ← readFully buffer 8
  let sizesCount ← decodeBuffer xdrDecodeInt buffer
  let buffer ← readFullyInt buffer (sizesCount * 24)
  let sizes ← decodeBuffer (decodeFixedVector (decodeDoubles 3) sizesCount) buffer
  pure sizes.values

def readGeom (state : State) : ReadM State := do
  let buffer ← readBytes 72
  let frame ← decodeBuffer decodeFrame buffer
  let buffer ← readFully buffer 4
  let posesCount ← decodeBuffer xdrDecodeInt buffer
  let buffer ← readBytes (posesCount * 48 + 4)
  let poses ← decodeBuffer (decodePoses posesCount) buffer
  let sizes ← readSizes buffer
  pure { state with
    prgeom := some ⟨frame.1, frame.2, poses.values, sizes⟩, readyPrgeom := true }

/-- `PLAYER_RANGER_REQ_GET_GEOM` and `PLAYER_RANGER_REQ_GET_CONFIG` -/
def handleResponse (state : State) (header : PlayerMsgHdr) : ReadM State :=
  if header.subtype = 1 then readGeom state
  else if header.subtype = 5 then do
    let conf ← readDecoded 56 (decodeDoubles 7)
    pure { state with prconf := some conf, readyPrconf := true }
  else pure state

end RangerInterface

namespace BlobfinderInterface

structure PlayerBlobfinderBlob where
  id : BitVec 32
  color : BitVec 32
  area : BitVec 32
  x : BitVec 32
  y : BitVec 32
  left : BitVec 32
  right : BitVec 32
  top : BitVec 32
  bottom : BitVec 32
  /-- The bits of a `float` -/
  range : BitVec 32
deriving DecidableEq, Repr

structure PlayerBlobfinderData where
  width : BitVec 32
  height : BitVec 32
  blobs : List PlayerBlobfinderBlob
deriving DecidableEq, Repr

/-- The fields that reading sets. -/
structure State where
  timestamp : BitVec 64 := 0
  pbdata : Option PlayerBlobfinderData := none
  readyPbdata : Bool := false
deriving DecidableEq, Repr

variable {m : Type → Type} [Monad m] [XdrDecodingStream m]

/-- The width, the height and the count. -/
def decodeHead : m (BitVec 32 × BitVec 32 × BitVec 32) := do
  let width ← xdrDecodeInt
  let height ← xdrDecodeInt
  let count ← xdrDecodeInt
  pure (width, height, count)

def decodeBlob : m PlayerBlobfinderBlob := do
  let id ← xdrDecodeInt
  let color ← xdrDecodeInt
  let area ← xdrDecodeInt
  let x ← xdrDecodeInt
  let y ← xdrDecodeInt
  let left ← xdrDecodeInt
  let right ← xdrDecodeInt
  let top ← xdrDecodeInt
  let bottom ← xdrDecodeInt
  let range ← xdrDecodeFloat
  pure ⟨id, color, area, x, y, left, right, top, bottom, range⟩

/-- `PLAYER_BLOBFINDER_DATA_BLOBS` -/
def readData (state : State) (header : PlayerMsgHdr) : ReadM State :=
  if header.subtype = 1 then do
    let head ← readDecoded 16 decodeHead
    let blobs ← readItems 40 head.2.2 decodeBlob
    pure { state with
      timestamp := header.timestamp
      pbdata := some ⟨head.1, head.2.1, blobs⟩
      readyPbdata := true }
  else pure state

/-- The responses are empty. -/
def handleResponse (state : State) (_header : PlayerMsgHdr) : ReadM State :=
  pure state

end BlobfinderInterface

namespace FiducialInterface

structure PlayerFiducialItem where
  id : BitVec 32
  pose : Doubles 6
  upose : Doubles 6
deriving DecidableEq, Repr

/-- The fields that reading sets. -/
structure State where
  timestamp : BitVec 64 := 0
  pfdata : Option (List PlayerFiducialItem) := none
  readyPfdata : Bool := false
  /-- The pose, the size, and the size of the fiducials. -/
  pfgeom : Option (Doubles 11) := none
  readyPfgeom : Bool := false
  pffov : Option (BitVec 32 × BitVec 32 × BitVec 32) := none
  readyPffov : Bool := false
  pfid : BitVec 32 := 0
  readyPfid : Bool := false
deriving DecidableEq, Repr

variable {m : Type → Type} [Monad m] [XdrDecodingStream m]

def decodeItem : m PlayerFiducialItem := do
  let id ← xdrDecodeInt
  let pose ← decodeDoubles 6
  let upose ← decodeDoubles 6
  pure ⟨id, pose, upose⟩

def decodeFov : m (BitVec 32 × BitVec 32 × BitVec 32) := do
  let minRange ← xdrDecodeFloat
  let maxRange ← xdrDecodeFloat
  let viewAngle ← xdrDecodeFloat
  pure (minRange, maxRange, viewAngle)

/-- `PLAYER_FIDUCIAL_DATA_SCAN` -/
def readData (state : State) (header : PlayerMsgHdr) : ReadM State :=
  if header.subtype = 1 then do
    let count ← readDecoded 8 xdrDecodeInt
    let items ← readItems 100 count decodeItem
    pure { state with
      timestamp := header.timestamp, pfdata := some items, readyPfdata := true }
  else pure state

/-- `PLAYER_FIDUCIAL_REQ_GET_GEOM`, `PLAYER_FIDUCIAL_REQ_GET_FOV` and
`PLAYER_FIDUCIAL_REQ_GET_ID` -/
def handleResponse (state : State) (header : PlayerMsgHdr) : ReadM State :=
  if header.subtype = 1 then do
    let geom ← readDecoded 88 (decodeDoubles 11)
    pure { state with pfgeom := some geom, readyPfgeom := true }
  else if header.subtype = 2 then do
    let fov ← readDecoded 12 decodeFov
    pure { state with pffov := some fov, readyPffov := true }
  else if header.subtype = 7 then do
    let id ← readDecoded 4 xdrDecodeInt
    pure { state with pfid := id, readyPfid := true }
  else pure state

end FiducialInterface

/-- An object of one of these classes, or of another one. -/
inductive RobotInterface (ι : Type)
  | position2d (state : Position2DInterface.State)
  | ranger (state : RangerInterface.State)
  | blobfinder (state : BlobfinderInterface.State)
  | fiducial (state : FiducialInterface.State)
  | other (interface : ι)
deriving DecidableEq, Repr

namespace RobotInterface

variable {ι : Type}

/-- The class of the object belongs to the devices of an interface. -/
def IsFor (code : BitVec 16) : RobotInterface ι → Prop
  | position2d _ => code = 4
  | blobfinder _ => code = 7
  | fiducial _ => code = 10
  | ranger _ => code = 62
  | other _ => code ∉ [4, 7, 10, 62]

variable (others : Interfaces ι)

/-- The cases of `requestSatisfy`. -/
def create (code : BitVec 16) : Option (RobotInterface ι) :=
  if code = 4 then some (position2d {})
  else if code = 7 then some (blobfinder {})
  else if code = 10 then some (fiducial {})
  else if code = 62 then some (ranger {})
  else (others.create code).map other

def readData (header : PlayerMsgHdr) : RobotInterface ι → ReadM (RobotInterface ι)
  | position2d state => do
      let state ← Position2DInterface.readData state header
      pure (position2d state)
  | ranger state => do
      let state ← RangerInterface.readData state header
      pure (ranger state)
  | blobfinder state => do
      let state ← BlobfinderInterface.readData state header
      pure (blobfinder state)
  | fiducial state => do
      let state ← FiducialInterface.readData state header
      pure (fiducial state)
  | other interface => do
      let interface ← others.readData interface header
      pure (other interface)

def handleResponse (header : PlayerMsgHdr) : RobotInterface ι → ReadM (RobotInterface ι)
  | position2d state => do
      let state ← Position2DInterface.handleResponse state header
      pure (position2d state)
  | ranger state => do
      let state ← RangerInterface.handleResponse state header
      pure (ranger state)
  | blobfinder state => do
      let state ← BlobfinderInterface.handleResponse state header
      pure (blobfinder state)
  | fiducial state => do
      let state ← FiducialInterface.handleResponse state header
      pure (fiducial state)
  | other interface => do
      let interface ← others.handleResponse interface header
      pure (other interface)

def interfaces : Interfaces (RobotInterface ι) where
  create := create others
  readData interface header := readData others header interface
  handleResponse interface header := handleResponse others header interface

end RobotInterface

end MrsOptimization
