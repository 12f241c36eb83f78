import MrsOptimization.Player.RobotDevices

/-!
# The grammar of the devices of a robot

Each of the classes takes away some bytes and does not look at what follows them.
So the classes have a grammar together if the other classes have one, and what
holds for every grammar holds for them.
-/

namespace MrsOptimization

section Reading

variable {α : Type}

theorem steady_decodeBuffer (program : DecodeM α) (buffer : JavaArray Byte) :
    Steady (decodeBuffer program buffer) := by
  rw [decodeBuffer]
  split
  · exact .throw _
  · split
    · exact .pure _
    · exact .throw _

theorem steady_readBytes (size : BitVec 32) : Steady (readBytes size) :=
  (recognizes_readBytes size).steady

theorem steady_readFully (buffer : JavaArray Byte) (length : ℕ) :
    Steady (readFully buffer length) :=
  (recognizes_readFully buffer length).steady

theorem steady_readFullyInt (buffer : JavaArray Byte) (length : BitVec 32) :
    Steady (readFullyInt buffer length) := by
  rw [readFullyInt]
  split
  · exact steady_readFully buffer _
  · exact .throw _

theorem steady_readDecoded (size : BitVec 32) (program : DecodeM α) :
    Steady (readDecoded size program) :=
  (steady_readBytes size).bind (steady_decodeBuffer program)

theorem steady_readItems (size count : BitVec 32) (item : DecodeM α) :
    Steady (readItems size count item) :=
  (steady_readDecoded _ _).map JavaArray.values

end Reading

namespace Position2DInterface

variable (state : State) (header : PlayerMsgHdr)

theorem steady_readData : Steady (readData state header) :=
  (recognizes_readData state header).steady

theorem steady_handleResponse : Steady (handleResponse state header) :=
  (recognizes_handleResponse state header).steady

end Position2DInterface

namespace RangerInterface

variable (state : State) (header : PlayerMsgHdr)

theorem steady_readVector : Steady readVector := by
  apply (steady_readDecoded _ _).bind
  intro count
  exact (steady_readDecoded _ _).map JavaArray.values

theorem steady_readData : Steady (readData state header) := by
  rw [readData]
  split
  · exact steady_readVector.map _
  · split
    · exact steady_readVector.map _
    · exact .pure _

theorem steady_readSizes (buffer : JavaArray Byte) : Steady (readSizes buffer) := by
  apply (steady_readFully _ _).bind
  intro buffer
  apply (steady_decodeBuffer _ _).bind
  intro count
  apply (steady_readFullyInt _ _).bind
  intro buffer
  exact (steady_decodeBuffer _ _).map JavaArray.values

theorem steady_readGeom : Steady (readGeom state) := by
  apply (steady_readBytes _).bind
  intro buffer
  apply (steady_decodeBuffer _ _).bind
  intro frame
  apply (steady_readFully _ _).bind
  intro buffer
  apply (steady_decodeBuffer _ _).bind
  intro count
  apply (steady_readBytes _).bind
  intro buffer
  apply (steady_decodeBuffer _ _).bind
  intro poses
  exact (steady_readSizes buffer).map _

theorem steady_handleResponse : Steady (handleResponse state header) := by
  rw [handleResponse]
  split
  · exact steady_readGeom state
  · split
    · exact (steady_readDecoded _ _).map _
    · exact .pure _

end RangerInterface

namespace BlobfinderInterface

theorem steady_readData (state : State) (header : PlayerMsgHdr) :
    Steady (readData state header) := by
  rw [readData]
  split
  · apply (steady_readDecoded _ _).bind
    intro head
    exact (steady_readItems _ _ _).map _
  · exact .pure _

end BlobfinderInterface

namespace FiducialInterface

variable (state : State) (header : PlayerMsgHdr)

theorem steady_readData : Steady (readData state header) := by
  rw [readData]
  split
  · apply (steady_readDecoded _ _).bind
    intro count
    exact (steady_readItems _ _ _).map _
  · exact .pure _

theorem steady_handleResponse : Steady (handleResponse state header) := by
  rw [handleResponse]
  split
  · exact (steady_readDecoded _ _).map _
  · split
    · exact (steady_readDecoded _ _).map _
    · split
      · exact (steady_readDecoded _ _).map _
      · exact .pure _

end FiducialInterface

namespace RobotInterface

variable {ι : Type} {others : Interfaces ι}

/-- The grammar of a class is what it reads. -/
def grammar (others' : InterfaceGrammar others) : InterfaceGrammar (interfaces others) where
  data interface header interface' text := Reads (readData others header interface) text interface'
  response interface header interface' text :=
    Reads (handleResponse others header interface) text interface'
  recognizes_data interface header := by
    cases interface with
    | position2d state => exact (Position2DInterface.steady_readData state header).map position2d
    | ranger state => exact (RangerInterface.steady_readData state header).map ranger
    | blobfinder state => exact (BlobfinderInterface.steady_readData state header).map blobfinder
    | fiducial state => exact (FiducialInterface.steady_readData state header).map fiducial
    | other interface => exact (others'.recognizes_data interface header).steady.map other
  recognizes_response interface header := by
    cases interface with
    | position2d state =>
        exact (Position2DInterface.steady_handleResponse state header).map position2d
    | ranger state => exact (RangerInterface.steady_handleResponse state header).map ranger
    | blobfinder state => exact (Steady.pure state).map blobfinder
    | fiducial state => exact (FiducialInterface.steady_handleResponse state header).map fiducial
    | other interface => exact (others'.recognizes_response interface header).steady.map other

end RobotInterface

end MrsOptimization
