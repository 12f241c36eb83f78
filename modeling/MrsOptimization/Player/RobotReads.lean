import Mathlib.Tactic.IntervalCases
import MrsOptimization.Player.RobotDevices

/-!
# What the devices of a robot read

The functions of `playerxdrgen.py` write an array as its count, and then as a
vector that begins with the same count. A class that reads the first count knows
how many bytes to read for the vector. The geometry of a ranger is the exception:
its last array is read into the buffer of the array in front of it.
-/

namespace MrsOptimization

open XdrDecodingStream

namespace DecoderRelation

variable {m n : Type → Type} [Monad m] [MonadExceptOf XdrException m] [XdrDecodingStream m]
variable [Monad n] [MonadExceptOf XdrException n] [XdrDecodingStream n] (R : DecoderRelation m n)

theorem doubles (count : ℕ) : R.Related (decodeDoubles count) (decodeDoubles count) :=
  R.times R.double count

theorem frame : R.Related RangerInterface.decodeFrame RangerInterface.decodeFrame := by
  apply R.bind (R.doubles 6)
  intro pose
  apply R.bind (R.doubles 3)
  intro size
  exact R.pure _

theorem poses (count : BitVec 32) :
    R.Related (RangerInterface.decodePoses count) (RangerInterface.decodePoses count) := by
  apply R.bind R.int
  intro _
  exact R.decodeFixedVector (R.doubles 6) count

theorem doubleVector : R.Related xdrDecodeDoubleVector xdrDecodeDoubleVector :=
  R.bind R.int (R.decodeFixedVector R.double)

theorem blobHead : R.Related BlobfinderInterface.decodeHead BlobfinderInterface.decodeHead := by
  apply R.bind R.int
  intro width
  apply R.bind R.int
  intro height
  apply R.bind R.int
  intro count
  exact R.pure _

theorem blob : R.Related BlobfinderInterface.decodeBlob BlobfinderInterface.decodeBlob := by
  apply R.bind R.int
  intro id
  apply R.bind R.int
  intro color
  apply R.bind R.int
  intro area
  apply R.bind R.int
  intro x
  apply R.bind R.int
  intro y
  apply R.bind R.int
  intro left
  apply R.bind R.int
  intro right
  apply R.bind R.int
  intro top
  apply R.bind R.int
  intro bottom
  apply R.bind R.int
  intro range
  exact R.pure _

theorem fiducial : R.Related FiducialInterface.decodeItem FiducialInterface.decodeItem := by
  apply R.bind R.int
  intro id
  apply R.bind (R.doubles 6)
  intro pose
  apply R.bind (R.doubles 6)
  intro upose
  exact R.pure _

theorem fov : R.Related FiducialInterface.decodeFov FiducialInterface.decodeFov := by
  apply R.bind R.int
  intro minRange
  apply R.bind R.int
  intro maxRange
  apply R.bind R.int
  intro viewAngle
  exact R.pure _

end DecoderRelation

section Packing

open Position2DInterface RangerInterface BlobfinderInterface FiducialInterface

/-- `xdr_double` -/
def packDouble (value : BitVec 64) : List Byte :=
  (XdrScalar.longChunks value).flatten

def packDoubles (values : List (BitVec 64)) : List Byte :=
  (values.map packDouble).flatten

/-- The count of an array, and the array with its count. -/
def packArray {α : Type} (pack : α → List Byte) (items : List α) : List Byte :=
  beBytes (BitVec.ofNat 32 items.length) 4 ++
    (beBytes (BitVec.ofNat 32 items.length) 4 ++ (items.map pack).flatten)

def packPose (pose : PlayerPose2d) : List Byte :=
  packDoubles [pose.px, pose.py, pose.pa]

/-- `player_position2d_data_t` -/
def packPositionData (data : PlayerPosition2dData) : List Byte :=
  packPose data.pos ++ (packPose data.vel ++ xdrUnsigned data.stall)

/-- `player_position2d_geom_t` -/
def packPositionGeom (geom : PlayerPosition2dGeom) : List Byte :=
  packPose ⟨geom.pose[0], geom.pose[1], geom.pose[2]⟩ ++
    (packPose ⟨geom.pose[3], geom.pose[4], geom.pose[5]⟩ ++
      packPose ⟨geom.size[0], geom.size[1], geom.size[2]⟩)

/-- `player_ranger_geom_t` -/
def packRangerGeom (geom : PlayerRangerGeom) : List Byte :=
  packDoubles geom.pose.1 ++ packDoubles geom.size.1 ++
    (packArray (fun pose => packDoubles pose.1) geom.poses ++
      packArray (fun size => packDoubles size.1) geom.sizes)

/-- `player_blobfinder_blob_t` -/
def packBlob (blob : BlobfinderInterface.PlayerBlobfinderBlob) : List Byte :=
  [beBytes blob.id 4, beBytes blob.color 4, beBytes blob.area 4, beBytes blob.x 4,
    beBytes blob.y 4, beBytes blob.left 4, beBytes blob.right 4, beBytes blob.top 4,
    beBytes blob.bottom 4, beBytes blob.range 4].flatten

/-- `player_blobfinder_data_t` -/
def packBlobs (data : BlobfinderInterface.PlayerBlobfinderData) : List Byte :=
  beBytes data.width 4 ++ (beBytes data.height 4 ++ packArray packBlob data.blobs)

/-- `player_fiducial_item_t` -/
def packFiducial (item : PlayerFiducialItem) : List Byte :=
  beBytes item.id 4 ++ (packDoubles item.pose.1 ++ packDoubles item.upose.1)

/-- `player_fiducial_fov_t` -/
def packFov (fov : BitVec 32 × BitVec 32 × BitVec 32) : List Byte :=
  [beBytes fov.1 4, beBytes fov.2.1 4, beBytes fov.2.2 4].flatten

@[simp]
theorem length_packDouble (value : BitVec 64) : (packDouble value).length = 8 := by
  simp [packDouble, XdrScalar.longChunks]

/-- Items of one length. -/
theorem length_flatten_map {α β : Type} {pack : α → List β} {n : ℕ}
    (each : ∀ item, (pack item).length = n) (items : List α) :
    (items.map pack).flatten.length = items.length * n := by
  simp [List.length_flatten, Function.comp_def, each]

@[simp]
theorem length_packDoubles (values : List (BitVec 64)) :
    (packDoubles values).length = values.length * 8 :=
  length_flatten_map length_packDouble values

theorem length_packArray {α : Type} {pack : α → List Byte} {n : ℕ}
    (each : ∀ item, (pack item).length = n) (items : List α) :
    (packArray pack items).length = items.length * n + 8 := by
  simp only [packArray, List.length_append, length_beBytes, length_flatten_map each]
  omega

theorem length_packBlob (blob : BlobfinderInterface.PlayerBlobfinderBlob) :
    (packBlob blob).length = 40 := by
  simp [packBlob]

theorem length_packFiducial (item : PlayerFiducialItem) : (packFiducial item).length = 100 := by
  simp [packFiducial, item.pose.2, item.upose.2]

theorem length_packRangerGeom (geom : PlayerRangerGeom) :
    (packRangerGeom geom).length =
      72 + (geom.poses.length * 48 + 8) + (geom.sizes.length * 24 + 8) := by
  have poses := length_packArray
    (fun pose : Doubles 6 => by rw [length_packDoubles, pose.2]) geom.poses
  have sizes := length_packArray
    (fun size : Doubles 3 => by rw [length_packDoubles, size.2]) geom.sizes
  simp only [packRangerGeom, List.length_append, length_packDoubles, geom.pose.2, geom.size.2,
    poses, sizes]
  omega

end Packing

section Decoding

open Position2DInterface RangerInterface BlobfinderInterface FiducialInterface

theorem reads_double (value : BitVec 64) :
    Reads (xdrDecodeDouble : TextM (BitVec 64)) (packDouble value) value :=
  reads_long value

theorem reads_doubles {n : ℕ} (values : Doubles n) :
    Reads (decodeDoubles n : TextM (Doubles n)) (packDoubles values.1) values := by
  rcases Reads.times reads_double values.2.symm with ⟨decoded, same, reads⟩
  have decodes : decoded = values := Subtype.ext (same.trans (List.map_id _))
  rwa [decodes] at reads

theorem reads_pose (pose : PlayerPose2d) :
    Reads (decodePose : TextM PlayerPose2d) (packPose pose) pose := by
  apply (reads_double pose.px).bind
  apply (reads_double pose.py).bind
  apply (reads_double pose.pa).bind
  exact .pure pose

theorem reads_positionData (data : PlayerPosition2dData) :
    Reads (decodeData : TextM PlayerPosition2dData) (packPositionData data) data := by
  have stall := reads_byte (data.stall.setWidth 32)
  rw [setWidth_setWidth (by decide)] at stall
  apply (reads_pose data.pos).bind
  apply (reads_pose data.vel).bind
  exact stall.map fun stall => (⟨data.pos, data.vel, stall⟩ : PlayerPosition2dData)

theorem reads_frame (pose : Doubles 6) (size : Doubles 3) :
    Reads (decodeFrame : TextM (Doubles 6 × Doubles 3)) (packDoubles pose.1 ++ packDoubles size.1)
      (pose, size) := by
  apply (reads_doubles pose).bind
  exact (reads_doubles size).map fun size => (pose, size)

theorem reads_blob (blob : BlobfinderInterface.PlayerBlobfinderBlob) :
    Reads (decodeBlob : TextM BlobfinderInterface.PlayerBlobfinderBlob) (packBlob blob) blob := by
  apply (reads_int blob.id).bind
  apply (reads_int blob.color).bind
  apply (reads_int blob.area).bind
  apply (reads_int blob.x).bind
  apply (reads_int blob.y).bind
  apply (reads_int blob.left).bind
  apply (reads_int blob.right).bind
  apply (reads_int blob.top).bind
  apply (reads_int blob.bottom).bind
  apply (reads_int blob.range).bind
  exact .pure blob

theorem reads_fiducial (item : PlayerFiducialItem) :
    Reads (decodeItem : TextM PlayerFiducialItem) (packFiducial item) item := by
  apply (reads_int item.id).bind
  apply (reads_doubles item.pose).bind
  exact (reads_doubles item.upose).map fun upose =>
    (⟨item.id, item.pose, upose⟩ : PlayerFiducialItem)

theorem reads_fov (fov : BitVec 32 × BitVec 32 × BitVec 32) :
    Reads (decodeFov : TextM (BitVec 32 × BitVec 32 × BitVec 32)) (packFov fov) fov := by
  apply (reads_int fov.1).bind
  apply (reads_int fov.2.1).bind
  apply (reads_int fov.2.2).bind
  exact .pure fov

theorem reads_positionGeom (geom : PlayerPosition2dGeom) :
    Reads (decodeGeom : TextM PlayerPosition2dGeom) (packPositionGeom geom) geom := by
  have reads : Reads (decodeGeom : TextM PlayerPosition2dGeom) (packPositionGeom geom)
      ⟨#v[geom.pose[0], geom.pose[1], geom.pose[2], geom.pose[3], geom.pose[4], geom.pose[5]],
        #v[geom.size[0], geom.size[1], geom.size[2]]⟩ := by
    apply (reads_pose _).bind
    apply (reads_pose _).bind
    exact (reads_pose _).map fun size => (⟨_, #v[size.px, size.py, size.pa]⟩ :
      PlayerPosition2dGeom)
  have pose : #v[geom.pose[0], geom.pose[1], geom.pose[2], geom.pose[3], geom.pose[4],
      geom.pose[5]] = geom.pose := by
    apply Vector.ext
    intro i inside
    interval_cases i <;> rfl
  have size : #v[geom.size[0], geom.size[1], geom.size[2]] = geom.size := by
    apply Vector.ext
    intro i inside
    interval_cases i <;> rfl
  rwa [pose, size] at reads

end Decoding

section Reading

open RangerInterface

/-- The number of the bytes of some items. -/
theorem toInt_bytes {count size : ℕ} (fits : count * size < 2 ^ 31) :
    (BitVec.ofNat 32 count * BitVec.ofNat 32 size).toInt = (count * size : ℕ) := by
  rw [← BitVec.ofNat_mul, JavaArray.toInt_ofNat fits]

/-- The number of the bytes of some items, and of what stands in front of them. -/
theorem toInt_bytes_add {count size more : ℕ} (fits : count * size + more < 2 ^ 31) :
    (BitVec.ofNat 32 count * BitVec.ofNat 32 size + BitVec.ofNat 32 more).toInt =
      (count * size + more : ℕ) := by
  rw [← BitVec.ofNat_mul, ← BitVec.ofNat_add]
  exact JavaArray.toInt_ofNat fits

/-- A buffer of its own, from which a prefix is decoded. -/
theorem reads_readFront {α : Type} {program : DecodeM α} {program' : TextM α}
    (related : DecodesText program program') {value : α} {front more : List Byte} {size : BitVec 32}
    (reads : Reads program' front value) (length : size.toInt = (front ++ more).length)
    (whole : (front ++ more).length % 4 = 0) :
    Reads (readDecoded size program) (front ++ more) value :=
  (recognizes_readDecoded related length whole).reads.mpr ⟨rfl, more, reads more⟩

theorem reads_readDecoded {α : Type} {program : DecodeM α} {program' : TextM α}
    (related : DecodesText program program') {value : α} {text : List Byte} {size : BitVec 32}
    (reads : Reads program' text value) (length : size.toInt = text.length)
    (whole : text.length % 4 = 0) : Reads (readDecoded size program) text value := by
  rw [← List.append_nil text] at length whole ⊢
  exact reads_readFront related reads length whole

/-- Decoding from a buffer ignores what stands behind the value. -/
theorem decodeBuffer_of_reads {α : Type} {program : DecodeM α} {program' : TextM α}
    (related : DecodesText program program') {buffer : JavaArray Byte} {front more : List Byte}
    (values : buffer.values = front ++ more) (whole : buffer.values.length % 4 = 0) {value : α}
    (reads : Reads program' front value) : decodeBuffer program buffer = pure value := by
  rw [decodeBuffer_eq related whole, values, reads more]

/-- So many bytes come in front of those that the buffer has further back. -/
theorem reads_readFully {buffer : JavaArray Byte} {text : List Byte}
    (inside : text.length ≤ buffer.values.length) :
    ∃ filled : JavaArray Byte, filled.values = text ++ buffer.values.drop text.length ∧
      Reads (readFully buffer text.length) text filled := by
  have small := buffer.length_lt
  have fits : (text ++ buffer.values.drop text.length).length < 2 ^ 31 := by
    rw [List.length_append, List.length_drop]
    omega
  exact ⟨⟨_, fits⟩, rfl, (recognizes_readFully _ _).reads.mpr ⟨inside, rfl, rfl⟩⟩

theorem reads_readItems {α : Type} {item : DecodeM α} {item' : TextM α} {pack : α → List Byte}
    {n : ℕ} (related : DecodesText item item') (reads : ∀ value, Reads item' (pack value) value)
    (each : ∀ value, (pack value).length = n) (whole : n % 4 = 0) {items : List α}
    (few : items.length < 2 ^ 31) (fits : items.length * n < 2 ^ 31) :
    Reads (readItems (BitVec.ofNat 32 n) (BitVec.ofNat 32 items.length) item)
      (items.map pack).flatten items := by
  rcases reads_array reads (JavaArray.toInt_ofNat few) with ⟨array, same, readsAll⟩
  have vector : DecodesText (decodeFixedVector item (BitVec.ofNat 32 items.length))
      (decodeFixedVector item' (BitVec.ofNat 32 items.length)) :=
    fun data => (XdrBufferDecodingStream.textRelation data).decodeFixedVector (related data) _
  have length := length_flatten_map each items
  have size : (BitVec.ofNat 32 items.length * BitVec.ofNat 32 n).toInt =
      (items.map pack).flatten.length := by rw [toInt_bytes fits, length]
  have buffer := reads_readDecoded vector readsAll size (by
    rw [length, Nat.mul_mod, whole, Nat.mul_zero, Nat.zero_mod])
  rw [List.map_id'] at same
  have reads' := buffer.map JavaArray.values
  rwa [same] at reads'

theorem reads_readVector {values : List (BitVec 64)} (fits : values.length * 8 + 4 < 2 ^ 31) :
    Reads readVector (packArray packDouble values) values := by
  have few : values.length < 2 ^ 31 := by omega
  have length := length_packDoubles values
  rcases reads_array reads_double (JavaArray.toInt_ofNat few) with ⟨array, same, reads⟩
  rw [List.map_id'] at same
  have vector : Reads (xdrDecodeDoubleVector : TextM (JavaArray (BitVec 64)))
      (beBytes (BitVec.ofNat 32 values.length) 4 ++ packDoubles values) array :=
    (reads_int _).bind reads
  apply (reads_readDecoded (fun data => (XdrBufferDecodingStream.textRelation data).int)
    (reads_int (BitVec.ofNat 32 values.length)) (by simp) (by simp)).bind
  have buffer := reads_readDecoded
    (fun data => (XdrBufferDecodingStream.textRelation data).doubleVector) vector
    (by
      rw [List.length_append, length_beBytes, length, add_comm]
      exact toInt_bytes_add fits)
    (by rw [List.length_append, length_beBytes, length]; omega)
  have reads' := buffer.map JavaArray.values
  rwa [same] at reads'

/-- The poses of the elements, behind their second count. -/
theorem reads_poses {poses : List (Doubles 6)} (few : poses.length < 2 ^ 31) :
    ∃ array : JavaArray (Doubles 6), array.values = poses ∧
      Reads (decodePoses (BitVec.ofNat 32 poses.length) : TextM (JavaArray (Doubles 6)))
        (beBytes (BitVec.ofNat 32 poses.length) 4 ++
          (poses.map fun pose => packDoubles pose.1).flatten) array := by
  rcases reads_array (fun pose : Doubles 6 => reads_doubles pose) (JavaArray.toInt_ofNat few) with
    ⟨array, same, reads⟩
  rw [List.map_id'] at same
  exact ⟨array, same, (reads_int _).bind reads⟩

/-- If the buffer has room for them, the counts are read, and then the sizes. -/
theorem readSizes_eq {buffer : JavaArray Byte} (whole : buffer.values.length % 4 = 0)
    (counts : 8 ≤ buffer.values.length) (count : BitVec 32) :
    ∃ filled : JavaArray Byte, filled.values.length = buffer.values.length ∧ ∀ text,
      readSizes buffer (beBytes count 4 ++ (beBytes count 4 ++ text)) =
        (do
          let buffer ← readFullyInt filled (count * 24)
          let sizes ← decodeBuffer (decodeFixedVector (decodeDoubles 3) count) buffer
          pure sizes.values : ReadM (List (Doubles 3))) text := by
  have head : (beBytes count 4 ++ beBytes count 4).length = 8 := by simp
  rcases @reads_readFully buffer (beBytes count 4 ++ beBytes count 4) (by omega) with
    ⟨filled, values, reads⟩
  have length : filled.values.length = buffer.values.length := by
    rw [values, List.length_append, List.length_drop]
    omega
  rw [head] at reads values
  refine ⟨filled, length, ?_⟩
  intro text
  have decodes : decodeBuffer xdrDecodeInt filled = pure count :=
    decodeBuffer_of_reads (fun data => (XdrBufferDecodingStream.textRelation data).int)
      (values.trans (List.append_assoc ..)) (by omega) (reads_int count)
  rw [readSizes, ← List.append_assoc, bind_ok (reads text), decodes, pure_bind]

theorem reads_readSizes {buffer : JavaArray Byte} (whole : buffer.values.length % 4 = 0)
    {sizes : List (Doubles 3)} (counts : 8 ≤ buffer.values.length)
    (room : sizes.length * 24 ≤ buffer.values.length) :
    Reads (readSizes buffer) (packArray (fun size => packDoubles size.1) sizes) sizes := by
  have small := buffer.length_lt
  have few : sizes.length < 2 ^ 31 := by omega
  have length : (sizes.map fun size => packDoubles size.1).flatten.length = sizes.length * 24 :=
    length_flatten_map (fun size => by rw [length_packDoubles, size.2]) sizes
  rcases readSizes_eq whole counts (BitVec.ofNat 32 sizes.length) with ⟨filled, same, runs⟩
  rcases @reads_readFully filled (sizes.map fun size => packDoubles size.1).flatten (by omega) with
    ⟨buffer', values, reads⟩
  rcases reads_array (fun size : Doubles 3 => reads_doubles size) (JavaArray.toInt_ofNat few) with
    ⟨array, elements, readsAll⟩
  rw [List.map_id'] at elements
  have size : (BitVec.ofNat 32 sizes.length * 24).toInt = (sizes.length * 24 : ℕ) :=
    toInt_bytes (room.trans_lt small)
  have length' : buffer'.values.length = filled.values.length := by
    rw [values, List.length_append, List.length_drop]
    omega
  have decodes := decodeBuffer_of_reads
    (fun data => (XdrBufferDecodingStream.textRelation data).decodeFixedVector
      ((XdrBufferDecodingStream.textRelation data).doubles 3) (BitVec.ofNat 32 sizes.length))
    values (by omega) readsAll
  intro rest
  rw [packArray, List.append_assoc, List.append_assoc, runs, readFullyInt, if_pos (by omega), size,
    Int.toNat_natCast, ← length, bind_ok (reads rest), decodes, pure_bind, elements]
  rfl

theorem readSizes_fails {buffer : JavaArray Byte} (whole : buffer.values.length % 4 = 0)
    {sizes : List (Doubles 3)} (fits : sizes.length * 24 < 2 ^ 31)
    (full : buffer.values.length < 8 ∨ buffer.values.length < sizes.length * 24)
    (rest : List Byte) : ∃ left,
      readSizes buffer (packArray (fun size => packDoubles size.1) sizes ++ rest) =
        .error .indexOutOfBounds left := by
  have fails : ∀ {buffer : JavaArray Byte} {length : ℕ}, buffer.values.length < length →
      ∀ text, readFully buffer length text = .error .indexOutOfBounds text := by
    intro buffer length outside text
    rw [readFully, dif_neg (by omega)]
  by_cases counts : 8 ≤ buffer.values.length
  · have size : (BitVec.ofNat 32 sizes.length * 24).toInt = (sizes.length * 24 : ℕ) :=
      toInt_bytes fits
    rcases readSizes_eq whole counts (BitVec.ofNat 32 sizes.length) with ⟨filled, same, runs⟩
    refine ⟨(sizes.map fun size => packDoubles size.1).flatten ++ rest, ?_⟩
    rw [packArray, List.append_assoc, List.append_assoc, runs, readFullyInt, if_pos (by omega),
      size, Int.toNat_natCast, bind_error (fails (by omega) _)]
  · refine ⟨packArray (fun size => packDoubles size.1) sizes ++ rest, ?_⟩
    rw [readSizes, bind_error (fails (by omega) _)]

/-- The pose, the size and the poses of the elements are read in any case. -/
theorem readGeom_eq (state : State) {geom : PlayerRangerGeom}
    (fits : geom.poses.length * 48 + 4 < 2 ^ 31) :
    ∃ buffer : JavaArray Byte, buffer.values.length = geom.poses.length * 48 + 4 ∧ ∀ text,
      readGeom state (packDoubles geom.pose.1 ++ packDoubles geom.size.1 ++
          (packArray (fun pose => packDoubles pose.1) geom.poses ++ text)) =
        (do
          let sizes ← readSizes buffer
          pure { state with
            prgeom := some ⟨geom.pose, geom.size, geom.poses, sizes⟩
            readyPrgeom := true } : ReadM State) text := by
  have few : geom.poses.length < 2 ^ 31 := by omega
  let count := beBytes (BitVec.ofNat 32 geom.poses.length) 4
  let elements := (geom.poses.map fun pose => packDoubles pose.1).flatten
  have counts : count.length = 4 := length_beBytes _ _
  have frameLength : (packDoubles geom.pose.1 ++ packDoubles geom.size.1).length = 72 := by
    simp [geom.pose.2, geom.size.2]
  have length : (count ++ elements).length = geom.poses.length * 48 + 4 := by
    have each := length_flatten_map
      (fun pose : Doubles 6 => by rw [length_packDoubles, pose.2]) geom.poses
    rw [List.length_append, each]
    omega
  let frame : JavaArray Byte := ⟨_, frameLength.trans_lt (by decide)⟩
  let buffer : JavaArray Byte := ⟨count ++ elements, length.trans_lt fits⟩
  have readsFrame : Reads (readBytes 72) (packDoubles geom.pose.1 ++ packDoubles geom.size.1)
      frame := (recognizes_readBytes _).reads.mpr ⟨rfl, by rw [frameLength]; rfl⟩
  have decodesFrame : decodeBuffer decodeFrame frame = pure (geom.pose, geom.size) :=
    decodeBuffer_of_reads (fun data => (XdrBufferDecodingStream.textRelation data).frame)
      (List.append_nil _).symm (by rw [frameLength]) (reads_frame geom.pose geom.size)
  rcases @reads_readFully frame count (by rw [counts, frameLength]; decide) with
    ⟨filled, values, readsCount⟩
  have decodesCount : decodeBuffer xdrDecodeInt filled =
      pure (BitVec.ofNat 32 geom.poses.length) := by
    apply decodeBuffer_of_reads (fun data => (XdrBufferDecodingStream.textRelation data).int)
      values _ (reads_int _)
    rw [values, List.length_append, List.length_drop, counts, frameLength]
  have readsElements : Reads (readBytes (BitVec.ofNat 32 geom.poses.length * 48 + 4))
      (count ++ elements) buffer :=
    (recognizes_readBytes _).reads.mpr ⟨rfl, by rw [length]; exact (toInt_bytes_add fits).symm⟩
  rcases reads_poses few with ⟨array, same, readsPoses⟩
  have decodesPoses : decodeBuffer (decodePoses (BitVec.ofNat 32 geom.poses.length)) buffer =
      pure array :=
    decodeBuffer_of_reads (fun data => (XdrBufferDecodingStream.textRelation data).poses _)
      (List.append_nil _).symm (by rw [length]; omega) readsPoses
  refine ⟨buffer, length, ?_⟩
  intro text
  rw [counts] at readsCount
  rw [packArray, List.append_assoc count, readGeom, bind_ok (readsFrame _), decodesFrame, pure_bind,
    bind_ok (readsCount _), decodesCount, pure_bind, bind_ok (readsElements _), decodesPoses,
    pure_bind, same]

/-- The geometry of a ranger with elements whose sizes take no more bytes than their poses is read
up to its end. -/
theorem reads_readGeom (state : State) {geom : PlayerRangerGeom}
    (fits : geom.poses.length * 48 + 4 < 2 ^ 31) (some_ : geom.poses ≠ [])
    (room : geom.sizes.length * 24 ≤ geom.poses.length * 48 + 4) :
    Reads (readGeom state) (packRangerGeom geom)
      { state with prgeom := some geom, readyPrgeom := true } := by
  have positive := List.length_pos_iff.mpr some_
  rcases readGeom_eq state fits with ⟨buffer, length, runs⟩
  have reads := reads_readSizes (by omega : buffer.values.length % 4 = 0) (by omega)
    (by omega : geom.sizes.length * 24 ≤ buffer.values.length)
  intro rest
  rw [packRangerGeom, List.append_assoc, List.append_assoc (packArray _ _), runs,
    bind_ok (reads rest)]
  rfl

/-- Any other geometry is not. -/
theorem readGeom_fails (state : State) {geom : PlayerRangerGeom}
    (fits : geom.poses.length * 48 + 4 < 2 ^ 31) (fits' : geom.sizes.length * 24 < 2 ^ 31)
    (full : geom.poses = [] ∨ geom.poses.length * 48 + 4 < geom.sizes.length * 24)
    (rest : List Byte) : ∃ left,
      readGeom state (packRangerGeom geom ++ rest) = .error .indexOutOfBounds left := by
  rcases readGeom_eq state fits with ⟨buffer, length, runs⟩
  have noRoom : buffer.values.length < 8 ∨ buffer.values.length < geom.sizes.length * 24 := by
    rcases full with none_ | many
    · left
      rw [length, none_]
      decide
    · exact Or.inr (length.trans_lt many)
  rcases readSizes_fails (by omega : buffer.values.length % 4 = 0) fits' noRoom rest with
    ⟨left, fails⟩
  refine ⟨left, ?_⟩
  rw [packRangerGeom, List.append_assoc, List.append_assoc (packArray _ _), runs, bind_error fails]

end Reading

section Messages

variable {header : PlayerMsgHdr}

/-- A structure of a fixed size becomes a part of the state. -/
theorem reads_stored {α σ : Type} {program : DecodeM α} {program' : TextM α}
    (related : DecodesText program program') {value : α} {text : List Byte} {size : BitVec 32}
    {store : α → σ} {n : ℕ} (reads : Reads program' text value) (length : text.length = n)
    (number : size.toInt = n) (whole : n % 4 = 0) :
    Reads (readDecoded size program >>= fun value => pure (store value)) text (store value) := by
  subst length
  exact (reads_readDecoded related reads number whole).map store

namespace Position2DInterface

theorem reads_readGeom (state : State) (geom : PlayerPosition2dGeom) :
    Reads (readGeom state) (packPositionGeom geom)
      { state with pp2dgeom := some geom, readyPp2dgeom := true } := by
  have length : (packPositionGeom geom).length = 72 := by simp [packPositionGeom, packPose]
  exact reads_stored (fun data => (XdrBufferDecodingStream.textRelation data).position2dGeom)
    (reads_positionGeom geom) length (by decide) (by decide)

theorem reads_state (state : State) (data : PlayerPosition2dData) (isState : header.subtype = 1) :
    Reads (readData state header) (packPositionData data) { state with
      timestamp := header.timestamp, pp2ddata := some data, readyPp2ddata := true } := by
  have length : (packPositionData data).length = 52 := by
    simp [packPositionData, packPose, xdrUnsigned]
  rw [readData, if_pos isState]
  exact reads_stored (fun data => (XdrBufferDecodingStream.textRelation data).position2dData)
    (reads_positionData data) length (by decide) (by decide)

end Position2DInterface

namespace RangerInterface

theorem reads_ranges (state : State) {ranges : List (BitVec 64)}
    (fits : ranges.length * 8 + 4 < 2 ^ 31) (isRange : header.subtype = 1) :
    Reads (readData state header) (packArray packDouble ranges) { state with
      timestamp := header.timestamp, prdata := some ranges, readyPrdata := true } := by
  rw [readData, if_pos isRange]
  exact (reads_readVector fits).map fun ranges => { state with
    timestamp := header.timestamp, prdata := some ranges, readyPrdata := true }

theorem reads_intensities (state : State) {intensities : List (BitVec 64)}
    (fits : intensities.length * 8 + 4 < 2 ^ 31) (isIntns : header.subtype = 3) :
    Reads (readData state header) (packArray packDouble intensities) { state with
      timestamp := header.timestamp, printn := some intensities, readyPrintn := true } := by
  rw [readData, if_neg (by rw [isIntns]; decide), if_pos isIntns]
  exact (reads_readVector fits).map fun intensities => { state with
    timestamp := header.timestamp, printn := some intensities, readyPrintn := true }

theorem reads_config (state : State) (config : Doubles 7) (isConfig : header.subtype = 5) :
    Reads (handleResponse state header) (packDoubles config.1)
      { state with prconf := some config, readyPrconf := true } := by
  have length : (packDoubles config.1).length = 56 := by simp [config.2]
  rw [handleResponse, if_neg (by rw [isConfig]; decide), if_pos isConfig]
  exact reads_stored (fun data => (XdrBufferDecodingStream.textRelation data).doubles 7)
    (reads_doubles config) length (by decide) (by decide)

end RangerInterface

namespace BlobfinderInterface

theorem reads_blobs (state : State) {data : PlayerBlobfinderData}
    (fits : data.blobs.length * 40 < 2 ^ 31) (isBlobs : header.subtype = 1) :
    Reads (readData state header) (packBlobs data) { state with
      timestamp := header.timestamp, pbdata := some data, readyPbdata := true } := by
  let count := beBytes (BitVec.ofNat 32 data.blobs.length) 4
  have headReads : Reads (decodeHead : TextM (BitVec 32 × BitVec 32 × BitVec 32))
      (beBytes data.width 4 ++ (beBytes data.height 4 ++ count))
      (data.width, data.height, BitVec.ofNat 32 data.blobs.length) := by
    apply (reads_int data.width).bind
    apply (reads_int data.height).bind
    exact (reads_int _).map fun count => (data.width, data.height, count)
  have head := reads_readFront
    (fun data => (XdrBufferDecodingStream.textRelation data).blobHead) headReads
    (by simp [count] : (16 : BitVec 32).toInt = (_ ++ count).length) (by simp [count])
  have blobs := reads_readItems (fun data => (XdrBufferDecodingStream.textRelation data).blob)
    reads_blob length_packBlob (by decide) (by omega) fits
  have text : packBlobs data = beBytes data.width 4 ++ (beBytes data.height 4 ++ count) ++ count ++
      (data.blobs.map packBlob).flatten := by
    simp [packBlobs, packArray, count]
  rw [text, readData, if_pos isBlobs]
  apply head.bind
  exact blobs.map fun blobs => { state with
    timestamp := header.timestamp
    pbdata := some ⟨data.width, data.height, blobs⟩
    readyPbdata := true }

end BlobfinderInterface

namespace FiducialInterface

theorem reads_scan (state : State) {fiducials : List PlayerFiducialItem}
    (fits : fiducials.length * 100 < 2 ^ 31) (isScan : header.subtype = 1) :
    Reads (readData state header) (packArray packFiducial fiducials) { state with
      timestamp := header.timestamp, pfdata := some fiducials, readyPfdata := true } := by
  let count := beBytes (BitVec.ofNat 32 fiducials.length) 4
  have head := reads_readFront (fun data => (XdrBufferDecodingStream.textRelation data).int)
    (reads_int (BitVec.ofNat 32 fiducials.length))
    (by simp [count] : (8 : BitVec 32).toInt = (_ ++ count).length) (by simp [count])
  have items := reads_readItems (fun data => (XdrBufferDecodingStream.textRelation data).fiducial)
    reads_fiducial length_packFiducial (by decide) (by omega) fits
  rw [packArray, ← List.append_assoc, readData, if_pos isScan]
  apply head.bind
  exact items.map fun fiducials => { state with
    timestamp := header.timestamp, pfdata := some fiducials, readyPfdata := true }

theorem reads_geom (state : State) (geom : Doubles 11) (isGeom : header.subtype = 1) :
    Reads (handleResponse state header) (packDoubles geom.1)
      { state with pfgeom := some geom, readyPfgeom := true } := by
  have length : (packDoubles geom.1).length = 88 := by simp [geom.2]
  rw [handleResponse, if_pos isGeom]
  exact reads_stored (fun data => (XdrBufferDecodingStream.textRelation data).doubles 11)
    (reads_doubles geom) length (by decide) (by decide)

theorem reads_fov (state : State) (fov : BitVec 32 × BitVec 32 × BitVec 32)
    (isFov : header.subtype = 2) :
    Reads (handleResponse state header) (packFov fov)
      { state with pffov := some fov, readyPffov := true } := by
  have length : (packFov fov).length = 12 := by simp [packFov]
  rw [handleResponse, if_neg (by rw [isFov]; decide), if_pos isFov]
  exact reads_stored (fun data => (XdrBufferDecodingStream.textRelation data).fov)
    (MrsOptimization.reads_fov fov) length (by decide) (by decide)

theorem reads_id (state : State) (id : BitVec 32) (isId : header.subtype = 7) :
    Reads (handleResponse state header) (beBytes id 4)
      { state with pfid := id, readyPfid := true } := by
  rw [handleResponse, if_neg (by rw [isId]; decide), if_neg (by rw [isId]; decide), if_pos isId]
  exact reads_stored (fun data => (XdrBufferDecodingStream.textRelation data).int)
    (reads_int id) (length_beBytes id 4) (by decide) (by decide)

end FiducialInterface

end Messages

end MrsOptimization
