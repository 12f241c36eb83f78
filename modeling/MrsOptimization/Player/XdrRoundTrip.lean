import MrsOptimization.Library.ListReaders
import MrsOptimization.Player.XdrDecodingBuffer
import MrsOptimization.Player.XdrEncodingBuffer

/-!
# What is encoded is decoded

The bytes of an item are the chunks that its method puts one after another.
Decoding takes away exactly these bytes and returns the item, up to the two
things that the encoding forgets: which NaN a number was, and what the charset
does not keep of a string.
-/

namespace MrsOptimization

namespace XdrScalar

variable (charset : Charset)

/-- The high and the low `int` of a `long`. -/
def longChunks (value : BitVec 64) : List (List Byte) :=
  [beBytes ((value >>> 32).setWidth 32 : BitVec 32) 4, beBytes (value.setWidth 32 : BitVec 32) 4]

/-- The length of an array and its bytes with their padding. -/
def opaqueChunks (value : JavaArray Byte) : List (List Byte) :=
  [beBytes value.length 4, padded value.values]

/-- What encoding a value puts, method call by method call. -/
def chunks : (type : XdrScalar) → type.Carrier → List (List Byte)
  | .byte, value => [beBytes (BitVec.signExtend 32 value) 4]
  | .short, value => [beBytes (BitVec.signExtend 32 value) 4]
  | .int, value => [beBytes value 4]
  | .long, value => longChunks value
  | .float, value => [beBytes (floatToIntBits value) 4]
  | .double, value => longChunks (doubleToLongBits value)
  | .boolean, value => [beBytes (if value then 1 else 0 : BitVec 32) 4]
  | .string, value => opaqueChunks (charset.getBytes value)

/-- What decoding returns for a value. -/
def normal : (type : XdrScalar) → type.Carrier → type.Carrier
  | .byte, value => value
  | .short, value => value
  | .int, value => value
  | .long, value => value
  | .float, value => floatToIntBits value
  | .double, value => doubleToLongBits value
  | .boolean, value => value
  | .string, value =>
      if (charset.getBytes value).values = [] then [] else
        charset.newString (charset.getBytes value)

end XdrScalar

namespace XdrItem

variable (charset : Charset)

def chunks : XdrItem → List (List Byte)
  | .scalar type value => type.chunks charset value
  | .vector type value => beBytes value.length 4 :: value.values.flatMap (type.chunks charset)
  | .fixedVector type value => value.values.flatMap (type.chunks charset)
  | .opaqueBytes value => [padded value.values]
  | .dynamicOpaque value => XdrScalar.opaqueChunks value

/-- The encoding of an item. -/
def bytes (item : XdrItem) : List Byte :=
  (item.chunks charset).flatten

def normal : XdrItem → XdrItem
  | .scalar type value => .scalar type (type.normal charset value)
  | .vector type value => .vector type (value.map (type.normal charset))
  | .fixedVector type value => .fixedVector type (value.map (type.normal charset))
  | .opaqueBytes value => .opaqueBytes value
  | .dynamicOpaque value => .dynamicOpaque value

end XdrItem

section Puts

variable {charset : Charset}

/-- Programs on a sink of bytes. -/
abbrev SinkM := EStateM XdrException (Sink Byte)

/-- The chunks, put one after another. -/
def putChunks (chunks : List (List Byte)) : SinkM Unit :=
  chunks.forM (Sink.put .bufferOverflow)

theorem putChunks_singleton (chunk : List Byte) :
    putChunks [chunk] = Sink.put .bufferOverflow chunk := by
  change (Sink.put .bufferOverflow chunk >>= fun _ => pure () : SinkM Unit) = _
  exact bind_pure _

theorem putChunks_append (first rest : List (List Byte)) :
    putChunks (first ++ rest) = (do putChunks first; putChunks rest : SinkM Unit) := by
  simp only [putChunks, List.forM_eq_forM, List.forM_append]

theorem putChunks_flatMap {α : Type} (values : List α) (chunks : α → List (List Byte)) :
    values.forM (fun value => putChunks (chunks value)) = putChunks (values.flatMap chunks) := by
  induction values with
  | nil => rfl
  | cons value rest ih =>
      rw [List.flatMap_cons, putChunks_append, ← ih]
      rfl

theorem xdrEncodeInt_eq (value : BitVec 32) :
    (XdrEncodingStream.xdrEncodeInt value : SinkM Unit) = putChunks [beBytes value 4] :=
  (putChunks_singleton _).symm

theorem xdrEncodeOpaque_eq (value : JavaArray Byte) :
    (XdrEncodingStream.xdrEncodeOpaque value 0 value.length : SinkM Unit) =
      putChunks [padded value.values] := by
  have whole : slice value (0 : BitVec 32).toInt value.length.toInt = some value.values := by
    simp [slice]
  rw [putChunks_singleton]
  simp only [XdrEncodingStream.xdrEncodeOpaque, whole]

theorem xdrEncodeLong_eq (value : BitVec 64) :
    (XdrEncodingStream.xdrEncodeLong value : SinkM Unit) =
      putChunks (XdrScalar.longChunks value) := by
  have unmasked : (value &&& (0xFFFFFFFF#32).signExtend 64).setWidth 32 =
      (value.setWidth 32 : BitVec 32) := by
    have mask : (0xFFFFFFFF#32).signExtend 64 = BitVec.allOnes 64 := by decide
    rw [mask, BitVec.and_allOnes]
  rw [XdrEncodingStream.xdrEncodeLong, unmasked, xdrEncodeInt_eq, xdrEncodeInt_eq,
    ← putChunks_append]
  rfl

theorem xdrEncodeDynamicOpaque_eq (value : JavaArray Byte) :
    (XdrEncodingStream.xdrEncodeDynamicOpaque value : SinkM Unit) =
      putChunks (XdrScalar.opaqueChunks value) := by
  rw [XdrEncodingStream.xdrEncodeDynamicOpaque, XdrEncodingStream.xdrEncodeWholeOpaque,
    xdrEncodeInt_eq, xdrEncodeOpaque_eq, ← putChunks_append]
  rfl

theorem XdrScalar.encode_eq (type : XdrScalar) (value : type.Carrier) :
    (type.encode charset value : SinkM Unit) = putChunks (type.chunks charset value) := by
  cases type
  case byte => exact xdrEncodeInt_eq _
  case short => exact xdrEncodeInt_eq _
  case int => exact xdrEncodeInt_eq _
  case long => exact xdrEncodeLong_eq _
  case float => exact xdrEncodeInt_eq _
  case double => exact xdrEncodeLong_eq _
  case boolean => exact xdrEncodeInt_eq _
  case string => exact xdrEncodeDynamicOpaque_eq _

theorem XdrScalar.forM_encode_eq (type : XdrScalar) (values : List type.Carrier) :
    (values.forM (type.encode charset) : SinkM Unit) =
      putChunks (values.flatMap (type.chunks charset)) := by
  rw [← putChunks_flatMap]
  congr 1
  funext value
  exact type.encode_eq value

/-- Encoding an item puts its chunks. -/
theorem XdrItem.encode_eq (item : XdrItem) :
    (item.encode charset : SinkM Unit) = putChunks (item.chunks charset) := by
  cases item with
  | scalar type value => exact type.encode_eq value
  | vector type value =>
      change type.encodeVector charset value = _
      rw [type.encodeVector_eq, XdrEncodingStream.encodeVector, xdrEncodeInt_eq,
        type.forM_encode_eq, ← putChunks_append]
      rfl
  | fixedVector type value =>
      change type.encodeFixedVector charset value value.length = _
      rw [type.encodeFixedVector_eq, XdrEncodingStream.encodeFixedVector, if_neg (by simp),
        type.forM_encode_eq]
      rfl
  | opaqueBytes value =>
      change XdrEncodingStream.xdrEncodeFixedOpaque value value.length = _
      rw [XdrEncodingStream.xdrEncodeFixedOpaque, if_neg (by simp), xdrEncodeOpaque_eq]
      rfl
  | dynamicOpaque value => exact xdrEncodeDynamicOpaque_eq value

theorem forM_encode_eq (items : List XdrItem) :
    (items.forM (XdrItem.encode charset) : SinkM Unit) =
      putChunks (items.flatMap (XdrItem.chunks charset)) := by
  rw [← putChunks_flatMap]
  congr 1
  funext item
  exact item.encode_eq

end Puts

section Reading

open XdrDecodingStream

variable (charset : Charset)

/-- Programs on a text of bytes. -/
abbrev TextM := EStateM XdrException (List Byte)

theorem reads_int (value : BitVec 32) :
    Reads (xdrDecodeInt : TextM (BitVec 32)) (beBytes value 4) value := by
  intro rest
  have enough : 4 ≤ (beBytes value 4 ++ rest).length := by simp
  change (if 4 ≤ (beBytes value 4 ++ rest).length then _ else _) = _
  rw [if_pos enough, List.take_left' (length_beBytes value 4),
    List.drop_left' (length_beBytes value 4), ofBytes_beBytes (by decide)]

/-- A smaller number comes back from the `int` that it was widened to. -/
theorem setWidth_signExtend {bits : ℕ} (few : bits ≤ 32) (value : BitVec bits) :
    (value.signExtend 32).setWidth bits = value := by
  ext i inside
  have inside32 : i < 32 := by omega
  simp [BitVec.getElem_signExtend, inside, inside32]

/-- The signs of the two halves of a `long` leave no trace. -/
theorem join_long (value : BitVec 64) :
    (((value >>> 32).setWidth 32 : BitVec 32).signExtend 64 <<< 32) +
      ((value.setWidth 32 : BitVec 32).signExtend 64 &&& 0x00000000FFFFFFFF#64) = value := by
  apply BitVec.eq_of_toNat_eq
  have mask : (0x00000000FFFFFFFF#64).toNat = 2 ^ 32 - 1 := rfl
  simp only [BitVec.toNat_add, BitVec.toNat_shiftLeft, BitVec.toNat_and, mask,
    Nat.and_two_pow_sub_one_eq_mod, BitVec.toNat_signExtend, BitVec.toNat_setWidth,
    BitVec.toNat_ushiftRight, Nat.shiftLeft_eq, Nat.shiftRight_eq_div_pow]
  have := value.isLt
  split <;> split <;> omega

theorem reads_long (value : BitVec 64) :
    Reads (xdrDecodeLong : TextM (BitVec 64)) (XdrScalar.longChunks value).flatten value := by
  have reads : Reads (xdrDecodeLong : TextM (BitVec 64)) (XdrScalar.longChunks value).flatten
      ((((value >>> 32).setWidth 32 : BitVec 32).signExtend 64 <<< 32) +
        ((value.setWidth 32 : BitVec 32).signExtend 64 &&& 0x00000000FFFFFFFF#64)) := by
    apply (reads_int _).bind
    apply (reads_int _).bind
    exact .pure _
  rwa [join_long] at reads

theorem readOpaque_padded (value target : JavaArray Byte)
    (lengths : target.values.length = value.values.length) :
    Reads (readOpaque target 0 value.length) (padded value.values) value := by
  intro rest
  have aligned := length_padded value.values
  have taken : firstBytes (padded value.values ++ rest) value.length = value := by
    apply JavaArray.ext
    simp [firstBytes, padded]
  rw [readOpaque, value.toNat_toInt_length, taken, value.toInt_length]
  by_cases some_ : value.values = []
  · have same : target = value := by
      apply JavaArray.ext
      rw [some_] at lengths ⊢
      exact List.length_eq_zero_iff.mp lengths
    simp [some_, padded, same]
  · have positive : ¬ (value.values.length : ℤ) ≤ 0 := by
      have := List.length_pos_iff.mpr some_
      omega
    have copied : JavaArray.arraycopy value 0 target (0 : BitVec 32).toInt value.values.length =
        some value := JavaArray.arraycopy_all lengths
    rw [if_neg positive, if_pos (by rw [List.length_append]; omega), copied]
    simp only [List.drop_left' aligned]

theorem newBytes_length (value : JavaArray Byte) :
    ∃ bytes : JavaArray Byte, bytes.values.length = value.values.length ∧
      (newBytes value.length : TextM (JavaArray Byte)) = pure bytes := by
  refine ⟨⟨List.replicate value.length.toInt.toNat 0, ?_⟩, ?_, ?_⟩
  · simpa using value.length_lt
  · simp
  · simp [newBytes, JavaArray.ofLength]

theorem reads_opaqueBytes (value : JavaArray Byte) :
    Reads (xdrDecodeOpaque value.length : TextM (JavaArray Byte)) (padded value.values) value := by
  rcases newBytes_length value with ⟨bytes, lengths, new⟩
  change Reads (newBytes value.length >>= fun bytes => readOpaque bytes 0 value.length) _ _
  rw [new, pure_bind]
  exact readOpaque_padded value bytes lengths

theorem reads_dynamicOpaque (value : JavaArray Byte) :
    Reads (xdrDecodeDynamicOpaque : TextM (JavaArray Byte))
      (XdrScalar.opaqueChunks value).flatten value := by
  rcases newBytes_length value with ⟨bytes, lengths, new⟩
  have body : Reads (newBytes value.length >>= fun bytes =>
      if value.length ≠ 0 then xdrDecodeWholeOpaque bytes else pure bytes :
        TextM (JavaArray Byte)) (padded value.values) value := by
    rw [new, pure_bind]
    have sameLength : bytes.length = value.length := by
      rw [JavaArray.length, JavaArray.length, lengths]
    split
    · have reads := readOpaque_padded value bytes lengths
      rwa [← sameLength] at reads
    · next zero =>
        have none_ := JavaArray.values_eq_nil (not_not.mp zero)
        have same : bytes = value := by
          apply JavaArray.ext
          rw [none_] at lengths ⊢
          exact List.length_eq_zero_iff.mp lengths
        rw [none_, same]
        exact .pure value
  have reads : Reads (xdrDecodeDynamicOpaque : TextM (JavaArray Byte))
      (beBytes value.length 4 ++ padded value.values) value := by
    apply (reads_int value.length).bind
    exact body
  simpa [XdrScalar.opaqueChunks] using reads

theorem reads_string (value : JavaString) :
    Reads (xdrDecodeString charset : TextM JavaString)
      (XdrScalar.opaqueChunks (charset.getBytes value)).flatten
      (XdrScalar.normal charset .string value) := by
  generalize bytesOf : charset.getBytes value = array
  rcases newBytes_length array with ⟨bytes, lengths, new⟩
  have body : Reads (if 0 < array.length.toInt then do
        let bytes ← newBytes array.length
        let bytes ← XdrDecodingStream.xdrDecodeOpaqueInto bytes 0 array.length
        pure (charset.newString bytes)
      else pure [] : TextM JavaString) (padded array.values)
      (XdrScalar.normal charset .string value) := by
    simp only [XdrScalar.normal, bytesOf]
    by_cases none_ : array.values = []
    · rw [if_neg (by simp [none_]), if_pos none_, none_]
      exact .pure _
    · have positive : 0 < array.length.toInt := by
        have := List.length_pos_iff.mpr none_
        rw [array.toInt_length]
        omega
      rw [if_pos positive, if_neg none_, new, pure_bind]
      exact (readOpaque_padded array bytes lengths).map charset.newString
  have reads : Reads (xdrDecodeString charset : TextM JavaString)
      (beBytes array.length 4 ++ padded array.values)
      (XdrScalar.normal charset .string value) := by
    apply (reads_int array.length).bind
    exact body
  simpa [XdrScalar.opaqueChunks] using reads

theorem reads_boolean (value : Bool) :
    Reads (xdrDecodeBoolean : TextM Bool) (beBytes (if value then 1 else 0 : BitVec 32) 4)
      value := by
  have reads := (reads_int (if value then 1 else 0)).map (· != 0)
  cases value <;> exact reads

theorem reads_scalar (type : XdrScalar) (value : type.Carrier) :
    Reads (type.decode charset : TextM type.Carrier) (type.chunks charset value).flatten
      (type.normal charset value) := by
  cases type
  case byte =>
    have reads := (reads_int (BitVec.signExtend 32 value)).map (BitVec.setWidth 8)
    rw [setWidth_signExtend (by decide)] at reads
    exact reads.flatten_singleton
  case short =>
    have reads := (reads_int (BitVec.signExtend 32 value)).map (BitVec.setWidth 16)
    rw [setWidth_signExtend (by decide)] at reads
    exact reads.flatten_singleton
  case int => exact (reads_int value).flatten_singleton
  case long => exact reads_long value
  case float => exact (reads_int (floatToIntBits value)).flatten_singleton
  case double => exact reads_long (doubleToLongBits value)
  case boolean => exact (reads_boolean value).flatten_singleton
  case string => exact reads_string charset value

/-- A loop that fills an array reads the items of the array one after another. -/
theorem reads_array {α γ : Type} {program : TextM α} {text : γ → List Byte} {value : γ → α}
    (reads : ∀ item, Reads program (text item) (value item)) {length : BitVec 32} {items : List γ}
    (count : length.toInt = items.length) :
    ∃ array : JavaArray α, array.values = items.map value ∧
      Reads (decodeFixedVector program length) (items.map text).flatten array := by
  rcases Reads.times reads (by rw [count, Int.toNat_natCast] : length.toInt.toNat = items.length)
    with ⟨values, map, readsAll⟩
  have small := length.toInt_lt
  refine ⟨⟨values.1, by rw [values.2]; omega⟩, map, ?_⟩
  rw [decodeFixedVector, if_pos (by omega)]
  exact readsAll.map fun values : {values : List α // values.length = length.toInt.toNat} =>
    (⟨values.1, by rw [values.2]; omega⟩ : JavaArray α)

theorem reads_decodeFixedVector (type : XdrScalar) (value : JavaArray type.Carrier) :
    Reads (decodeFixedVector (type.decode charset) value.length : TextM (JavaArray type.Carrier))
      (value.values.flatMap (type.chunks charset)).flatten (value.map (type.normal charset)) := by
  rcases reads_array (reads_scalar charset type) value.toInt_length with ⟨array, map, reads⟩
  have text : (value.values.flatMap (type.chunks charset)).flatten =
      (value.values.map fun value => (type.chunks charset value).flatten).flatten := by
    rw [List.flatMap, List.flatten_flatten, List.map_map]
    rfl
  have same : array = value.map (type.normal charset) := JavaArray.ext map
  rw [text, ← same]
  exact reads

theorem reads_fixedVector (type : XdrScalar) (value : JavaArray type.Carrier) :
    Reads (type.decodeFixedVector charset value.length : TextM (JavaArray type.Carrier))
      (value.values.flatMap (type.chunks charset)).flatten (value.map (type.normal charset)) := by
  have reads := reads_decodeFixedVector charset type value
  cases type
  case byte =>
    change Reads (xdrDecodeByteFixedVector value.length) _ _
    rw [xdrDecodeByteFixedVector]
    split
    · exact reads
    · next empty =>
        have none_ : value.values = [] := by
          apply List.length_eq_zero_iff.mp
          rw [value.toInt_length] at empty
          omega
        have same : value.map (XdrScalar.normal charset .byte) = .empty := by
          apply JavaArray.ext
          simp [JavaArray.map, JavaArray.empty, none_]
        rw [same, none_]
        exact .pure _
  all_goals exact reads

theorem reads_vector (type : XdrScalar) (value : JavaArray type.Carrier) :
    Reads (type.decodeVector charset : TextM (JavaArray type.Carrier))
      (beBytes value.length 4 ++ (value.values.flatMap (type.chunks charset)).flatten)
      (value.map (type.normal charset)) := by
  have reads := reads_fixedVector charset type value
  cases type <;> exact (reads_int value.length).bind reads

/-- Decoding takes away the bytes of an item and returns the item. -/
theorem reads_item (item : XdrItem) :
    Reads (item.type.decode charset : TextM XdrItem) (item.bytes charset)
      (item.normal charset) := by
  cases item with
  | scalar type value => exact (reads_scalar charset type value).map (XdrItem.scalar type)
  | vector type value => exact (reads_vector charset type value).map (XdrItem.vector type)
  | fixedVector type value =>
      exact (reads_fixedVector charset type value).map (XdrItem.fixedVector type)
  | opaqueBytes value => exact ((reads_opaqueBytes value).map XdrItem.opaqueBytes).flatten_singleton
  | dynamicOpaque value => exact (reads_dynamicOpaque value).map XdrItem.dynamicOpaque

theorem reads_items (items : List XdrItem) :
    Reads ((items.map XdrItem.type).mapM' (XdrType.decode charset) : TextM (List XdrItem))
      (items.map (XdrItem.bytes charset)).flatten (items.map (XdrItem.normal charset)) := by
  induction items with
  | nil => exact .pure _
  | cons item rest ih =>
      rw [List.map_cons, List.map_cons, List.flatten_cons]
      apply (reads_item charset item).bind
      exact ih.map (item.normal charset :: ·)

end Reading

end MrsOptimization
