import MrsOptimization.Player.XdrStreams

/-!
# Values on an XDR stream

`XdrItem` is one value that a stream encodes with one of its methods, `XdrType`
the method that decodes it. Whatever relates the abstract methods of two streams
relates encoding and decoding of all items.
-/

namespace MrsOptimization

/-- The types that have a method for one value, for a vector and for a fixed vector. -/
inductive XdrScalar
  | byte
  | short
  | int
  | long
  | float
  | double
  | boolean
  | string
deriving DecidableEq, Repr

namespace XdrScalar

abbrev Carrier : XdrScalar → Type
  | .byte => Byte
  | .short => BitVec 16
  | .int => BitVec 32
  | .long => BitVec 64
  | .float => BitVec 32
  | .double => BitVec 64
  | .boolean => Bool
  | .string => JavaString

section Encoding

open XdrEncodingStream

variable {m : Type → Type} [Monad m] [MonadExceptOf XdrException m] [XdrEncodingStream m]

def encode (charset : Charset) : (type : XdrScalar) → type.Carrier → m Unit
  | .byte => xdrEncodeByte
  | .short => xdrEncodeShort
  | .int => xdrEncodeInt
  | .long => xdrEncodeLong
  | .float => xdrEncodeFloat
  | .double => xdrEncodeDouble
  | .boolean => xdrEncodeBoolean
  | .string => xdrEncodeString charset

def encodeVector (charset : Charset) : (type : XdrScalar) → JavaArray type.Carrier → m Unit
  | .byte => xdrEncodeByteVector
  | .short => xdrEncodeShortVector
  | .int => xdrEncodeIntVector
  | .long => xdrEncodeLongVector
  | .float => xdrEncodeFloatVector
  | .double => xdrEncodeDoubleVector
  | .boolean => xdrEncodeBooleanVector
  | .string => xdrEncodeStringVector charset

def encodeFixedVector (charset : Charset) :
    (type : XdrScalar) → JavaArray type.Carrier → BitVec 32 → m Unit
  | .byte => xdrEncodeByteFixedVector
  | .short => xdrEncodeShortFixedVector
  | .int => xdrEncodeIntFixedVector
  | .long => xdrEncodeLongFixedVector
  | .float => xdrEncodeFloatFixedVector
  | .double => xdrEncodeDoubleFixedVector
  | .boolean => xdrEncodeBooleanFixedVector
  | .string => xdrEncodeStringFixedVector charset

omit [MonadExceptOf XdrException m] in
theorem encodeVector_eq (charset : Charset) (type : XdrScalar) :
    (type.encodeVector charset : JavaArray type.Carrier → m Unit) =
      XdrEncodingStream.encodeVector (type.encode charset) := by
  cases type
  case byte => exact xdrEncodeByteVector_eq
  all_goals rfl

theorem encodeFixedVector_eq (charset : Charset) (type : XdrScalar) :
    (type.encodeFixedVector charset : JavaArray type.Carrier → BitVec 32 → m Unit) =
      XdrEncodingStream.encodeFixedVector (type.encode charset) := by
  cases type
  case byte => exact xdrEncodeByteFixedVector_eq
  all_goals rfl

end Encoding

section Decoding

open XdrDecodingStream

variable {m : Type → Type} [Monad m] [MonadExceptOf XdrException m] [XdrDecodingStream m]

def decode (charset : Charset) : (type : XdrScalar) → m type.Carrier
  | .byte => xdrDecodeByte
  | .short => xdrDecodeShort
  | .int => xdrDecodeInt
  | .long => xdrDecodeLong
  | .float => xdrDecodeFloat
  | .double => xdrDecodeDouble
  | .boolean => xdrDecodeBoolean
  | .string => xdrDecodeString charset

def decodeVector (charset : Charset) : (type : XdrScalar) → m (JavaArray type.Carrier)
  | .byte => xdrDecodeByteVector
  | .short => xdrDecodeShortVector
  | .int => xdrDecodeIntVector
  | .long => xdrDecodeLongVector
  | .float => xdrDecodeFloatVector
  | .double => xdrDecodeDoubleVector
  | .boolean => xdrDecodeBooleanVector
  | .string => xdrDecodeStringVector charset

def decodeFixedVector (charset : Charset) :
    (type : XdrScalar) → BitVec 32 → m (JavaArray type.Carrier)
  | .byte => xdrDecodeByteFixedVector
  | .short => xdrDecodeShortFixedVector
  | .int => xdrDecodeIntFixedVector
  | .long => xdrDecodeLongFixedVector
  | .float => xdrDecodeFloatFixedVector
  | .double => xdrDecodeDoubleFixedVector
  | .boolean => xdrDecodeBooleanFixedVector
  | .string => xdrDecodeStringFixedVector charset

end Decoding

end XdrScalar

/-- A value and the method that encodes it. -/
inductive XdrItem
  | scalar (type : XdrScalar) (value : type.Carrier)
  | vector (type : XdrScalar) (value : JavaArray type.Carrier)
  | fixedVector (type : XdrScalar) (value : JavaArray type.Carrier)
  | opaqueBytes (value : JavaArray Byte)
  | dynamicOpaque (value : JavaArray Byte)

/-- A method that decodes a value, with the length that the caller has to know. -/
inductive XdrType
  | scalar (type : XdrScalar)
  | vector (type : XdrScalar)
  | fixedVector (type : XdrScalar) (length : BitVec 32)
  | opaqueBytes (length : BitVec 32)
  | dynamicOpaque
deriving DecidableEq, Repr

def XdrItem.type : XdrItem → XdrType
  | .scalar type _ => .scalar type
  | .vector type _ => .vector type
  | .fixedVector type value => .fixedVector type value.length
  | .opaqueBytes value => .opaqueBytes value.length
  | .dynamicOpaque _ => .dynamicOpaque

section Encoding

variable {m n : Type → Type} [Monad m] [MonadExceptOf XdrException m] [XdrEncodingStream m]
variable [Monad n] [MonadExceptOf XdrException n] [XdrEncodingStream n]

def XdrItem.encode (charset : Charset) : XdrItem → m Unit
  | .scalar type value => type.encode charset value
  | .vector type value => type.encodeVector charset value
  | .fixedVector type value => type.encodeFixedVector charset value value.length
  | .opaqueBytes value => XdrEncodingStream.xdrEncodeFixedOpaque value value.length
  | .dynamicOpaque value => XdrEncodingStream.xdrEncodeDynamicOpaque value

/-- A relation of programs that the abstract encoding methods keep. -/
structure EncoderRelation (m n : Type → Type) [Monad m] [MonadExceptOf XdrException m]
    [XdrEncodingStream m] [Monad n] [MonadExceptOf XdrException n] [XdrEncodingStream n]
    extends MonadRelation m n where
  throw : ∀ exception, Related (throw exception : m Unit) (throw exception)
  int : ∀ value, Related (XdrEncodingStream.xdrEncodeInt value)
    (XdrEncodingStream.xdrEncodeInt value)
  opaqueBytes : ∀ value offset length,
    Related (XdrEncodingStream.xdrEncodeOpaque value offset length)
      (XdrEncodingStream.xdrEncodeOpaque value offset length)

namespace EncoderRelation

open XdrEncodingStream

variable (R : EncoderRelation m n) (charset : Charset)

theorem fixedOpaque (value : JavaArray Byte) (length : BitVec 32) :
    R.Related (xdrEncodeFixedOpaque value length) (xdrEncodeFixedOpaque value length) := by
  rw [xdrEncodeFixedOpaque, xdrEncodeFixedOpaque]
  split
  · exact R.throw _
  · exact R.opaqueBytes _ _ _

theorem dynamicOpaque (value : JavaArray Byte) :
    R.Related (xdrEncodeDynamicOpaque value) (xdrEncodeDynamicOpaque value) := by
  apply R.bind (R.int _)
  intro _
  exact R.opaqueBytes _ _ _

theorem scalar (type : XdrScalar) (value : type.Carrier) :
    R.Related (type.encode charset value) (type.encode charset value) := by
  cases type
  case byte => exact R.int _
  case short => exact R.int _
  case int => exact R.int _
  case long => exact R.bind (R.int _) fun _ => R.int _
  case float => exact R.int _
  case double => exact R.bind (R.int _) fun _ => R.int _
  case boolean => exact R.int _
  case string => exact R.dynamicOpaque _

theorem vector (type : XdrScalar) (value : JavaArray type.Carrier) :
    R.Related (type.encodeVector charset value) (type.encodeVector charset value) := by
  rw [type.encodeVector_eq, type.encodeVector_eq]
  apply R.bind (R.int _)
  intro _
  exact R.forM _ (R.scalar charset type)

theorem fixedVector (type : XdrScalar) (value : JavaArray type.Carrier) (length : BitVec 32) :
    R.Related (type.encodeFixedVector charset value length)
      (type.encodeFixedVector charset value length) := by
  rw [type.encodeFixedVector_eq, type.encodeFixedVector_eq, XdrEncodingStream.encodeFixedVector,
    XdrEncodingStream.encodeFixedVector]
  split
  · exact R.throw _
  · exact R.forM _ (R.scalar charset type)

theorem item (item : XdrItem) : R.Related (item.encode charset) (item.encode charset) := by
  cases item with
  | scalar type value => exact R.scalar charset type value
  | vector type value => exact R.vector charset type value
  | fixedVector type value => exact R.fixedVector charset type value _
  | opaqueBytes value => exact R.fixedOpaque value _
  | dynamicOpaque value => exact R.dynamicOpaque value

end EncoderRelation

end Encoding

section Decoding

variable {m n : Type → Type} [Monad m] [MonadExceptOf XdrException m] [XdrDecodingStream m]
variable [Monad n] [MonadExceptOf XdrException n] [XdrDecodingStream n]

def XdrType.decode (charset : Charset) : XdrType → m XdrItem
  | .scalar type => do
      let value ← type.decode charset
      pure (.scalar type value)
  | .vector type => do
      let value ← type.decodeVector charset
      pure (.vector type value)
  | .fixedVector type length => do
      let value ← type.decodeFixedVector charset length
      pure (.fixedVector type value)
  | .opaqueBytes length => do
      let value ← XdrDecodingStream.xdrDecodeOpaque length
      pure (.opaqueBytes value)
  | .dynamicOpaque => do
      let value ← XdrDecodingStream.xdrDecodeDynamicOpaque
      pure (.dynamicOpaque value)

/-- A relation of programs that the abstract decoding methods keep. -/
structure DecoderRelation (m n : Type → Type) [Monad m] [MonadExceptOf XdrException m]
    [XdrDecodingStream m] [Monad n] [MonadExceptOf XdrException n] [XdrDecodingStream n]
    extends MonadRelation m n where
  throw : ∀ {α : Type} exception, Related (throw exception : m α) (throw exception)
  int : Related (XdrDecodingStream.xdrDecodeInt) (XdrDecodingStream.xdrDecodeInt)
  opaqueBytes : ∀ length, Related (XdrDecodingStream.xdrDecodeOpaque length)
    (XdrDecodingStream.xdrDecodeOpaque length)
  /-- The methods never ask for a negative number of bytes. -/
  opaqueInto : ∀ target offset (length : BitVec 32), 0 ≤ length.toInt →
    Related (XdrDecodingStream.xdrDecodeOpaqueInto target offset length)
      (XdrDecodingStream.xdrDecodeOpaqueInto target offset length)

namespace DecoderRelation

open XdrDecodingStream

variable (R : DecoderRelation m n) (charset : Charset)

theorem newBytes (length : BitVec 32) :
    R.Related (newBytes length) (XdrDecodingStream.newBytes length) := by
  rw [XdrDecodingStream.newBytes, XdrDecodingStream.newBytes]
  split
  · exact R.pure _
  · exact R.throw _

theorem dynamicOpaque : R.Related xdrDecodeDynamicOpaque xdrDecodeDynamicOpaque := by
  apply R.bind R.int
  intro length
  apply R.bind (R.newBytes length)
  intro bytes
  split
  · apply R.opaqueInto
    simp
  · exact R.pure _

theorem long : R.Related xdrDecodeLong xdrDecodeLong := by
  apply R.bind R.int
  intro high
  apply R.bind R.int
  intro low
  exact R.pure _

theorem string : R.Related (xdrDecodeString charset) (xdrDecodeString charset) := by
  apply R.bind R.int
  intro length
  split
  · next positive =>
      apply R.bind (R.newBytes length)
      intro bytes
      apply R.bind (R.opaqueInto _ _ _ positive.le)
      intro filled
      exact R.pure _
  · exact R.pure _

theorem scalar (type : XdrScalar) : R.Related (type.decode charset) (type.decode charset) := by
  cases type
  case byte => exact R.bind R.int fun _ => R.pure _
  case short => exact R.bind R.int fun _ => R.pure _
  case int => exact R.int
  case long => exact R.long
  case float => exact R.int
  case double => exact R.long
  case boolean => exact R.bind R.int fun _ => R.pure _
  case string => exact R.string charset

theorem decodeFixedVector {α : Type} {decode : m α} {decode' : n α}
    (related : R.Related decode decode') (length : BitVec 32) :
    R.Related (decodeFixedVector decode length)
      (XdrDecodingStream.decodeFixedVector decode' length) := by
  rw [XdrDecodingStream.decodeFixedVector, XdrDecodingStream.decodeFixedVector]
  split
  · apply R.bind (R.times related _)
    intro values
    exact R.pure _
  · exact R.throw _

theorem fixedVector (type : XdrScalar) (length : BitVec 32) :
    R.Related (type.decodeFixedVector charset length) (type.decodeFixedVector charset length) := by
  have filled := R.decodeFixedVector (R.scalar charset type) length
  cases type
  case byte =>
    change R.Related (xdrDecodeByteFixedVector length) (xdrDecodeByteFixedVector length)
    rw [xdrDecodeByteFixedVector, xdrDecodeByteFixedVector]
    split
    · exact filled
    · exact R.pure _
  all_goals exact filled

theorem vector (type : XdrScalar) :
    R.Related (type.decodeVector charset) (type.decodeVector charset) := by
  have filled := R.fixedVector charset type
  cases type <;> exact R.bind R.int filled

theorem type (type : XdrType) : R.Related (type.decode charset) (type.decode charset) := by
  cases type with
  | scalar type => exact R.bind (R.scalar charset type) fun _ => R.pure _
  | vector type => exact R.bind (R.vector charset type) fun _ => R.pure _
  | fixedVector type length => exact R.bind (R.fixedVector charset type length) fun _ => R.pure _
  | opaqueBytes length => exact R.bind (R.opaqueBytes length) fun _ => R.pure _
  | dynamicOpaque => exact R.bind R.dynamicOpaque fun _ => R.pure _

end DecoderRelation

end Decoding

end MrsOptimization
