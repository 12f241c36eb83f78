import MrsOptimization.Library.JavaArray
import MrsOptimization.Library.MonadRelation

/-!
# XDR streams

`XdrEncodingStream` and `XdrDecodingStream` leave two or three methods to their
subclasses and make all the other ones of these. The methods are written for any
monad that has the abstract ones, so that the same methods run on the byte
buffers of the library and on plain lists of bytes.

A `float` and a `double` are their bit patterns, a `String` its UTF-16 code
units. No caller sets a character encoding, so the streams use the one of the
platform.
-/

namespace MrsOptimization

abbrev Byte := BitVec 8

abbrev JavaString := List (BitVec 16)

/-- `value.getBytes()` and `new String(bytes)` in the platform's encoding. -/
structure Charset where
  getBytes : JavaString → JavaArray Byte
  newString : JavaArray Byte → JavaString

/-- The encoding ISO 8859-1 of texts that fit into an array. -/
def Charset.latin1 : Charset where
  getBytes text :=
    if fits : text.length < 2 ^ 31 then ⟨text.map (BitVec.setWidth 8), by simpa using fits⟩
    else .empty
  newString bytes := bytes.values.map (BitVec.setWidth 16)

inductive XdrException
  | oncRpc (reason : ℤ)
  | illegalArgument (message : String)
  | indexOutOfBounds
  | nullPointer
  | negativeArraySize
deriving DecidableEq, Repr

namespace XdrException

/-- `RPC_BUFFEROVERFLOW` -/
def bufferOverflow : XdrException :=
  .oncRpc 42

/-- `RPC_BUFFERUNDERFLOW` -/
def bufferUnderflow : XdrException :=
  .oncRpc 43

def arraySizeMismatch : XdrException :=
  .illegalArgument "array size does not match protocol specification"

end XdrException

/-- `Float.floatToIntBits`: all NaN values have the same bits. -/
def floatToIntBits (value : BitVec 32) : BitVec 32 :=
  if value &&& 0x7F800000#32 = 0x7F800000#32 ∧ value &&& 0x007FFFFF#32 ≠ 0#32 then
    0x7FC00000#32
  else value

/-- `Double.doubleToLongBits` -/
def doubleToLongBits (value : BitVec 64) : BitVec 64 :=
  if value &&& 0x7FF0000000000000#64 = 0x7FF0000000000000#64 ∧
      value &&& 0x000FFFFFFFFFFFFF#64 ≠ 0#64 then
    0x7FF8000000000000#64
  else value

/-- The abstract methods of an encoding stream. -/
class XdrEncodingStream (m : Type → Type) where
  xdrEncodeInt (value : BitVec 32) : m Unit
  xdrEncodeOpaque (value : JavaArray Byte) (offset length : BitVec 32) : m Unit

namespace XdrEncodingStream

variable {m : Type → Type} [Monad m] [MonadExceptOf XdrException m] [XdrEncodingStream m]
variable {α : Type}

/-- `xdrEncodeOpaque(value)` -/
def xdrEncodeWholeOpaque (value : JavaArray Byte) : m Unit :=
  xdrEncodeOpaque value 0 value.length

/-- `xdrEncodeOpaque(value, length)` -/
def xdrEncodeFixedOpaque (value : JavaArray Byte) (length : BitVec 32) : m Unit :=
  if value.length ≠ length then throw .arraySizeMismatch
  else xdrEncodeOpaque value 0 value.length

def xdrEncodeDynamicOpaque (value : JavaArray Byte) : m Unit := do
  xdrEncodeInt value.length
  xdrEncodeWholeOpaque value

def xdrEncodeByte (value : Byte) : m Unit :=
  xdrEncodeInt (value.signExtend 32)

def xdrEncodeShort (value : BitVec 16) : m Unit :=
  xdrEncodeInt (value.signExtend 32)

/-- The mask `0xFFFFFFFF` is an `int`, so it does not mask anything. -/
def xdrEncodeLong (value : BitVec 64) : m Unit := do
  xdrEncodeInt ((value >>> 32).setWidth 32)
  xdrEncodeInt ((value &&& (0xFFFFFFFF#32).signExtend 64).setWidth 32)

def xdrEncodeFloat (value : BitVec 32) : m Unit :=
  xdrEncodeInt (floatToIntBits value)

def xdrEncodeDouble (value : BitVec 64) : m Unit :=
  xdrEncodeLong (doubleToLongBits value)

def xdrEncodeBoolean (value : Bool) : m Unit :=
  xdrEncodeInt (if value then 1 else 0)

def xdrEncodeString (charset : Charset) (value : JavaString) : m Unit :=
  xdrEncodeDynamicOpaque (charset.getBytes value)

def xdrEncodeByteVector (value : JavaArray Byte) : m Unit := do
  xdrEncodeInt value.length
  if value.length ≠ 0 then value.values.forM xdrEncodeByte else pure ()

def xdrEncodeByteFixedVector (value : JavaArray Byte) (length : BitVec 32) : m Unit :=
  if value.length ≠ length then throw .arraySizeMismatch
  else if length ≠ 0 then value.values.forM xdrEncodeByte
  else pure ()

/-- The body of the other vector methods. -/
def encodeVector (encode : α → m Unit) (value : JavaArray α) : m Unit := do
  xdrEncodeInt value.length
  value.values.forM encode

/-- The body of the other fixed vector methods. -/
def encodeFixedVector (encode : α → m Unit) (value : JavaArray α) (length : BitVec 32) :
    m Unit :=
  if value.length ≠ length then throw .arraySizeMismatch
  else value.values.forM encode

def xdrEncodeShortVector : JavaArray (BitVec 16) → m Unit :=
  encodeVector xdrEncodeShort

def xdrEncodeShortFixedVector : JavaArray (BitVec 16) → BitVec 32 → m Unit :=
  encodeFixedVector xdrEncodeShort

def xdrEncodeIntVector : JavaArray (BitVec 32) → m Unit :=
  encodeVector xdrEncodeInt

def xdrEncodeIntFixedVector : JavaArray (BitVec 32) → BitVec 32 → m Unit :=
  encodeFixedVector xdrEncodeInt

def xdrEncodeLongVector : JavaArray (BitVec 64) → m Unit :=
  encodeVector xdrEncodeLong

def xdrEncodeLongFixedVector : JavaArray (BitVec 64) → BitVec 32 → m Unit :=
  encodeFixedVector xdrEncodeLong

def xdrEncodeFloatVector : JavaArray (BitVec 32) → m Unit :=
  encodeVector xdrEncodeFloat

def xdrEncodeFloatFixedVector : JavaArray (BitVec 32) → BitVec 32 → m Unit :=
  encodeFixedVector xdrEncodeFloat

def xdrEncodeDoubleVector : JavaArray (BitVec 64) → m Unit :=
  encodeVector xdrEncodeDouble

def xdrEncodeDoubleFixedVector : JavaArray (BitVec 64) → BitVec 32 → m Unit :=
  encodeFixedVector xdrEncodeDouble

def xdrEncodeBooleanVector : JavaArray Bool → m Unit :=
  encodeVector xdrEncodeBoolean

def xdrEncodeBooleanFixedVector : JavaArray Bool → BitVec 32 → m Unit :=
  encodeFixedVector xdrEncodeBoolean

def xdrEncodeStringVector (charset : Charset) : JavaArray JavaString → m Unit :=
  encodeVector (xdrEncodeString charset)

def xdrEncodeStringFixedVector (charset : Charset) : JavaArray JavaString → BitVec 32 → m Unit :=
  encodeFixedVector (xdrEncodeString charset)

omit [MonadExceptOf XdrException m] [XdrEncodingStream m] in
/-- No value, no loop: the test of the length changes nothing. -/
theorem forM_unless_empty (value : JavaArray α) (encode : α → m Unit) :
    (if value.length ≠ 0 then value.values.forM encode else pure ()) =
      value.values.forM encode := by
  split
  · rfl
  · next zero =>
      rw [JavaArray.values_eq_nil (not_not.mp zero)]
      rfl

omit [MonadExceptOf XdrException m] in
theorem xdrEncodeByteVector_eq :
    (xdrEncodeByteVector : JavaArray Byte → m Unit) = encodeVector xdrEncodeByte := by
  funext value
  simp only [xdrEncodeByteVector, encodeVector, forM_unless_empty]

theorem xdrEncodeByteFixedVector_eq :
    (xdrEncodeByteFixedVector : JavaArray Byte → BitVec 32 → m Unit) =
      encodeFixedVector xdrEncodeByte := by
  funext value length
  by_cases fits : value.length = length
  · subst fits
    simp only [xdrEncodeByteFixedVector, encodeFixedVector, forM_unless_empty]
  · simp [xdrEncodeByteFixedVector, encodeFixedVector, fits]

end XdrEncodingStream

/-- The abstract methods of a decoding stream; the last one returns the array it fills. -/
class XdrDecodingStream (m : Type → Type) where
  xdrDecodeInt : m (BitVec 32)
  xdrDecodeOpaque (length : BitVec 32) : m (JavaArray Byte)
  xdrDecodeOpaqueInto (target : JavaArray Byte) (offset length : BitVec 32) : m (JavaArray Byte)

namespace XdrDecodingStream

variable {m : Type → Type} [Monad m] [MonadExceptOf XdrException m] [XdrDecodingStream m]
variable {α : Type}

/-- `new byte[length]` -/
def newBytes (length : BitVec 32) : m (JavaArray Byte) :=
  match JavaArray.ofLength 0#8 length with
  | some bytes => pure bytes
  | none => throw .negativeArraySize

/-- `xdrDecodeOpaque(opaque)` -/
def xdrDecodeWholeOpaque (target : JavaArray Byte) : m (JavaArray Byte) :=
  xdrDecodeOpaqueInto target 0 target.length

def xdrDecodeDynamicOpaque : m (JavaArray Byte) := do
  let length ← xdrDecodeInt
  let bytes ← newBytes length
  if length ≠ 0 then xdrDecodeWholeOpaque bytes else pure bytes

def xdrDecodeByte : m Byte := do
  let value ← xdrDecodeInt
  pure (value.setWidth 8)

def xdrDecodeShort : m (BitVec 16) := do
  let value ← xdrDecodeInt
  pure (value.setWidth 16)

def xdrDecodeLong : m (BitVec 64) := do
  let high ← xdrDecodeInt
  let low ← xdrDecodeInt
  pure ((high.signExtend 64 <<< 32) + (low.signExtend 64 &&& 0x00000000FFFFFFFF#64))

/-- `Float.intBitsToFloat` keeps the bits. -/
def xdrDecodeFloat : m (BitVec 32) :=
  xdrDecodeInt

def xdrDecodeDouble : m (BitVec 64) :=
  xdrDecodeLong

def xdrDecodeBoolean : m Bool := do
  let value ← xdrDecodeInt
  pure (value != 0)

def xdrDecodeString (charset : Charset) : m JavaString := do
  let length ← xdrDecodeInt
  if 0 < length.toInt then do
    let bytes ← newBytes length
    let bytes ← xdrDecodeOpaqueInto bytes 0 length
    pure (charset.newString bytes)
  else pure []

/-- The body of the fixed vector methods: a new array, filled by a loop. -/
def decodeFixedVector (decode : m α) (length : BitVec 32) : m (JavaArray α) :=
  if 0 ≤ length.toInt then do
    let values ← times decode length.toInt.toNat
    pure ⟨values.1, by
      have := length.toInt_lt
      rw [values.2]
      omega⟩
  else throw .negativeArraySize

/-- The body of the vector methods. -/
def decodeVector (decode : m α) : m (JavaArray α) := do
  let length ← xdrDecodeInt
  decodeFixedVector decode length

/-- Unlike the other ones, the byte vectors take a negative length for no values. -/
def xdrDecodeByteFixedVector (length : BitVec 32) : m (JavaArray Byte) :=
  if 0 < length.toInt then decodeFixedVector xdrDecodeByte length else pure .empty

def xdrDecodeByteVector : m (JavaArray Byte) := do
  let length ← xdrDecodeInt
  xdrDecodeByteFixedVector length

def xdrDecodeShortVector : m (JavaArray (BitVec 16)) :=
  decodeVector xdrDecodeShort

def xdrDecodeShortFixedVector : BitVec 32 → m (JavaArray (BitVec 16)) :=
  decodeFixedVector xdrDecodeShort

def xdrDecodeIntVector : m (JavaArray (BitVec 32)) :=
  decodeVector xdrDecodeInt

def xdrDecodeIntFixedVector : BitVec 32 → m (JavaArray (BitVec 32)) :=
  decodeFixedVector xdrDecodeInt

def xdrDecodeLongVector : m (JavaArray (BitVec 64)) :=
  decodeVector xdrDecodeLong

def xdrDecodeLongFixedVector : BitVec 32 → m (JavaArray (BitVec 64)) :=
  decodeFixedVector xdrDecodeLong

def xdrDecodeFloatVector : m (JavaArray (BitVec 32)) :=
  decodeVector xdrDecodeFloat

def xdrDecodeFloatFixedVector : BitVec 32 → m (JavaArray (BitVec 32)) :=
  decodeFixedVector xdrDecodeFloat

def xdrDecodeDoubleVector : m (JavaArray (BitVec 64)) :=
  decodeVector xdrDecodeDouble

def xdrDecodeDoubleFixedVector : BitVec 32 → m (JavaArray (BitVec 64)) :=
  decodeFixedVector xdrDecodeDouble

def xdrDecodeBooleanVector : m (JavaArray Bool) :=
  decodeVector xdrDecodeBoolean

def xdrDecodeBooleanFixedVector : BitVec 32 → m (JavaArray Bool) :=
  decodeFixedVector xdrDecodeBoolean

def xdrDecodeStringVector (charset : Charset) : m (JavaArray JavaString) :=
  decodeVector (xdrDecodeString charset)

def xdrDecodeStringFixedVector (charset : Charset) : BitVec 32 → m (JavaArray JavaString) :=
  decodeFixedVector (xdrDecodeString charset)

end XdrDecodingStream

end MrsOptimization
