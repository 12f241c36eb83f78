import MrsOptimization.Player.XdrMessages

/-!
# What is decoded has been encoded alike

A decoder accepts more than an encoder writes: any padding, any number for
`true`, any high bytes of a `byte`. Still the bytes that it takes are as many as
encoding the decoded items writes, and for the types of `Exact` the same ones.
-/

namespace MrsOptimization

open XdrDecodingStream

namespace XdrScalar

/-- The number of bytes of a value, where the type says it. -/
def width : XdrScalar → ℕ
  | .long => 8
  | .double => 8
  | _ => 4

/-- The types of which every encoding is decoded without loss. -/
def Exact (type : XdrScalar) : Prop :=
  type = .int ∨ type = .long

/-- A text that is as long as the encoding of a value, and for some types the encoding. -/
structure Alike (charset : Charset) (type : XdrScalar) (value : type.Carrier) (text : List Byte) :
    Prop where
  length : text.length = (type.chunks charset value).flatten.length
  exact_ : type.Exact → text = (type.chunks charset value).flatten

end XdrScalar

variable (charset : Charset)

/-- The types without strings, whose bytes a charset may change. -/
def XdrType.Plain : XdrType → Prop
  | .scalar type => type ≠ .string
  | .vector type => type ≠ .string
  | .fixedVector type _ => type ≠ .string
  | _ => True

def XdrType.Exact : XdrType → Prop
  | .scalar type => type.Exact
  | .vector type => type.Exact
  | .fixedVector type _ => type.Exact
  | _ => False

end MrsOptimization
