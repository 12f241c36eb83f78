import MrsOptimization.Library.BigEndian
import MrsOptimization.Library.BoundedSink
import MrsOptimization.Library.MachineInt
import MrsOptimization.Player.XdrItems

/-!
# Encoding into a buffer

`XdrBufferEncodingStream` writes into a byte array that does not grow. Its
purpose is a sink with room for so many bytes, and it does what the sink does:
`Encodes` relates the two, and both methods keep it, also when they throw.
-/

namespace MrsOptimization

structure XdrBufferEncodingStream where
  /-- `none` once the stream is closed. -/
  buffer : Option (JavaArray Byte)
  bufferIndex : ℤ
  bufferHighmark : ℤ
deriving DecidableEq, Repr

/-- Programs on a buffer that is encoded into. -/
abbrev EncodeM := EStateM XdrException XdrBufferEncodingStream

namespace XdrBufferEncodingStream

def bufferSizeMessage : String :=
  "size of buffer must be a multiple of four and must not be negative"

/-- `new XdrBufferEncodingStream(bufferSize)` -/
def ofSize (bufferSize : BitVec 32) : Except XdrException XdrBufferEncodingStream :=
  if bufferSize.toInt < 0 ∨ bufferSize.toInt % 4 ≠ 0 then
    .error (.illegalArgument bufferSizeMessage)
  else
    match JavaArray.ofLength 0#8 bufferSize with
    | some buffer => .ok ⟨some buffer, 0, buffer.values.length - 4⟩
    | none => .error .negativeArraySize

/-- `new XdrBufferEncodingStream(buffer)` -/
def ofBuffer (buffer : JavaArray Byte) : Except XdrException XdrBufferEncodingStream :=
  if buffer.values.length % 4 ≠ 0 then
    .error (.illegalArgument "size of buffer must be a multiple of four")
  else .ok ⟨some buffer, 0, buffer.values.length - 4⟩

def getXdrLength (stream : XdrBufferEncodingStream) : ℤ :=
  stream.bufferIndex

def getXdrData (stream : XdrBufferEncodingStream) : Option (JavaArray Byte) :=
  stream.buffer

def beginEncoding : EncodeM Unit :=
  modify fun stream => { stream with bufferIndex := 0 }

def endEncoding : EncodeM Unit :=
  pure ()

def close : EncodeM Unit :=
  modify fun stream => { stream with buffer := none }

/-- `buffer[bufferIndex++] = value`: the index grows even if the access fails. -/
def putByte (value : Byte) : EncodeM Unit := fun stream =>
  let next := { stream with bufferIndex := wrap 32 (stream.bufferIndex + 1) }
  match stream.buffer with
  | none => .error .nullPointer next
  | some buffer =>
    match buffer.set stream.bufferIndex value with
    | none => .error .indexOutOfBounds next
    | some buffer => .ok () { next with buffer := some buffer }

def xdrEncodeInt (value : BitVec 32) : EncodeM Unit := do
  let stream ← get
  if stream.bufferIndex ≤ stream.bufferHighmark then do
    putByte ((value >>> 24).setWidth 8)
    putByte ((value >>> 16).setWidth 8)
    putByte ((value >>> 8).setWidth 8)
    putByte (value.setWidth 8)
  else throw .bufferOverflow

/-- `System.arraycopy(source, offset, buffer, bufferIndex, length); bufferIndex += length` -/
def putBytes (source : JavaArray Byte) (offset length : ℤ) : EncodeM Unit := fun stream =>
  match stream.buffer with
  | none => .error .nullPointer stream
  | some buffer =>
    match JavaArray.arraycopy source offset buffer stream.bufferIndex length with
    | none => .error .indexOutOfBounds stream
    | some buffer =>
      .ok () { stream with
        buffer := some buffer
        bufferIndex := wrap 32 (stream.bufferIndex + length) }

def paddingZeros : JavaArray Byte :=
  ⟨[0, 0, 0, 0], by decide⟩

/-- `(4 - (length & 3)) & 3`, where `x & 3` is `x % 4`. -/
def padding (length : ℤ) : ℤ :=
  (4 - length % 4) % 4

/-- The test of `xdrEncodeOpaque`, in 32 bits. -/
def hasRoom (bufferIndex bufferHighmark length : ℤ) : Bool :=
  bufferIndex ≤ wrap 32 (bufferHighmark - wrap 32 (length + padding length - 4))

def xdrEncodeOpaque (value : JavaArray Byte) (offset length : BitVec 32) : EncodeM Unit := do
  let stream ← get
  if hasRoom stream.bufferIndex stream.bufferHighmark length.toInt then do
    putBytes value offset.toInt length.toInt
    if padding length.toInt ≠ 0 then putBytes paddingZeros 0 (padding length.toInt) else pure ()
  else throw .bufferOverflow

instance : XdrEncodingStream EncodeM where
  xdrEncodeInt := xdrEncodeInt
  xdrEncodeOpaque := xdrEncodeOpaque

end XdrBufferEncodingStream

/-- Bytes and the zeros that make their number a multiple of four. -/
def padded (bytes : List Byte) : List Byte :=
  bytes ++ List.replicate ((4 - bytes.length % 4) % 4) 0

theorem length_padded (bytes : List Byte) : (padded bytes).length = (bytes.length + 3) / 4 * 4 := by
  simp only [padded, List.length_append, List.length_replicate]
  omega

/-- The part of an array that `offset` and `length` name, if they name one. -/
def slice (value : JavaArray Byte) (offset length : ℤ) : Option (List Byte) :=
  if 0 ≤ offset ∧ 0 ≤ length ∧ offset + length ≤ value.values.length then
    some ((value.values.drop offset.toNat).take length.toNat)
  else none

/-- What the encoding stream is for. The test tells which exception a wrong part gives. -/
instance : XdrEncodingStream (EStateM XdrException (Sink Byte)) where
  xdrEncodeInt value := Sink.put .bufferOverflow (beBytes value 4)
  xdrEncodeOpaque value offset length :=
    match slice value offset.toInt length.toInt with
    | some bytes => Sink.put .bufferOverflow (padded bytes)
    | none => fun sink =>
      if XdrBufferEncodingStream.hasRoom sink.written.length
          (sink.written.length + sink.room - 4) length.toInt then
        .error .indexOutOfBounds sink
      else .error .bufferOverflow sink

namespace XdrBufferEncodingStream

/-- A stream that has written some bytes of its buffer of `size` bytes. -/
structure Written (size : ℕ) (written : List Byte) (stream : XdrBufferEncodingStream) : Prop where
  intro ::
  buffer : ∃ buffer, stream.buffer = some buffer ∧ buffer.values.length = size ∧
    buffer.values.take written.length = written
  index : stream.bufferIndex = written.length
  highmark : stream.bufferHighmark = size - 4

/-- The stream is the sink: it holds the bytes and has the room. -/
def Encodes (size : ℕ) (stream : XdrBufferEncodingStream) (sink : Sink Byte) : Prop :=
  Written size sink.written stream ∧ sink.written.length + sink.room = size

variable {size : ℕ} {written : List Byte} {stream : XdrBufferEncodingStream}

theorem putByte_written (state : Written size written stream) (room : written.length < size)
    (value : Byte) :
    ∃ stream', putByte value stream = .ok () stream' ∧
      Written size (written ++ [value]) stream' := by
  rcases state with ⟨⟨buffer, open_, sizes, holds⟩, index, highmark⟩
  have inside : written.length < buffer.values.length := sizes ▸ room
  rcases JavaArray.set_natCast inside value with ⟨buffer', stored, values⟩
  have small := buffer.length_lt
  have next : wrap 32 ((written.length : ℤ) + 1) = written.length + 1 := by
    apply wrap_of_mem_range <;> omega
  refine ⟨⟨some buffer', written.length + 1, size - 4⟩, ?_, ⟨buffer', rfl, ?_, ?_⟩, ?_, rfl⟩
  · simp [putByte, open_, index, stored, next, highmark]
  · rw [values, List.length_set, sizes]
  · rw [values, List.length_append, List.length_singleton, JavaArray.take_set_succ inside, holds]
  · simp

theorem putBytes_written (state : Written size written stream) {source : JavaArray Byte}
    {offset length : ℕ} (inside : offset + length ≤ source.values.length)
    (room : written.length + length ≤ size) :
    ∃ stream', putBytes source offset length stream = .ok () stream' ∧
      Written size (written ++ (source.values.drop offset).take length) stream' := by
  rcases state with ⟨⟨buffer, open_, sizes, holds⟩, index, highmark⟩
  have inTarget : written.length + length ≤ buffer.values.length := sizes ▸ room
  rcases JavaArray.arraycopy_natCast source buffer inside inTarget with ⟨buffer', copied, values⟩
  have small := buffer.length_lt
  have added : ((source.values.drop offset).take length).length = length := by
    rw [List.length_take, List.length_drop]
    omega
  have next : wrap 32 ((written.length : ℤ) + length) = written.length + length := by
    apply wrap_of_mem_range <;> omega
  refine ⟨⟨some buffer', written.length + length, size - 4⟩, ?_, ⟨buffer', rfl, ?_, ?_⟩, ?_, rfl⟩
  · simp [putBytes, open_, index, copied, next, highmark]
  · rw [values, JavaArray.length_overwrite (by omega), sizes]
  · rw [values, List.length_append, JavaArray.take_overwrite_add (by omega), holds]
  · rw [List.length_append, added, Nat.cast_add]

theorem xdrEncodeInt_of_room (room : stream.bufferIndex ≤ stream.bufferHighmark)
    (value : BitVec 32) :
    xdrEncodeInt value stream =
      (do putByte ((value >>> 24).setWidth 8)
          putByte ((value >>> 16).setWidth 8)
          putByte ((value >>> 8).setWidth 8)
          putByte (value.setWidth 8) : EncodeM Unit) stream := by
  change (if stream.bufferIndex ≤ stream.bufferHighmark then _ else _ : EncodeM Unit) stream = _
  rw [if_pos room]

theorem xdrEncodeInt_of_full (full : ¬ stream.bufferIndex ≤ stream.bufferHighmark)
    (value : BitVec 32) : xdrEncodeInt value stream = .error .bufferOverflow stream := by
  change (if stream.bufferIndex ≤ stream.bufferHighmark then _ else _ : EncodeM Unit) stream = _
  rw [if_neg full]
  rfl

theorem xdrEncodeInt_related (value : BitVec 32) :
    (stateRelation (Encodes size)).Related (xdrEncodeInt value)
      (XdrEncodingStream.xdrEncodeInt value : EStateM XdrException (Sink Byte) Unit) := by
  rintro stream sink ⟨state, total⟩
  have test : stream.bufferIndex ≤ stream.bufferHighmark ↔ 4 ≤ sink.room := by
    rw [state.index, state.highmark]
    omega
  by_cases room : 4 ≤ sink.room
  · rcases putByte_written state (by omega) ((value >>> 24).setWidth 8) with ⟨_, first, state⟩
    rcases putByte_written state (by simp; omega) ((value >>> 16).setWidth 8) with
      ⟨_, second, state⟩
    rcases putByte_written state (by simp; omega) ((value >>> 8).setWidth 8) with
      ⟨_, third, state⟩
    rcases putByte_written state (by simp; omega) (value.setWidth 8) with ⟨stream', last, state⟩
    have runs : xdrEncodeInt value stream = .ok () stream' := by
      rw [xdrEncodeInt_of_room (test.mpr room), bind_ok first, bind_ok second, bind_ok third]
      exact last
    have puts : (XdrEncodingStream.xdrEncodeInt value : EStateM XdrException (Sink Byte) Unit)
        sink = .ok () (sink.extended (beBytes value 4)) := if_pos (by simpa using room)
    rw [runs, puts]
    refine .ok () ⟨by simpa [Sink.extended, beBytes] using state, ?_⟩
    simp only [Sink.extended, List.length_append, length_beBytes]
    omega
  · have puts : (XdrEncodingStream.xdrEncodeInt value : EStateM XdrException (Sink Byte) Unit)
        sink = .error .bufferOverflow sink := if_neg (by simpa using room)
    rw [xdrEncodeInt_of_full (mt test.mp room), puts]
    exact .error _ ⟨state, total⟩

/-- With a part of an array, the test asks whether the part has room with its padding. -/
theorem hasRoom_iff {room length : ℕ} (total : written.length + room = size)
    (sizes : size < 2 ^ 31) (small : length < 2 ^ 31) :
    hasRoom written.length (size - 4) length ↔ (length + 3) / 4 * 4 ≤ room := by
  have pad : ((length : ℤ) + padding length) = (length + 3) / 4 * 4 := by
    rw [padding]
    omega
  have inner : wrap 32 ((length : ℤ) + padding length - 4) = (length + 3) / 4 * 4 - 4 := by
    rw [pad]
    apply wrap_of_mem_range <;> omega
  have outer : wrap 32 ((size : ℤ) - 4 - ((length + 3) / 4 * 4 - 4)) =
      size - (length + 3) / 4 * 4 := by
    rw [wrap_of_mem_range] <;> omega
  rw [hasRoom, inner, outer, decide_eq_true_iff]
  omega

theorem xdrEncodeOpaque_of_room {value : JavaArray Byte} {offset length : BitVec 32}
    (room : hasRoom stream.bufferIndex stream.bufferHighmark length.toInt) :
    xdrEncodeOpaque value offset length stream =
      (do putBytes value offset.toInt length.toInt
          if padding length.toInt ≠ 0 then putBytes paddingZeros 0 (padding length.toInt)
          else pure () : EncodeM Unit) stream := by
  change (if hasRoom stream.bufferIndex stream.bufferHighmark length.toInt then _ else _ :
    EncodeM Unit) stream = _
  rw [if_pos room]

theorem xdrEncodeOpaque_of_full {value : JavaArray Byte} {offset length : BitVec 32}
    (full : ¬ hasRoom stream.bufferIndex stream.bufferHighmark length.toInt) :
    xdrEncodeOpaque value offset length stream = .error .bufferOverflow stream := by
  change (if hasRoom stream.bufferIndex stream.bufferHighmark length.toInt then _ else _ :
    EncodeM Unit) stream = _
  rw [if_neg full]
  rfl

theorem putBytes_outside (state : Written size written stream) {value : JavaArray Byte}
    {offset length : ℤ} (outside : slice value offset length = none) :
    putBytes value offset length stream = .error .indexOutOfBounds stream := by
  rcases state.buffer with ⟨buffer, open_, -⟩
  have fails : JavaArray.arraycopy value offset buffer stream.bufferIndex length = none := by
    apply dif_neg
    rintro ⟨offsetNonneg, -, lengthNonneg, inside, -⟩
    simp [slice, offsetNonneg, lengthNonneg, inside] at outside
  simp [putBytes, open_, fails]

/-- The zeros behind a part of an array. -/
theorem putPadding_written (state : Written size written stream) (length : ℕ)
    (room : written.length + (4 - length % 4) % 4 ≤ size) :
    ∃ stream', (if padding length ≠ 0 then putBytes paddingZeros 0 (padding length)
        else pure () : EncodeM Unit) stream = .ok () stream' ∧
      Written size (written ++ List.replicate ((4 - length % 4) % 4) 0) stream' := by
  have pad : padding length = ((4 - length % 4) % 4 : ℕ) := by
    rw [padding]
    omega
  rw [pad]
  generalize zeros : (4 - length % 4) % 4 = count at room
  have few : count ≤ 3 := by omega
  by_cases none_ : count = 0
  · subst none_
    exact ⟨stream, rfl, by simpa using state⟩
  · have inside : 0 + count ≤ paddingZeros.values.length := by
      simp only [paddingZeros, List.length_cons, List.length_nil]
      omega
    rw [if_pos (by exact_mod_cast none_)]
    rcases putBytes_written state inside room with ⟨stream', runs, final⟩
    refine ⟨stream', by simpa using runs, ?_⟩
    have taken : (paddingZeros.values.drop 0).take count = List.replicate count 0 := by
      change (List.replicate 4 (0 : Byte)).take count = _
      rw [List.take_replicate, min_eq_left (by omega)]
    rwa [taken] at final

theorem xdrEncodeOpaque_related (value : JavaArray Byte) (offset length : BitVec 32) :
    (stateRelation (Encodes size)).Related (xdrEncodeOpaque value offset length)
      (XdrEncodingStream.xdrEncodeOpaque value offset length :
        EStateM XdrException (Sink Byte) Unit) := by
  rintro stream sink ⟨state, total⟩
  have sizes : size < 2 ^ 31 := by
    rcases state.buffer with ⟨buffer, -, sizes, -⟩
    exact sizes ▸ buffer.length_lt
  have highmark : stream.bufferHighmark = sink.written.length + sink.room - 4 := by
    rw [state.highmark, ← total, Nat.cast_add]
  cases part : slice value offset.toInt length.toInt with
  | none =>
      have puts : (XdrEncodingStream.xdrEncodeOpaque value offset length :
          EStateM XdrException (Sink Byte) Unit) sink =
          if hasRoom sink.written.length (sink.written.length + sink.room - 4) length.toInt then
            .error .indexOutOfBounds sink
          else .error .bufferOverflow sink := by
        simp only [XdrEncodingStream.xdrEncodeOpaque, part]
      rw [puts, ← highmark, ← state.index]
      split
      · next room =>
          rw [xdrEncodeOpaque_of_room room, bind_error (putBytes_outside state part)]
          exact .error _ ⟨state, total⟩
      · next full =>
          rw [xdrEncodeOpaque_of_full full]
          exact .error _ ⟨state, total⟩
  | some bytes =>
      have puts : (XdrEncodingStream.xdrEncodeOpaque value offset length :
          EStateM XdrException (Sink Byte) Unit) = Sink.put .bufferOverflow (padded bytes) := by
        simp only [XdrEncodingStream.xdrEncodeOpaque, part]
      simp only [slice, Option.ite_none_right_eq_some, Option.some.injEq] at part
      rcases part with ⟨⟨offsetNonneg, lengthNonneg, inside⟩, part⟩
      lift offset.toInt to ℕ using offsetNonneg with start startEq
      lift length.toInt to ℕ using lengthNonneg with count countEq
      have countLt : count < 2 ^ 31 := by
        have := length.toInt_lt
        omega
      have inside : start + count ≤ value.values.length := by exact_mod_cast inside
      simp only [Int.toNat_natCast] at part
      have lengths : bytes.length = count := by
        rw [← part, List.length_take, List.length_drop]
        omega
      have test : hasRoom stream.bufferIndex stream.bufferHighmark length.toInt ↔
          (padded bytes).length ≤ sink.room := by
        rw [← countEq, state.index, state.highmark, hasRoom_iff total sizes countLt,
          length_padded, lengths]
      rw [puts]
      by_cases room : (padded bytes).length ≤ sink.room
      · have both := room
        simp only [padded, List.length_append, List.length_replicate, lengths] at both
        rcases putBytes_written state inside (by omega) with ⟨middle, first, state⟩
        rw [part] at state
        rcases putPadding_written state count (by
          rw [List.length_append, lengths]
          omega) with ⟨stream', last, state⟩
        rw [xdrEncodeOpaque_of_room (test.mpr room), ← startEq, ← countEq, bind_ok first, last,
          Sink.put, if_pos room]
        refine .ok () ⟨by simpa [Sink.extended, padded, lengths] using state, ?_⟩
        simp only [Sink.extended, List.length_append]
        omega
      · rw [xdrEncodeOpaque_of_full (mt test.mp room), Sink.put, if_neg room]
        exact .error _ ⟨state, total⟩

/-- Every encoding method does on a buffer what it does on a sink of the same room. -/
def sinkRelation (size : ℕ) :
    EncoderRelation EncodeM (EStateM XdrException (Sink Byte)) where
  toMonadRelation := stateRelation (Encodes size)
  throw := stateRelation_throw _
  int := xdrEncodeInt_related
  opaqueBytes := xdrEncodeOpaque_related

end XdrBufferEncodingStream

end MrsOptimization
