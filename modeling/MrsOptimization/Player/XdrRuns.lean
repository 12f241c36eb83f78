import MrsOptimization.Player.XdrRoundTrip

/-!
# Runs of calls on XDR buffers

A caller may make any calls in any order and go on after an exception. On an
encoding buffer such a run is a run on a sink of the same room, until the stream
is closed; then nothing is written any more. On a decoding buffer a run sees nothing
of the array behind the encoded bytes.
-/

namespace MrsOptimization

/-- The calls on an encoding stream. -/
inductive EncodeCall
  | beginEncoding
  | endEncoding
  | close
  | item (value : XdrItem)
  | opaqueSlice (value : JavaArray Byte) (offset length : BitVec 32)
  | fixedOpaque (value : JavaArray Byte) (length : BitVec 32)
  | fixedVector (type : XdrScalar) (value : JavaArray type.Carrier) (length : BitVec 32)

namespace EncodeCall

open XdrBufferEncodingStream

variable (charset : Charset)

def run : EncodeCall → EncodeM Unit
  | .beginEncoding => XdrBufferEncodingStream.beginEncoding
  | .endEncoding => XdrBufferEncodingStream.endEncoding
  | .close => XdrBufferEncodingStream.close
  | .item value => value.encode charset
  | .opaqueSlice value offset length => XdrEncodingStream.xdrEncodeOpaque value offset length
  | .fixedOpaque value length => XdrEncodingStream.xdrEncodeFixedOpaque value length
  | .fixedVector type value length => type.encodeFixedVector charset value length

/-- The call on a sink, which has no `close`: `beginEncoding` empties it. -/
def runSink : EncodeCall → SinkM Unit
  | .beginEncoding => fun sink => .ok () ⟨[], sink.written.length + sink.room⟩
  | .endEncoding => pure ()
  | .close => pure ()
  | .item value => value.encode charset
  | .opaqueSlice value offset length => XdrEncodingStream.xdrEncodeOpaque value offset length
  | .fixedOpaque value length => XdrEncodingStream.xdrEncodeFixedOpaque value length
  | .fixedVector type value length => type.encodeFixedVector charset value length

variable {charset} {size : ℕ}

theorem beginEncoding_related (charset : Charset) :
    (stateRelation (Encodes size)).Related XdrBufferEncodingStream.beginEncoding
      (runSink charset .beginEncoding) := by
  rintro stream sink ⟨⟨⟨buffer, open_, sizes, -⟩, -, highmark⟩, total⟩
  refine .ok () ⟨⟨⟨buffer, open_, sizes, by simp⟩, rfl, highmark⟩, ?_⟩
  simpa using total

theorem run_related (charset : Charset) {call : EncodeCall} (isOpen : call ≠ .close) :
    (stateRelation (Encodes size)).Related (call.run charset) (call.runSink charset) := by
  cases call with
  | beginEncoding => exact beginEncoding_related charset
  | endEncoding => exact (sinkRelation size).pure ()
  | close => exact absurd rfl isOpen
  | item value => exact (sinkRelation size).item charset value
  | opaqueSlice value offset length => exact (sinkRelation size).opaqueBytes value offset length
  | fixedOpaque value length => exact (sinkRelation size).fixedOpaque value length
  | fixedVector type value length => exact (sinkRelation size).fixedVector charset type value length

theorem outcomes_sink (charset : Charset) {calls : List EncodeCall} (isOpen : .close ∉ calls)
    {stream : XdrBufferEncodingStream} {sink : Sink Byte} (encodes : Encodes size stream sink) :
    (outcomes (run charset) calls stream).1 = (outcomes (runSink charset) calls sink).1 ∧
      Encodes size (outcomes (run charset) calls stream).2
        (outcomes (runSink charset) calls sink).2 := by
  apply outcomes_related _ encodes
  rintro call member
  apply run_related
  rintro rfl
  exact isOpen member

/-- The exceptions of a call, apart from a full buffer. -/
def Rejects : EncodeCall → XdrException → Prop
  | .opaqueSlice value offset length, exception =>
      exception = .indexOutOfBounds ∧ slice value offset.toInt length.toInt = none
  | .fixedOpaque value length, exception => exception = .arraySizeMismatch ∧ value.length ≠ length
  | .fixedVector _ value length, exception =>
      exception = .arraySizeMismatch ∧ value.length ≠ length
  | _, _ => False

/-- A call returns, finds the buffer full, or rejects its arguments. -/
def Allowed (call : EncodeCall) : Except XdrException Unit → Prop
  | .ok _ => True
  | .error exception => exception = .bufferOverflow ∨ call.Rejects exception

/-- The calls that find nothing to encode. -/
def Silent : EncodeCall → Prop
  | .beginEncoding => True
  | .endEncoding => True
  | .close => True
  | .item (.fixedVector _ value) => value.values = []
  | .fixedVector _ value _ => value.values = []
  | _ => False

/-- What a call does when the stream is closed. -/
def Refused (call : EncodeCall) : Except XdrException Unit → Prop
  | .ok _ => call.Silent
  | .error exception =>
      exception = .nullPointer ∨ exception = .bufferOverflow ∨ call.Rejects exception

end EncodeCall

/-- The sink holds some more bytes, a multiple of four. -/
def Extends (sink sink' : Sink Byte) : Prop :=
  ∃ added, sink'.written = sink.written ++ added ∧ 4 ∣ added.length ∧
    added.length + sink'.room = sink.room

theorem Extends.refl (sink : Sink Byte) : Extends sink sink :=
  ⟨[], by simp, by simp, by simp⟩

theorem Extends.trans {first second third : Sink Byte} (extends₁ : Extends first second)
    (extends₂ : Extends second third) : Extends first third := by
  rcases extends₁ with ⟨added, written, aligned, room⟩
  rcases extends₂ with ⟨added', written', aligned', room'⟩
  refine ⟨added ++ added', by rw [written', written, List.append_assoc], ?_, ?_⟩
  · rw [List.length_append]
    exact Nat.dvd_add aligned aligned'
  · rw [List.length_append]
    omega

theorem extends_extended {sink : Sink Byte} {added : List Byte} (aligned : 4 ∣ added.length)
    (fits : added.length ≤ sink.room) : Extends sink (sink.extended added) :=
  ⟨added, rfl, aligned, by simp only [Sink.extended]; omega⟩

/-- Chunks of whole words. -/
def Aligned (chunks : List (List Byte)) : Prop :=
  ∀ chunk ∈ chunks, 4 ∣ chunk.length

theorem Aligned.flatten {chunks : List (List Byte)} (aligned : Aligned chunks) :
    4 ∣ chunks.flatten.length := by
  induction chunks with
  | nil => simp
  | cons chunk rest ih =>
      rw [List.flatten_cons, List.length_append]
      apply Nat.dvd_add
      · exact aligned chunk (List.mem_cons_self ..)
      · exact ih fun chunk member => aligned chunk (List.mem_cons_of_mem _ member)

theorem aligned_word (value : BitVec 32) : 4 ∣ (beBytes value 4).length := by
  simp

theorem aligned_padded (bytes : List Byte) : 4 ∣ (padded bytes).length := by
  rw [length_padded]
  exact Nat.dvd_mul_left 4 _

theorem aligned_singleton {chunk : List Byte} (aligned : 4 ∣ chunk.length) : Aligned [chunk] := by
  simpa [Aligned] using aligned

theorem XdrScalar.aligned_chunks (charset : Charset) (type : XdrScalar) (value : type.Carrier) :
    Aligned (type.chunks charset value) := by
  cases type <;>
    simp [Aligned, XdrScalar.chunks, XdrScalar.longChunks, XdrScalar.opaqueChunks, aligned_padded]

theorem XdrItem.aligned_chunks (charset : Charset) (item : XdrItem) :
    Aligned (item.chunks charset) := by
  have elements : ∀ (type : XdrScalar) (values : List type.Carrier),
      Aligned (values.flatMap (type.chunks charset)) := by
    intro type values chunk member
    rcases List.mem_flatMap.mp member with ⟨value, -, inside⟩
    exact type.aligned_chunks charset value chunk inside
  cases item with
  | scalar type value => exact type.aligned_chunks charset value
  | vector type value =>
      intro chunk member
      rcases List.mem_cons.mp member with rfl | inside
      · exact aligned_word _
      · exact elements type _ chunk inside
  | fixedVector type value => exact elements type _
  | opaqueBytes value => simp [Aligned, XdrItem.chunks, aligned_padded]
  | dynamicOpaque value =>
      simp [Aligned, XdrItem.chunks, XdrScalar.opaqueChunks, aligned_padded]

/-- Putting chunks adds some of them; only a full sink stops it. -/
theorem putChunks_outcome {chunks : List (List Byte)} (aligned : Aligned chunks)
    (sink : Sink Byte) :
    Extends sink (outcome (putChunks chunks sink)).2 ∧
      ((outcome (putChunks chunks sink)).1 = .ok () ∨
        (outcome (putChunks chunks sink)).1 = .error .bufferOverflow) := by
  have fitting : Aligned (Sink.fitting sink.room chunks) :=
    fun chunk member => aligned chunk ((Sink.fitting_initial _ _).subset member)
  rw [putChunks, Sink.forM_put]
  split
  · next fits => exact ⟨extends_extended aligned.flatten fits, Or.inl rfl⟩
  · exact ⟨extends_extended fitting.flatten (Sink.length_fitting_le _ _), Or.inr rfl⟩

namespace EncodeCall

variable {charset : Charset}

theorem allowed_of_put {call : EncodeCall} {result : Except XdrException Unit}
    (put : result = .ok () ∨ result = .error .bufferOverflow) : call.Allowed result := by
  rcases put with rfl | rfl
  · trivial
  · exact Or.inl rfl

/-- One call adds whole words to the sink, or empties it. -/
theorem runSink_outcome (call : EncodeCall) (sink : Sink Byte) :
    (call ≠ .beginEncoding → Extends sink (outcome (call.runSink charset sink)).2) ∧
      call.Allowed (outcome (call.runSink charset sink)).1 := by
  cases call with
  | beginEncoding => exact ⟨fun other => absurd rfl other, trivial⟩
  | endEncoding => exact ⟨fun _ => .refl sink, trivial⟩
  | close => exact ⟨fun _ => .refl sink, trivial⟩
  | item value =>
      have put := putChunks_outcome (value.aligned_chunks charset) sink
      rw [← value.encode_eq] at put
      exact ⟨fun _ => put.1, allowed_of_put put.2⟩
  | opaqueSlice value offset length =>
      simp only [runSink, XdrEncodingStream.xdrEncodeOpaque]
      cases part : slice value offset.toInt length.toInt with
      | some bytes =>
          have put := putChunks_outcome (aligned_singleton (aligned_padded bytes)) sink
          rw [putChunks_singleton] at put
          exact ⟨fun _ => put.1, allowed_of_put put.2⟩
      | none =>
          dsimp only
          split
          · exact ⟨fun _ => .refl sink, Or.inr ⟨rfl, part⟩⟩
          · exact ⟨fun _ => .refl sink, Or.inl rfl⟩
  | fixedOpaque value length =>
      simp only [runSink, XdrEncodingStream.xdrEncodeFixedOpaque]
      split
      · next differs => exact ⟨fun _ => .refl sink, Or.inr ⟨rfl, differs⟩⟩
      · have put := putChunks_outcome (aligned_singleton (aligned_padded value.values)) sink
        rw [← xdrEncodeOpaque_eq] at put
        exact ⟨fun _ => put.1, allowed_of_put put.2⟩
  | fixedVector type value length =>
      simp only [runSink, type.encodeFixedVector_eq, XdrEncodingStream.encodeFixedVector]
      split
      · next differs => exact ⟨fun _ => .refl sink, Or.inr ⟨rfl, differs⟩⟩
      · have put := putChunks_outcome
          ((XdrItem.fixedVector type value).aligned_chunks charset) sink
        rw [XdrItem.chunks, ← type.forM_encode_eq] at put
        exact ⟨fun _ => put.1, allowed_of_put put.2⟩

end EncodeCall

namespace XdrBufferEncodingStream

variable {charset : Charset} {size : ℕ} {stream : XdrBufferEncodingStream}

/-- A new stream with room for so many bytes. -/
inductive Created : ℕ → XdrBufferEncodingStream → Prop
  | ofSize {bufferSize : BitVec 32} {stream : XdrBufferEncodingStream}
      (made : ofSize bufferSize = .ok stream) : Created bufferSize.toInt.toNat stream
  | ofBuffer {buffer : JavaArray Byte} {stream : XdrBufferEncodingStream}
      (made : ofBuffer buffer = .ok stream) : Created buffer.values.length stream

/-- A new stream is an empty sink. -/
theorem Created.encodes (created : Created size stream) : Encodes size stream ⟨[], size⟩ := by
  cases created with
  | @ofSize bufferSize _ made =>
      simp only [XdrBufferEncodingStream.ofSize] at made
      split at made
      · simp at made
      · next valid =>
          have nonneg : 0 ≤ bufferSize.toInt := by omega
          simp only [JavaArray.ofLength, if_pos nonneg, Except.ok.injEq] at made
          subst made
          exact ⟨⟨⟨_, rfl, by simp, rfl⟩, rfl, by simp⟩, by simp⟩
  | ofBuffer made =>
      simp only [XdrBufferEncodingStream.ofBuffer] at made
      split at made
      · simp at made
      · cases made
        exact ⟨⟨⟨_, rfl, rfl, rfl⟩, rfl, rfl⟩, by simp⟩

section Closed

/-- A program that writes something throws on a closed stream. -/
def Refuses (program : EncodeM Unit) : Prop :=
  ∀ stream, stream.getXdrData = none → ∃ exception stream',
    program stream = .error exception stream' ∧ stream'.getXdrData = none ∧
      (exception = .nullPointer ∨ exception = .bufferOverflow)

theorem Refuses.bind {first : EncodeM Unit} (refuses : Refuses first)
    (next : Unit → EncodeM Unit) : Refuses (first >>= next) := by
  intro stream closed
  rcases refuses stream closed with ⟨exception, stream', runs, result⟩
  exact ⟨exception, stream', bind_error runs, result⟩

theorem refuses_int (value : BitVec 32) : Refuses (xdrEncodeInt value) := by
  intro stream closed
  by_cases room : stream.bufferIndex ≤ stream.bufferHighmark
  · have first : putByte ((value >>> 24).setWidth 8) stream = .error .nullPointer
        { stream with bufferIndex := wrap 32 (stream.bufferIndex + 1) } := by
      have closed' : stream.buffer = none := closed
      simp only [putByte, closed']
    refine ⟨.nullPointer, { stream with bufferIndex := wrap 32 (stream.bufferIndex + 1) }, ?_,
      closed, Or.inl rfl⟩
    rw [xdrEncodeInt_of_room room, bind_error first]
  · exact ⟨.bufferOverflow, stream, xdrEncodeInt_of_full room value, closed, Or.inr rfl⟩

theorem refuses_opaqueBytes (value : JavaArray Byte) (offset length : BitVec 32) :
    Refuses (xdrEncodeOpaque value offset length) := by
  intro stream closed
  by_cases room : hasRoom stream.bufferIndex stream.bufferHighmark length.toInt
  · have first : putBytes value offset.toInt length.toInt stream = .error .nullPointer stream := by
      have closed' : stream.buffer = none := closed
      simp only [putBytes, closed']
    refine ⟨.nullPointer, stream, ?_, closed, Or.inl rfl⟩
    rw [xdrEncodeOpaque_of_room room, bind_error first]
  · exact ⟨.bufferOverflow, stream, xdrEncodeOpaque_of_full room, closed, Or.inr rfl⟩

theorem refuses_scalar (charset : Charset) (type : XdrScalar) (value : type.Carrier) :
    Refuses (type.encode charset value) := by
  cases type
  case long => exact (refuses_int _).bind _
  case double => exact (refuses_int _).bind _
  case string => exact (refuses_int _).bind _
  all_goals exact refuses_int _

/-- Several values, of which the first one throws. -/
theorem refuses_forM {α : Type} {encode : α → EncodeM Unit}
    (refuses : ∀ value, Refuses (encode value)) {values : List α} (some_ : values ≠ []) :
    Refuses (values.forM encode) := by
  cases values with
  | nil => exact absurd rfl some_
  | cons value rest => exact (refuses value).bind _

/-- A closed stream takes no item, except a fixed vector without values. -/
theorem refuses_item (charset : Charset) (item : XdrItem) :
    Refuses (item.encode charset) ∨
      (EncodeCall.item item).Silent ∧ (item.encode charset : EncodeM Unit) = pure () := by
  cases item with
  | scalar type value => exact Or.inl (refuses_scalar charset type value)
  | vector type value =>
      left
      have vector := (refuses_int value.length).bind fun _ =>
        value.values.forM (type.encode charset)
      rw [XdrItem.encode, type.encodeVector_eq]
      exact vector
  | fixedVector type value =>
      have body : (XdrItem.encode charset (.fixedVector type value) : EncodeM Unit) =
          value.values.forM (type.encode charset) := by
        rw [XdrItem.encode, type.encodeFixedVector_eq, XdrEncodingStream.encodeFixedVector,
          if_neg (not_not.mpr rfl)]
      rw [body]
      by_cases empty : value.values = []
      · right
        rw [empty]
        exact ⟨empty, rfl⟩
      · exact Or.inl (refuses_forM (refuses_scalar charset type) empty)
  | opaqueBytes value =>
      left
      rw [XdrItem.encode, XdrEncodingStream.xdrEncodeFixedOpaque, if_neg (not_not.mpr rfl)]
      exact refuses_opaqueBytes value 0 value.length
  | dynamicOpaque value => exact Or.inl ((refuses_int value.length).bind _)

theorem Refuses.outcome {program : EncodeM Unit} (refuses : Refuses program) (call : EncodeCall)
    (closed : stream.getXdrData = none) :
    (outcome (program stream)).2.getXdrData = none ∧ call.Refused (outcome (program stream)).1 := by
  rcases refuses stream closed with ⟨exception, stream', runs, closed', kind⟩
  rw [runs]
  exact ⟨closed', kind.imp_right Or.inl⟩

/-- One call leaves a closed stream closed, and nothing is encoded. -/
theorem closed_outcome (charset : Charset) (call : EncodeCall) (closed : stream.getXdrData = none) :
    (outcome (call.run charset stream)).2.getXdrData = none ∧
      call.Refused (outcome (call.run charset stream)).1 := by
  cases call with
  | beginEncoding => exact ⟨closed, trivial⟩
  | endEncoding => exact ⟨closed, trivial⟩
  | close => exact ⟨rfl, trivial⟩
  | item value =>
      rcases refuses_item charset value with refuses | ⟨silent, nothing⟩
      · exact refuses.outcome _ closed
      · rw [EncodeCall.run, nothing]
        exact ⟨closed, silent⟩
  | opaqueSlice value offset length =>
      exact (refuses_opaqueBytes value offset length).outcome _ closed
  | fixedOpaque value length =>
      rw [EncodeCall.run, XdrEncodingStream.xdrEncodeFixedOpaque]
      split
      · next differs => exact ⟨closed, Or.inr (Or.inr ⟨rfl, differs⟩)⟩
      · exact (refuses_opaqueBytes value 0 value.length).outcome _ closed
  | fixedVector type value length =>
      rw [EncodeCall.run, type.encodeFixedVector_eq, XdrEncodingStream.encodeFixedVector]
      split
      · next differs => exact ⟨closed, Or.inr (Or.inr ⟨rfl, differs⟩)⟩
      · by_cases empty : value.values = []
        · rw [empty]
          exact ⟨closed, empty⟩
        · exact (refuses_forM (refuses_scalar charset type) empty).outcome _ closed

/-- A closed stream cannot be reopened. -/
theorem closed_outcomes (charset : Charset) (calls : List EncodeCall)
    (closed : stream.getXdrData = none) :
    (outcomes (EncodeCall.run charset) calls stream).2.getXdrData = none ∧
      List.Forall₂ EncodeCall.Refused calls
        (outcomes (EncodeCall.run charset) calls stream).1 := by
  apply @outcomes_invariant _ _ _ _
    (fun stream : XdrBufferEncodingStream => stream.getXdrData = none)
  · intro call _ stream closed
    exact closed_outcome charset call closed
  · exact closed

theorem closed_of_close (charset : Charset) {calls : List EncodeCall} (closes : .close ∈ calls)
    (stream : XdrBufferEncodingStream) :
    (outcomes (EncodeCall.run charset) calls stream).2.getXdrData = none := by
  rcases List.append_of_mem closes with ⟨first, rest, rfl⟩
  rw [outcomes_append]
  exact (closed_outcomes charset rest rfl).1

end Closed

theorem sink_outcomes (charset : Charset) (calls : List EncodeCall) (start : Sink Byte)
    (aligned : 4 ∣ start.written.length) :
    4 ∣ (outcomes (EncodeCall.runSink charset) calls start).2.written.length ∧
      List.Forall₂ EncodeCall.Allowed calls
        (outcomes (EncodeCall.runSink charset) calls start).1 := by
  apply @outcomes_invariant _ _ _ _ (fun sink : Sink Byte => 4 ∣ sink.written.length)
  · intro call _ sink aligned
    rcases call.runSink_outcome sink with ⟨extends_, allowed⟩
    refine ⟨?_, allowed⟩
    by_cases begins : call = .beginEncoding
    · subst begins
      exact Nat.dvd_zero 4
    · rcases extends_ begins with ⟨added, written, whole, -⟩
      rw [written, List.length_append]
      exact Nat.dvd_add aligned whole
  · exact aligned

/-- In every run of calls the buffer does what a sink with its room does, until it is closed; then
no call encodes anything. -/
theorem run_of_calls (charset : Charset) (created : Created size stream) {calls : List EncodeCall}
    (isOpen : .close ∉ calls) (later : List EncodeCall) :
    ((outcomes (EncodeCall.run charset) calls stream).1 =
          (outcomes (EncodeCall.runSink charset) calls ⟨[], size⟩).1 ∧
        Encodes size (outcomes (EncodeCall.run charset) calls stream).2
          (outcomes (EncodeCall.runSink charset) calls ⟨[], size⟩).2 ∧
        4 ∣ (outcomes (EncodeCall.run charset) calls stream).2.getXdrLength ∧
        List.Forall₂ EncodeCall.Allowed calls
          (outcomes (EncodeCall.run charset) calls stream).1) ∧
      (outcomes (EncodeCall.run charset) (calls ++ .close :: later) stream).2.getXdrData = none ∧
      List.Forall₂ EncodeCall.Refused later (outcomes (EncodeCall.run charset) later
        (outcomes (EncodeCall.run charset) (calls ++ [.close]) stream).2).1 := by
  rcases EncodeCall.outcomes_sink charset isOpen created.encodes with ⟨same, encodes⟩
  rcases sink_outcomes charset calls ⟨[], size⟩ (by simp) with ⟨aligned, allowed⟩
  refine ⟨⟨same, encodes, ?_, same ▸ allowed⟩, ?_, ?_⟩
  · rw [getXdrLength, encodes.1.index]
    exact_mod_cast aligned
  · exact closed_of_close charset (by simp) stream
  · exact (closed_outcomes charset later (closed_of_close charset (by simp) stream)).2

theorem run_of_calls_overflow :
    ∃ stream, ofSize 8 = .ok stream ∧
      (outcomes (EncodeCall.run .latin1)
        [.item (.scalar .int 5), .item (.scalar .long 7), .item (.scalar .int 6)]
        stream).1 = [.ok (), .error .bufferOverflow, .error .bufferOverflow] ∧
      List.Forall₂ EncodeCall.Refused [.item (.scalar .int 5)]
        (outcomes (EncodeCall.run .latin1) [.item (.scalar .int 5)]
          (outcomes (EncodeCall.run .latin1) ([.item (.scalar .int 5), .item (.scalar .long 7),
            .item (.scalar .int 6)] ++ [.close]) stream).2).1 := by
  refine ⟨_, rfl, ?_⟩
  rcases @run_of_calls 8 _ .latin1 (.ofSize (rfl : ofSize 8 = _))
    [.item (.scalar .int 5), .item (.scalar .long 7), .item (.scalar .int 6)] (by simp)
    [.item (.scalar .int 5)] with ⟨⟨same, -⟩, -, refused⟩
  exact ⟨same.trans rfl, refused⟩

/-- Two sinks of a run without `beginEncoding` extend each other. -/
theorem sink_extends (charset : Charset) {calls : List EncodeCall}
    (continues : .beginEncoding ∉ calls) (start : Sink Byte) :
    Extends start (outcomes (EncodeCall.runSink charset) calls start).2 := by
  refine (@outcomes_invariant _ _ _ _ (Extends start) (fun _ _ => True) _ calls ?_ start
    (.refl start)).1
  intro call member sink before
  refine ⟨before.trans ((call.runSink_outcome sink).1 ?_), trivial⟩
  rintro rfl
  exact continues member

/-- What is written stays until the next `beginEncoding`, as long as the stream is open. -/
theorem written_stays (charset : Charset) (created : Created size stream)
    {before calls : List EncodeCall} (isOpen : .close ∉ before ++ calls)
    (continues : .beginEncoding ∉ calls) :
    ∃ (written written' : ℕ) (buffer buffer' : JavaArray Byte),
      (outcomes (EncodeCall.run charset) before stream).2.getXdrData = some buffer ∧
      (outcomes (EncodeCall.run charset) (before ++ calls) stream).2.getXdrData = some buffer' ∧
      (outcomes (EncodeCall.run charset) before stream).2.getXdrLength = written ∧
      (outcomes (EncodeCall.run charset) (before ++ calls) stream).2.getXdrLength = written' ∧
      written ≤ written' ∧ written' ≤ buffer'.values.length ∧
      buffer'.values.length = buffer.values.length ∧
      buffer'.values.take written = buffer.values.take written := by
  have isOpen' : .close ∉ before := fun closes => isOpen (List.mem_append_left _ closes)
  rcases EncodeCall.outcomes_sink charset isOpen' created.encodes with ⟨-, first, -⟩
  rcases EncodeCall.outcomes_sink charset isOpen created.encodes with ⟨-, last, total⟩
  rcases first.buffer with ⟨buffer, open_, sizes, holds⟩
  rcases last.buffer with ⟨buffer', open', sizes', holds'⟩
  have later := sink_extends charset continues
    (outcomes (EncodeCall.runSink charset) before ⟨[], size⟩).2
  rw [← outcomes_append] at later
  rcases later with ⟨added, written, -⟩
  rw [written] at holds' total last
  refine ⟨_, _, buffer, buffer', open_, open', first.index, last.index, ?_, ?_, ?_, ?_⟩
  · simp
  · omega
  · omega
  · rw [holds]
    have shorter := congrArg (List.take (outcomes (EncodeCall.runSink charset) before
      ⟨[], size⟩).2.written.length) holds'
    simpa [List.take_take] using shorter

theorem written_stays_overflow :
    ∃ stream, ofSize 8 = .ok stream ∧
      ∃ (written written' : ℕ) (buffer buffer' : JavaArray Byte),
      (outcomes (EncodeCall.run .latin1) [.item (.scalar .int 5)] stream).2.getXdrData =
        some buffer ∧
      (outcomes (EncodeCall.run .latin1) ([.item (.scalar .int 5)] ++
        [.item (.scalar .long 7)]) stream).2.getXdrData = some buffer' ∧
      (outcomes (EncodeCall.run .latin1) [.item (.scalar .int 5)] stream).2.getXdrLength =
        written ∧
      (outcomes (EncodeCall.run .latin1) ([.item (.scalar .int 5)] ++
        [.item (.scalar .long 7)]) stream).2.getXdrLength = written' ∧
      written ≤ written' ∧ written' ≤ buffer'.values.length ∧
      buffer'.values.length = buffer.values.length ∧
      buffer'.values.take written = buffer.values.take written :=
  ⟨_, rfl, @written_stays 8 _ .latin1 (.ofSize (rfl : ofSize 8 = _)) _ _ (by simp) (by simp)⟩

end XdrBufferEncodingStream

namespace XdrBufferDecodingStream

/-- Two streams that differ behind their encoded bytes only. -/
structure Alike (stream stream' : XdrBufferDecodingStream) : Prop where
  intro ::
  buffers : ∃ buffer buffer', stream.buffer = some buffer ∧ stream'.buffer = some buffer' ∧
    buffer.values.take stream.encodedLength.toNat = buffer'.values.take stream.encodedLength.toNat
  encodedLength : stream'.encodedLength = stream.encodedLength
  index : stream'.bufferIndex = stream.bufferIndex
  range : -2 ^ 31 ≤ stream.bufferIndex
  highmark : stream'.bufferHighmark = stream.bufferHighmark
  lower : -4 ≤ stream.bufferHighmark
  upper : stream.bufferHighmark ≤ stream.encodedLength - 4
  small : stream.encodedLength < 2 ^ 31

variable {stream stream' : XdrBufferDecodingStream}

namespace Alike

theorem moved (alike : Alike stream stream') (index : ℤ) :
    Alike { stream with bufferIndex := wrap 32 index }
      { stream' with bufferIndex := wrap 32 index } := by
  rcases alike with ⟨buffers, encodedLength, -, -, highmark, lower, upper, small⟩
  exact ⟨buffers, encodedLength, rfl, neg_le_wrap 31 index, highmark, lower, upper, small⟩

theorem get_eq {buffer buffer' : JavaArray Byte} {count : ℕ}
    (same : buffer.values.take count = buffer'.values.take count) {index : ℤ}
    (inside : index < count) : buffer.get index = buffer'.get index := by
  rw [JavaArray.get, JavaArray.get]
  split
  · rw [← List.getElem?_take_of_lt (by omega : index.toNat < count), same,
      List.getElem?_take_of_lt (by omega)]
  · rfl

theorem arraycopy_eq {buffer buffer' : JavaArray Byte} {count : ℕ}
    (same : buffer.values.take count = buffer'.values.take count) (target : JavaArray Byte)
    {index length : ℤ} (offset : ℤ) (inside : 0 ≤ index → index + length ≤ count) :
    JavaArray.arraycopy buffer index target offset length =
      JavaArray.arraycopy buffer' index target offset length := by
  by_cases nonneg : 0 ≤ index ∧ 0 ≤ length
  · rcases nonneg with ⟨index_nonneg, length_nonneg⟩
    lift index to ℕ using index_nonneg
    lift length to ℕ using length_nonneg
    have fits : index + length ≤ count := by
      have := inside (by omega)
      omega
    by_cases long : count ≤ buffer.values.length ∧ count ≤ buffer'.values.length
    · apply JavaArray.arraycopy_congr
      · omega
      · omega
      · have parts := congrArg (fun values => (values.drop index).take length) same
        simp only [List.drop_take, List.take_take] at parts
        rwa [min_eq_left (by omega)] at parts
    · have lengths := congrArg List.length same
      simp only [List.length_take] at lengths
      have equal : buffer = buffer' := by
        apply JavaArray.ext
        rwa [List.take_of_length_le (by omega), List.take_of_length_le (by omega)] at same
      rw [equal]
  · rw [JavaArray.arraycopy, JavaArray.arraycopy, dif_neg (by tauto), dif_neg (by tauto)]

/-- A byte in front of the end of the encoded bytes. -/
theorem takeByte (alike : Alike stream stream') (count : ℤ) (nonneg : 0 ≤ count)
    (room : stream.bufferIndex + (count + 1) ≤ stream.encodedLength) :
    SameResult (fun stream stream' => Alike stream stream' ∧
        stream.bufferIndex + count ≤ stream.encodedLength)
      (XdrBufferDecodingStream.takeByte stream) (XdrBufferDecodingStream.takeByte stream') := by
  rcases alike.buffers with ⟨buffer, buffer', open_, open', same⟩
  have small := alike.small
  have range := alike.range
  have next := alike.moved (stream.bufferIndex + 1)
  have left : wrap 32 (stream.bufferIndex + 1) + count ≤ stream.encodedLength := by
    rw [wrap_of_mem_range] <;> omega
  have access : buffer.get stream.bufferIndex = buffer'.get stream.bufferIndex :=
    get_eq same (by omega)
  simp only [XdrBufferDecodingStream.takeByte, open_, open', alike.index, ← access]
  rw [open_, open'] at next
  cases buffer.get stream.bufferIndex with
  | none => exact .error _ ⟨next, left⟩
  | some byte => exact .ok _ ⟨next, left⟩

theorem xdrDecodeInt :
    (stateRelation Alike).Related XdrBufferDecodingStream.xdrDecodeInt
      XdrBufferDecodingStream.xdrDecodeInt := by
  intro stream stream' alike
  change SameResult Alike
    ((if stream.bufferIndex ≤ stream.bufferHighmark then _ else _ : DecodeM (BitVec 32)) stream)
    ((if stream'.bufferIndex ≤ stream'.bufferHighmark then _ else _ : DecodeM (BitVec 32)) stream')
  rw [alike.index, alike.highmark]
  split
  · next enough =>
      have upper := alike.upper
      apply (alike.takeByte 3 (by decide) (by omega)).bind
      · exact fun _ _ both => both.1
      intro first stream stream' both
      apply (both.1.takeByte 2 (by decide) both.2).bind
      · exact fun _ _ both => both.1
      intro second stream stream' both
      apply (both.1.takeByte 1 (by decide) both.2).bind
      · exact fun _ _ both => both.1
      intro third stream stream' both
      apply (both.1.takeByte 0 (by decide) both.2).bind
      · exact fun _ _ both => both.1
      intro fourth stream stream' both
      exact .ok _ both.1
  · exact .error _ alike

/-- The test lets only bytes in front of the end pass, overflow included. -/
theorem inside_of_hasData (alike : Alike stream stream') {length : ℤ} (positive : 0 < length)
    (small : length < 2 ^ 31)
    (enough : hasData stream.bufferIndex stream.bufferHighmark length)
    (nonneg : 0 ≤ stream.bufferIndex) : stream.bufferIndex + length ≤ stream.encodedLength := by
  have lower := alike.lower
  have upper := alike.upper
  have total := alike.small
  rw [hasData, decide_eq_true_iff] at enough
  by_cases fits : length ≤ 2 ^ 31 - 4
  · lift length to ℕ using positive.le
    rw [alignedLength_eq (by omega), wrap_of_mem_range (by omega) (by omega)] at enough
    omega
  · rw [alignedLength_overflow (by omega) small, wrap, Int.bmod_def] at enough
    omega

theorem copyOpaque (alike : Alike stream stream') (target : JavaArray Byte) (offset : ℤ)
    {length : ℤ} (small : length < 2 ^ 31) :
    SameResult Alike (XdrBufferDecodingStream.copyOpaque target offset length stream)
      (XdrBufferDecodingStream.copyOpaque target offset length stream') := by
  rw [copyOpaque_eq, copyOpaque_eq, alike.index, alike.highmark]
  split
  · split
    · next positive enough =>
        rcases alike.buffers with ⟨buffer, buffer', open_, open', same⟩
        have inside : 0 ≤ stream.bufferIndex →
            stream.bufferIndex + length ≤ stream.encodedLength.toNat := by
          intro nonneg
          have := alike.inside_of_hasData positive small enough nonneg
          omega
        have copies := arraycopy_eq same target offset inside
        simp only [copyBytes, open_, open', alike.index, ← copies]
        cases JavaArray.arraycopy buffer stream.bufferIndex target offset length with
        | none => exact .error _ alike
        | some filled => exact .ok _ alike
    · exact .error _ alike
  · exact .ok _ alike

theorem xdrDecodeOpaqueInto (target : JavaArray Byte) (offset length : BitVec 32) :
    (stateRelation Alike).Related (XdrBufferDecodingStream.xdrDecodeOpaqueInto target offset length)
      (XdrBufferDecodingStream.xdrDecodeOpaqueInto target offset length) := by
  apply (stateRelation Alike).bind
  · exact fun _ _ alike => alike.copyOpaque target _ length.toInt_lt
  intro filled
  apply (stateRelation Alike).bind
  · intro stream stream' alike
    have moves := alike.moved (stream.bufferIndex + alignedLength length.toInt)
    refine .ok () ?_
    simpa only [alike.index] using moves
  · intro _
    exact (stateRelation Alike).pure filled

theorem xdrDecodeOpaque (length : BitVec 32) :
    (stateRelation Alike).Related (XdrBufferDecodingStream.xdrDecodeOpaque length)
      (XdrBufferDecodingStream.xdrDecodeOpaque length) := by
  apply (stateRelation Alike).bind
  · intro stream stream' alike
    rw [XdrDecodingStream.newBytes]
    cases JavaArray.ofLength 0#8 length with
    | some bytes => exact .ok _ alike
    | none => exact .error _ alike
  · intro bytes
    exact xdrDecodeOpaqueInto bytes 0 length

theorem beginDecoding :
    (stateRelation Alike).Related XdrBufferDecodingStream.beginDecoding
      XdrBufferDecodingStream.beginDecoding := by
  rintro stream stream' ⟨buffers, encodedLength, -, -, -, lower, upper, small⟩
  refine .ok () ⟨buffers, encodedLength, rfl, by simp, ?_, ?_, ?_, small⟩
  · simp only [encodedLength]
  · simp only
    omega
  · simp

theorem endDecoding :
    (stateRelation Alike).Related XdrBufferDecodingStream.endDecoding
      XdrBufferDecodingStream.endDecoding := by
  rintro stream stream' ⟨buffers, encodedLength, -, -, -, lower, upper, small⟩
  refine .ok () ⟨buffers, encodedLength, rfl, by simp, rfl, ?_, ?_, small⟩
  · simp
  · simp only
    omega

end Alike

/-- Every decoding method does the same on both streams. -/
def alikeRelation : DecoderRelation DecodeM DecodeM where
  toMonadRelation := stateRelation Alike
  throw := stateRelation_throw _
  int := Alike.xdrDecodeInt
  opaqueBytes := Alike.xdrDecodeOpaque
  opaqueInto target offset length _ := Alike.xdrDecodeOpaqueInto target offset length

end XdrBufferDecodingStream

/-- The calls on a decoding stream. -/
inductive DecodeCall
  | beginDecoding
  | endDecoding
  | close
  | type (type : XdrType)
  | opaqueInto (target : JavaArray Byte) (offset length : BitVec 32)

/-- What a call returns, if it returns something. -/
def DecodeCall.run (charset : Charset) : DecodeCall → DecodeM (Option XdrItem)
  | .beginDecoding => do
      XdrBufferDecodingStream.beginDecoding
      pure none
  | .endDecoding => do
      XdrBufferDecodingStream.endDecoding
      pure none
  | .close => do
      XdrBufferDecodingStream.close
      pure none
  | .type method => do
      let item ← method.decode charset
      pure (some item)
  | .opaqueInto target offset length => do
      let filled ← XdrDecodingStream.xdrDecodeOpaqueInto target offset length
      pure (some (.opaqueBytes filled))

namespace XdrBufferDecodingStream

/-- Two streams that are alike, or the same since they are closed. -/
def AlikeOrClosed (stream stream' : XdrBufferDecodingStream) : Prop :=
  Alike stream stream' ∨ stream = stream'

theorem AlikeOrClosed.index {stream stream' : XdrBufferDecodingStream}
    (alike : AlikeOrClosed stream stream') : stream'.bufferIndex = stream.bufferIndex := by
  rcases alike with alike | rfl
  · exact alike.index
  · rfl

/-- What alike streams have in common is all that is left after `close`. -/
theorem Alike.close {stream stream' : XdrBufferDecodingStream} (alike : Alike stream stream') :
    SameResult AlikeOrClosed (XdrBufferDecodingStream.close stream)
      (XdrBufferDecodingStream.close stream') := by
  refine .ok () (Or.inr ?_)
  cases stream
  cases stream'
  rcases alike with ⟨-, rfl, rfl, -, rfl, -⟩
  rfl

theorem run_alike (charset : Charset) (call : DecodeCall) :
    (stateRelation AlikeOrClosed).Related (call.run charset) (call.run charset) := by
  rintro stream stream' (alike | rfl)
  · have open_ : ∀ {program : DecodeM (Option XdrItem)},
        (stateRelation Alike).Related program program →
          SameResult AlikeOrClosed (program stream) (program stream') :=
      fun related => (related stream stream' alike).mono fun _ _ => Or.inl
    cases call with
    | beginDecoding =>
        exact open_ (alikeRelation.bind Alike.beginDecoding fun _ => alikeRelation.pure _)
    | endDecoding =>
        exact open_ (alikeRelation.bind Alike.endDecoding fun _ => alikeRelation.pure _)
    | close => exact alike.close.bind (fun _ _ same => same) fun _ _ _ same => .ok none same
    | type method =>
        exact open_ (alikeRelation.bind (alikeRelation.type charset method)
          fun _ => alikeRelation.pure _)
    | opaqueInto target offset length =>
        exact open_ (alikeRelation.bind (Alike.xdrDecodeOpaqueInto target offset length)
          fun _ => alikeRelation.pure _)
  · cases call.run charset stream with
    | ok value state => exact .ok value (Or.inr rfl)
    | error exception state => exact .error exception (Or.inr rfl)

/-- Whatever is called, nothing behind the encoded bytes of an array is seen. -/
theorem decodes_encoded_bytes_only (charset : Charset) {buffer buffer' : JavaArray Byte}
    {encodedLength : BitVec 32} {stream stream' : XdrBufferDecodingStream}
    (same : buffer.values.take encodedLength.toInt.toNat =
      buffer'.values.take encodedLength.toInt.toNat)
    (made : ofData buffer encodedLength = .ok stream)
    (made' : ofData buffer' encodedLength = .ok stream') (calls : List DecodeCall) :
    (outcomes (DecodeCall.run charset) calls stream).1 =
        (outcomes (DecodeCall.run charset) calls stream').1 ∧
      (outcomes (DecodeCall.run charset) calls stream').2.bufferIndex =
        (outcomes (DecodeCall.run charset) calls stream).2.bufferIndex := by
  have alike : Alike stream stream' := by
    simp only [ofData] at made made'
    split at made
    · simp at made
    · next valid =>
        have bound := encodedLength.toInt_lt
        rw [if_neg valid] at made'
        cases made
        cases made'
        exact ⟨⟨buffer, buffer', rfl, rfl, same⟩, rfl, rfl, by simp, rfl, by simp, by
          simp only
          omega, by
          simp only
          omega⟩
  rcases outcomes_related (fun call _ => run_alike charset call) (Or.inl alike) with
    ⟨outcome, final⟩
  exact ⟨outcome, final.index⟩

theorem decodes_encoded_bytes_only_eight :
    ∃ stream stream',
      ofData ⟨[0, 0, 0, 5, 1, 1, 1, 1], by decide⟩ 4 = .ok stream ∧
      ofData ⟨[0, 0, 0, 5, 2, 2, 2, 2], by decide⟩ 4 = .ok stream' ∧
      (outcomes (DecodeCall.run .latin1)
          [.beginDecoding, .type (.scalar .long), .opaqueInto .empty 0 (-8),
            .type (.opaqueBytes 4)] stream).1 =
        (outcomes (DecodeCall.run .latin1)
          [.beginDecoding, .type (.scalar .long), .opaqueInto .empty 0 (-8),
            .type (.opaqueBytes 4)] stream').1 :=
  ⟨_, _, rfl, rfl, (@decodes_encoded_bytes_only .latin1
    ⟨[0, 0, 0, 5, 1, 1, 1, 1], by decide⟩ ⟨[0, 0, 0, 5, 2, 2, 2, 2], by decide⟩ 4 _ _
    (by decide) rfl rfl _).1⟩

end XdrBufferDecodingStream

end MrsOptimization
