import MrsOptimization.Player.XdrRuns

/-!
# Messages of several items

A client encodes the items of a message behind `beginEncoding` and decodes them
behind `beginDecoding`. A message is encoded whenever its bytes fit, and decoded
from any array that begins with them.
-/

namespace MrsOptimization

namespace XdrBufferDecodingStream

/-- Several items behind `beginDecoding`, as a client decodes a message. -/
def decodeMessage (charset : Charset) (types : List XdrType) : DecodeM (List XdrItem) := do
  beginDecoding
  types.mapM' (XdrType.decode charset)

/-- A stream that has begun to decode has all encoded bytes left. -/
theorem reading_of_begin {buffer : JavaArray Byte} {encodedLength : BitVec 32}
    {stream : XdrBufferDecodingStream} (made : ofData buffer encodedLength = .ok stream)
    (inside : encodedLength.toInt ≤ buffer.values.length) :
    ∃ begun, beginDecoding stream = .ok () begun ∧
      Reading (buffer.values.take encodedLength.toInt.toNat) begun
        (buffer.values.take encodedLength.toInt.toNat) := by
  simp only [ofData] at made
  split at made
  · simp at made
  · next valid =>
      cases made
      refine ⟨_, rfl, ⟨buffer, rfl, List.take_prefix _ _⟩, ?_, [], rfl, rfl⟩
      simp only [List.length_take]
      omega

/-- What the reader of a text returns, the stream returns, and stands behind it. -/
theorem decode_of_reads {charset : Charset} {types : List XdrType} {items : List XdrItem}
    {text rest : List Byte} {stream : XdrBufferDecodingStream}
    (reads : Reads (types.mapM' (XdrType.decode charset) : TextM (List XdrItem)) text items)
    (state : Reading (text ++ rest) stream (text ++ rest)) :
    ∃ final, (types.mapM' (XdrType.decode charset) : DecodeM (List XdrItem)) stream =
        .ok items final ∧ final.bufferIndex = text.length := by
  have same := (textRelation (text ++ rest)).mapM types ((textRelation _).type charset) stream
    (text ++ rest) state
  rw [reads rest] at same
  rcases same.of_ok with ⟨final, runs, state'⟩
  refine ⟨final, runs, ?_⟩
  rw [state'.index, List.length_append]
  omega

end XdrBufferDecodingStream

namespace XdrBufferEncodingStream

variable {size : ℕ} {stream : XdrBufferEncodingStream} {calls : List EncodeCall}

/-- Several items behind `beginEncoding`, as a client encodes a message. -/
def encodeMessage (charset : Charset) (items : List XdrItem) : EncodeM Unit := do
  beginEncoding
  items.forM (XdrItem.encode charset)

theorem flatten_bytes (charset : Charset) (items : List XdrItem) :
    (items.map (XdrItem.bytes charset)).flatten =
      (items.flatMap (XdrItem.chunks charset)).flatten := by
  rw [List.flatMap, List.flatten_flatten, List.map_map]
  rfl

theorem Written.data {written : List Byte} (state : Written size written stream) :
    ∃ buffer, stream.getXdrData = some buffer ∧ buffer.values.length = size ∧
      written <+: buffer.values := by
  rcases state.buffer with ⟨buffer, open_, sizes, holds⟩
  refine ⟨buffer, open_, sizes, ?_⟩
  rw [← holds]
  exact List.take_prefix _ _

/-- A message behind any calls does what a sink with the room of the buffer does. -/
theorem encodeMessage_same (charset : Charset) (created : Created size stream)
    (isOpen : .close ∉ calls) (items : List XdrItem) :
    SameResult (Encodes size)
      (encodeMessage charset items (outcomes (EncodeCall.run charset) calls stream).2)
      (if (items.map (XdrItem.bytes charset)).flatten.length ≤ size then
        .ok () (Sink.extended ⟨[], size⟩ (items.map (XdrItem.bytes charset)).flatten)
      else
        .error .bufferOverflow (Sink.extended ⟨[], size⟩
          (Sink.fitting size (items.flatMap (XdrItem.chunks charset))).flatten)) := by
  have encodes := (EncodeCall.outcomes_sink charset isOpen created.encodes).2
  generalize (outcomes (EncodeCall.run charset) calls stream).2 = used at encodes ⊢
  rcases (EncodeCall.beginEncoding_related charset used _ encodes).of_ok with
    ⟨begun, begins, state⟩
  rw [encodes.2] at state
  have same := (sinkRelation size).forM items ((sinkRelation _).item charset) begun _ state
  have message : encodeMessage charset items used =
      (items.forM (XdrItem.encode charset) : EncodeM Unit) begun := bind_ok begins
  rw [forM_encode_eq, putChunks, Sink.forM_put, ← flatten_bytes] at same
  rwa [message]

/-- A message whose bytes fit is encoded. -/
theorem encodeMessage_of_fits (charset : Charset) (created : Created size stream)
    (isOpen : .close ∉ calls) {items : List XdrItem}
    (fits : (items.map (XdrItem.bytes charset)).flatten.length ≤ size) :
    ∃ (stream' : XdrBufferEncodingStream) (buffer : JavaArray Byte),
      encodeMessage charset items (outcomes (EncodeCall.run charset) calls stream).2 =
        .ok () stream' ∧
      stream'.getXdrData = some buffer ∧ buffer.values.length = size ∧
      stream'.getXdrLength = (items.map (XdrItem.bytes charset)).flatten.length ∧
      (items.map (XdrItem.bytes charset)).flatten <+: buffer.values := by
  have same := encodeMessage_same charset created isOpen items
  rw [if_pos fits] at same
  rcases same.of_ok with ⟨stream', runs, final, -⟩
  rcases final.data with ⟨buffer, open_, sizes, initial⟩
  exact ⟨stream', buffer, runs, open_, sizes, final.index, initial⟩

/-- A message whose bytes do not fit is not encoded, up to the chunks in front. -/
theorem encodeMessage_of_overflow (charset : Charset) (created : Created size stream)
    (isOpen : .close ∉ calls) {items : List XdrItem}
    (tooMuch : ¬ (items.map (XdrItem.bytes charset)).flatten.length ≤ size) :
    ∃ (stream' : XdrBufferEncodingStream) (buffer : JavaArray Byte),
      encodeMessage charset items (outcomes (EncodeCall.run charset) calls stream).2 =
        .error .bufferOverflow stream' ∧
      stream'.getXdrData = some buffer ∧ buffer.values.length = size ∧
      stream'.getXdrLength =
        (Sink.fitting size (items.flatMap (XdrItem.chunks charset))).flatten.length ∧
      (Sink.fitting size (items.flatMap (XdrItem.chunks charset))).flatten <+: buffer.values := by
  have same := encodeMessage_same charset created isOpen items
  rw [if_neg tooMuch] at same
  rcases same.of_error with ⟨stream', runs, final, -⟩
  rcases final.data with ⟨buffer, open_, sizes, initial⟩
  exact ⟨stream', buffer, runs, open_, sizes, final.index, initial⟩

/-- On an open stream a message is encoded if its bytes fit, whatever the buffer held before. -/
theorem encodeMessage_outcome (charset : Charset) (created : Created size stream)
    (isOpen : .close ∉ calls) (items : List XdrItem) :
    ∃ (stream' : XdrBufferEncodingStream) (buffer : JavaArray Byte) (written : List Byte),
      stream'.getXdrData = some buffer ∧ buffer.values.length = size ∧
      stream'.getXdrLength = written.length ∧ written <+: buffer.values ∧
      if (items.map (XdrItem.bytes charset)).flatten.length ≤ size then
        encodeMessage charset items (outcomes (EncodeCall.run charset) calls stream).2 =
            .ok () stream' ∧
          written = (items.map (XdrItem.bytes charset)).flatten
      else
        encodeMessage charset items (outcomes (EncodeCall.run charset) calls stream).2 =
            .error .bufferOverflow stream' ∧
          written = (Sink.fitting size (items.flatMap (XdrItem.chunks charset))).flatten := by
  by_cases fits : (items.map (XdrItem.bytes charset)).flatten.length ≤ size
  · rcases encodeMessage_of_fits charset created isOpen fits with
      ⟨stream', buffer, runs, open_, sizes, index, initial⟩
    refine ⟨stream', buffer, _, open_, sizes, index, initial, ?_⟩
    rw [if_pos fits]
    exact ⟨runs, rfl⟩
  · rcases encodeMessage_of_overflow charset created isOpen fits with
      ⟨stream', buffer, runs, open_, sizes, index, initial⟩
    refine ⟨stream', buffer, _, open_, sizes, index, initial, ?_⟩
    rw [if_neg fits]
    exact ⟨runs, rfl⟩

theorem encodeMessage_outcome_overflow :
    ∃ stream, ofSize 8 = .ok stream ∧
      ∃ (stream' : XdrBufferEncodingStream) (buffer : JavaArray Byte),
        stream'.getXdrData = some buffer ∧ stream'.getXdrLength = 8 ∧
        [0, 0, 0, 5, 0, 0, 0, 3] <+: buffer.values ∧
        encodeMessage .latin1 [.scalar .int 5, .dynamicOpaque ⟨[1, 2, 3], by decide⟩]
          (outcomes (EncodeCall.run .latin1) [.item (.scalar .long 7)] stream).2 =
            .error .bufferOverflow stream' := by
  refine ⟨_, rfl, ?_⟩
  rcases @encodeMessage_outcome 8 _ [.item (.scalar .long 7)] .latin1
    (.ofSize (rfl : ofSize 8 = _)) (by simp)
    [.scalar .int 5, .dynamicOpaque ⟨[1, 2, 3], by decide⟩] with
    ⟨stream', buffer, written, data, -, length, initial, outcome⟩
  rw [if_neg (by decide)] at outcome
  rcases outcome with ⟨runs, same⟩
  have written : written = [0, 0, 0, 5, 0, 0, 0, 3] := same.trans (by decide)
  subst written
  exact ⟨stream', buffer, data, length, initial, runs⟩

/-- No message brings a closed buffer back. -/
theorem encodeMessage_closed (charset : Charset) (items : List XdrItem)
    {stream stream' : XdrBufferEncodingStream} (closed : stream.getXdrData = none)
    (encoded : encodeMessage charset items stream = .ok () stream') :
    stream'.getXdrData = none := by
  have begins : beginEncoding stream = .ok () { stream with bufferIndex := 0 } := rfl
  rw [encodeMessage, bind_ok begins] at encoded
  replace closed : ({ stream with bufferIndex := 0 } : XdrBufferEncodingStream).getXdrData =
    none := closed
  generalize ({ stream with bufferIndex := 0 } : XdrBufferEncodingStream) = begun at *
  induction items with
  | nil =>
      cases encoded
      exact closed
  | cons item rest ih =>
      rw [List.forM_eq_forM, List.forM_cons] at encoded
      rcases refuses_item charset item with refuses | ⟨-, nothing⟩
      · rcases refuses begun closed with ⟨exception, thrown, runs, -⟩
        rw [bind_error runs] at encoded
        cases encoded
      · rw [nothing] at encoded
        exact ih encoded

/-- What is encoded is decoded wherever its bytes arrive, with anything behind them. -/
theorem decode_encoded (charset : Charset) {bufferSize : BitVec 32}
    (made : ofSize bufferSize = .ok stream) (calls : List EncodeCall) (items : List XdrItem)
    {stream' : XdrBufferEncodingStream}
    {sent received : JavaArray Byte} {encodedLength : BitVec 32}
    (encoded : encodeMessage charset items (outcomes (EncodeCall.run charset) calls stream).2 =
      .ok () stream')
    (data : stream'.getXdrData = some sent)
    (arrived : sent.values.take stream'.getXdrLength.toNat <+: received.values)
    (covers : stream'.getXdrLength ≤ encodedLength.toInt)
    (inside : encodedLength.toInt ≤ received.values.length)
    (whole : encodedLength.toInt % 4 = 0) :
    ∃ decoder decoder', XdrBufferDecodingStream.ofData received encodedLength = .ok decoder ∧
      XdrBufferDecodingStream.decodeMessage charset (items.map XdrItem.type) decoder =
        .ok (items.map (XdrItem.normal charset)) decoder' ∧
      decoder'.bufferIndex = stream'.getXdrLength := by
  have isOpen : .close ∉ calls := by
    intro closes
    rw [encodeMessage_closed charset items (closed_of_close charset closes stream) encoded] at data
    cases data
  have fits : (items.map (XdrItem.bytes charset)).flatten.length ≤ bufferSize.toInt.toNat := by
    by_contra tooMuch
    rcases encodeMessage_of_overflow charset (.ofSize made) isOpen tooMuch with ⟨_, _, fails, -⟩
    rw [encoded] at fails
    cases fails
  rcases encodeMessage_of_fits charset (.ofSize made) isOpen fits with
    ⟨final, buffer, runs, open_, sizes, index, initial⟩
  rw [encoded] at runs
  cases runs
  rw [data] at open_
  cases open_
  generalize text : (items.map (XdrItem.bytes charset)).flatten = bytes at *
  have start : bytes <+: received.values := by
    rw [index, Int.toNat_natCast, ← List.prefix_iff_eq_take.mp initial] at arrived
    exact arrived
  have shorter : bytes <+: received.values.take encodedLength.toInt.toNat :=
    List.prefix_take_iff.mpr ⟨start, by omega⟩
  rcases shorter with ⟨rest, split⟩
  have made' : XdrBufferDecodingStream.ofData received encodedLength =
      .ok ⟨some received, encodedLength.toInt, 0, -4⟩ := by
    rw [XdrBufferDecodingStream.ofData, if_neg (by omega)]
  rcases XdrBufferDecodingStream.reading_of_begin made' inside with ⟨begun, begins, state⟩
  rw [← split, ← text] at state
  rcases XdrBufferDecodingStream.decode_of_reads (reads_items charset items) state with
    ⟨decoder', decodes, position⟩
  refine ⟨_, decoder', made', ?_, by rw [position, index, text]⟩
  rw [XdrBufferDecodingStream.decodeMessage, bind_ok begins]
  exact decodes

theorem decode_encoded_bytes :
    ∃ decoder decoder',
      XdrBufferDecodingStream.ofData
        ⟨[0, 0, 0, 5, 0, 0, 0, 3, 1, 2, 3, 0, 9], by decide⟩ 12 = .ok decoder ∧
      XdrBufferDecodingStream.decodeMessage .latin1 [.scalar .int, .dynamicOpaque] decoder =
        .ok [.scalar .int 5, .dynamicOpaque ⟨[1, 2, 3], by decide⟩] decoder' ∧
      decoder'.bufferIndex = 12 := by
  rcases @encodeMessage_of_fits 12 _ [] .latin1 (.ofSize (rfl : ofSize 12 = _)) (by simp)
    [.scalar .int 5, .dynamicOpaque ⟨[1, 2, 3], by decide⟩] (by decide) with
    ⟨stream', buffer, runs, data, -, length, initial⟩
  have front := List.prefix_iff_eq_take.mp initial
  rcases @decode_encoded _ .latin1 12 rfl [] [.scalar .int 5, .dynamicOpaque ⟨[1, 2, 3], by decide⟩]
    stream' buffer ⟨[0, 0, 0, 5, 0, 0, 0, 3, 1, 2, 3, 0, 9], by decide⟩ 12 runs data
    (by rw [length, Int.toNat_natCast, ← front]; decide) (by rw [length]; decide) (by decide)
    (by decide) with ⟨decoder, decoder', made, decoded, position⟩
  exact ⟨decoder, decoder', made, decoded, by rw [position, length]; rfl⟩

end XdrBufferEncodingStream

end MrsOptimization
