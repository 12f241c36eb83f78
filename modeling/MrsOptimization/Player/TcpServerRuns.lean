import MrsOptimization.Player.TcpServer

/-!
# The messages of a connection

What the server does with the bytes of a client does not depend on how the
network cuts them into pieces, nor on when the server polls. The buffer never
stays full: a message that does not fit into it is cut.
-/

namespace MrsOptimization

namespace TcpServer

variable {σ δ : Type}

theorem messageLength_le (hdr : PlayerMsgHdr) : messageLength hdr ≤ maxMessageSize :=
  min_le_right _ _

theorem front_of_header {buffer : List Byte} {hdr : PlayerMsgHdr}
    (enough : headerSize ≤ buffer.length) (read : unpackHeader buffer = some hdr) :
    front buffer =
      if buffer.length < messageLength hdr then .incomplete
      else if messageLength hdr ≤ 0 then .invalid
      else .frame (messageLength hdr).toNat := by
  rw [front, if_neg (Nat.not_lt.mpr enough), read]

theorem front_of_short {buffer : List Byte} (short : buffer.length < headerSize) :
    front buffer = .incomplete := by
  rw [front, if_pos short]

/-- What stands behind a complete message does not matter. -/
theorem front_append {buffer : List Byte} (here : front buffer ≠ .incomplete)
    (more : List Byte) : front (buffer ++ more) = front buffer := by
  by_cases enough : headerSize ≤ buffer.length
  · rcases exists_unpackHeader enough with ⟨hdr, read⟩
    have read' : unpackHeader (buffer ++ more) = some hdr := by
      rw [unpackHeader_append enough, read]
    have longer : headerSize ≤ (buffer ++ more).length := by
      rw [List.length_append]
      omega
    have complete : ¬ (buffer.length : ℤ) < messageLength hdr := by
      intro waits
      rw [front_of_header enough read, if_pos waits] at here
      exact here rfl
    have complete' : ¬ ((buffer ++ more).length : ℤ) < messageLength hdr := by
      rw [List.length_append]
      omega
    rw [front_of_header enough read, front_of_header longer read', if_neg complete,
      if_neg complete']
  · exact absurd (front_of_short (Nat.not_le.mp enough)) here

/-- How `ParseBuffer` finds messages in a stream. -/
def framing : Framing Byte where
  front := front
  pos found := (front_frame found).2.1
  inside found := (front_frame found).2.2.1
  stable := front_append

@[simp]
theorem framing_front : framing.front = front :=
  rfl

theorem parseBuffer_of_frame {env : Environment σ δ} {packfunc : Option (PackFunction δ)}
    {buffer : List Byte} {state : σ} {n : ℕ} (found : front buffer = .frame n) {hdr : PlayerMsgHdr}
    (header : unpackHeader buffer = some hdr) :
    parseBuffer env packfunc buffer state =
      if n < headerSize ∧ decodes env hdr state then none
      else parseBuffer env
        (dispatch env hdr ((buffer.take n).drop headerSize) packfunc state).1 (buffer.drop n)
        (dispatch env hdr ((buffer.take n).drop headerSize) packfunc state).2 := by
  rw [parseBuffer]
  split
  · next other => cases other.symm.trans found
  · next other => cases other.symm.trans found
  · next length found' =>
      cases found'.symm.trans found
      rw [header]

theorem parseBuffer_of_no_frame {env : Environment σ δ} {packfunc : Option (PackFunction δ)}
    {buffer : List Byte} {state : σ} (none_ : ∀ n, front buffer ≠ .frame n) :
    parseBuffer env packfunc buffer state =
      if front buffer = .invalid then none else some (buffer, state) := by
  rw [parseBuffer]
  split
  · next found => rw [if_neg (by rw [found]; simp)]
  · next found => rw [if_pos found]
  · next n found => exact absurd found (none_ n)

/-- The generated functions return 0 for an empty buffer before they look at anything else. -/
def Generated (env : Environment σ δ) : Prop :=
  ∀ interf type subtype pack, env.getPackfunc interf type subtype = some pack → (pack []).1 = 0

/-- A function of the table, or none. -/
def FromTable (env : Environment σ δ) (packfunc : Option (PackFunction δ)) : Prop :=
  ∀ pack, packfunc = some pack →
    ∃ interf type subtype, env.getPackfunc interf type subtype = some pack

/-- The function that is left from the last data does no harm to a message without data. -/
theorem dispatch_of_table {env : Environment σ δ} (generated : Generated env) {hdr : PlayerMsgHdr}
    {payload : List Byte} (empty : hdr.size = 0 → payload = [])
    {packfunc : Option (PackFunction δ)} (fromTable : FromTable env packfunc) (state : σ) :
    (dispatch env hdr payload packfunc state).2 = (dispatch env hdr payload none state).2 ∧
      FromTable env (dispatch env hdr payload packfunc state).1 := by
  simp only [dispatch]
  split
  · by_cases data : hdr.size ≠ 0
    · simp only [if_pos data]
      refine ⟨trivial, ?_⟩
      cases looked : env.getPackfunc hdr.addr.interf hdr.type hdr.subtype with
      | none => simp [FromTable]
      | some pack =>
          intro pack' same
          dsimp only at same
          split at same <;> exact ⟨_, _, _, looked.trans same⟩
    · have zero : hdr.size = 0 := not_not.mp data
      rw [empty zero]
      simp only [zero, ne_eq, not_true_eq_false, if_false]
      cases packfunc with
      | none => exact ⟨rfl, fromTable⟩
      | some pack =>
          rcases fromTable pack rfl with ⟨interf, type, subtype, looked⟩
          have nothing := generated interf type subtype pack looked
          simp only [nothing, lt_self_iff_false, if_false]
          exact ⟨by simp, fromTable⟩
  · exact ⟨rfl, fromTable⟩

/-- A server that keeps the headers, and decodes data of any length. -/
def logging : Environment (List PlayerMsgHdr) (List Byte) where
  host := 0
  port := 6665
  knowsDevice _ _ := true
  getPackfunc _ _ _ := some fun bytes => (bytes.length, bytes)
  handle log hdr _ := log ++ [hdr]
  close log := log

theorem generated_logging : Generated logging := by
  intro interf type subtype pack looked
  cases looked
  rfl

/-- What one message does to the server: nothing if it is shorter than a header. -/
def process (env : Environment σ δ) (state : σ) (frame : List Byte) : σ :=
  if frame.length < headerSize then state
  else
    match unpackHeader frame with
    | some hdr => (dispatch env hdr (frame.drop headerSize) none state).2
    | none => state

/-- A header and as many bytes as it announces are a message. -/
theorem front_of_message {text payload : List Byte} {hdr : PlayerMsgHdr}
    (reads : Reads (decodeHeader : TextM PlayerMsgHdr) text hdr)
    (header : text.length = headerSize) (size : hdr.size.toNat = payload.length)
    (small : headerSize + payload.length ≤ maxMessageSize) :
    front (text ++ payload) = .frame (text ++ payload).length := by
  have length : messageLength hdr = (text ++ payload).length := by
    rw [messageLength, size, @wrap_of_mem_range 31, List.length_append, header]
    · exact min_eq_left (by exact_mod_cast small)
    · omega
    · simp only [maxMessageSize] at small
      omega
  have enough : headerSize ≤ (text ++ payload).length := by
    rw [List.length_append, header]
    omega
  have positive : 0 < headerSize := by decide
  rw [front_of_header enough (unpackHeader_of_reads reads header payload), length,
    if_neg (by omega), if_neg (by omega), Int.toNat_natCast]

theorem messageLength_of_empty {hdr : PlayerMsgHdr} (zero : hdr.size = 0) :
    messageLength hdr = headerSize := by
  rw [messageLength, zero]
  decide

/-- A header announces a message that is shorter than a header. -/
def Malformed (stream : List Byte) : Prop :=
  front (framing.split stream).2 = .invalid ∨
    ∃ frame ∈ (framing.split stream).1, frame.length < headerSize

theorem Malformed.append {stream : List Byte} (malformed : Malformed stream) (more : List Byte) :
    Malformed (stream ++ more) := by
  rcases malformed with invalid | ⟨frame, member, short⟩
  · exact Or.inl (@Framing.invalid_append _ framing _ invalid more)
  · refine Or.inr ⟨frame, ?_, short⟩
    rw [Framing.split_append]
    exact List.mem_append_left _ member

theorem Malformed.of_rest {stream more : List Byte}
    (malformed : Malformed ((framing.split stream).2 ++ more)) : Malformed (stream ++ more) := by
  rw [Malformed, Framing.split_append]
  rcases malformed with invalid | ⟨frame, member, short⟩
  · exact Or.inl invalid
  · exact Or.inr ⟨frame, List.mem_append_right _ member, short⟩

theorem Malformed.of_drop {stream : List Byte} {n : ℕ} (found : front stream = .frame n)
    (malformed : Malformed (stream.drop n)) : Malformed stream := by
  rw [Malformed, Framing.split_of_frame found]
  rcases malformed with invalid | ⟨frame, member, short⟩
  · exact Or.inl invalid
  · exact Or.inr ⟨frame, List.mem_cons_of_mem _ member, short⟩

/-- A message that nobody decodes does nothing. -/
theorem dispatch_of_not_decodes {env : Environment σ δ} {hdr : PlayerMsgHdr} {state : σ}
    (data : hdr.size ≠ 0) (skipped : ¬ decodes env hdr state) (payload : List Byte)
    {packfunc : Option (PackFunction δ)} (fromTable : FromTable env packfunc) :
    (dispatch env hdr payload packfunc state).2 = state ∧
      FromTable env (dispatch env hdr payload packfunc state).1 := by
  simp only [dispatch]
  split
  · next known =>
      have none_ : env.getPackfunc hdr.addr.interf hdr.type hdr.subtype = none := by
        rw [← Option.not_isSome_iff_eq_none]
        intro looked
        exact skipped (decide_eq_true ⟨known, data, looked⟩)
      simp [none_, FromTable]
  · exact ⟨rfl, fromTable⟩

/-- One iteration of `ParseBuffer` processes the message at the front. -/
theorem parseBuffer_step {env : Environment σ δ} (generated : Generated env)
    {packfunc : Option (PackFunction δ)} (fromTable : FromTable env packfunc) {buffer : List Byte}
    {n : ℕ} (found : front buffer = .frame n) (state : σ) :
    parseBuffer env packfunc buffer state = none ∧ n < headerSize ∨
      ∃ packfunc', FromTable env packfunc' ∧ parseBuffer env packfunc buffer state =
        parseBuffer env packfunc' (buffer.drop n) (process env state (buffer.take n)) := by
  rcases front_frame found with ⟨enough, positive, inside, hdr, header, length⟩
  have size : (buffer.take n).length = n := List.length_take_of_le inside
  rw [parseBuffer_of_frame found header]
  by_cases short : n < headerSize
  · by_cases decoded : decodes env hdr state
    · exact Or.inl ⟨if_pos ⟨short, decoded⟩, short⟩
    · have data : hdr.size ≠ 0 := by
        intro zero
        rw [messageLength_of_empty zero] at length
        omega
      have skips := dispatch_of_not_decodes data decoded ((buffer.take n).drop headerSize) fromTable
      have nothing : process env state (buffer.take n) = state := by
        rw [process, if_pos (by rwa [size])]
      rw [if_neg (not_and_of_not_right _ decoded), skips.1, nothing]
      exact Or.inr ⟨_, skips.2, rfl⟩
  · have empty : hdr.size = 0 → (buffer.take n).drop headerSize = [] := by
      intro zero
      rw [messageLength_of_empty zero] at length
      exact List.drop_eq_nil_of_le (by omega)
    rcases dispatch_of_table generated empty fromTable state with ⟨same, table⟩
    have processed : process env state (buffer.take n) =
        (dispatch env hdr ((buffer.take n).drop headerSize) none state).2 := by
      rw [process, if_neg (by rwa [size]), unpackHeader_take (by omega), header]
    rw [if_neg (not_and_of_not_left _ short), processed, ← same]
    exact Or.inr ⟨_, table, rfl⟩

/-- The iterations of `ParseBuffer` are the messages of the buffer, one after another. -/
theorem parseBuffer_spec {env : Environment σ δ} (generated : Generated env)
    {packfunc : Option (PackFunction δ)} (fromTable : FromTable env packfunc)
    (buffer : List Byte) (state : σ) :
    parseBuffer env packfunc buffer state = none ∧ Malformed buffer ∨
      parseBuffer env packfunc buffer state =
          some ((framing.split buffer).2,
            (framing.split buffer).1.foldl (process env) state) ∧
        front (framing.split buffer).2 ≠ .invalid := by
  induction buffer using @Framing.split_induction _ framing generalizing packfunc state with
  | frame buffer n found ih =>
      have inside := (front_frame found).2.2.1
      rcases parseBuffer_step generated fromTable found state with
        ⟨fault, short⟩ | ⟨packfunc', fromTable', step⟩
      · refine Or.inl ⟨fault, Or.inr ⟨buffer.take n, ?_, ?_⟩⟩
        · rw [Framing.split_of_frame found]
          exact List.mem_cons_self ..
        · rwa [List.length_take_of_le inside]
      · rw [step, Framing.split_of_frame found]
        exact (ih fromTable' _).imp_left fun failed => ⟨failed.1, failed.2.of_drop found⟩
  | rest buffer none_ =>
      rw [parseBuffer_of_no_frame none_, Malformed, Framing.split_of_no_frame none_]
      by_cases invalid : front buffer = .invalid
      · rw [if_pos invalid]
        exact Or.inl ⟨rfl, Or.inl invalid⟩
      · rw [if_neg invalid]
        exact Or.inr ⟨rfl, invalid⟩

/-- A buffer that is full begins with a message, or is invalid. -/
theorem front_of_full {buffer : List Byte} (full : maxMessageSize ≤ buffer.length) :
    front buffer ≠ .incomplete := by
  have enough : headerSize ≤ buffer.length := by
    have : headerSize ≤ maxMessageSize := by decide
    omega
  rcases exists_unpackHeader enough with ⟨hdr, read⟩
  have bound := messageLength_le hdr
  rw [front_of_header enough read, if_neg (by omega)]
  split <;> simp

namespace Connection

/-- The bytes fit into the buffer, and the buffer is not too large. -/
structure Valid (conn : Connection) : Prop where
  fits : conn.readbuffer.length ≤ conn.readbuffersize
  lower : readBufferSize ≤ conn.readbuffersize
  upper : conn.readbuffersize ≤ maxMessageSize

/-- The buffer grows unless there is room, and is full at the maximum only. -/
theorem Valid.grown {conn : Connection} (valid : conn.Valid) :
    conn.readbuffer.length ≤ TcpServer.grown conn ∧ readBufferSize ≤ TcpServer.grown conn ∧
      TcpServer.grown conn ≤ maxMessageSize ∧
      (TcpServer.grown conn ≤ conn.readbuffer.length → TcpServer.grown conn = maxMessageSize) := by
  rcases valid with ⟨fits, lower, upper⟩
  have small : readBufferSize ≤ maxMessageSize := by decide
  have positive : 0 < readBufferSize := by decide
  rw [TcpServer.grown]
  generalize readBufferSize = least at *
  generalize maxMessageSize = most at *
  split
  · split
    · exact ⟨by omega, by omega, by omega, fun _ => rfl⟩
    · exact ⟨by omega, by omega, by omega, by omega⟩
  · exact ⟨by omega, by omega, by omega, by omega⟩

end Connection

/-- `ReadClient` reads what has arrived in order, until the buffer is full or there is nothing. -/
theorem readLoop_spec (recv : Recv) (ended : Bool) {conn : Connection} (valid : conn.Valid)
    (pending : List Byte) :
    ∃ taken, pending = taken ++ (readLoop recv ended conn pending).2.2 ∧
      (readLoop recv ended conn pending).2.1.readbuffer = conn.readbuffer ++ taken ∧
      (readLoop recv ended conn pending).2.1.Valid ∧
      ((readLoop recv ended conn pending).1 = true ∧
          (readLoop recv ended conn pending).2.1.readbuffer.length = maxMessageSize ∨
        (readLoop recv ended conn pending).1 = !ended ∧
          (readLoop recv ended conn pending).2.2 = []) := by
  induction conn, pending using readLoop.induct recv with
  | case1 conn pending full =>
      rcases valid.grown with ⟨fits, lower, upper, most⟩
      rw [readLoop, dif_pos full]
      refine ⟨[], rfl, (List.append_nil _).symm, ⟨fits, lower, upper⟩, Or.inl ⟨rfl, ?_⟩⟩
      have size := most full
      dsimp only
      omega
  | case2 conn goes =>
      rcases valid.grown with ⟨fits, lower, upper, -⟩
      rw [readLoop, dif_neg goes, dif_pos rfl]
      exact ⟨[], rfl, (List.append_nil _).symm, ⟨fits, lower, upper⟩, Or.inr ⟨rfl, rfl⟩⟩
  | case3 conn pending goes some_ count ih =>
      rcases valid.grown with ⟨fits, lower, upper, -⟩
      have room := recv.le_room (grown conn - conn.readbuffer.length) pending
      have shorter := recv.le_pending (grown conn - conn.readbuffer.length) pending
      have fits' : (conn.readbuffer ++ pending.take count).length ≤ grown conn := by
        rw [List.length_append, List.length_take]
        omega
      rcases ih ⟨fits', lower, upper⟩ with ⟨taken, split, buffer, valid', outcome⟩
      rw [readLoop, dif_neg goes, dif_neg some_]
      refine ⟨pending.take count ++ taken, ?_, ?_, valid', outcome⟩
      · rw [List.append_assoc, ← split, List.take_append_drop]
      · rw [buffer, List.append_assoc]

/-- A buffer that is not full takes something in. -/
theorem readLoop_progress (recv : Recv) (ended : Bool) {conn : Connection} (valid : conn.Valid)
    (room : conn.readbuffer.length < maxMessageSize) {pending : List Byte} (some_ : pending ≠ []) :
    (readLoop recv ended conn pending).2.2.length < pending.length := by
  rcases valid.grown with ⟨fits, lower, upper, full⟩
  have goes : ¬ grown conn ≤ conn.readbuffer.length := by
    intro noRoom
    have size := full noRoom
    omega
  have count := recv.pos (Nat.sub_pos_of_lt (not_le.mp goes)) some_
  have least := recv.le_room (grown conn - conn.readbuffer.length) pending
  have bound := recv.le_pending (grown conn - conn.readbuffer.length) pending
  rw [readLoop, dif_neg goes, dif_neg some_]
  dsimp only
  generalize recv.count (grown conn - conn.readbuffer.length) pending = n at *
  have valid' : (Connection.mk (conn.readbuffer ++ pending.take n) (grown conn)).Valid := by
    refine ⟨?_, lower, upper⟩
    change (conn.readbuffer ++ pending.take n).length ≤ grown conn
    rw [List.length_append, List.length_take]
    omega
  rcases readLoop_spec recv ended valid' (pending.drop n) with ⟨taken, split, -⟩
  have lengths := congrArg List.length split
  rw [List.length_drop, List.length_append] at lengths
  omega

/-- A new connection -/
def State.start (server : σ) : State σ where
  conn := ⟨[], readBufferSize⟩
  pending := []
  ended := false
  server := server
  del := false

/-- The server has processed the messages of what it has read, and keeps what is left. -/
structure HasRead (env : Environment σ δ) (server : σ) (consumed : List Byte)
    (state : State σ) : Prop where
  server : state.server = (framing.split consumed).1.foldl (process env) server
  buffer : state.conn.readbuffer = (framing.split consumed).2
  valid : state.conn.Valid
  /-- The next `ReadClient` can read something. -/
  room : state.conn.readbuffer.length < maxMessageSize
  stays : state.del = false

/-- What becomes of a connection whose server has processed what was consumed. -/
inductive Outcome (env : Environment σ δ) (server : σ) (consumed : List Byte) (state : State σ) :
    Option (State σ) → Prop
  | fault (malformed : Malformed (consumed ++ state.pending)) :
      Outcome env server consumed state none
  | closed {next : State σ} (ended : state.ended = true) (del : next.del = true)
      (server_ : next.server = env.close state.server) :
      Outcome env server consumed state (some next)
  | goesOn {next : State σ} {consumed' : List Byte}
      (stream : consumed' ++ next.pending = consumed ++ state.pending)
      (progress : next.pending.length ≤ state.pending.length - 1)
      (ended : next.ended = state.ended) (hasRead : HasRead env server consumed' next) :
      Outcome env server consumed state (some next)

/-- `ReadClient` faults only on a malformed stream, and parses everything that it has read unless
it finds the end of the stream. -/
theorem readClient_outcome (recv : Recv) {env : Environment σ δ} (generated : Generated env)
    {server : σ} {consumed : List Byte} {state : State σ}
    (hasRead : HasRead env server consumed state) :
    Outcome env server consumed state ((readClient recv env state).map fun result =>
      if result.1 < 0 then result.2.close env else result.2) := by
  rcases readLoop_spec recv state.ended hasRead.valid state.pending with
    ⟨taken, split, buffer, valid, ends⟩
  have progress : (readLoop recv state.ended state.conn state.pending).2.2.length ≤
      state.pending.length - 1 := by
    by_cases nothing : state.pending = []
    · have lengths := congrArg List.length split
      rw [nothing, List.length_append, List.length_nil] at lengths
      rw [nothing]
      omega
    · have := readLoop_progress recv state.ended hasRead.valid hasRead.room nothing
      omega
  rw [readClient]
  generalize readLoop recv state.ended state.conn state.pending = read at *
  cases parses : read.1 with
  | false =>
      rcases ends with ⟨other, -⟩ | ⟨found, -⟩
      · cases parses.symm.trans other
      · have ended : state.ended = true := by
          rw [parses] at found
          simpa using found
        exact .closed ended rfl rfl
  | true =>
      have appended := @Framing.split_append _ framing consumed taken
      rw [← hasRead.buffer, ← buffer] at appended
      have stream : consumed ++ taken ++ read.2.2 = consumed ++ state.pending := by
        rw [List.append_assoc, ← split]
      have whole := congrArg List.length (@Framing.split_flatten _ framing read.2.1.readbuffer)
      have never := @Framing.split_rest _ framing read.2.1.readbuffer
      rw [List.length_append] at whole
      rcases parseBuffer_spec generated (by simp [FromTable] : FromTable env none)
        read.2.1.readbuffer state.server with ⟨fault, malformed⟩ | ⟨parsed, continues⟩
      · rw [buffer, hasRead.buffer] at malformed
        simp only [if_true, fault, Option.map_none]
        apply Outcome.fault
        rw [← stream]
        exact malformed.of_rest.append _
      · simp only [if_true, parsed, Option.map_some, Int.lt_irrefl, if_false]
        refine .goesOn stream progress rfl ⟨?_, ?_, ⟨?_, valid.lower, valid.upper⟩, ?_, ?_⟩
        · rw [appended, List.foldl_append, ← hasRead.server]
        · rw [appended]
        · have fits := valid.fits
          dsimp only
          omega
        · by_contra full
          have here := front_of_full (Nat.not_lt.mp full)
          cases front_ : front (framing.split read.2.1.readbuffer).2 with
          | incomplete => exact here front_
          | frame n => exact never n front_
          | invalid => exact continues front_
        · exact hasRead.stays

/-- One poll of the server. -/
theorem read_outcome (recv : Recv) {env : Environment σ δ} (generated : Generated env)
    {server : σ} {consumed : List Byte} {state : State σ}
    (hasRead : HasRead env server consumed state) (arrival : Arrival) :
    Outcome env server consumed (state.arrive arrival) (read recv env arrival state) := by
  have arrives : HasRead env server consumed (state.arrive arrival) := { hasRead with }
  rw [read, if_neg (by rw [arrives.stays]; decide)]
  split
  · next failed =>
      refine .closed ?_ rfl rfl
      rw [failed]
      exact Bool.or_true _
  · split
    · next nothing =>
        refine .goesOn rfl ?_ rfl arrives
        rw [nothing.1]
        exact Nat.zero_le _
    · exact readClient_outcome recv generated arrives

/-- Nothing happens to a connection that the server has closed. -/
theorem run_of_del (recv : Recv) (env : Environment σ δ) (arrivals : List Arrival)
    {state : State σ} (closed : state.del = true) :
    ∃ final, runEvents (read recv env) arrivals state = some final ∧ final.del = true ∧
      final.server = state.server := by
  induction arrivals generalizing state with
  | nil => exact ⟨state, rfl, closed, rfl⟩
  | cons arrival rest ih =>
      have stepped : read recv env arrival state = some (state.arrive arrival) := if_pos closed
      rcases @ih (state.arrive arrival) closed with ⟨final, run, del, server⟩
      refine ⟨final, ?_, del, server⟩
      rw [runEvents, stepped]
      exact run

/-- All that the client has sent. -/
def arrived (arrivals : List Arrival) : List Byte :=
  (arrivals.map Arrival.arriving).flatten

/-- One of the polls has closed the connection, with the server as the polls before had left it. -/
def ClosedIn (recv : Recv) (env : Environment σ δ) (state : State σ) (arrivals : List Arrival)
    (final : State σ) : Prop :=
  ∃ before last later middle closed, arrivals = before ++ last :: later ∧
    runEvents (read recv env) before state = some middle ∧ middle.del = false ∧
    read recv env last middle = some closed ∧ closed.del = true ∧
    final.server = env.close middle.server

theorem ClosedIn.of_step {recv : Recv} {env : Environment σ δ} {state next final : State σ}
    {arrival : Arrival} {rest : List Arrival} (stepped : read recv env arrival state = some next)
    (closed : ClosedIn recv env next rest final) :
    ClosedIn recv env state (arrival :: rest) final := by
  rcases closed with ⟨before, last, later, middle, closed, rfl, run, poll⟩
  refine ⟨arrival :: before, last, later, middle, closed, rfl, ?_, poll⟩
  rw [runEvents, stepped]
  exact run

/-- The end of a client that has come is among the arrivals, or was there before. -/
theorem closes_of_arrive {state : State σ} {arrival : Arrival} {rest : List Arrival}
    (closes : (state.arrive arrival).ended = true ∨ ∃ later ∈ rest, later.closes = true) :
    state.ended = true ∨ ∃ later ∈ arrival :: rest, later.closes = true := by
  rcases closes with ended | ⟨later, member, closes⟩
  · rcases Bool.or_eq_true_iff.mp ended with already | closes
    · exact Or.inl already
    · exact Or.inr ⟨arrival, List.mem_cons_self .., closes⟩
  · exact Or.inr ⟨later, List.mem_cons_of_mem _ member, closes⟩

/-- A run of the server: a fault comes from the stream, not from its pieces. -/
theorem run_from (recv : Recv) {env : Environment σ δ} (generated : Generated env) {server : σ}
    (arrivals : List Arrival) {consumed : List Byte} {state : State σ}
    (hasRead : HasRead env server consumed state) :
    (runEvents (read recv env) arrivals state = none →
        Malformed (consumed ++ (state.pending ++ arrived arrivals))) ∧
      ∀ final, runEvents (read recv env) arrivals state = some final →
        (final.del = false → ∃ consumed', consumed' ++ final.pending =
            consumed ++ (state.pending ++ arrived arrivals) ∧
          HasRead env server consumed' final) ∧
        (final.del = true →
          (state.ended = true ∨ ∃ arrival ∈ arrivals, arrival.closes = true) ∧
            ClosedIn recv env state arrivals final) := by
  induction arrivals generalizing consumed state with
  | nil =>
      constructor
      · intro failed
        cases failed
      · rintro final ⟨⟩
        refine ⟨fun _ => ⟨consumed, by simp [arrived], hasRead⟩, ?_⟩
        intro closed
        cases closed.symm.trans hasRead.stays
  | cons arrival rest ih =>
      have outcome := read_outcome recv generated hasRead arrival
      have stream : consumed ++ (state.pending ++ arrived (arrival :: rest)) =
          consumed ++ (state.arrive arrival).pending ++ arrived rest := by
        simp [arrived, State.arrive]
      rw [stream, runEvents]
      cases stepped : read recv env arrival state with
      | none =>
          rw [stepped] at outcome
          cases outcome with
          | fault malformed =>
              refine ⟨fun _ => malformed.append _, ?_⟩
              intro final failed
              cases failed
      | some next =>
          rw [stepped] at outcome
          rw [Option.bind_some]
          cases outcome with
          | closed ended del server_ =>
              rcases run_of_del recv env rest del with ⟨final, run, del', server'⟩
              rw [run]
              constructor
              · intro failed
                cases failed
              · rintro final ⟨⟩
                refine ⟨fun stays => absurd stays (by rw [del']; decide), fun _ => ⟨?_, ?_⟩⟩
                · exact closes_of_arrive (Or.inl ended)
                · exact ⟨[], arrival, rest, state, next, rfl, rfl, hasRead.stays, stepped, del,
                    server'.trans server_⟩
          | goesOn stream progress ended hasRead' =>
              rcases ih hasRead' with ⟨faults, finishes⟩
              rw [← List.append_assoc, stream] at faults finishes
              refine ⟨faults, fun final run => ?_⟩
              rcases finishes final run with ⟨stays, closed⟩
              refine ⟨stays, fun del => ?_⟩
              rcases closed del with ⟨closes, closedIn⟩
              rw [ended] at closes
              exact ⟨closes_of_arrive closes, closedIn.of_step stepped⟩

theorem HasRead.start (env : Environment σ δ) (server : σ) :
    HasRead env server [] (.start server) where
  server := by
    rw [Framing.split_nil]
    rfl
  buffer := by
    rw [Framing.split_nil]
    rfl
  valid := ⟨by simp [State.start], le_refl _, (by decide : readBufferSize ≤ maxMessageSize)⟩
  room := (by decide : 0 < maxMessageSize)
  stays := rfl

/-- Whatever arrives in whatever pieces, a fault comes from the stream, and a connection that is
open has processed the messages of what it has read. A connection gets closed only if the client
has closed its end or it has failed, with the messages processed that had been read before. -/
theorem processes_stream (recv : Recv) {env : Environment σ δ} (generated : Generated env)
    (server : σ) (arrivals : List Arrival) :
    (runEvents (read recv env) arrivals (.start server) = none → Malformed (arrived arrivals)) ∧
      ∀ final, runEvents (read recv env) arrivals (.start server) = some final →
        (final.del = false → ∃ consumed, consumed ++ final.pending = arrived arrivals ∧
          HasRead env server consumed final) ∧
        (final.del = true → (∃ arrival ∈ arrivals, arrival.closes = true) ∧
          ClosedIn recv env (.start server) arrivals final) := by
  rcases run_from recv generated arrivals (HasRead.start env server) with ⟨faults, finishes⟩
  refine ⟨faults, fun final run => ?_⟩
  rcases finishes final run with ⟨stays, closed⟩
  refine ⟨stays, fun del => ?_⟩
  rcases closed del with ⟨closes, before⟩
  exact ⟨closes.resolve_left Bool.false_ne_true, before⟩

/-- `recv` gives all that fits. -/
def Recv.greedy : Recv where
  count room pending := min room pending.length
  pos room some_ := lt_min room (List.length_pos_iff.mpr some_)
  le_room _ _ := min_le_left _ _
  le_pending _ _ := min_le_right _ _

def emptyRequest : PlayerMsgHdr :=
  ⟨⟨0, 0, 4, 0⟩, MsgType.req, 3, 0, 0, 0⟩

/-- A request in two pieces, and the end of the stream in one poll with the second one. -/
def cutArrivals : List Arrival :=
  [.bytes (emptyRequest.packed.take 30), .last (emptyRequest.packed.drop 30)]

theorem processes_stream_cut :
    (runEvents (read .greedy logging) cutArrivals (.start []) = none →
        Malformed emptyRequest.packed) ∧
      ∀ final, runEvents (read .greedy logging) cutArrivals (.start []) = some final →
        (final.del = false → ∃ consumed, consumed ++ final.pending = emptyRequest.packed ∧
          HasRead logging [] consumed final) ∧
        (final.del = true → (∃ arrival ∈ cutArrivals, arrival.closes = true) ∧
          ClosedIn .greedy logging (.start []) cutArrivals final) := by
  have run := processes_stream .greedy generated_logging [] cutArrivals
  have stream : arrived cutArrivals = emptyRequest.packed := by
    simp [arrived, cutArrivals, Arrival.arriving]
  rwa [stream] at run

/-- Polling without new bytes reads all that have arrived. -/
theorem reads_pending (recv : Recv) {env : Environment σ δ} (generated : Generated env)
    {server : σ} (n : ℕ) {consumed : List Byte} {state : State σ}
    (hasRead : HasRead env server consumed state) (polls : state.pending.length ≤ n)
    (open_ : state.ended = false) (valid : ¬ Malformed (consumed ++ state.pending)) :
    ∃ final, runEvents (read recv env) (List.replicate n (.bytes [])) state = some final ∧
      final.pending = [] ∧ final.ended = false ∧
      HasRead env server (consumed ++ state.pending) final := by
  induction n generalizing consumed state with
  | zero =>
      have nothing : state.pending = [] := List.length_eq_zero_iff.mp (by omega)
      refine ⟨state, rfl, nothing, open_, ?_⟩
      rwa [nothing, List.append_nil]
  | succ n ih =>
      have outcome := read_outcome recv generated hasRead (.bytes [])
      have same : state.arrive (.bytes []) = state := by
        simp [State.arrive, Arrival.arriving, Arrival.closes]
      rw [same] at outcome
      rw [List.replicate_succ, runEvents]
      generalize read recv env (.bytes []) state = result at outcome
      cases outcome with
      | fault malformed => exact absurd malformed valid
      | closed ended => cases open_.symm.trans ended
      | goesOn stream progress ended hasRead' =>
          rw [← stream] at valid ⊢
          exact ih hasRead' (by omega) (ended.trans open_) valid

/-- After polling often enough, everything that has arrived from an open client has been read. -/
theorem run_everything (recv : Recv) {env : Environment σ δ} (generated : Generated env)
    {server : σ} {consumed : List Byte} {state : State σ}
    (hasRead : HasRead env server consumed state) (open_ : state.ended = false)
    {pieces : List (List Byte)}
    (valid : ¬ Malformed (consumed ++ (state.pending ++ pieces.flatten)))
    {n : ℕ} (polls : (consumed ++ (state.pending ++ pieces.flatten)).length ≤ n) :
    ∃ final, runEvents (read recv env) ((pieces ++ List.replicate n []).map .bytes) state =
        some final ∧
      final.pending = [] ∧ final.ended = false ∧
      HasRead env server (consumed ++ (state.pending ++ pieces.flatten)) final := by
  induction pieces generalizing consumed state with
  | nil =>
      rw [List.flatten_nil, List.append_nil] at valid polls ⊢
      rw [List.length_append] at polls
      rw [List.nil_append, List.map_replicate]
      exact reads_pending recv generated n hasRead (by omega) open_ valid
  | cons piece rest ih =>
      have outcome := read_outcome recv generated hasRead (.bytes piece)
      have stays : (state.arrive (.bytes piece)).ended = false := by
        simp [State.arrive, Arrival.closes, open_]
      have stream : consumed ++ (state.pending ++ (piece :: rest).flatten) =
          consumed ++ (state.arrive (.bytes piece)).pending ++ rest.flatten := by
        simp [State.arrive, Arrival.arriving]
      rw [stream] at valid polls ⊢
      rw [List.cons_append, List.map_cons, runEvents]
      generalize read recv env (.bytes piece) state = result at outcome
      cases outcome with
      | fault malformed => exact absurd (malformed.append _) valid
      | closed ended => cases stays.symm.trans ended
      | goesOn stream progress ended hasRead' =>
          rw [← stream, List.append_assoc] at valid polls ⊢
          exact ih hasRead' (ended.trans stays) valid polls

/-- After polling often enough, every message of an open client has been processed once. -/
theorem processes_everything (recv : Recv) {env : Environment σ δ} (generated : Generated env)
    (server : σ) {pieces : List (List Byte)} (valid : ¬ Malformed pieces.flatten) {n : ℕ}
    (polls : pieces.flatten.length ≤ n) :
    ∃ final, runEvents (read recv env) ((pieces ++ List.replicate n []).map .bytes)
        (.start server) = some final ∧
      final.pending = [] ∧ final.del = false ∧
      final.conn.readbuffer = (framing.split pieces.flatten).2 ∧
      final.server = (framing.split pieces.flatten).1.foldl (process env) server := by
  rcases run_everything recv generated (HasRead.start env server) rfl valid polls with
    ⟨final, run, nothing, -, hasRead⟩
  exact ⟨final, run, nothing, hasRead.stays, hasRead.buffer, hasRead.server⟩

theorem processes_everything_cut :
    ∃ final, runEvents (read .greedy logging)
        (([emptyRequest.packed.take 30, emptyRequest.packed.drop 30] ++
          List.replicate 40 []).map .bytes) (.start []) = some final ∧
      final.pending = [] ∧ final.del = false ∧ final.conn.readbuffer = [] ∧
      final.server = [{ emptyRequest with addr := ⟨0, 6665, 4, 0⟩ }] := by
  have stream : [emptyRequest.packed.take 30, emptyRequest.packed.drop 30].flatten =
      emptyRequest.packed := by simp
  have whole : ∀ frame ∈ [emptyRequest.packed], front frame = .frame frame.length := by
    intro frame member
    rw [List.mem_singleton.mp member, ← List.append_nil emptyRequest.packed]
    exact front_of_message (reads_packed _) (length_packed _) rfl (by decide)
  have frames : framing.split emptyRequest.packed = ([emptyRequest.packed], []) := by
    have split := @Framing.split_frames _ framing _ whole []
    rwa [Framing.split_nil, List.append_nil, List.append_nil, List.flatten_singleton] at split
  have valid : ¬ Malformed [emptyRequest.packed.take 30, emptyRequest.packed.drop 30].flatten := by
    rw [stream, Malformed, frames]
    decide
  have polls : [emptyRequest.packed.take 30, emptyRequest.packed.drop 30].flatten.length ≤ 40 := by
    rw [stream, length_packed]
    decide
  have run := processes_everything .greedy generated_logging [] valid polls
  rw [stream, frames] at run
  exact run

end TcpServer

end MrsOptimization
