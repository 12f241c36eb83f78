import MrsOptimization.Library.EventRuns
import MrsOptimization.Player.PullMode
import MrsOptimization.Player.MessageHeader

/-!
# What the server writes to a client

`WriteClient` pops messages from the queue of the client, one whenever the write
buffer is empty, encodes it into the buffer and sends the buffer piece by piece.
Whatever `send` accepts, the bytes that leave the server are the messages that
the queue has given, one behind the other.
-/

namespace MrsOptimization

namespace TcpServer

open PlayerCore

open PlayerCore.MessageQueue (pops pops_add pops_succ)

variable {δ : Type}

/-- What a message has besides the signature. `none` is a `NULL` for the data. -/
structure Content (δ : Type) where
  timestamp : BitVec 64
  seq : BitVec 32
  payload : Option δ
deriving DecidableEq, Repr

/-- `playerxdr_get_packfunc`, and what the function does for `PLAYERXDR_ENCODE`. -/
abbrev PackTable (δ : Type) :=
  Signature → Option (δ → Option (List Byte))

/-- The header of a message with a size. -/
def headerOf (msg : PlayerCore.Message (Content δ)) (size : ℕ) : PlayerMsgHdr :=
  ⟨msg.header.addr, msg.header.type, msg.header.subtype, msg.content.timestamp, msg.content.seq,
    BitVec.ofNat 32 size⟩

/-- The result of encoding a message into the write buffer. -/
inductive Encoding
  | bytes (header : PlayerMsgHdr) (payload : List Byte)
  /-- The function of the table has failed. -/
  | failed
  /-- Data without a function: the size is what the variable held before. -/
  | undetermined
deriving DecidableEq, Repr

def encode (packs : PackTable δ) (msg : PlayerCore.Message (Content δ)) : Encoding :=
  match msg.content.payload with
  | none => .bytes (headerOf msg 0) []
  | some data =>
    match packs msg.header with
    | none => .undetermined
    | some pack =>
      match pack data with
      | none => .failed
      | some payload => .bytes (headerOf msg payload.length) payload

def Encoding.wire : Encoding → List Byte
  | .bytes header payload => header.packed ++ payload
  | _ => []

/-- The queue of a client and the bytes that `send` has not accepted yet. -/
structure Writer (δ : Type) where
  queue : MessageQueue (Content δ)
  writebuffer : List Byte

/-- `PLAYERTCP_WRITEBUFFER_SIZE` -/
def writeBufferSize : ℕ :=
  65536

section WriteClient

variable (packs : PackTable δ) (synch : Bool → Content δ)

/-- One message, if the buffer is empty and the queue gives one. A message that cannot be encoded
is dropped. `none` is a buffer whose contents are not determined. -/
def fill (writer : Writer δ) : Option (Writer δ) :=
  if writer.writebuffer ≠ [] then some writer
  else
    match writer.queue.pop synch with
    | (none, queue) => some ⟨queue, []⟩
    | (some msg, queue) =>
      match encode packs msg with
      | .bytes header payload => some ⟨queue, header.packed ++ payload⟩
      | .failed => some ⟨queue, []⟩
      | .undetermined => none

/-- The loop of `WriteClient`: `rooms` tells for each `send` how many bytes it accepts besides one,
and then it accepts none. The result has the bytes that were sent. -/
def writeClient : List ℕ → Writer δ → Option (List Byte × Writer δ)
  | [], writer => (fill packs synch writer).map fun filled => ([], filled)
  | room :: rest, writer =>
    (fill packs synch writer).bind fun filled =>
      if filled.writebuffer = [] then some ([], filled)
      else
        let count := min (room + 1) (min filled.writebuffer.length writeBufferSize)
        (writeClient rest ⟨filled.queue, filled.writebuffer.drop count⟩).map fun later =>
          (filled.writebuffer.take count ++ later.1, later.2)

/-- The bytes of some messages. -/
def wireOf (messages : List (PlayerCore.Message (Content δ))) : List Byte :=
  (messages.map fun msg => (encode packs msg).wire).flatten

variable {packs synch}

/-- Filling the buffer pops at most one message, and puts it behind nothing. -/
theorem fill_pops {writer filled : Writer δ} (fills : fill packs synch writer = some filled) :
    ∃ n, filled.queue = writer.queue.after synch (pops n) ∧
      filled.writebuffer = writer.writebuffer ++
        wireOf packs (writer.queue.popped synch (pops n)) := by
  rw [fill] at fills
  split at fills
  · cases fills
    exact ⟨0, rfl, (List.append_nil _).symm⟩
  · next isEmpty =>
      have nothing := not_not.mp isEmpty
      refine ⟨1, ?_⟩
      rcases @pops_succ _ synch writer.queue 0 with ⟨popped, after⟩
      rw [popped, after, nothing]
      split at fills
      · next queue pop =>
          cases fills
          rw [pop]
          exact ⟨rfl, rfl⟩
      · next msg queue pop =>
          rw [pop]
          split at fills
          · next encoded =>
              cases fills
              refine ⟨rfl, ?_⟩
              simp [wireOf, encoded, Encoding.wire, MessageQueue.popped, answers]
          · next encoded =>
              cases fills
              refine ⟨rfl, ?_⟩
              simp [wireOf, encoded, Encoding.wire, MessageQueue.popped, answers]
          · cases fills

theorem wireOf_append (first rest : List (PlayerCore.Message (Content δ))) :
    wireOf packs (first ++ rest) = wireOf packs first ++ wireOf packs rest := by
  rw [wireOf, List.map_append, List.flatten_append]
  rfl

/-- One call of `WriteClient` pops some messages and sends what stands in front. -/
theorem writeClient_pops {rooms : List ℕ} {writer final : Writer δ} {sent : List Byte}
    (writes : writeClient packs synch rooms writer = some (sent, final)) :
    ∃ n, final.queue = writer.queue.after synch (pops n) ∧
      sent ++ final.writebuffer = writer.writebuffer ++
        wireOf packs (writer.queue.popped synch (pops n)) := by
  induction rooms generalizing writer sent with
  | nil =>
      rcases Option.map_eq_some_iff.mp writes with ⟨filled, fills, same⟩
      cases same
      exact fill_pops fills
  | cons room rest ih =>
      rcases Option.bind_eq_some_iff.mp writes with ⟨filled, fills, writes⟩
      rcases fill_pops fills with ⟨m, queue, buffer⟩
      split at writes
      · cases writes
        exact ⟨m, queue, buffer⟩
      · rcases Option.map_eq_some_iff.mp writes with ⟨⟨sent', final'⟩, writes', same⟩
        cases same
        rcases ih writes' with ⟨n, queue', buffer'⟩
        refine ⟨m + n, ?_, ?_⟩
        · rw [pops_add, MessageQueue.after_append, ← queue]
          exact queue'
        · rw [pops_add, MessageQueue.popped_append, wireOf_append, ← queue, ← List.append_assoc,
            ← buffer, List.append_assoc, buffer', ← List.append_assoc, List.take_append_drop]

end WriteClient

section Runs

/-- Another thread calls the queue, or the server polls and the network accepts some bytes. -/
inductive WriteEvent (δ : Type)
  | queue (call : QueueCall (Content δ))
  | write (rooms : List ℕ)

/-- The calls of other threads. -/
def WriteEvent.queueCall : WriteEvent δ → Option (QueueCall (Content δ))
  | .queue call => some call
  | .write _ => none

variable (packs : PackTable δ) (synch : Bool → Content δ)

/-- The bytes that have left the server, and the connection. -/
def writeStep (event : WriteEvent δ) (state : List Byte × Writer δ) :
    Option (List Byte × Writer δ) :=
  match event with
  | .queue call => some (state.1, { state.2 with queue := (call.run synch state.2.queue).2 })
  | .write rooms =>
    (writeClient packs synch rooms state.2).map fun result => (state.1 ++ result.1, result.2)

/-- A call of `Pop` -/
def isPop : QueueCall (Content δ) → Bool
  | .pop => true
  | _ => false

variable {packs synch}

theorem filter_pops (n : ℕ) : (pops n : List (QueueCall (Content δ))).filter (!isPop ·) = [] := by
  rw [List.filter_eq_nil_iff]
  intro call member
  rw [List.eq_of_mem_replicate member]
  simp [isPop]

theorem popped_of_call {call : QueueCall (Content δ)} (other : isPop call = false)
    (queue : MessageQueue (Content δ)) : (call.run synch queue).1 = none := by
  cases call with
  | pop => cases other
  | _ => rfl

/-- A run of the connection is a run of the queue: the calls of the others with some calls of
`Pop` between them. The messages that these return are what leaves the server, in this order. -/
theorem wire_of_queue {events : List (WriteEvent δ)}
    (others : ∀ call, .queue call ∈ events → isPop call = false)
    {start final : List Byte × Writer δ}
    (run : runEvents (writeStep packs synch) events start = some final) :
    ∃ calls, calls.filter (!isPop ·) = events.filterMap WriteEvent.queueCall ∧
      final.2.queue = start.2.queue.after synch calls ∧
      final.1 ++ final.2.writebuffer = start.1 ++ start.2.writebuffer ++
        wireOf packs (start.2.queue.popped synch calls) := by
  induction events generalizing start with
  | nil =>
      cases run
      exact ⟨[], rfl, rfl, (List.append_nil _).symm⟩
  | cons event rest ih =>
      rcases Option.bind_eq_some_iff.mp run with ⟨next, stepped, later⟩
      have others' : ∀ call, .queue call ∈ rest → isPop call = false := fun call member =>
        others call (List.mem_cons_of_mem _ member)
      rcases ih others' later with ⟨calls, merged, queue, wire⟩
      cases event with
      | queue call =>
          cases stepped
          have other := others call (List.mem_cons_self ..)
          refine ⟨call :: calls, ?_, queue, ?_⟩
          · rw [List.filter_cons_of_pos (by simp [other]), merged]
            rfl
          · rw [MessageQueue.popped_cons, popped_of_call other]
            exact wire
      | write rooms =>
          rcases Option.map_eq_some_iff.mp stepped with ⟨⟨sent, writer⟩, writes, same⟩
          cases same
          rcases writeClient_pops writes with ⟨n, queue', buffer⟩
          refine ⟨pops n ++ calls, ?_, ?_, ?_⟩
          · rw [List.filter_append, filter_pops, merged]
            rfl
          · rw [MessageQueue.after_append, ← queue']
            exact queue
          · rw [MessageQueue.popped_append, wireOf_append, ← queue', ← List.append_assoc,
              List.append_assoc start.1, ← buffer, ← List.append_assoc]
            exact wire

/-- Data without a payload. -/
def emptyData : PlayerCore.Message (Content Unit) :=
  ⟨⟨⟨0, 6665, 4, 0⟩, MsgType.data, 1⟩, ⟨0, 0, none⟩⟩

theorem wire_of_queue_two :
    ∃ calls, calls.filter (!isPop ·) = [.push emptyData] ∧
      (.new false 5 : MessageQueue (Content Unit)) =
        (MessageQueue.new false 5).after (fun _ => ⟨0, 0, none⟩) calls ∧
      (headerOf emptyData 0).packed ++ [] = [] ++
        wireOf (fun _ => none)
          ((MessageQueue.new false 5).popped (fun _ => ⟨0, 0, none⟩) calls) := by
  have others : ∀ call, .queue call ∈ [WriteEvent.queue (.push emptyData), .write [5, 50]] →
      isPop call = false := by
    intro call member
    simp only [List.mem_cons, reduceCtorEq, List.not_mem_nil, or_false] at member
    cases member
    rfl
  have run : runEvents (writeStep (fun _ => none) fun _ => ⟨0, 0, none⟩)
      [.queue (.push emptyData), .write [5, 50]] ([], ⟨.new false 5, []⟩) =
        some ((headerOf emptyData 0).packed, ⟨.new false 5, []⟩) := rfl
  exact wire_of_queue others run

end Runs

end TcpServer

end MrsOptimization
