import Mathlib.Data.List.DropRight
import MrsOptimization.Player.MessageQueueRuns

/-!
# Push and pull mode

The server empties the queue of a client with `Pop` until there is nothing left.
In pull mode it then stops behind the last response, unless the client has asked
for data: then everything is sent, and a synchronization message ends the round
as soon as there was data in it.
-/

namespace MrsOptimization

namespace PlayerCore

namespace MessageQueue

universe u

variable {α : Type u} {synch : Bool → α} {queue : MessageQueue α}

theorem popped_append (first rest : List (QueueCall α)) :
    queue.popped synch (first ++ rest) =
      queue.popped synch first ++ (queue.after synch first).popped synch rest := by
  rw [popped, answers_append, List.reduceOption_append]
  rfl

theorem after_append (first rest : List (QueueCall α)) :
    queue.after synch (first ++ rest) = (queue.after synch first).after synch rest := by
  rw [after, answers_append]
  rfl

/-- The calls of `Pop` in a loop. -/
abbrev pops (n : ℕ) : List (QueueCall α) :=
  List.replicate n .pop

theorem pops_add (m n : ℕ) : (pops (m + n) : List (QueueCall α)) = pops m ++ pops n :=
  List.replicate_add ..

theorem pops_succ (n : ℕ) :
    queue.popped synch (pops (n + 1)) =
        (queue.pop synch).1.toList ++ (queue.pop synch).2.popped synch (pops n) ∧
      queue.after synch (pops (n + 1)) = (queue.pop synch).2.after synch (pops n) :=
  ⟨popped_cons .pop _, rfl⟩

/-- A queue that returned nothing goes on returning nothing. -/
theorem pops_of_idle (idle : queue.pop synch = (none, queue)) (n : ℕ) :
    queue.popped synch (pops n) = [] ∧ queue.after synch (pops n) = queue := by
  induction n with
  | zero => exact ⟨rfl, rfl⟩
  | succ n ih =>
      rcases @pops_succ _ synch queue n with ⟨messages, final⟩
      rw [messages, final, idle]
      exact ih

theorem pop_head {msg : Message α} {rest : List (Message α)} (head : queue.messages = msg :: rest)
    (selected : queue.selects msg) :
    queue.pop synch = (some msg, { queue with
      messages := rest
      dataDelivered := queue.dataDelivered ||
        queue.dataRequested && msg.header.type == MsgType.data }) := by
  have found : queue.messages.find? queue.selects = some msg := by
    rw [head, List.find?_cons_of_pos selected]
  have erased : queue.messages.eraseP queue.selects = rest := by
    rw [head, List.eraseP_cons_of_pos selected]
  rw [pop, found]
  simp only [erased]

theorem pop_of_unselected (none_ : ∀ msg ∈ queue.messages, ¬ queue.selects msg)
    (incomplete : ¬ (queue.pull ∧ queue.dataRequested ∧ queue.dataDelivered)) :
    queue.pop synch = (none, queue) := by
  rcases queue.pop_cases synch with ⟨msg, found, -⟩ | ⟨-, complete, -⟩ | ⟨-, -, result⟩
  · exact absurd (List.find?_some found) (none_ msg (List.mem_of_find?_eq_some found))
  · exact absurd complete incomplete
  · exact result

/-- Nothing holds a message back. -/
def Open (queue : MessageQueue α) : Prop :=
  queue.filter = none ∧ (queue.pull = false ∨ queue.dataRequested = true)

theorem Open.selects (isOpen : queue.Open) (msg : Message α) : queue.selects msg := by
  rcases isOpen with ⟨unfiltered, push | requested⟩
  · simp [MessageQueue.selects, passesFilter, unfiltered, push]
  · simp [MessageQueue.selects, passesFilter, unfiltered, requested]

/-- There was data since the request, or there will be. -/
def hasData (queue : MessageQueue α) : Bool :=
  queue.dataDelivered ||
    queue.dataRequested && queue.messages.any fun msg => msg.header.type == MsgType.data

theorem pops_open (isOpen : queue.Open) :
    queue.popped synch (pops queue.messages.length) = queue.messages ∧
      queue.after synch (pops queue.messages.length) =
        { queue with messages := [], dataDelivered := queue.hasData } := by
  induction elements : queue.messages generalizing queue with
  | nil =>
      refine ⟨rfl, ?_⟩
      have same : queue.hasData = queue.dataDelivered := by simp [hasData, elements]
      have state : { queue with messages := [], dataDelivered := queue.hasData } = queue := by
        rw [same, ← elements]
      exact state.symm
  | cons msg rest ih =>
      rcases @pops_succ _ synch queue rest.length with ⟨messages, final⟩
      rw [List.length_cons, messages, final, pop_head elements (isOpen.selects msg)]
      rcases @ih { queue with
        messages := rest
        dataDelivered := queue.dataDelivered ||
          queue.dataRequested && msg.header.type == MsgType.data } isOpen rfl with ⟨later, state⟩
      refine ⟨by rw [later]; rfl, ?_⟩
      rw [state]
      simp only [hasData, elements, List.any_cons, Bool.and_or_distrib_left, Bool.or_assoc]

/-- What a loop of `Pop` returns. -/
def delivery (synch : Bool → α) (queue : MessageQueue α) : List (Message α) :=
  if queue.pull then
    if queue.dataRequested then
      queue.messages ++
        if queue.hasData then [⟨synchHeader queue.dropCount, synch queue.dropCount⟩] else []
    else queue.messages.rdropWhile fun msg => !msg.header.IsResponse
  else queue.messages

/-- What a loop of `Pop` leaves in the queue. -/
def heldBack (queue : MessageQueue α) : List (Message α) :=
  if queue.pull ∧ queue.dataRequested = false then
    queue.messages.rtakeWhile fun msg => !msg.header.IsResponse
  else []

theorem rdropWhile_cons {β : Type u} {p : β → Bool} {first : β} {rest : List β}
    (some_ : ∃ value ∈ first :: rest, ¬ p value) :
    (first :: rest).rdropWhile p = first :: rest.rdropWhile p ∧
      (first :: rest).rtakeWhile p = rest.rtakeWhile p := by
  induction rest using List.reverseRecOn with
  | nil =>
      have stops : ¬ p first := by simpa using some_
      exact ⟨by simp [List.rdropWhile_singleton, stops], by simp [List.rtakeWhile, stops]⟩
  | append_singleton rest last ih =>
      rw [← List.cons_append, List.rdropWhile_concat, List.rdropWhile_concat,
        List.rtakeWhile_concat, List.rtakeWhile_concat]
      by_cases passes : p last
      · have earlier : ∃ value ∈ first :: rest, ¬ p value := by
          rcases some_ with ⟨value, member, stops⟩
          rw [← List.cons_append, List.mem_append, List.mem_singleton] at member
          rcases member with inside | rfl
          · exact ⟨value, inside, stops⟩
          · exact absurd passes stops
        rw [if_pos passes, if_pos passes, if_pos passes, if_pos passes, (ih earlier).1,
          (ih earlier).2]
        exact ⟨rfl, rfl⟩
      · rw [if_neg passes, if_neg passes, if_neg passes, if_neg passes]
        exact ⟨rfl, rfl⟩

/-- Without a request, pull mode sends what is in front of the last response, and it. -/
theorem pops_unrequested (unfiltered : queue.filter = none) (pull : queue.pull = true)
    (unrequested : queue.dataRequested = false) (k : ℕ) :
    queue.popped synch (pops (queue.messages.length + 1 + k)) = queue.delivery synch ∧
      (queue.after synch (pops (queue.messages.length + 1 + k))).messages = queue.heldBack ∧
      (queue.after synch (pops (queue.messages.length + 1 + k))).dataRequested = false := by
  have delivers : queue.delivery synch = queue.messages.rdropWhile fun msg =>
      !msg.header.IsResponse := by simp [delivery, pull, unrequested]
  have holds : queue.heldBack = queue.messages.rtakeWhile fun msg =>
      !msg.header.IsResponse := by simp [heldBack, pull, unrequested]
  rw [delivers, holds]
  clear delivers holds
  have selects : ∀ msg, queue.selects msg = queue.messages.any (·.header.IsResponse) := by
    intro msg
    simp [MessageQueue.selects, responsePending, unfiltered, pull, unrequested]
  have incomplete : ¬ (queue.pull ∧ queue.dataRequested ∧ queue.dataDelivered) := by
    simp [unrequested]
  induction elements : queue.messages generalizing queue k with
  | nil =>
      have idle : queue.pop synch = (none, queue) :=
        pop_of_unselected (by simp [elements]) incomplete
      rcases pops_of_idle idle ([].length + 1 + k) with ⟨nothing, same⟩
      rw [nothing, same, elements]
      exact ⟨rfl, rfl, unrequested⟩
  | cons msg rest ih =>
      rw [elements] at selects
      by_cases pending : (msg :: rest).any (·.header.IsResponse)
      · have head := @pop_head _ synch queue msg rest elements (by rw [selects, pending])
        have some_ : ∃ value ∈ msg :: rest, ¬ !decide value.header.IsResponse := by
          simpa using pending
        rcases rdropWhile_cons some_ with ⟨front, back⟩
        rcases @pops_succ _ synch queue (rest.length + 1 + k) with ⟨messages, final⟩
        have count : (msg :: rest).length + 1 + k = rest.length + 1 + k + 1 := by
          rw [List.length_cons]
          omega
        rw [count, messages, final, head, front, back]
        rcases @ih { queue with
          messages := rest
          dataDelivered := queue.dataDelivered ||
            queue.dataRequested && msg.header.type == MsgType.data } unfiltered pull unrequested k
          (fun other => by
            simp [MessageQueue.selects, responsePending, unfiltered, pull, unrequested])
          (by simp [unrequested]) rfl with ⟨later, state⟩
        exact ⟨by rw [later]; rfl, state⟩
      · have idle : queue.pop synch = (none, queue) := by
          apply pop_of_unselected _ incomplete
          intro other _
          rw [selects]
          exact pending
        rcases pops_of_idle idle ((msg :: rest).length + 1 + k) with ⟨nothing, same⟩
        have all : ∀ value ∈ msg :: rest, !decide value.header.IsResponse := by
          simpa using pending
        rw [nothing, same, elements, List.rdropWhile_eq_nil_iff.mpr all,
          List.rtakeWhile_eq_self_iff.mpr all]
        exact ⟨rfl, rfl, unrequested⟩

theorem pop_empty (isEmpty : queue.messages = []) :
    queue.pop synch =
      if queue.pull ∧ queue.dataRequested ∧ queue.dataDelivered then
        (some ⟨synchHeader queue.dropCount, synch queue.dropCount⟩,
          { queue with dropCount := false, dataRequested := false, dataDelivered := false })
      else (none, queue) := by
  rw [pop, isEmpty]
  rfl

/-- An open queue is emptied, and a round with data is ended. -/
theorem pops_everything (isOpen : queue.Open) (k : ℕ) :
    queue.popped synch (pops (queue.messages.length + 1 + k)) = queue.delivery synch ∧
      (queue.after synch (pops (queue.messages.length + 1 + k))).messages = queue.heldBack ∧
      (queue.after synch (pops (queue.messages.length + 1 + k))).dataRequested =
        (queue.dataRequested && !(queue.pull && queue.hasData)) := by
  have everything : queue.heldBack = [] := by
    rcases isOpen.2 with push | requested
    · simp [heldBack, push]
    · simp [heldBack, requested]
  rcases @pops_open _ synch queue isOpen with ⟨messages, state⟩
  rw [Nat.add_assoc, pops_add, popped_append, after_append, messages, state, everything,
    Nat.add_comm 1 k]
  clear messages state everything
  have next := @pop_empty _ synch { queue with messages := [], dataDelivered := queue.hasData } rfl
  rcases @pops_succ _ synch { queue with messages := [], dataDelivered := queue.hasData } k with
    ⟨messages, state⟩
  by_cases complete : queue.pull ∧ queue.dataRequested ∧ queue.hasData
  · rw [if_pos complete] at next
    rw [messages, state, next]
    rcases complete with ⟨pull, requested, news⟩
    have idle := @pop_empty _ synch { queue with
      messages := []
      dropCount := false
      dataRequested := false
      dataDelivered := false } rfl
    rw [if_neg (by simp)] at idle
    rcases pops_of_idle idle k with ⟨nothing, same⟩
    rw [nothing, same]
    exact ⟨by simp [delivery, pull, requested, news], rfl, by simp [pull, news]⟩
  · rw [if_neg complete] at next
    rcases pops_of_idle next (k + 1) with ⟨nothing, same⟩
    rw [nothing, same]
    rcases isOpen.2 with push | requested
    · exact ⟨by simp [delivery, push], rfl, by simp [push]⟩
    · by_cases pull : queue.pull = true
      · have noData : queue.hasData = false :=
          Bool.eq_false_iff.mpr fun news => complete ⟨pull, requested, news⟩
        exact ⟨by simp [delivery, pull, requested, noData], rfl, by simp [noData]⟩
      · exact ⟨by simp [delivery, pull], rfl, by simp [pull]⟩

/-- What is sent to a client in one go, whatever mode it is in. -/
theorem pops_deliver (unfiltered : queue.filter = none) (k : ℕ) :
    queue.popped synch (pops (queue.messages.length + 1 + k)) = queue.delivery synch ∧
      (queue.after synch (pops (queue.messages.length + 1 + k))).messages = queue.heldBack ∧
      (queue.after synch (pops (queue.messages.length + 1 + k))).dataRequested =
        (queue.dataRequested && !(queue.pull && queue.hasData)) := by
  by_cases isOpen : queue.pull = false ∨ queue.dataRequested = true
  · exact pops_everything ⟨unfiltered, isOpen⟩ k
  · rw [not_or, Bool.not_eq_false, Bool.not_eq_true] at isOpen
    rw [isOpen.2, Bool.false_and]
    exact pops_unrequested unfiltered isOpen.1 isOpen.2 k

theorem pops_deliver_requested :
    (pushBack ⟨positionData, 1⟩ (setDataRequested true (setPull true (new false 2)))).popped
      (fun _ => 0) (pops 2) = [⟨positionData, 1⟩, ⟨synchHeader false, 0⟩] :=
  (@pops_deliver _ (fun _ => 0)
    (pushBack ⟨positionData, 1⟩ (setDataRequested true (setPull true (new false 2)))) rfl 0).1

end MessageQueue

/-- The message that a call brings into the queue. -/
def QueueCall.entering {α : Type u} : QueueCall α → Option (Message α)
  | .push msg => some msg
  | .pushFront msg => some msg
  | .pushBack msg => some msg
  | _ => none

namespace MessageQueue

variable {α : Type u} {synch : Bool → α} {queue : MessageQueue α}

theorem after_concat (calls : List (QueueCall α)) (call : QueueCall α) :
    queue.after synch (calls ++ [call]) = (call.run synch (queue.after synch calls)).2 :=
  after_append calls [call]

theorem popped_concat (calls : List (QueueCall α)) (call : QueueCall α) :
    queue.popped synch (calls ++ [call]) =
      queue.popped synch calls ++ (call.run synch (queue.after synch calls)).1.toList := by
  rw [popped_append, popped_cons]
  exact congrArg _ (List.append_nil _)

/-- Whatever is in the queue has come in. -/
theorem mem_of_run {calls : List (QueueCall α)} {msg : Message α}
    (member : msg ∈ (queue.after synch calls).messages) :
    msg ∈ queue.messages ∨ ∃ call ∈ calls, call.entering = some msg := by
  induction calls using List.reverseRecOn with
  | nil => exact Or.inl member
  | append_singleton calls call ih =>
      have earlier : msg ∈ (queue.after synch calls).messages ∨ call.entering = some msg := by
        rw [after_concat] at member
        generalize queue.after synch calls = middle at member ih ⊢
        cases call with
        | push added =>
            change msg ∈ (middle.push added).messages at member
            rcases middle.push_cases added with
              ⟨-, result⟩ | ⟨-, result⟩ | ⟨-, -, result⟩ | ⟨-, -, -, result⟩
            · rw [result] at member
              exact Or.inl member
            · rw [result] at member
              exact Or.inl member
            · rw [result] at member
              rcases List.mem_append.mp member with inside | own
              · left
                have inReverse := List.mem_of_mem_eraseP (List.mem_reverse.mp inside)
                exact List.mem_reverse.mp inReverse
              · exact Or.inr (by simp [QueueCall.entering, List.mem_singleton.mp own])
            · rw [result] at member
              rcases List.mem_append.mp member with inside | own
              · exact Or.inl inside
              · exact Or.inr (by simp [QueueCall.entering, List.mem_singleton.mp own])
        | pushFront added =>
            rcases List.mem_cons.mp member with rfl | inside
            · exact Or.inr rfl
            · exact Or.inl inside
        | pushBack added =>
            rcases List.mem_append.mp member with inside | own
            · exact Or.inl inside
            · exact Or.inr (by simp [QueueCall.entering, List.mem_singleton.mp own])
        | pop =>
            left
            change msg ∈ (middle.pop synch).2.messages at member
            rcases middle.pop_cases synch with ⟨first, -, result⟩ | ⟨-, -, result⟩ | ⟨-, -, result⟩
            · rw [result] at member
              exact List.mem_of_mem_eraseP member
            · rw [result] at member
              exact member
            · rw [result] at member
              exact member
        | _ => exact Or.inl member
      rcases earlier with inside | entered
      · rcases ih inside with start | ⟨call', member', entered⟩
        · exact Or.inl start
        · exact Or.inr ⟨call', List.mem_append_left _ member', entered⟩
      · exact Or.inr ⟨call, by simp, entered⟩

/-- The request that is open after some calls, and what has been returned since. -/
def Asked (synch : Bool → α) (calls : List (QueueCall α)) (queue : MessageQueue α)
    (data : Prop) : Prop :=
  ∃ before between, calls = before ++ .setDataRequested true :: between ∧
    (∀ flag, .setDataRequested flag ∉ between) ∧
    (∀ msg ∈ ((queue.after synch before).setDataRequested true).popped synch between,
      msg.header.type ≠ MsgType.synch) ∧
    (data → ∃ msg ∈ ((queue.after synch before).setDataRequested true).popped synch between,
      msg.header.type = MsgType.data)

/-- A call that leaves the request open. -/
theorem Asked.concat {calls : List (QueueCall α)} {call : QueueCall α} {data data' : Prop}
    (asked : queue.Asked synch calls data) (other : ∀ flag, call ≠ .setDataRequested flag)
    (silent : ∀ msg ∈ (call.run synch (queue.after synch calls)).1,
      msg.header.type ≠ MsgType.synch)
    (returned : data' → data ∨ ∃ msg ∈ (call.run synch (queue.after synch calls)).1,
      msg.header.type = MsgType.data) :
    queue.Asked synch (calls ++ [call]) data' := by
  rcases asked with ⟨before, between, rfl, once, noSynch, found⟩
  have middle : queue.after synch (before ++ .setDataRequested true :: between) =
      ((queue.after synch before).setDataRequested true).after synch between :=
    after_append before _
  rw [middle] at silent returned
  refine ⟨before, between ++ [call], by simp, ?_, ?_, ?_⟩
  · intro flag member
    rcases List.mem_append.mp member with inside | own
    · exact once flag inside
    · exact other flag (List.mem_singleton.mp own).symm
  · intro msg member
    rw [popped_concat, List.mem_append, Option.mem_toList] at member
    rcases member with inside | own
    · exact noSynch msg inside
    · exact silent msg own
  · intro delivered
    rw [popped_concat]
    rcases returned delivered with earlier | ⟨msg, own, isData⟩
    · rcases found earlier with ⟨msg, inside, isData⟩
      exact ⟨msg, List.mem_append_left _ inside, isData⟩
    · exact ⟨msg, List.mem_append_right _ (Option.mem_toList.mpr own), isData⟩

theorem push_flags (queue : MessageQueue α) (msg : Message α) :
    (queue.push msg).dataRequested = queue.dataRequested ∧
      (queue.push msg).dataDelivered = queue.dataDelivered := by
  rcases queue.push_cases msg with
    ⟨-, result⟩ | ⟨-, result⟩ | ⟨-, -, result⟩ | ⟨-, -, -, result⟩ <;>
    rw [result] <;> exact ⟨rfl, rfl⟩

/-- The flags of the queue tell of an open request and of data that was returned for it. -/
theorem asked_of_requested {calls : List (QueueCall α)}
    (start : queue.dataRequested = false)
    (silent : ∀ msg ∈ queue.messages, msg.header.type ≠ MsgType.synch)
    (noSynch : ∀ call ∈ calls, ∀ msg ∈ call.entering, msg.header.type ≠ MsgType.synch)
    (requested : (queue.after synch calls).dataRequested = true) :
    queue.Asked synch calls ((queue.after synch calls).dataDelivered = true) := by
  induction calls using List.reverseRecOn with
  | nil =>
      have contradiction := start.symm.trans requested
      cases contradiction
  | append_singleton calls call ih =>
      have earlier := ih fun call member => noSynch call (List.mem_append_left _ member)
      have quiet : ∀ msg ∈ (queue.after synch calls).messages,
          msg.header.type ≠ MsgType.synch := by
        intro msg member
        rcases mem_of_run member with inside | ⟨call', member', entered⟩
        · exact silent msg inside
        · exact noSynch call' (List.mem_append_left _ member') msg entered
      rw [after_concat] at requested ⊢
      cases call with
      | setDataRequested flag =>
          have isTrue : flag = true := requested
          rw [isTrue]
          refine ⟨calls, [], rfl, by simp, by simp [popped, answers], fun delivered => ?_⟩
          cases delivered
      | push msg =>
          have flags := (queue.after synch calls).push_flags msg
          have still := flags.1.symm.trans requested
          apply (earlier still).concat
          · simp
          · simp [QueueCall.run]
          · exact fun delivered => Or.inl (flags.2.symm.trans delivered)
      | pop =>
          change ((queue.after synch calls).pop synch).2.dataRequested = true at requested
          change queue.Asked synch _ (((queue.after synch calls).pop synch).2.dataDelivered = true)
          rcases (queue.after synch calls).pop_cases synch with
            ⟨msg, found, result⟩ | ⟨-, -, result⟩ | ⟨-, -, result⟩
          · rw [result] at requested
            apply (earlier requested).concat (by simp)
            · rw [QueueCall.run, result]
              rintro other ⟨⟩
              exact quiet msg (List.mem_of_find?_eq_some found)
            · rw [QueueCall.run, result]
              intro delivered
              rcases Bool.or_eq_true_iff.mp delivered with before | now
              · exact Or.inl before
              · rw [Bool.and_eq_true, beq_iff_eq] at now
                exact Or.inr ⟨msg, rfl, now.2⟩
          · rw [result] at requested
            cases requested
          · rw [result] at requested
            apply (earlier requested).concat (by simp)
            · rw [QueueCall.run, result]
              simp
            · rw [result]
              exact Or.inl
      | _ =>
          apply (earlier requested).concat
          · simp
          · simp [QueueCall.run]
          · exact Or.inl

/-- A synchronization message answers the last request, and data came in between. -/
theorem synch_answers_request (synch : Bool → α) (replace : Bool) (maxlen : ℕ)
    {calls : List (QueueCall α)} {msg : Message α}
    (noSynch : ∀ call ∈ calls, ∀ msg ∈ call.entering, msg.header.type ≠ MsgType.synch)
    (returned : (((new replace maxlen).after synch calls).pop synch).1 = some msg)
    (isSynch : msg.header.type = MsgType.synch) :
    ∃ before between, calls = before ++ .setDataRequested true :: between ∧
      (∀ flag, .setDataRequested flag ∉ between) ∧
      (∀ msg ∈ (((new replace maxlen).after synch before).setDataRequested true).popped synch
        between, msg.header.type ≠ MsgType.synch) ∧
      ∃ msg ∈ (((new replace maxlen).after synch before).setDataRequested true).popped synch
        between, msg.header.type = MsgType.data := by
  have silent : ∀ msg ∈ (new replace maxlen : MessageQueue α).messages,
      msg.header.type ≠ MsgType.synch := by simp [new]
  rcases ((new replace maxlen).after synch calls).pop_cases synch with
    ⟨first, found, result⟩ | ⟨-, ⟨-, requested, delivered⟩, -⟩ | ⟨-, -, result⟩
  · rw [result] at returned
    cases returned
    rcases mem_of_run (List.mem_of_find?_eq_some found) with inside | ⟨call, member, entered⟩
    · exact absurd isSynch (silent msg inside)
    · exact absurd isSynch (noSynch call member msg entered)
  · rcases asked_of_requested rfl silent noSynch requested with
      ⟨before, between, split, once, quiet, found⟩
    exact ⟨before, between, split, once, quiet, found delivered⟩
  · rw [result] at returned
    cases returned

theorem synch_answers_request_once :
    ∃ before between : List (QueueCall ℕ),
      [.setPull true, .setDataRequested true, .push ⟨positionData, 1⟩, .pop] =
        before ++ .setDataRequested true :: between ∧
      ∃ msg ∈ (((new false 2).after (fun _ => 0) before).setDataRequested true).popped
        (fun _ => 0) between, msg.header.type = MsgType.data := by
  have noSynch : ∀ call ∈ ([.setPull true, .setDataRequested true, .push ⟨positionData, 1⟩, .pop] :
      List (QueueCall ℕ)), ∀ msg ∈ call.entering, msg.header.type ≠ MsgType.synch := by
    simp [QueueCall.entering, positionData, MsgType.data, MsgType.synch]
  rcases @synch_answers_request _ (fun _ => 0) false 2 _ ⟨synchHeader false, 0⟩ noSynch rfl rfl with
    ⟨before, between, split, -, -, found⟩
  exact ⟨before, between, split, found⟩

end MessageQueue

end PlayerCore

end MrsOptimization
