import MrsOptimization.Library.KeyedQueues
import MrsOptimization.Library.MachineRuns
import MrsOptimization.Player.MessageQueue

/-!
# Runs of calls on a message queue

Whatever threads call the methods of a queue in whatever order, messages of one
signature leave it in the order in which they came in, no message twice.
-/

namespace MrsOptimization

namespace PlayerCore

universe u

variable {α : Type u}

/-- The messages of one signature. -/
abbrev ofSignature (messages : List (Message α)) (hdr : Signature) : List (Message α) :=
  queueOf Message.header messages hdr

theorem ofSignature_append (messages added : List (Message α)) (hdr : Signature) :
    ofSignature (messages ++ added) hdr = ofSignature messages hdr ++ ofSignature added hdr :=
  queueOf_append messages added hdr

inductive QueueCall (α : Type u)
  | push (msg : Message α)
  | pushFront (msg : Message α)
  | pushBack (msg : Message α)
  | pop
  | addReplaceRule (rule : MessageReplaceRule)
  | setReplace (replace : Bool)
  | setFilter (filter : QueueFilter)
  | clearFilter
  | setPull (pull : Bool)
  | setDataRequested (requested : Bool)

namespace QueueCall

def run (synch : Bool → α) :
    QueueCall α → MessageQueue α → Option (Message α) × MessageQueue α
  | .push msg, queue => (none, queue.push msg)
  | .pushFront msg, queue => (none, queue.pushFront msg)
  | .pushBack msg, queue => (none, queue.pushBack msg)
  | .pop, queue => queue.pop synch
  | .addReplaceRule rule, queue => (none, queue.addReplaceRule rule)
  | .setReplace replace, queue => (none, queue.setReplace replace)
  | .setFilter filter, queue => (none, queue.setFilter filter)
  | .clearFilter, queue => (none, queue.clearFilter)
  | .setPull pull, queue => (none, queue.setPull pull)
  | .setDataRequested requested, queue => (none, queue.setDataRequested requested)

/-- The message that a call puts behind all others, unless the queue refuses it. -/
def pushed : QueueCall α → Option (Message α)
  | .push msg => some msg
  | .pushBack msg => some msg
  | _ => none

end QueueCall

/-- The messages that the calls push, in order. -/
def pushedBy (calls : List (QueueCall α)) : List (Message α) :=
  (calls.map QueueCall.pushed).reduceOption

namespace MessageQueue

variable {synch : Bool → α} {hdr : Signature} {queue : MessageQueue α}

/-- The messages that `Pop` returned in a run. -/
def popped (queue : MessageQueue α) (synch : Bool → α) (calls : List (QueueCall α)) :
    List (Message α) :=
  (answers (QueueCall.run synch) calls queue).1.reduceOption

/-- The queue after a run. -/
def after (queue : MessageQueue α) (synch : Bool → α) (calls : List (QueueCall α)) :
    MessageQueue α :=
  (answers (QueueCall.run synch) calls queue).2

theorem popped_cons (call : QueueCall α) (rest : List (QueueCall α)) :
    queue.popped synch (call :: rest) =
      (call.run synch queue).1.toList ++ (call.run synch queue).2.popped synch rest := by
  rw [popped, answers_cons]
  cases (call.run synch queue).1 <;> rfl

theorem ofSignature_popped_cons (call : QueueCall α) (rest : List (QueueCall α)) :
    ofSignature (queue.popped synch (call :: rest)) hdr =
      ofSignature (call.run synch queue).1.toList hdr ++
        ofSignature ((call.run synch queue).2.popped synch rest) hdr := by
  rw [popped_cons, ofSignature_append]

theorem ofSignature_pushedBy_cons (call : QueueCall α) (rest : List (QueueCall α)) :
    ofSignature (pushedBy (call :: rest)) hdr =
      ofSignature call.pushed.toList hdr ++ ofSignature (pushedBy rest) hdr := by
  have split : pushedBy (call :: rest) = call.pushed.toList ++ pushedBy rest := by
    rw [pushedBy, List.map_cons]
    cases call.pushed <;> rfl
  rw [split, ofSignature_append]

theorem removeSame_messages (queue : MessageQueue α) (hdr : Signature) :
    (queue.removeSame hdr).messages = removeLast Message.header queue.messages hdr :=
  rfl

theorem selects_byKey (queue : MessageQueue α) (msg msg' : Message α)
    (same : msg.header = msg'.header) : queue.selects msg = queue.selects msg' := by
  rw [selects, selects, same]

/-- What `Push` does to the messages of a signature. -/
theorem push_cases (queue : MessageQueue α) (msg : Message α) :
    (queue.checkReplace msg.header = MessageReplaceRule.ignore ∧ queue.push msg = queue) ∨
      (queue.Drops msg.header ∧ queue.push msg = { queue with dropCount := true }) ∨
      (¬ queue.Drops msg.header ∧
        queue.checkReplace msg.header = MessageReplaceRule.replaces ∧
        queue.push msg = (queue.removeSame msg.header).pushBack msg) ∨
      (¬ queue.Drops msg.header ∧
        queue.checkReplace msg.header ≠ MessageReplaceRule.ignore ∧
        queue.checkReplace msg.header ≠ MessageReplaceRule.replaces ∧
        queue.push msg = queue.pushBack msg) := by
  rw [push]
  split
  · next ignored => exact Or.inl ⟨ignored, rfl⟩
  · next taken =>
      split
      · next full => exact Or.inr (Or.inl ⟨full, rfl⟩)
      · next room =>
          split
          · next replaced => exact Or.inr (Or.inr (Or.inl ⟨room, replaced, rfl⟩))
          · next kept => exact Or.inr (Or.inr (Or.inr ⟨room, taken, kept, rfl⟩))

/-- `Pop` returns the first message of its signature, or makes up a synchronization message. -/
theorem pop_cases (synch : Bool → α) (queue : MessageQueue α) :
    (∃ msg, queue.messages.find? queue.selects = some msg ∧
      queue.pop synch = (some msg, { queue with
        messages := queue.messages.eraseP queue.selects
        dataDelivered := queue.dataDelivered ||
          queue.dataRequested && msg.header.type == MsgType.data })) ∨
      (queue.messages.find? queue.selects = none ∧
        (queue.pull ∧ queue.dataRequested ∧ queue.dataDelivered) ∧
        queue.pop synch = (some ⟨synchHeader queue.dropCount, synch queue.dropCount⟩,
          { queue with dropCount := false, dataRequested := false, dataDelivered := false })) ∨
      (queue.messages.find? queue.selects = none ∧
        ¬ (queue.pull ∧ queue.dataRequested ∧ queue.dataDelivered) ∧
        queue.pop synch = (none, queue)) := by
  rw [pop]
  cases found : queue.messages.find? queue.selects with
  | some msg => exact Or.inl ⟨msg, rfl, rfl⟩
  | none =>
      by_cases complete : queue.pull ∧ queue.dataRequested ∧ queue.dataDelivered
      · exact Or.inr (Or.inl ⟨rfl, complete, by simp only [if_pos complete]⟩)
      · exact Or.inr (Or.inr ⟨rfl, complete, by simp only [if_neg complete]⟩)

/-- What is popped and what stays are the messages that were there. -/
theorem pop_ofSignature (noSynch : ∀ overflow, synchHeader overflow ≠ hdr)
    (queue : MessageQueue α) :
    ofSignature (queue.pop synch).1.toList hdr ++ ofSignature (queue.pop synch).2.messages hdr =
      ofSignature queue.messages hdr := by
  rcases queue.pop_cases synch with ⟨msg, found, result⟩ | ⟨-, -, result⟩ | ⟨-, -, result⟩
  · rw [result]
    exact cons_queueOf_eraseP queue.selects_byKey found hdr
  · rw [result]
    have other : ofSignature [Message.mk (synchHeader queue.dropCount) (synch queue.dropCount)] hdr
        = [] := queueOf_singleton_of_ne (noSynch queue.dropCount)
    simp only [Option.toList_some, other, List.nil_append]
  · rw [result]
    rfl

theorem push_sublist (queue : MessageQueue α) (msg : Message α) (hdr : Signature) :
    (ofSignature (queue.push msg).messages hdr).Sublist
      (ofSignature queue.messages hdr ++ ofSignature [msg] hdr) := by
  rcases queue.push_cases msg with ⟨-, result⟩ | ⟨-, result⟩ | ⟨-, -, result⟩ | ⟨-, -, -, result⟩
  · rw [result]
    exact List.sublist_append_left _ _
  · rw [result]
    exact List.sublist_append_left _ _
  · rw [result, pushBack, removeSame_messages, ofSignature_append]
    apply List.Sublist.append_right
    rw [ofSignature, queueOf_removeLast]
    split
    · exact List.dropLast_sublist _
    · exact List.Sublist.refl _
  · rw [result, pushBack, ofSignature_append]

/-- One call takes messages of a signature from the front and puts them to the back. -/
theorem call_sublist {call : QueueCall α}
    (notFront : ∀ msg, call = .pushFront msg → msg.header ≠ hdr)
    (noSynch : ∀ overflow, synchHeader overflow ≠ hdr) (queue : MessageQueue α) :
    (ofSignature (call.run synch queue).1.toList hdr ++
        ofSignature (call.run synch queue).2.messages hdr).Sublist
      (ofSignature queue.messages hdr ++ ofSignature call.pushed.toList hdr) := by
  cases call with
  | push msg => exact queue.push_sublist msg hdr
  | pushFront msg =>
      have other : ofSignature [msg] hdr = [] := queueOf_singleton_of_ne (notFront msg rfl)
      have front : ofSignature (queue.pushFront msg).messages hdr =
          ofSignature [msg] hdr ++ ofSignature queue.messages hdr :=
        ofSignature_append [msg] queue.messages hdr
      simp only [QueueCall.run, QueueCall.pushed, Option.toList_none, front, other]
      exact List.sublist_append_left _ _
  | pushBack msg =>
      have back : ofSignature (queue.pushBack msg).messages hdr =
          ofSignature queue.messages hdr ++ ofSignature [msg] hdr :=
        ofSignature_append queue.messages [msg] hdr
      simp only [QueueCall.run, QueueCall.pushed, Option.toList_none, Option.toList_some, back]
      exact List.Sublist.refl _
  | pop =>
      rw [QueueCall.run, pop_ofSignature noSynch]
      exact List.sublist_append_left _ _
  | _ => exact List.sublist_append_left _ _

/-- Messages of one signature never overtake each other, and none is returned twice. -/
theorem never_reordered (synch : Bool → α) {calls : List (QueueCall α)} {hdr : Signature}
    (notFront : ∀ msg, .pushFront msg ∈ calls → msg.header ≠ hdr)
    (noSynch : ∀ overflow, synchHeader overflow ≠ hdr) (queue : MessageQueue α) :
    (ofSignature (queue.popped synch calls) hdr ++
        ofSignature (queue.after synch calls).messages hdr).Sublist
      (ofSignature queue.messages hdr ++ ofSignature (pushedBy calls) hdr) := by
  induction calls generalizing queue with
  | nil => exact List.sublist_append_left _ _
  | cons call rest ih =>
      have first := @call_sublist _ synch hdr call
        (fun msg same => notFront msg (by simp [same])) noSynch queue
      have later := ih (fun msg member => notFront msg (List.mem_cons_of_mem _ member))
        (call.run synch queue).2
      rw [ofSignature_popped_cons, ofSignature_pushedBy_cons, List.append_assoc,
        ← List.append_assoc (ofSignature queue.messages hdr)]
      apply (later.append_left _).trans
      rw [← List.append_assoc]
      exact first.append_right _

/-- What the first `position2d` device of a server publishes. -/
def positionData : Signature :=
  ⟨⟨0, 6665, 4, 0⟩, MsgType.data, 1⟩

theorem never_reordered_replaced :
    (ofSignature ((new true 2).popped (fun _ => 0)
        [.push ⟨positionData, 1⟩, .push ⟨positionData, 2⟩, .pop, .push ⟨positionData, 3⟩])
        positionData ++
      ofSignature ((new true 2).after (fun _ => 0)
        [.push ⟨positionData, 1⟩, .push ⟨positionData, 2⟩, .pop, .push ⟨positionData, 3⟩]).messages
        positionData).Sublist [⟨positionData, 1⟩, ⟨positionData, 2⟩, ⟨positionData, 3⟩] :=
  never_reordered (fun _ => 0) (by simp) (by decide) (new true 2)

theorem withRule_matches {added : MessageReplaceRule} {rules : List MessageReplaceRule}
    (noRule : ∀ rule ∈ rules, ¬ rule.matches_ hdr) (noneAdded : ¬ added.matches_ hdr) :
    ∀ rule ∈ withRule added rules, ¬ rule.matches_ hdr := by
  induction rules with
  | nil => simpa [withRule] using noneAdded
  | cons first rest ih =>
      have firstDiffers := noRule first (List.mem_cons_self ..)
      have later := ih fun rule member => noRule rule (List.mem_cons_of_mem _ member)
      intro rule member
      rw [withRule] at member
      split at member
      · rcases List.mem_cons.mp member with rfl | inRest
        · exact firstDiffers
        · exact noRule rule (List.mem_cons_of_mem _ inRest)
      · rcases List.mem_cons.mp member with rfl | inRest
        · exact firstDiffers
        · exact later rule inRest

/-- No rule is about messages of this signature, now or later. -/
structure Unruled (queue : MessageQueue α) (calls : List (QueueCall α)) (hdr : Signature) :
    Prop where
  rules : ∀ rule ∈ queue.replaceRules, ¬ rule.matches_ hdr
  added : ∀ rule, .addReplaceRule rule ∈ calls → ¬ rule.matches_ hdr

/-- The flag for data messages and commands has this value, now and later. -/
structure ReplaceIs (replace : Bool) (queue : MessageQueue α) (calls : List (QueueCall α)) :
    Prop where
  now : queue.replace = replace
  later : ∀ flag, .setReplace flag ∈ calls → flag = replace

theorem push_settings (queue : MessageQueue α) (msg : Message α) :
    (queue.push msg).replaceRules = queue.replaceRules ∧
      (queue.push msg).replace = queue.replace := by
  rcases queue.push_cases msg with
    ⟨-, result⟩ | ⟨-, result⟩ | ⟨-, -, result⟩ | ⟨-, -, -, result⟩ <;>
    rw [result] <;> exact ⟨rfl, rfl⟩

theorem pop_settings (synch : Bool → α) (queue : MessageQueue α) :
    (queue.pop synch).2.replaceRules = queue.replaceRules ∧
      (queue.pop synch).2.replace = queue.replace := by
  rcases queue.pop_cases synch with ⟨msg, -, result⟩ | ⟨-, -, result⟩ | ⟨-, -, result⟩ <;>
    rw [result] <;> exact ⟨rfl, rfl⟩

theorem Unruled.next {call : QueueCall α} {rest : List (QueueCall α)}
    (unruled : queue.Unruled (call :: rest) hdr) :
    (call.run synch queue).2.Unruled rest hdr := by
  refine ⟨?_, fun rule member => unruled.added rule (List.mem_cons_of_mem _ member)⟩
  cases call with
  | push msg =>
      rw [QueueCall.run, (queue.push_settings msg).1]
      exact unruled.rules
  | pop =>
      rw [QueueCall.run, (queue.pop_settings synch).1]
      exact unruled.rules
  | addReplaceRule rule =>
      exact withRule_matches unruled.rules (unruled.added rule (List.mem_cons_self ..))
  | _ => exact unruled.rules

theorem ReplaceIs.next {replace : Bool} {call : QueueCall α} {rest : List (QueueCall α)}
    (isSet : queue.ReplaceIs replace (call :: rest)) :
    (call.run synch queue).2.ReplaceIs replace rest := by
  refine ⟨?_, fun flag member => isSet.later flag (List.mem_cons_of_mem _ member)⟩
  cases call with
  | push msg =>
      rw [QueueCall.run, (queue.push_settings msg).2]
      exact isSet.now
  | pop =>
      rw [QueueCall.run, (queue.pop_settings synch).2]
      exact isSet.now
  | setReplace flag => exact isSet.later flag (List.mem_cons_self ..)
  | _ => exact isSet.now

theorem checkReplace_eq (noRule : ∀ rule ∈ queue.replaceRules, ¬ rule.matches_ hdr) :
    queue.checkReplace hdr =
      if hdr.IsDataOrCommand ∧ queue.replace then MessageReplaceRule.replaces
      else MessageReplaceRule.accept := by
  have none_ : queue.replaceRules.find? (·.matches_ hdr) = none := by
    simpa [List.find?_eq_none] using noRule
  rw [checkReplace, none_]
  by_cases answer : hdr.type = MsgType.req ∨ hdr.IsResponse
  · have other : ¬ hdr.IsDataOrCommand := fun news => news.not_answer answer
    simp [answer, other]
  · by_cases news : hdr.IsDataOrCommand <;> simp [answer, news]

/-- A message of another signature changes nothing for this one. -/
theorem push_other {msg : Message α} (other : msg.header ≠ hdr) :
    ofSignature (queue.push msg).messages hdr = ofSignature queue.messages hdr := by
  have nothing : ofSignature [msg] hdr = [] := queueOf_singleton_of_ne other
  rcases queue.push_cases msg with ⟨-, result⟩ | ⟨-, result⟩ | ⟨-, -, result⟩ | ⟨-, -, -, result⟩
  · rw [result]
  · rw [result]
  · rw [result, pushBack, removeSame_messages, ofSignature_append, nothing,
      ofSignature, queueOf_removeLast, if_neg (Ne.symm other), List.append_nil]
  · rw [result, pushBack, ofSignature_append, nothing, List.append_nil]

/-- A call that is no `Push` of the signature loses nothing of it. -/
theorem call_kept {call : QueueCall α} (notPush : ∀ msg, call = .push msg → msg.header ≠ hdr)
    (notFront : ∀ msg, call = .pushFront msg → msg.header ≠ hdr)
    (noSynch : ∀ overflow, synchHeader overflow ≠ hdr) (queue : MessageQueue α) :
    ofSignature (call.run synch queue).1.toList hdr ++
        ofSignature (call.run synch queue).2.messages hdr =
      ofSignature queue.messages hdr ++ ofSignature call.pushed.toList hdr := by
  have nothing : ofSignature ([] : List (Message α)) hdr = [] := rfl
  cases call with
  | push msg =>
      have other : ofSignature [msg] hdr = [] := queueOf_singleton_of_ne (notPush msg rfl)
      simp only [QueueCall.run, QueueCall.pushed, Option.toList_none, Option.toList_some,
        push_other (notPush msg rfl), other, nothing, List.nil_append, List.append_nil]
  | pushFront msg =>
      have other : ofSignature [msg] hdr = [] := queueOf_singleton_of_ne (notFront msg rfl)
      have front : ofSignature (queue.pushFront msg).messages hdr =
          ofSignature [msg] hdr ++ ofSignature queue.messages hdr :=
        ofSignature_append [msg] queue.messages hdr
      simp only [QueueCall.run, QueueCall.pushed, Option.toList_none, front, other, nothing,
        List.nil_append, List.append_nil]
  | pushBack msg => exact ofSignature_append queue.messages [msg] hdr
  | pop =>
      change _ = _ ++ ofSignature [] hdr
      rw [QueueCall.run, pop_ofSignature noSynch, nothing, List.append_nil]
  | _ => exact (List.append_nil _).symm

/-- An accepted message that is not dropped goes behind the others. -/
theorem push_kept {msg : Message α}
    (accepted : queue.checkReplace msg.header = MessageReplaceRule.accept)
    (room : ¬ queue.Drops msg.header) : queue.push msg = queue.pushBack msg := by
  rw [push, if_neg (by rw [accepted]; decide), if_neg room, if_neg (by rw [accepted]; decide)]

theorem Drops.dropCount {msg : Message α} (full : queue.Drops msg.header) :
    (queue.push msg).dropCount = true := by
  rw [push, if_neg (by rw [full.1]; decide), if_pos full]

/-- Until a synchronization message reports it, the queue remembers that it dropped something. -/
theorem overflow_reported (calls : List (QueueCall α)) (dropped : queue.dropCount = true) :
    (queue.after synch calls).dropCount = true ∨
      ∃ msg ∈ queue.popped synch calls, msg.header = synchHeader true := by
  induction calls generalizing queue with
  | nil => exact Or.inl dropped
  | cons call rest ih =>
      have remembered : (call.run synch queue).2.dropCount = true ∨
          ∃ msg ∈ (call.run synch queue).1, msg.header = synchHeader true := by
        cases call with
        | push msg =>
            left
            change (queue.push msg).dropCount = true
            rcases queue.push_cases msg with
              ⟨-, result⟩ | ⟨-, result⟩ | ⟨-, -, result⟩ | ⟨-, -, -, result⟩ <;> rw [result]
            all_goals exact dropped
        | pop =>
            change (queue.pop synch).2.dropCount = true ∨ ∃ msg ∈ (queue.pop synch).1, _
            rcases queue.pop_cases synch with ⟨msg, -, result⟩ | ⟨-, -, result⟩ | ⟨-, -, result⟩
            · rw [result]
              exact Or.inl dropped
            · rw [result, dropped]
              exact Or.inr ⟨_, rfl, rfl⟩
            · rw [result]
              exact Or.inl dropped
        | _ => exact Or.inl dropped
      rw [popped_cons]
      rcases remembered with still | ⟨msg, returned, reported⟩
      · rcases ih still with final | ⟨msg, later, reported⟩
        · exact Or.inl final
        · exact Or.inr ⟨msg, List.mem_append_right _ later, reported⟩
      · exact Or.inr ⟨msg, List.mem_append_left _ (by simpa using returned), reported⟩

/-- Nothing was dropped, or what was dropped has been reported. -/
def NothingDropped (synch : Bool → α) (calls : List (QueueCall α)) (queue : MessageQueue α) :
    Prop :=
  (queue.after synch calls).dropCount = false ∧
    ∀ msg ∈ queue.popped synch calls, msg.header ≠ synchHeader true

theorem NothingDropped.next {call : QueueCall α} {rest : List (QueueCall α)}
    (nothing : queue.NothingDropped synch (call :: rest)) :
    (call.run synch queue).2.NothingDropped synch rest := by
  refine ⟨nothing.1, fun msg member => nothing.2 msg ?_⟩
  rw [popped_cons]
  exact List.mem_append_right _ member

theorem NothingDropped.not_drops {msg : Message α} {rest : List (QueueCall α)}
    (nothing : queue.NothingDropped synch (.push msg :: rest)) : ¬ queue.Drops msg.header := by
  intro full
  rcases nothing.next with ⟨final, silent⟩
  rcases @overflow_reported _ synch (queue.push msg) rest full.dropCount with
    still | ⟨reported, member, overflow⟩
  · have contradiction := still.symm.trans final
    cases contradiction
  · exact silent reported member overflow

/-- Requests and responses are never lost; data and commands are not lost without a report. -/
theorem nothing_lost {calls : List (QueueCall α)}
    (notFront : ∀ msg, .pushFront msg ∈ calls → msg.header ≠ hdr)
    (noSynch : ∀ overflow, synchHeader overflow ≠ hdr) (unruled : queue.Unruled calls hdr)
    (unreported : hdr.IsDataOrCommand →
      queue.ReplaceIs false calls ∧ queue.NothingDropped synch calls) :
    ofSignature (queue.popped synch calls) hdr ++
        ofSignature (queue.after synch calls).messages hdr =
      ofSignature queue.messages hdr ++ ofSignature (pushedBy calls) hdr := by
  induction calls generalizing queue with
  | nil => exact (List.append_nil _).symm
  | cons call rest ih =>
      have first : ofSignature (call.run synch queue).1.toList hdr ++
          ofSignature (call.run synch queue).2.messages hdr =
            ofSignature queue.messages hdr ++ ofSignature call.pushed.toList hdr := by
        by_cases own : ∃ msg, call = .push msg ∧ msg.header = hdr
        · rcases own with ⟨msg, rfl, rfl⟩
          have kept : queue.push msg = queue.pushBack msg := by
            have decision := checkReplace_eq unruled.rules
            by_cases news : msg.header.IsDataOrCommand
            · rcases unreported news with ⟨flag, nothing⟩
              rw [if_neg (by simp [flag.now])] at decision
              exact push_kept decision nothing.not_drops
            · rw [if_neg (by simp [news])] at decision
              exact push_kept decision fun full => news full.2.1
          change ofSignature [] msg.header ++ ofSignature (queue.push msg).messages msg.header = _
          rw [kept]
          exact ofSignature_append queue.messages [msg] msg.header
        · exact call_kept (fun msg same header => own ⟨msg, same, header⟩)
            (fun msg same => notFront msg (by simp [same])) noSynch queue
      have later := @ih (call.run synch queue).2
        (fun msg member => notFront msg (List.mem_cons_of_mem _ member)) unruled.next
        fun news => ⟨(unreported news).1.next, (unreported news).2.next⟩
      rw [ofSignature_popped_cons, ofSignature_pushedBy_cons, List.append_assoc,
        ← List.append_assoc (ofSignature queue.messages hdr), ← first, List.append_assoc, ← later]
      rfl

theorem nothing_lost_data :
    ofSignature ((new false 2).popped (fun _ => 0)
        [.push ⟨positionData, 1⟩, .push ⟨positionData, 2⟩, .pop, .push ⟨positionData, 3⟩])
        positionData ++
      ofSignature ((new false 2).after (fun _ => 0)
        [.push ⟨positionData, 1⟩, .push ⟨positionData, 2⟩, .pop, .push ⟨positionData, 3⟩]).messages
        positionData = [⟨positionData, 1⟩, ⟨positionData, 2⟩, ⟨positionData, 3⟩] := by
  refine nothing_lost (by simp) (by decide) ⟨by simp [new], by simp⟩ fun _ => ⟨⟨rfl, by simp⟩, ?_⟩
  exact ⟨by decide, by decide⟩

theorem synchHeader_ne (news : hdr.IsDataOrCommand) (overflow : Bool) :
    synchHeader overflow ≠ hdr := by
  rintro rfl
  have type : MsgType.synch = MsgType.data ∨ MsgType.synch = MsgType.cmd := news
  revert type
  decide

/-- A message that replaces takes the place of the last one of its signature. -/
theorem push_replaces {msg : Message α}
    (replaces : queue.checkReplace msg.header = MessageReplaceRule.replaces) :
    ofSignature (queue.push msg).messages msg.header =
      (ofSignature queue.messages msg.header).dropLast ++ [msg] := by
  have room : ¬ queue.Drops msg.header := fun full => by
    have contradiction := full.1.symm.trans replaces
    cases contradiction
  rw [push, if_neg (by rw [replaces]; decide), if_neg room, if_pos replaces, pushBack,
    removeSame_messages, ofSignature_append, ofSignature, queueOf_removeLast, if_pos rfl,
    ofSignature, queueOf_singleton_self]

/-- One call where messages replace each other. -/
theorem call_newest {call : QueueCall α} (news : hdr.IsDataOrCommand)
    (notFront : ∀ msg, call = .pushFront msg → msg.header ≠ hdr)
    (notBack : ∀ msg, call = .pushBack msg → msg.header ≠ hdr)
    (replaces : queue.checkReplace hdr = MessageReplaceRule.replaces)
    (start : (ofSignature queue.messages hdr).length ≤ 1) :
    (ofSignature (call.run synch queue).2.messages hdr).length ≤ 1 ∧
      (ofSignature (call.run synch queue).1.toList hdr ++
          ofSignature (call.run synch queue).2.messages hdr).getLast? =
        (ofSignature queue.messages hdr ++ ofSignature call.pushed.toList hdr).getLast? := by
  by_cases own : ∃ msg, call = .push msg ∧ msg.header = hdr
  · rcases own with ⟨msg, rfl, rfl⟩
    have single : ofSignature [msg] msg.header = [msg] := queueOf_singleton_self msg
    change (ofSignature (queue.push msg).messages msg.header).length ≤ 1 ∧
      (ofSignature (queue.push msg).messages msg.header).getLast? =
        (ofSignature queue.messages msg.header ++ ofSignature [msg] msg.header).getLast?
    rw [push_replaces replaces, single]
    refine ⟨?_, by simp⟩
    rw [List.length_append, List.length_dropLast, List.length_singleton]
    omega
  · have kept := @call_kept _ synch hdr call (fun msg same header => own ⟨msg, same, header⟩)
      notFront (synchHeader_ne news) queue
    have nothing : ofSignature call.pushed.toList hdr = [] := by
      cases call with
      | push msg => exact queueOf_singleton_of_ne fun same => own ⟨msg, rfl, same⟩
      | pushBack msg => exact queueOf_singleton_of_ne (notBack msg rfl)
      | _ => rfl
    rw [nothing, List.append_nil] at kept ⊢
    have lengths := congrArg List.length kept
    rw [List.length_append] at lengths
    exact ⟨by omega, by rw [kept]⟩

/-- Where messages replace each other, at most the newest one waits, and it is not lost. -/
theorem newest_kept {calls : List (QueueCall α)} (news : hdr.IsDataOrCommand)
    (notFront : ∀ msg, .pushFront msg ∈ calls → msg.header ≠ hdr)
    (notBack : ∀ msg, .pushBack msg ∈ calls → msg.header ≠ hdr)
    (unruled : queue.Unruled calls hdr) (replaces : queue.ReplaceIs true calls)
    (start : (ofSignature queue.messages hdr).length ≤ 1) :
    (ofSignature (queue.after synch calls).messages hdr).length ≤ 1 ∧
      (ofSignature (queue.popped synch calls) hdr ++
          ofSignature (queue.after synch calls).messages hdr).getLast? =
        (ofSignature queue.messages hdr ++ ofSignature (pushedBy calls) hdr).getLast? := by
  induction calls generalizing queue with
  | nil => exact ⟨start, by simp [popped, after, answers, pushedBy, ofSignature, queueOf]⟩
  | cons call rest ih =>
      have decision := checkReplace_eq unruled.rules
      rw [if_pos ⟨news, replaces.now⟩] at decision
      rcases @call_newest _ synch _ _ call news (fun msg same => notFront msg (by simp [same]))
        (fun msg same => notBack msg (by simp [same])) decision start with ⟨next, first⟩
      rcases @ih (call.run synch queue).2
        (fun msg member => notFront msg (List.mem_cons_of_mem _ member))
        (fun msg member => notBack msg (List.mem_cons_of_mem _ member)) unruled.next replaces.next
        next with ⟨final, later⟩
      refine ⟨final, ?_⟩
      rw [ofSignature_popped_cons, ofSignature_pushedBy_cons, List.append_assoc,
        List.getLast?_append]
      change (ofSignature ((call.run synch queue).2.popped synch rest) hdr ++
        ofSignature ((call.run synch queue).2.after synch rest).messages hdr).getLast?.or _ = _
      rw [later, ← List.getLast?_append, ← List.append_assoc, List.getLast?_append, first,
        ← List.getLast?_append, List.append_assoc]

theorem newest_kept_three :
    (ofSignature ((new true 2).popped (fun _ => 0)
        [.push ⟨positionData, 1⟩, .push ⟨positionData, 2⟩, .pop, .push ⟨positionData, 3⟩])
        positionData ++
      ofSignature ((new true 2).after (fun _ => 0)
        [.push ⟨positionData, 1⟩, .push ⟨positionData, 2⟩, .pop, .push ⟨positionData, 3⟩]).messages
        positionData).getLast? = some ⟨positionData, 3⟩ :=
  (newest_kept (by decide) (by simp) (by simp) ⟨by simp [new], by simp⟩ ⟨rfl, by simp⟩
    (by decide)).2

end MessageQueue

end PlayerCore

end MrsOptimization
