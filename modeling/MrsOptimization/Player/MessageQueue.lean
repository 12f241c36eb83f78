import Mathlib.Data.List.Infix
import MrsOptimization.Player.Messages

/-!
# Message queues

Every driver and every client of the server has a `MessageQueue`. Each of its
methods holds the lock of the queue, so threads that share it are one list of
calls in some order. The doubly linked list is a list here, `Length` its length.

The queue looks at the signature of a message only. The rest of the message,
with the timestamp, the size and the data, is `content`.
-/

namespace MrsOptimization

namespace PlayerCore

universe u

structure Message (α : Type u) where
  header : Signature
  content : α
deriving DecidableEq, Repr

/-- A negative number of a rule or of a filter means that the field does not matter. -/
def dontCare (number : BitVec 32) : Bool :=
  number.toInt < 0

structure MessageReplaceRule where
  host : BitVec 32
  robot : BitVec 32
  interf : BitVec 32
  index : BitVec 32
  type : BitVec 32
  subtype : BitVec 32
  replace : BitVec 32
deriving DecidableEq, Repr

namespace MessageReplaceRule

/-- The casts cut the numbers of the rule to the width of the field. -/
def matches_ (rule : MessageReplaceRule) (hdr : Signature) : Bool :=
  (dontCare rule.host || rule.host == hdr.addr.host) &&
  (dontCare rule.robot || rule.robot == hdr.addr.robot) &&
  (dontCare rule.interf || rule.interf.setWidth 16 == hdr.addr.interf) &&
  (dontCare rule.index || rule.index.setWidth 16 == hdr.addr.index) &&
  (dontCare rule.type || rule.type.setWidth 8 == hdr.type) &&
  (dontCare rule.subtype || rule.subtype.setWidth 8 == hdr.subtype)

/-- The same criteria, whatever they lead to. -/
def equivalent (rule other : MessageReplaceRule) : Bool :=
  rule.host == other.host && rule.robot == other.robot && rule.interf == other.interf &&
  rule.index == other.index && rule.type == other.type && rule.subtype == other.subtype

/-- `PLAYER_PLAYER_MSG_REPLACE_RULE_ACCEPT` -/
def accept : BitVec 32 :=
  0

/-- `PLAYER_PLAYER_MSG_REPLACE_RULE_REPLACE` -/
def replaces : BitVec 32 :=
  1

/-- `PLAYER_PLAYER_MSG_REPLACE_RULE_IGNORE` -/
def ignore : BitVec 32 :=
  2

end MessageReplaceRule

/-- The arguments of `SetFilter` -/
structure QueueFilter where
  host : BitVec 32
  robot : BitVec 32
  interf : BitVec 32
  index : BitVec 32
  type : BitVec 32
  subtype : BitVec 32
deriving DecidableEq, Repr

/-- Unlike a rule, a filter widens the fields, and lets only responses pass for any type. -/
def QueueFilter.passes (filter : QueueFilter) (hdr : Signature) : Bool :=
  (dontCare filter.host || filter.host == hdr.addr.host) &&
  (dontCare filter.robot || filter.robot == hdr.addr.robot) &&
  (dontCare filter.interf || filter.interf == hdr.addr.interf.setWidth 32) &&
  (dontCare filter.index || filter.index == hdr.addr.index.setWidth 32) &&
  (dontCare filter.type && hdr.IsResponse || filter.type == hdr.type.setWidth 32) &&
  (dontCare filter.subtype || filter.subtype == hdr.subtype.setWidth 32)

structure MessageQueue (α : Type u) where
  /-- The messages from `head` to `tail`. -/
  messages : List (Message α)
  maxlen : ℕ
  replaceRules : List MessageReplaceRule
  replace : Bool
  /-- `none` while `filter_on` is false. -/
  filter : Option QueueFilter
  pull : Bool
  dataRequested : Bool
  dataDelivered : Bool
  /-- The count is declared as a `bool`, so it only says that there were some. -/
  dropCount : Bool
deriving DecidableEq, Repr

namespace MessageQueue

variable {α : Type u}

/-- `new MessageQueue(_Replace, _Maxlen)` -/
def new (replace : Bool) (maxlen : ℕ) : MessageQueue α :=
  ⟨[], maxlen, [], replace, none, false, false, false, false⟩

/-- The first equivalent rule gets a new result, or the rule becomes the last one. -/
def withRule (added : MessageReplaceRule) : List MessageReplaceRule → List MessageReplaceRule
  | [] => [added]
  | rule :: rest =>
    if rule.equivalent added then { rule with replace := added.replace } :: rest
    else rule :: withRule added rest

def addReplaceRule (rule : MessageReplaceRule) (queue : MessageQueue α) : MessageQueue α :=
  { queue with replaceRules := withRule rule queue.replaceRules }

def checkReplace (queue : MessageQueue α) (hdr : Signature) : BitVec 32 :=
  match queue.replaceRules.find? (·.matches_ hdr) with
  | some rule => rule.replace
  | none =>
    if hdr.type = MsgType.req ∨ hdr.IsResponse then MessageReplaceRule.accept
    else if hdr.IsDataOrCommand then
      if queue.replace then MessageReplaceRule.replaces else MessageReplaceRule.accept
    else MessageReplaceRule.accept

/-- `!this->filter_on || this->Filter(msg)` -/
def passesFilter (queue : MessageQueue α) (hdr : Signature) : Bool :=
  match queue.filter with
  | some filter => filter.passes hdr
  | none => true

def setFilter (filter : QueueFilter) (queue : MessageQueue α) : MessageQueue α :=
  { queue with filter := some filter }

def clearFilter (queue : MessageQueue α) : MessageQueue α :=
  { queue with filter := none }

def setReplace (replace : Bool) (queue : MessageQueue α) : MessageQueue α :=
  { queue with replace := replace }

def setPull (pull : Bool) (queue : MessageQueue α) : MessageQueue α :=
  { queue with pull := pull }

def setDataRequested (requested : Bool) (queue : MessageQueue α) : MessageQueue α :=
  { queue with dataRequested := requested, dataDelivered := false }

def pushFront (msg : Message α) (queue : MessageQueue α) : MessageQueue α :=
  { queue with messages := msg :: queue.messages }

def pushBack (msg : Message α) (queue : MessageQueue α) : MessageQueue α :=
  { queue with messages := queue.messages ++ [msg] }

/-- The loop from `tail` removes the last message of the signature. -/
def removeSame (hdr : Signature) (queue : MessageQueue α) : MessageQueue α :=
  { queue with messages := (queue.messages.reverse.eraseP (·.header = hdr)).reverse }

/-- A data message or a command that is accepted, but not by a queue that is full. -/
def Drops (queue : MessageQueue α) (hdr : Signature) : Prop :=
  queue.checkReplace hdr = MessageReplaceRule.accept ∧ hdr.IsDataOrCommand ∧
    queue.maxlen ≤ queue.messages.length

instance (queue : MessageQueue α) (hdr : Signature) : Decidable (queue.Drops hdr) :=
  inferInstanceAs (Decidable (_ ∧ _ ∧ _))

def push (msg : Message α) (queue : MessageQueue α) : MessageQueue α :=
  if queue.checkReplace msg.header = MessageReplaceRule.ignore then queue
  else if queue.Drops msg.header then { queue with dropCount := true }
  else if queue.checkReplace msg.header = MessageReplaceRule.replaces then
    (queue.removeSame msg.header).pushBack msg
  else queue.pushBack msg

/-- The response that the first loop of `Pop` looks for. -/
def responsePending (queue : MessageQueue α) : Bool :=
  queue.filter.isNone && !queue.dataRequested && queue.messages.any (·.header.IsResponse)

/-- The test in the second loop of `Pop`. -/
def selects (queue : MessageQueue α) (msg : Message α) : Bool :=
  queue.responsePending ||
    queue.passesFilter msg.header && (!queue.pull || queue.dataRequested)

/-- `PLAYER_PLAYER_SYNCH_OK` and `PLAYER_PLAYER_SYNCH_OVERFLOW` -/
def synchSubtype (overflow : Bool) : BitVec 8 :=
  if overflow then 2 else 1

def synchHeader (overflow : Bool) : Signature :=
  ⟨⟨0, 0, playerCode, 0⟩, MsgType.synch, synchSubtype overflow⟩

/-- `synch` is what `Pop` leaves unset in the header, and the data: none, or `drop_count`. -/
def pop (synch : Bool → α) (queue : MessageQueue α) : Option (Message α) × MessageQueue α :=
  match queue.messages.find? queue.selects with
  | some msg =>
    (some msg, { queue with
      messages := queue.messages.eraseP queue.selects
      dataDelivered := queue.dataDelivered ||
        queue.dataRequested && msg.header.type == MsgType.data })
  | none =>
    if queue.pull ∧ queue.dataRequested ∧ queue.dataDelivered then
      (some ⟨synchHeader queue.dropCount, synch queue.dropCount⟩,
        { queue with dropCount := false, dataRequested := false, dataDelivered := false })
    else (none, queue)

end MessageQueue

end PlayerCore

end MrsOptimization
