import MrsOptimization.Library.MachineInt
import MrsOptimization.Library.Mailboxes

/-!
# The message service

`MessageService` keeps the messages of all robots in one list, from which they
are removed in the middle on delivery and in bulk on expiry, while a byte in
each message counts down. `MessageQueues` is what the service is for: a queue
for each robot, whose messages live until the fifth `process`. `Represents`
relates the two through the list of stored messages with the times they were
sent, and every operation preserves it (`represents_step`).
-/

namespace MrsOptimization

/-- `Message`; `id` is the identity of the object, `timeToLive` a byte. -/
structure Message (Robot Task : Type) where
  id : ℕ
  from_ : Robot
  to_ : Robot
  task : Task
  timeToLive : ℤ
  deriving DecidableEq

/-- `MessageService`; `nextId` is the identity of the next message object. -/
structure MessageService (Robot Task : Type) where
  robots : List Robot
  messages : List (Message Robot Task)
  nextId : ℕ
  deriving DecidableEq

inductive Operation (Robot Task : Type) where
  | registerRobot (robot : Robot)
  | sendMessage (robot : Robot) (task : Task)
  | getNextMessage (robot : Robot)
  | process
  deriving DecidableEq

variable {Robot Task : Type}

namespace Message

def new (id : ℕ) (from_ to_ : Robot) (task : Task) : Message Robot Task :=
  ⟨id, from_, to_, task, 5⟩

def process (msg : Message Robot Task) : Message Robot Task :=
  { msg with timeToLive := wrap 8 (msg.timeToLive - 1) }

end Message

section Code

variable [DecidableEq Robot]

namespace MessageService

def new : MessageService Robot Task :=
  ⟨[], [], 0⟩

def registerRobot (robot : Robot) (service : MessageService Robot Task) :
    MessageService Robot Task :=
  { service with robots := service.robots ++ [robot] }

def sendMessage (robot : Robot) (task : Task) (service : MessageService Robot Task) :
    MessageService Robot Task :=
  service.robots.foldl (fun service rob =>
    { service with
      messages := service.messages ++ [Message.new service.nextId robot rob task]
      nextId := service.nextId + 1 }) service

/-- `messages.remove(res)`, by identity. -/
def remove (messages : List (Message Robot Task)) :
    Option (Message Robot Task) → List (Message Robot Task)
  | none => messages
  | some res => messages.eraseP fun msg => msg.id = res.id

def getNextMessage (robot : Robot) (service : MessageService Robot Task) :
    Option (Message Robot Task) × MessageService Robot Task :=
  let res := service.messages.find? fun msg => msg.to_ = robot
  (res, { service with messages := remove service.messages res })

def process (service : MessageService Robot Task) : MessageService Robot Task :=
  let messages := service.messages.map Message.process
  let deadMessages := messages.filter fun msg => msg.timeToLive ≤ 0
  { service with
    messages := messages.filter fun msg => !deadMessages.any fun dead => dead.id = msg.id }

def step : Operation Robot Task → MessageService Robot Task →
    List (Option (Message Robot Task)) × MessageService Robot Task
  | .registerRobot robot, service => ([], registerRobot robot service)
  | .sendMessage robot task, service => ([], sendMessage robot task service)
  | .getNextMessage robot, service =>
      ([(getNextMessage robot service).1], (getNextMessage robot service).2)
  | .process, service => ([], process service)

/-- A sequence of operations, and the results of its `getNextMessage` calls. -/
def run : List (Operation Robot Task) → MessageService Robot Task →
    List (Option (Message Robot Task)) × MessageService Robot Task
  | [], service => ([], service)
  | operation :: rest, service =>
      ((step operation service).1 ++ (run rest (step operation service).2).1,
        (run rest (step operation service).2).2)

end MessageService

/-- The messages of one broadcast: one for each registration. -/
def copies (robot : Robot) (task : Task) : List Robot → ℕ → List (Message Robot Task)
  | [], _ => []
  | rob :: rest, nextId => Message.new nextId robot rob task :: copies robot task rest (nextId + 1)

/-- The specification: an independent queue for each robot. -/
structure MessageQueues (Robot Task : Type) where
  robots : List Robot
  mail : Mailboxes Robot (Message Robot Task)
  nextId : ℕ

/-- A message as a reader sees it at some time: it lives until the fifth tick. -/
def Stamped.aged (clock : ℕ) (element : Stamped (Message Robot Task)) : Message Robot Task :=
  { element.content with timeToLive := (element.sentAt : ℤ) + 5 - clock }

namespace MessageQueues

def new : MessageQueues Robot Task :=
  ⟨[], Mailboxes.empty, 0⟩

def step : Operation Robot Task → MessageQueues Robot Task →
    List (Option (Message Robot Task)) × MessageQueues Robot Task
  | .registerRobot robot, queues => ([], { queues with robots := queues.robots ++ [robot] })
  | .sendMessage robot task, queues =>
      ([], { queues with
        mail := queues.mail.send
          ((copies robot task queues.robots queues.nextId).map fun msg => (msg.to_, msg))
        nextId := queues.nextId + queues.robots.length })
  | .getNextMessage robot, queues =>
      ([(queues.mail.receive robot).1.map (Stamped.aged queues.mail.clock)],
        { queues with mail := (queues.mail.receive robot).2 })
  | .process, queues => ([], { queues with mail := queues.mail.tick 5 })

def run : List (Operation Robot Task) → MessageQueues Robot Task →
    List (Option (Message Robot Task)) × MessageQueues Robot Task
  | [], queues => ([], queues)
  | operation :: rest, queues =>
      ((step operation queues).1 ++ (run rest (step operation queues).2).1,
        (run rest (step operation queues).2).2)

end MessageQueues

end Code

section Broadcast

@[simp]
theorem Stamped.aged_id (clock : ℕ) (element : Stamped (Message Robot Task)) :
    (element.aged clock).id = element.content.id := rfl

@[simp]
theorem Stamped.aged_to (clock : ℕ) (element : Stamped (Message Robot Task)) :
    (element.aged clock).to_ = element.content.to_ := rfl

theorem copies_id (robot : Robot) (task : Task) (robots : List Robot) (nextId : ℕ) :
    (copies robot task robots nextId).map Message.id = List.range' nextId robots.length := by
  induction robots generalizing nextId with
  | nil => rfl
  | cons rob rest ih => simp [copies, ih, List.range'_succ, Message.new]

theorem copies_bounds {robot : Robot} {task : Task} {robots : List Robot} {nextId : ℕ}
    {msg : Message Robot Task} (msgMem : msg ∈ copies robot task robots nextId) :
    nextId ≤ msg.id ∧ msg.id < nextId + robots.length := by
  have idMem := List.mem_map_of_mem (f := Message.id) msgMem
  rw [copies_id] at idMem
  exact List.mem_range'_1.mp idMem

theorem copies_to (robot : Robot) (task : Task) (robots : List Robot) (nextId : ℕ) :
    (copies robot task robots nextId).map Message.to_ = robots := by
  induction robots generalizing nextId with
  | nil => rfl
  | cons rob rest ih => simp [copies, ih, Message.new]

theorem copies_timeToLive (robot : Robot) (task : Task) {robots : List Robot} {nextId : ℕ}
    {msg : Message Robot Task} (msgMem : msg ∈ copies robot task robots nextId) :
    msg.timeToLive = 5 := by
  induction robots generalizing nextId with
  | nil => simp [copies] at msgMem
  | cons rob rest ih =>
      rcases List.mem_cons.mp msgMem with rfl | later
      · rfl
      · exact ih later

theorem sendMessage_eq (robot : Robot) (task : Task) (service : MessageService Robot Task) :
    service.sendMessage robot task =
      { service with
        messages := service.messages ++ copies robot task service.robots service.nextId
        nextId := service.nextId + service.robots.length } := by
  have general : ∀ (robots : List Robot) (current : MessageService Robot Task),
      robots.foldl (fun service rob =>
        { service with
          messages := service.messages ++ [Message.new service.nextId robot rob task]
          nextId := service.nextId + 1 }) current =
        { current with
          messages := current.messages ++ copies robot task robots current.nextId
          nextId := current.nextId + robots.length } := by
    intro robots
    induction robots with
    | nil => simp [copies]
    | cons rob rest ih =>
        intro current
        rw [List.foldl_cons, ih]
        simp [copies, add_assoc, add_comm 1]
  exact general service.robots service

end Broadcast

section Correctness

variable [DecidableEq Robot] {log : List (Stamped (Message Robot Task))}
  {service : MessageService Robot Task} {queues : MessageQueues Robot Task}

/-- The service stores, in the order of `log`, the messages that the queues hold. -/
structure Represents (log : List (Stamped (Message Robot Task)))
    (service : MessageService Robot Task) (queues : MessageQueues Robot Task) : Prop where
  robots_eq : service.robots = queues.robots
  nextId_eq : service.nextId = queues.nextId
  messages_eq : service.messages = log.map (Stamped.aged queues.mail.clock)
  boxes_eq : ∀ robot, queues.mail.box robot = queueOf (fun element => element.content.to_) log robot
  live : ∀ element ∈ log, element.sentAt ≤ queues.mail.clock ∧
    queues.mail.clock < element.sentAt + 5
  identities : (log.map fun element => element.content.id).Nodup
  allocated : ∀ element ∈ log, element.content.id < service.nextId

theorem Represents.registerRobot (represents : Represents log service queues) (robot : Robot) :
    Represents log (service.registerRobot robot)
      { queues with robots := queues.robots ++ [robot] } :=
  { represents with
    robots_eq := by simp [MessageService.registerRobot, represents.robots_eq] }

theorem Represents.sendMessage (represents : Represents log service queues) (robot : Robot)
    (task : Task) :
    Represents (log ++ (copies robot task queues.robots queues.nextId).map
        fun msg => ⟨msg, queues.mail.clock⟩)
      (service.sendMessage robot task)
      (MessageQueues.step (.sendMessage robot task) queues).2 := by
  rw [sendMessage_eq, represents.robots_eq, represents.nextId_eq]
  have sentMem : ∀ element ∈ (copies robot task queues.robots queues.nextId).map
      (fun msg => (⟨msg, queues.mail.clock⟩ : Stamped (Message Robot Task))),
      element.sentAt = queues.mail.clock ∧
        element.content ∈ copies robot task queues.robots queues.nextId := by
    intro element elementMem
    rcases List.mem_map.mp elementMem with ⟨msg, msgMem, rfl⟩
    exact ⟨rfl, msgMem⟩
  refine ⟨rfl, rfl, ?_, fun recipient => ?_, ?_, ?_, ?_⟩
  · change _ = List.map (Stamped.aged queues.mail.clock) _
    rw [List.map_append, represents.messages_eq, List.map_map]
    rw [List.map_congr_left (g := id), List.map_id]
    intro msg msgMem
    simp only [Function.comp_apply, Stamped.aged, id_eq]
    rw [add_sub_cancel_left, ← copies_timeToLive robot task msgMem]
  · change queues.mail.box recipient ++ _ = _
    rw [queueOf_append, represents.boxes_eq]
    simp only [queueOf, List.filter_map, List.map_map]
    rfl
  · intro element elementMem
    change _ ≤ queues.mail.clock ∧ queues.mail.clock < _
    rcases List.mem_append.mp elementMem with old | new
    · exact represents.live element old
    · rw [(sentMem element new).1]
      omega
  · rw [List.map_append, List.map_map, List.nodup_append]
    refine ⟨represents.identities, ?_, ?_⟩
    · change ((copies robot task queues.robots queues.nextId).map Message.id).Nodup
      rw [copies_id]
      exact List.nodup_range'
    · intro old oldMem new newMem
      rcases List.mem_map.mp oldMem with ⟨element, elementMem, rfl⟩
      rcases List.mem_map.mp newMem with ⟨msg, msgMem, rfl⟩
      have below := represents.allocated element elementMem
      have above := (copies_bounds msgMem).1
      rw [represents.nextId_eq] at below
      exact (below.trans_le above).ne
  · intro element elementMem
    change _ < queues.nextId + queues.robots.length
    rcases List.mem_append.mp elementMem with old | new
    · have below := represents.allocated element old
      rw [represents.nextId_eq] at below
      omega
    · exact (copies_bounds (sentMem element new).2).2

theorem Represents.getNextMessage (represents : Represents log service queues)
    (robot : Robot) :
    (service.getNextMessage robot).1 =
        (queues.mail.receive robot).1.map (Stamped.aged queues.mail.clock) ∧
      Represents (removeFirst (fun element => element.content.to_) log robot)
        (service.getNextMessage robot).2
        (MessageQueues.step (.getNextMessage robot) queues).2 := by
  have found : service.messages.find? (fun msg => msg.to_ = robot) =
      (log.find? fun element => element.content.to_ = robot).map
        (Stamped.aged queues.mail.clock) := by
    rw [represents.messages_eq, List.find?_map]
    rfl
  have removed : MessageService.remove service.messages
      (service.messages.find? fun msg => msg.to_ = robot) =
        (removeFirst (fun element => element.content.to_) log robot).map
          (Stamped.aged queues.mail.clock) := by
    rw [found, represents.messages_eq]
    cases first : log.find? fun element => element.content.to_ = robot with
    | none =>
        rw [removeFirst, List.eraseP_of_forall_not (List.find?_eq_none.mp first)]
        rfl
    | some element =>
        rw [← eraseP_identity represents.identities first]
        exact List.eraseP_map
  have sublist : (removeFirst (fun element => element.content.to_) log robot).Sublist log :=
    List.eraseP_sublist
  refine ⟨?_, represents.robots_eq, represents.nextId_eq, removed, fun recipient => ?_, ?_, ?_, ?_⟩
  · change service.messages.find? _ = (queues.mail.box robot).head?.map _
    rw [found, represents.boxes_eq, head?_queueOf]
  · change Function.update queues.mail.box robot (queues.mail.box robot).tail recipient = _
    rw [queueOf_removeFirst]
    by_cases same : recipient = robot
    · subst same
      simp [represents.boxes_eq]
    · simp [same, represents.boxes_eq]
  · exact fun element elementMem => represents.live element (sublist.subset elementMem)
  · exact (sublist.map _).nodup represents.identities
  · exact fun element elementMem => represents.allocated element (sublist.subset elementMem)

theorem Represents.process (represents : Represents log service queues) :
    Represents (log.filter fun element => queues.mail.clock + 1 < element.sentAt + 5)
      service.process (MessageQueues.step .process queues).2 := by
  have ticked : service.messages.map Message.process =
      log.map (Stamped.aged (queues.mail.clock + 1)) := by
    rw [represents.messages_eq, List.map_map]
    apply List.map_congr_left
    intro element elementMem
    have live := represents.live element elementMem
    have counted : wrap 8 ((element.sentAt : ℤ) + 5 - queues.mail.clock - 1) =
        (element.sentAt : ℤ) + 5 - (queues.mail.clock + 1 : ℕ) := by
      rw [wrap_of_mem_range (by omega) (by omega)]
      omega
    simp only [Function.comp_apply, Message.process, Stamped.aged, counted]
  have identities : ((service.messages.map Message.process).map Message.id).Nodup := by
    rw [ticked, List.map_map]
    exact represents.identities
  have sublist : (log.filter fun element =>
      queues.mail.clock + 1 < element.sentAt + 5).Sublist log := List.filter_sublist
  refine ⟨represents.robots_eq, represents.nextId_eq, ?_, fun recipient => ?_, ?_, ?_, ?_⟩
  · change List.filter _ (service.messages.map Message.process) = _
    rw [filter_identity identities, ticked, List.filter_map]
    congr 1
    apply List.filter_congr
    intro element elementMem
    have live := represents.live element elementMem
    have positive : ¬(element.sentAt : ℤ) + 5 - (queues.mail.clock + 1 : ℕ) ≤ 0 ↔
        queues.mail.clock + 1 < element.sentAt + 5 := by omega
    simp only [Function.comp_apply, Stamped.aged, ← decide_not]
    exact decide_eq_decide.mpr positive
  · change (queues.mail.box recipient).filter _ = _
    rw [queueOf_filter, represents.boxes_eq]
  · intro element elementMem
    have live := represents.live element (sublist.subset elementMem)
    have later := of_decide_eq_true (List.mem_filter.mp elementMem).2
    exact ⟨live.1.trans (Nat.le_succ _), later⟩
  · exact (sublist.map _).nodup represents.identities
  · exact fun element elementMem => represents.allocated element (sublist.subset elementMem)

theorem represents_step (represents : Represents log service queues)
    (operation : Operation Robot Task) :
    (MessageService.step operation service).1 = (MessageQueues.step operation queues).1 ∧
      ∃ later, Represents later (MessageService.step operation service).2
        (MessageQueues.step operation queues).2 := by
  cases operation with
  | registerRobot robot => exact ⟨rfl, _, represents.registerRobot robot⟩
  | sendMessage robot task => exact ⟨rfl, _, represents.sendMessage robot task⟩
  | getNextMessage robot =>
      rcases represents.getNextMessage robot with ⟨output, later⟩
      exact ⟨congrArg (fun res => [res]) output, _, later⟩
  | process => exact ⟨rfl, _, represents.process⟩

theorem represents_run (represents : Represents log service queues)
    (operations : List (Operation Robot Task)) :
    (MessageService.run operations service).1 = (MessageQueues.run operations queues).1 ∧
      ∃ later, Represents later (MessageService.run operations service).2
        (MessageQueues.run operations queues).2 := by
  induction operations generalizing log service queues with
  | nil => exact ⟨rfl, log, represents⟩
  | cons operation rest ih =>
      rcases represents_step represents operation with ⟨output, next, nextRepresents⟩
      rcases ih nextRepresents with ⟨outputs, later⟩
      refine ⟨?_, later⟩
      rw [MessageService.run, MessageQueues.run, output, outputs]

theorem represents_new :
    Represents [] (MessageService.new : MessageService Robot Task) MessageQueues.new :=
  ⟨rfl, rfl, rfl, fun _ => rfl, by simp, by simp, by simp⟩

end Correctness

section Lifecycle

variable [DecidableEq Robot] {service : MessageService Robot Task}

def deliveries (results : List (Option (Message Robot Task))) : List ℕ :=
  (results.filterMap id).map Message.id

omit [DecidableEq Robot] in
theorem deliveries_append (first second : List (Option (Message Robot Task))) :
    deliveries (first ++ second) = deliveries first ++ deliveries second := by
  simp [deliveries]

def ticks (operations : List (Operation Robot Task)) : ℕ :=
  operations.countP fun operation => operation matches .process

namespace MessageService

def identities (service : MessageService Robot Task) : List ℕ :=
  service.messages.map Message.id

/-- What holds of the stored messages in every reachable state. -/
structure Valid (service : MessageService Robot Task) : Prop where
  nodup : service.identities.Nodup
  allocated : ∀ msg ∈ service.messages, msg.id < service.nextId
  living : ∀ msg ∈ service.messages, 1 ≤ msg.timeToLive ∧ msg.timeToLive ≤ 5

/-- What one operation does to a stored message. -/
structure Passes (operation : Operation Robot Task) (service : MessageService Robot Task)
    (msg : Message Robot Task) : Prop where
  kept : msg.id ∈ (step operation service).2.identities ↔
    msg.id ∉ deliveries (step operation service).1 ∧
      (ticks [operation] : ℤ) < msg.timeToLive
  aged : ∀ later ∈ (step operation service).2.messages, later.id = msg.id →
    later.timeToLive = msg.timeToLive - ticks [operation]

end MessageService

theorem Represents.valid {log : List (Stamped (Message Robot Task))}
    {queues : MessageQueues Robot Task} (represents : Represents log service queues) :
    service.Valid where
  nodup := by
    rw [MessageService.identities, represents.messages_eq, List.map_map]
    exact represents.identities
  allocated msg msgMem := by
    rw [represents.messages_eq] at msgMem
    rcases List.mem_map.mp msgMem with ⟨element, elementMem, rfl⟩
    exact represents.allocated element elementMem
  living msg msgMem := by
    rw [represents.messages_eq] at msgMem
    rcases List.mem_map.mp msgMem with ⟨element, elementMem, rfl⟩
    have live := represents.live element elementMem
    simp only [Stamped.aged]
    omega

namespace MessageService

omit [DecidableEq Robot] in
/-- A stored identity belongs to one message. -/
theorem Valid.eq_of_id (valid : service.Valid) {msg other : Message Robot Task}
    (msgMem : msg ∈ service.messages) (otherMem : other ∈ service.messages)
    (same : other.id = msg.id) : other = msg :=
  List.inj_on_of_nodup_map valid.nodup otherMem msgMem same

omit [DecidableEq Robot] in
theorem Valid.process_timeToLive (valid : service.Valid) {msg : Message Robot Task}
    (msgMem : msg ∈ service.messages) : msg.process.timeToLive = msg.timeToLive - 1 := by
  have living := valid.living msg msgMem
  exact wrap_of_mem_range (by omega) (by omega)

omit [DecidableEq Robot] in
/-- `process` ages all messages and keeps those with time left. -/
theorem Valid.mem_process (valid : service.Valid) {later : Message Robot Task} :
    later ∈ service.process.messages ↔
      ∃ msg ∈ service.messages, 1 < msg.timeToLive ∧ msg.process = later := by
  have identitiesEq : (service.messages.map Message.process).map Message.id =
      service.identities := by
    rw [List.map_map]
    rfl
  change later ∈ List.filter _ (service.messages.map Message.process) ↔ _
  rw [filter_identity (identitiesEq ▸ valid.nodup), List.mem_filter, List.mem_map]
  constructor
  · rintro ⟨⟨msg, msgMem, rfl⟩, alive⟩
    refine ⟨msg, msgMem, ?_, rfl⟩
    rw [valid.process_timeToLive msgMem, ← decide_not, decide_eq_true_eq] at alive
    omega
  · rintro ⟨msg, msgMem, alive, rfl⟩
    refine ⟨⟨msg, msgMem, rfl⟩, ?_⟩
    rw [valid.process_timeToLive msgMem, ← decide_not, decide_eq_true_eq]
    omega

theorem Valid.mem_getNextMessage (valid : service.Valid) (robot : Robot)
    {later : Message Robot Task} :
    later ∈ (service.getNextMessage robot).2.messages ↔
      later ∈ service.messages ∧ later.id ∉ deliveries [(service.getNextMessage robot).1] := by
  change later ∈ remove service.messages (service.messages.find? fun msg => msg.to_ = robot) ↔
    later ∈ service.messages ∧
      later.id ∉ deliveries [service.messages.find? fun msg => msg.to_ = robot]
  cases service.messages.find? fun msg => msg.to_ = robot with
  | none => simp [remove, deliveries]
  | some res =>
      rw [remove, mem_eraseP_identity valid.nodup]
      simp [deliveries]

theorem Valid.passes (valid : service.Valid) (operation : Operation Robot Task)
    {msg : Message Robot Task} (msgMem : msg ∈ service.messages) :
    Passes operation service msg := by
  have living := valid.living msg msgMem
  have timeLeft : ((0 : ℕ) : ℤ) < msg.timeToLive := by omega
  cases operation with
  | registerRobot robot =>
      refine ⟨⟨fun _ => ⟨List.not_mem_nil, timeLeft⟩, fun _ => List.mem_map_of_mem msgMem⟩,
        fun later laterMem same => ?_⟩
      rw [valid.eq_of_id msgMem laterMem same]
      exact (sub_zero _).symm
  | sendMessage robot task =>
      have sent := sendMessage_eq robot task service
      refine ⟨⟨fun _ => ⟨List.not_mem_nil, timeLeft⟩, fun _ => ?_⟩,
        fun later laterMem same => ?_⟩
      · change msg.id ∈ (service.sendMessage robot task).messages.map Message.id
        rw [sent, List.map_append]
        exact List.mem_append_left _ (List.mem_map_of_mem msgMem)
      · change later ∈ (service.sendMessage robot task).messages at laterMem
        rw [sent] at laterMem
        rcases List.mem_append.mp laterMem with old | new
        · rw [valid.eq_of_id msgMem old same]
          exact (sub_zero _).symm
        · have above := (copies_bounds new).1
          have below := valid.allocated msg msgMem
          omega
  | getNextMessage robot =>
      refine ⟨⟨fun stored => ?_, fun kept => ?_⟩, fun later laterMem same => ?_⟩
      · rcases List.mem_map.mp stored with ⟨later, laterMem, same⟩
        rw [← same]
        exact ⟨((valid.mem_getNextMessage robot).mp laterMem).2, timeLeft⟩
      · exact List.mem_map_of_mem ((valid.mem_getNextMessage robot).mpr ⟨msgMem, kept.1⟩)
      · rw [valid.eq_of_id msgMem ((valid.mem_getNextMessage robot).mp laterMem).1 same]
        exact (sub_zero _).symm
  | process =>
      refine ⟨⟨fun stored => ?_, fun kept => ?_⟩, fun later laterMem same => ?_⟩
      · rcases List.mem_map.mp stored with ⟨later, laterMem, same⟩
        rcases valid.mem_process.mp laterMem with ⟨earlier, earlierMem, alive, rfl⟩
        rw [valid.eq_of_id msgMem earlierMem same] at alive
        exact ⟨List.not_mem_nil, alive⟩
      · have alive : 1 < msg.timeToLive := kept.2
        have stored := valid.mem_process.mpr ⟨msg, msgMem, alive, rfl⟩
        exact List.mem_map.mpr ⟨msg.process, stored, rfl⟩
      · rcases valid.mem_process.mp laterMem with ⟨earlier, earlierMem, -, rfl⟩
        have equal := valid.eq_of_id msgMem earlierMem same
        rw [equal, valid.process_timeToLive msgMem]
        rfl

/-- Only stored messages are delivered, and they are gone then. -/
theorem Valid.delivered (valid : service.Valid) {operation : Operation Robot Task} {i : ℕ}
    (isDelivered : i ∈ deliveries (step operation service).1) :
    i ∈ service.identities ∧ i ∉ (step operation service).2.identities := by
  have stored : i ∈ service.identities := by
    cases operation with
    | getNextMessage robot =>
        change i ∈ deliveries [service.messages.find? fun msg => msg.to_ = robot] at isDelivered
        cases found : service.messages.find? fun msg => msg.to_ = robot with
        | none => simp [found, deliveries] at isDelivered
        | some res =>
            have same : i = res.id := by simpa [found, deliveries] using isDelivered
            rw [same]
            exact List.mem_map_of_mem (List.mem_of_find?_eq_some found)
    | registerRobot robot => exact absurd isDelivered List.not_mem_nil
    | sendMessage robot task => exact absurd isDelivered List.not_mem_nil
    | process => exact absurd isDelivered List.not_mem_nil
  refine ⟨stored, fun still => ?_⟩
  rcases List.mem_map.mp stored with ⟨msg, msgMem, rfl⟩
  exact ((valid.passes operation msgMem).kept.mp still).1 isDelivered

/-- A message object that is not stored is stored only if it is new. -/
theorem Valid.appears (valid : service.Valid) (operation : Operation Robot Task) :
    service.nextId ≤ (step operation service).2.nextId ∧
      ∀ i ∈ (step operation service).2.identities,
        i ∈ service.identities ∨ service.nextId ≤ i := by
  cases operation with
  | registerRobot robot => exact ⟨le_rfl, fun i stored => Or.inl stored⟩
  | sendMessage robot task =>
      change _ ≤ (service.sendMessage robot task).nextId ∧
        ∀ i ∈ (service.sendMessage robot task).messages.map Message.id, _
      rw [sendMessage_eq]
      refine ⟨Nat.le_add_right _ _, fun i stored => ?_⟩
      rw [List.map_append] at stored
      rcases List.mem_append.mp stored with old | new
      · exact Or.inl old
      · rcases List.mem_map.mp new with ⟨msg, msgMem, rfl⟩
        exact Or.inr (copies_bounds msgMem).1
  | getNextMessage robot =>
      refine ⟨le_rfl, fun i stored => Or.inl ?_⟩
      rcases List.mem_map.mp stored with ⟨later, laterMem, rfl⟩
      exact List.mem_map_of_mem ((valid.mem_getNextMessage robot).mp laterMem).1
  | process =>
      refine ⟨le_rfl, fun i stored => Or.inl ?_⟩
      rcases List.mem_map.mp stored with ⟨later, laterMem, rfl⟩
      rcases valid.mem_process.mp laterMem with ⟨msg, msgMem, -, rfl⟩
      exact List.mem_map.mpr ⟨msg, msgMem, rfl⟩

end MessageService

section Runs

variable {log : List (Stamped (Message Robot Task))} {queues : MessageQueues Robot Task}

/-- A message that is gone stays gone. -/
theorem Represents.absent_run (represents : Represents log service queues)
    (operations : List (Operation Robot Task)) {i : ℕ} (allocated : i < service.nextId)
    (absent : i ∉ service.identities) :
    i ∉ deliveries (MessageService.run operations service).1 ∧
      i ∉ (MessageService.run operations service).2.identities := by
  induction operations generalizing log service queues with
  | nil => exact ⟨List.not_mem_nil, absent⟩
  | cons operation rest ih =>
      have valid := represents.valid
      have appears := valid.appears operation
      rcases represents_step represents operation with ⟨-, next, nextRepresents⟩
      have nextAbsent : i ∉ (MessageService.step operation service).2.identities := fun stored =>
        (appears.2 i stored).elim absent allocated.not_ge
      rcases ih nextRepresents (allocated.trans_le appears.1) nextAbsent with ⟨later, final⟩
      refine ⟨?_, final⟩
      rw [MessageService.run, deliveries_append, List.mem_append, not_or]
      exact ⟨fun isDelivered => absent (valid.delivered isDelivered).1, later⟩

/-- A stored message stays until it is delivered or its time is over. -/
theorem Represents.lifecycle (represents : Represents log service queues)
    (operations : List (Operation Robot Task)) {msg : Message Robot Task}
    (msgMem : msg ∈ service.messages) :
    msg.id ∈ (MessageService.run operations service).2.identities ↔
      msg.id ∉ deliveries (MessageService.run operations service).1 ∧
        (ticks operations : ℤ) < msg.timeToLive := by
  induction operations generalizing log service queues msg with
  | nil =>
      have living := represents.valid.living msg msgMem
      have stored : msg.id ∈ service.identities := List.mem_map_of_mem msgMem
      exact ⟨fun _ => ⟨List.not_mem_nil, by simpa [ticks] using by omega⟩, fun _ => stored⟩
  | cons operation rest ih =>
      have valid := represents.valid
      have passes := valid.passes operation msgMem
      have counted : ticks (operation :: rest) = ticks [operation] + ticks rest := by
        simp only [ticks, List.countP_cons, List.countP_nil]
        omega
      rcases represents_step represents operation with ⟨-, next, nextRepresents⟩
      rw [MessageService.run, deliveries_append, List.mem_append, not_or, counted]
      by_cases kept : msg.id ∈ (MessageService.step operation service).2.identities
      · rcases List.mem_map.mp kept with ⟨later, laterMem, same⟩
        have aged := passes.aged later laterMem same
        have rest := ih nextRepresents laterMem
        rw [same, aged] at rest
        rw [rest]
        have notNow := (passes.kept.mp kept).1
        push_cast
        constructor
        · rintro ⟨notLater, alive⟩
          exact ⟨⟨notNow, notLater⟩, by omega⟩
        · rintro ⟨⟨-, notLater⟩, alive⟩
          exact ⟨notLater, by omega⟩
      · have allocated := (valid.allocated msg msgMem).trans_le (valid.appears operation).1
        have gone := nextRepresents.absent_run rest allocated kept
        refine ⟨fun stored => absurd stored gone.2, fun ⟨⟨notNow, _⟩, alive⟩ => ?_⟩
        exact absurd (passes.kept.mpr ⟨notNow, by push_cast at alive; omega⟩) kept

theorem Represents.deliveries_nodup (represents : Represents log service queues)
    (operations : List (Operation Robot Task)) :
    (deliveries (MessageService.run operations service).1).Nodup := by
  induction operations generalizing log service queues with
  | nil => exact List.nodup_nil
  | cons operation rest ih =>
      have valid := represents.valid
      rcases represents_step represents operation with ⟨-, next, nextRepresents⟩
      rw [MessageService.run, deliveries_append, List.nodup_append]
      refine ⟨?_, ih nextRepresents, fun i now j later equal => ?_⟩
      · cases operation with
        | getNextMessage robot =>
            change (deliveries [service.messages.find? fun msg => msg.to_ = robot]).Nodup
            cases service.messages.find? fun msg => msg.to_ = robot <;> simp [deliveries]
        | registerRobot robot => exact List.nodup_nil
        | sendMessage robot task => exact List.nodup_nil
        | process => exact List.nodup_nil
      · subst equal
        rcases valid.delivered now with ⟨stored, gone⟩
        rcases List.mem_map.mp stored with ⟨msg, msgMem, rfl⟩
        have allocated := (valid.allocated msg msgMem).trans_le (valid.appears operation).1
        exact (nextRepresents.absent_run rest allocated gone).1 later

theorem Represents.queue_eq (represents : Represents log service queues) (robot : Robot) :
    queueOf Message.to_ service.messages robot =
      (queues.mail.box robot).map (Stamped.aged queues.mail.clock) := by
  rw [represents.messages_eq, represents.boxes_eq, queueOf, List.filter_map]
  rfl

/-- The service is an independent queue for each robot: the results and the stored messages
are those of the specification, no message is delivered twice, and a message that is sent
stays stored until it is delivered or processed for the fifth time. -/
theorem messageService_queues (operations : List (Operation Robot Task)) :
    let results := (MessageService.run operations MessageService.new).1
    let service := (MessageService.run operations MessageService.new).2
    let queues := (MessageQueues.run operations MessageQueues.new).2
    results = (MessageQueues.run operations MessageQueues.new).1 ∧
      (∀ robot, queueOf Message.to_ service.messages robot =
        (queues.mail.box robot).map (Stamped.aged queues.mail.clock)) ∧
      (deliveries results).Nodup ∧
      (∀ msg ∈ service.messages, 1 ≤ msg.timeToLive ∧ msg.timeToLive ≤ 5) ∧
      ∀ robot task, ∃ sent,
        (service.sendMessage robot task).messages = service.messages ++ sent ∧
        sent.map Message.to_ = service.robots ∧
        ∀ msg ∈ sent, ∀ later : List (Operation Robot Task),
          (msg.id ∈ (MessageService.run later (service.sendMessage robot task)).2.identities ↔
            msg.id ∉ deliveries
                (MessageService.run later (service.sendMessage robot task)).1 ∧
              ticks later < 5) := by
  intro results service queues
  rcases represents_run represents_new operations with ⟨outputs, log, represents⟩
  refine ⟨outputs, represents.queue_eq, represents_new.deliveries_nodup operations,
    represents.valid.living, fun robot task => ?_⟩
  refine ⟨copies robot task service.robots service.nextId, ?_, copies_to _ _ _ _, ?_⟩
  · rw [sendMessage_eq]
  · intro msg msgMem later
    have stored : msg ∈ (service.sendMessage robot task).messages := by
      rw [sendMessage_eq]
      exact List.mem_append_right _ msgMem
    have lifecycle := (represents.sendMessage robot task).lifecycle later stored
    rw [copies_timeToLive robot task msgMem] at lifecycle
    exact_mod_cast lifecycle

/-- Two robots read one broadcast; the copy of the third expires. -/
example :
    ((MessageService.run [.registerRobot 1, .registerRobot 2, .registerRobot 3,
      .sendMessage 1 "mow", .process, .getNextMessage 2, .getNextMessage 2, .process, .process,
      .process, .getNextMessage 1, .process, .getNextMessage 3] MessageService.new).1.map
        fun res => res.map Message.timeToLive) = [some 4, none, some 1, none] := by
  decide

end Runs

end Lifecycle

end MrsOptimization
