import MrsOptimization.Player.RobotMessages

/-!
# From a driver to the program that controls a robot

Drivers push messages onto the queue of a client, the server writes them whenever
it polls, and the client reads them one by one. In whatever order this happens,
the client is in the state to which the messages lead that it has read, and these
are the first of the messages that the queue has kept.
-/

namespace MrsOptimization

namespace PlayerCore.MessageQueue

variable {α : Type} {synch : Bool → α} {queue : MessageQueue α}

/-- A queue that is neither filtered nor in pull mode, and ignores no message. -/
structure Pushing (queue : MessageQueue α) : Prop where
  unfiltered : queue.filter = none
  push : queue.pull = false
  heeds : ∀ rule ∈ queue.replaceRules, rule.replace ≠ MessageReplaceRule.ignore

theorem Pushing.not_ignored (pushing : queue.Pushing) (hdr : Signature) :
    queue.checkReplace hdr ≠ MessageReplaceRule.ignore := by
  rw [checkReplace]
  split
  · next rule found => exact pushing.heeds rule (List.mem_of_find?_eq_some found)
  · split
    · decide
    · split
      · split <;> decide
      · decide

/-- What is kept is what has been taken out earlier and what is still there. -/
def Keeps (queue : MessageQueue α) (earlier published : List (Message α)) : Prop :=
  KeepsNewest Message.header (queue.dropCount = false) (earlier ++ queue.messages) published

theorem Pushing.after_push (pushing : queue.Pushing) (msg : Message α) :
    (queue.push msg).Pushing := by
  rcases queue.push_cases msg with
    ⟨-, result⟩ | ⟨-, result⟩ | ⟨-, -, result⟩ | ⟨-, -, -, result⟩ <;> rw [result]
  all_goals exact ⟨pushing.unfiltered, pushing.push, pushing.heeds⟩

/-- A queue keeps the newest messages, unless it drops one and remembers that. -/
theorem Pushing.keeps_push (pushing : queue.Pushing) {earlier published : List (Message α)}
    (keeps : queue.Keeps earlier published) (msg : Message α) :
    (queue.push msg).Keeps earlier (published ++ [msg]) := by
  rcases queue.push_cases msg with
    ⟨ignored, -⟩ | ⟨-, result⟩ | ⟨-, -, result⟩ | ⟨-, -, -, result⟩
  · exact absurd ignored (pushing.not_ignored msg.header)
  · rw [result]
    exact keeps.refuse (by simp) msg
  · rw [result]
    exact keeps.push msg (Or.inr rfl)
  · rw [result]
    exact keeps.push msg (Or.inl rfl)

/-- Popping takes messages away from the front. -/
theorem Pushing.pops (pushing : queue.Pushing) (n : ℕ) :
    (queue.after synch (pops n)).Pushing ∧
      (queue.after synch (pops n)).dropCount = queue.dropCount ∧
      queue.popped synch (pops n) ++ (queue.after synch (pops n)).messages = queue.messages := by
  induction n generalizing queue with
  | zero => exact ⟨pushing, rfl, rfl⟩
  | succ n ih =>
      rcases @pops_succ _ synch queue n with ⟨popped, after⟩
      rw [popped, after]
      cases elements : queue.messages with
      | nil =>
          have idle : queue.pop synch = (none, queue) :=
            pop_of_unselected (by simp [elements]) (by simp [pushing.push])
          rcases ih pushing with ⟨still, dropCount, split⟩
          rw [idle]
          exact ⟨still, dropCount, by rw [← elements]; exact split⟩
      | cons msg rest =>
          have isOpen : queue.Open := ⟨pushing.unfiltered, Or.inl pushing.push⟩
          rw [pop_head elements (isOpen.selects msg)]
          have pushing' : MessageQueue.Pushing { queue with
              messages := rest
              dataDelivered := queue.dataDelivered ||
                queue.dataRequested && msg.header.type == MsgType.data } :=
            ⟨pushing.unfiltered, pushing.push, pushing.heeds⟩
          rcases ih pushing' with ⟨still, dropCount, split⟩
          exact ⟨still, dropCount, congrArg (msg :: ·) split⟩

end PlayerCore.MessageQueue

namespace PlayerClient

open TcpServer PlayerCore

section Devices

variable {ι : Type} {f : ι → ι} {addr addr' : PlayerDevAddr} {devices : List (PlayerDevice ι)}

theorem mem_updateDevice {device : PlayerDevice ι}
    (member : device ∈ updateDevice addr f devices) :
    ∃ old ∈ devices, device.deviceAddress = old.deviceAddress ∧
      (device.interface = old.interface ∨
        old.deviceAddress = addr ∧ device.interface = f old.interface) := by
  induction devices with
  | nil => cases member
  | cons first rest ih =>
      rw [updateDevice] at member
      split at member
      · next same =>
          rcases List.mem_cons.mp member with rfl | later
          · exact ⟨first, List.mem_cons_self .., rfl, Or.inr ⟨same, rfl⟩⟩
          · exact ⟨device, List.mem_cons_of_mem _ later, rfl, Or.inl rfl⟩
      · rcases List.mem_cons.mp member with rfl | later
        · exact ⟨device, List.mem_cons_self .., rfl, Or.inl rfl⟩
        · rcases ih later with ⟨old, isOld, result⟩
          exact ⟨old, List.mem_cons_of_mem _ isOld, result⟩

/-- The first device with the address is the one that changes. -/
theorem find?_updateDevice :
    (updateDevice addr f devices).find? (·.deviceAddress = addr') =
      (devices.find? (·.deviceAddress = addr')).map fun device =>
        if addr = addr' then { device with interface := f device.interface } else device := by
  induction devices with
  | nil => rfl
  | cons first rest ih =>
      rw [updateDevice]
      by_cases wanted : first.deviceAddress = addr'
      · split
        · next same => simp [wanted, ← same]
        · next other =>
            have different : addr ≠ addr' := fun equal => other (wanted.trans equal.symm)
            simp [wanted, different]
      · split
        · next same =>
            have different : addr ≠ addr' := fun equal => wanted (same.trans equal)
            simp [wanted, different]
        · next other => simpa [wanted] using ih

end Devices

variable {ι : Type}

/-- The data of a structure that the getters of a device return, if there are some. -/
def shows (client : PlayerClient (RobotInterface ι)) (addr : PlayerDevAddr)
    (name : RobotStructure) : Option RobotData :=
  (client.deviceList.find? (·.deviceAddress = addr)).bind fun device => device.interface.shows name

/-- A message that the client understands. -/
def Receives (client : PlayerClient (RobotInterface ι))
    (msg : PlayerCore.Message (Content (Data RobotData))) : Prop :=
  ∃ data, Carries msg data ∧ Heard msg.header data ∧ client.Has msg.header.addr

/-- The data in a message. -/
def dataOf (msg : PlayerCore.Message (Content (Data RobotData))) : Option RobotData :=
  msg.content.payload.bind Data.forDriver

variable {client : PlayerClient (RobotInterface ι)}
variable {msg : PlayerCore.Message (Content (Data RobotData))} {data : RobotData}

theorem Carries.hear_eq (carries : Carries msg data) :
    hear msg client = { client with
      deviceList := updateDevice msg.header.addr
        (RobotInterface.deliver msg.header.type msg.content.timestamp data)
        client.deviceList } := by
  rw [hear, carries.payload]

theorem Carries.dataOf_eq (carries : Carries msg data) : dataOf msg = some data := by
  rw [dataOf, carries.payload]
  rfl

theorem matched_hear (carries : Carries msg data) (matched : client.Matched) :
    (hear msg client).Matched := by
  rw [carries.hear_eq]
  intro device member
  rcases mem_updateDevice member with ⟨old, isOld, addr, same | ⟨-, delivered⟩⟩
  · rw [same, addr]
    exact matched old isOld
  · rw [delivered, addr]
    exact RobotInterface.isFor_deliver _ _ _ (matched old isOld)

theorem has_iff {addr : PlayerDevAddr} :
    client.Has addr ↔ (client.deviceList.find? (·.deviceAddress = addr)).isSome := by
  simp [Has, List.find?_isSome]

theorem has_hear (carries : Carries msg data) {addr : PlayerDevAddr} (has : client.Has addr) :
    (hear msg client).Has addr := by
  rw [has_iff] at has ⊢
  rw [carries.hear_eq, find?_updateDevice, Option.isSome_map]
  exact has

/-- The data of a message become what the getters return, and nothing else changes. -/
theorem shows_hear (carries : Carries msg data) (matched : client.Matched)
    (has : client.Has msg.header.addr) (heard : Heard msg.header data) (addr : PlayerDevAddr)
    (name : RobotStructure) :
    (hear msg client).shows addr name =
      if msg.header.addr = addr ∧ data.name = name then some data else client.shows addr name := by
  rw [shows, shows, carries.hear_eq, find?_updateDevice]
  by_cases own : msg.header.addr = addr
  · subst own
    rcases Option.isSome_iff_exists.mp (has_iff.mp has) with ⟨device, found⟩
    have same : device.deviceAddress = msg.header.addr := by simpa using List.find?_some found
    have own := carries.own matched device (List.mem_of_find?_eq_some found) same
    rw [found]
    simpa using RobotInterface.shows_deliver own heard.isRead msg.header.type
      msg.content.timestamp name
  · simp [own]

end PlayerClient

/-- The bytes on their way to the client, behind what the server has not sent yet. -/
structure Telemetry (ι : Type) where
  wire : List Byte
  writer : TcpServer.Writer (TcpServer.Data RobotData)
  client : PlayerClient (RobotInterface ι)

/-- A driver publishes, the server polls and the network accepts some bytes, or the client reads. -/
inductive TelemetryEvent
  | publish (msg : PlayerCore.Message (TcpServer.Content (TcpServer.Data RobotData)))
  | write (rooms : List ℕ)
  | receive

namespace Telemetry

open TcpServer PlayerCore PlayerClient

variable {ι : Type}

/-- A client waits as long as its message is not complete. -/
def step (others : Interfaces ι) (synch : Bool → Content (Data RobotData))
    (event : TelemetryEvent) (state : Telemetry ι) : Option (Telemetry ι) :=
  match event with
  | .publish msg =>
    some { state with writer := { state.writer with queue := state.writer.queue.push msg } }
  | .write rooms =>
    (writeClient (packTable robotPacks) synch rooms state.writer).map fun result =>
      { state with wire := state.wire ++ result.1, writer := result.2 }
  | .receive =>
    match PlayerClient.read (RobotInterface.interfaces others) state.client state.wire with
    | .ok result wire => some { state with wire := wire, client := result.1 }
    | .error _ _ => none

/-- A call of `read`. -/
def isReceive : TelemetryEvent → Bool
  | .receive => true
  | _ => false

/-- The messages that drivers publish. -/
def published (events : List TelemetryEvent) :
    List (PlayerCore.Message (Content (Data RobotData))) :=
  events.filterMap fun
    | .publish msg => some msg
    | _ => none

/-- Where a client is that has received some messages, while others are on their way to it. -/
structure Follows (start : PlayerClient (RobotInterface ι))
    (all received pending : List (PlayerCore.Message (Content (Data RobotData))))
    (state : Telemetry ι) : Prop where
  queue : state.writer.queue.Pushing
  keeps : state.writer.queue.Keeps (received ++ pending) all
  wire : state.wire ++ state.writer.writebuffer = wireOf (packTable robotPacks) pending
  client : state.client = received.foldl (fun client msg => hear msg client) start

variable {others : Interfaces ι} {synch : Bool → Content (Data RobotData)}
variable {start : PlayerClient (RobotInterface ι)}
variable {all received pending : List (PlayerCore.Message (Content (Data RobotData)))}
variable {state next final : Telemetry ι}

/-- A client that has heard some messages understands what it has understood before. -/
theorem matched_fold (matched : start.Matched) (receives : ∀ msg ∈ received, start.Receives msg) :
    (received.foldl (fun client msg => hear msg client) start).Matched ∧
      ∀ addr, start.Has addr →
        (received.foldl (fun client msg => hear msg client) start).Has addr := by
  induction received using List.reverseRecOn with
  | nil => exact ⟨matched, fun _ has => has⟩
  | append_singleton earlier msg ih =>
      rw [List.forall_mem_append] at receives
      rcases receives.2 msg (List.mem_singleton_self msg) with ⟨data, carries, -, -⟩
      rcases ih receives.1 with ⟨matched', has'⟩
      rw [List.foldl_append]
      exact ⟨matched_hear carries matched', fun addr has => has_hear carries (has' addr has)⟩

theorem Follows.publish (follows : Follows start all received pending state)
    (msg : PlayerCore.Message (Content (Data RobotData)))
    (steps : step others synch (.publish msg) state = some next) :
    Follows start (all ++ [msg]) received pending next := by
  cases steps
  exact ⟨follows.queue.after_push msg, follows.queue.keeps_push follows.keeps msg, follows.wire,
    follows.client⟩

theorem Follows.write (follows : Follows start all received pending state) {rooms : List ℕ}
    (steps : step others synch (.write rooms) state = some next) :
    ∃ written, Follows start all received (pending ++ written) next := by
  rcases Option.map_eq_some_iff.mp steps with ⟨⟨sent, writer⟩, writes, same⟩
  cases same
  rcases writeClient_pops writes with ⟨n, queue, buffer⟩
  rcases @MessageQueue.Pushing.pops _ synch _ follows.queue n with ⟨pushing, dropCount, split⟩
  refine ⟨state.writer.queue.popped synch (MessageQueue.pops n), ?_, ?_, ?_, follows.client⟩
  · rw [queue]
    exact pushing
  · rw [MessageQueue.Keeps, queue, dropCount, ← List.append_assoc, List.append_assoc, split]
    exact follows.keeps
  · rw [wireOf_append, ← follows.wire, List.append_assoc, List.append_assoc, buffer]

/-- The client reads the first message that is pending, whatever comes behind it. -/
theorem Follows.reads (others : Interfaces ι)
    {msg : PlayerCore.Message (Content (Data RobotData))}
    (follows : Follows start all received (msg :: pending) state) (matched : start.Matched)
    (receives : ∀ msg ∈ all, start.Receives msg) :
    ∃ header, Reads (PlayerClient.read (RobotInterface.interfaces others) state.client)
      (encode (packTable robotPacks) msg).wire (hear msg state.client, header) := by
  have known : ∀ told ∈ received ++ msg :: pending, start.Receives told := by
    intro told member
    exact receives told (follows.keeps.sublist.subset (List.mem_append_left _ member))
  rw [List.forall_mem_append, List.forall_mem_cons] at known
  rcases known.2.1 with ⟨data, carries, heard, has⟩
  rcases matched_fold matched known.1 with ⟨matched', has'⟩
  rw [← follows.client] at matched' has'
  exact ⟨_, reads_heard carries matched' (has' _ has) heard⟩

/-- A call of `read` takes the first message that is pending. -/
theorem Follows.receive (grammar : InterfaceGrammar others)
    (follows : Follows start all received pending state)
    (matched : start.Matched) (receives : ∀ msg ∈ all, start.Receives msg)
    (steps : step others synch .receive state = some next) :
    ∃ msg rest, pending = msg :: rest ∧ Follows start all (received ++ [msg]) rest next := by
  cases run : PlayerClient.read (RobotInterface.interfaces others) state.client state.wire with
  | error exception left => simp [step, run] at steps
  | ok result wire =>
      have same : { state with wire := wire, client := result.1 } = next := by
        simpa [step, run] using steps
      subst same
      -- What has not been sent yet would not change what the client reads.
      have whole := (recognizes_read (RobotInterface.grammar grammar) state.client).extend run
        state.writer.writebuffer
      rw [follows.wire] at whole
      cases pending with
      | nil =>
          have nothing : PlayerClient.read (RobotInterface.interfaces others) state.client [] =
              .error .endOfStream [] := rfl
          cases nothing.symm.trans whole
      | cons msg rest =>
          rcases follows.reads others matched receives with ⟨header, reads⟩
          have split : wireOf (packTable robotPacks) (msg :: rest) =
              (encode (packTable robotPacks) msg).wire ++ wireOf (packTable robotPacks) rest := rfl
          rw [split, reads (wireOf (packTable robotPacks) rest)] at whole
          injection whole with value left
          refine ⟨msg, rest, rfl, follows.queue, ?_, left.symm, ?_⟩
          · rw [List.append_assoc]
            exact follows.keeps
          · rw [← value, List.foldl_append, ← follows.client]
            rfl

/-- Along a run. -/
theorem Follows.run (grammar : InterfaceGrammar others) {events : List TelemetryEvent}
    (matched : start.Matched)
    (follows : Follows start all received pending state)
    (receives : ∀ msg ∈ all ++ published events, start.Receives msg)
    (run : runEvents (step others synch) events state = some final) :
    ∃ received' pending', received'.length = events.countP isReceive ∧
      Follows start (all ++ published events) (received ++ received') pending' final := by
  induction events generalizing all received pending state with
  | nil =>
      cases run
      refine ⟨[], pending, rfl, ?_⟩
      simpa [published] using follows
  | cons event rest ih =>
      rcases Option.bind_eq_some_iff.mp run with ⟨next, steps, later⟩
      cases event with
      | publish msg =>
          have split : all ++ published (.publish msg :: rest) =
              all ++ [msg] ++ published rest := by simp [published]
          rw [split] at receives ⊢
          exact ih (follows.publish msg steps) receives later
      | write rooms =>
          rcases follows.write steps with ⟨written, follows'⟩
          exact ih follows' receives later
      | receive =>
          have now : ∀ msg ∈ all, start.Receives msg := fun msg member =>
            receives msg (List.mem_append_left _ member)
          rcases follows.receive grammar matched now steps with ⟨msg, left, -, follows'⟩
          rcases ih follows' receives later with ⟨received', pending', count, result⟩
          rw [List.append_assoc] at result
          refine ⟨msg :: received', pending', ?_, result⟩
          rw [List.length_cons, count, List.countP_cons_of_pos rfl]

/-- Nothing has been published yet. -/
structure Starts (state : Telemetry ι) : Prop where
  queue : state.writer.queue.Pushing
  empty : state.writer.queue.messages = []
  buffer : state.writer.writebuffer = []
  wire : state.wire = []
  matched : state.client.Matched

theorem Starts.follows (starts : Starts state) : Follows state.client [] [] [] state where
  queue := starts.queue
  keeps := by
    rw [MessageQueue.Keeps, starts.empty]
    exact .refl []
  wire := by rw [starts.wire, starts.buffer]; rfl
  client := rfl

def noGrammar : InterfaceGrammar noOthers where
  data interface := interface.elim
  response interface := interface.elim
  recognizes_data interface := interface.elim
  recognizes_response interface := interface.elim

/-- A client with a fiducial finder, to which nothing has been published. -/
def idle : Telemetry Empty :=
  ⟨[], ⟨.new false 8, []⟩, fiducialClient⟩

theorem starts_idle : Starts idle where
  queue := ⟨rfl, rfl, by simp [idle, MessageQueue.new]⟩
  empty := rfl
  buffer := rfl
  wire := rfl
  matched := by
    intro device member
    rw [List.mem_singleton.mp member]
    rfl

theorem receives_idle : ∀ msg ∈ published [.publish fiducialAnswer, .write [100], .receive],
    idle.client.Receives msg := by
  intro msg member
  rw [List.mem_singleton.mp member]
  refine ⟨.fiducialId 3, ⟨rfl, by decide, by simp [RobotData.packed, maxMessageSize]⟩, ?_, ?_⟩
  · exact ⟨by decide, by decide, trivial⟩
  · exact ⟨_, List.mem_singleton_self _, rfl⟩

theorem run_idle : runEvents (step noOthers fun _ => ⟨0, 0, none⟩)
    [.publish fiducialAnswer, .write [100], .receive] idle =
      some { idle with client := hear fiducialAnswer fiducialClient } := rfl

/-- Whatever happens in whatever order, each call of `read` takes one message that was published,
none of them overtakes another one, and what the client knows is what these messages say. -/
theorem telemetry_arrives (grammar : InterfaceGrammar others) {events : List TelemetryEvent}
    (starts : Starts state)
    (receives : ∀ msg ∈ published events, state.client.Receives msg)
    (run : runEvents (step others synch) events state = some final) :
    ∃ received pending, received.length = events.countP isReceive ∧
      (received ++ pending ++ final.writer.queue.messages).Sublist (published events) ∧
      final.wire ++ final.writer.writebuffer = wireOf (packTable robotPacks) pending ∧
      final.client = received.foldl (fun client msg => hear msg client) state.client := by
  rcases starts.follows.run grammar starts.matched receives run with
    ⟨received, pending, count, follows⟩
  exact ⟨received, pending, count, follows.keeps.sublist, follows.wire, follows.client⟩

theorem telemetry_arrives_id :
    ∃ received pending, received.length = 1 ∧
      (received ++ pending ++ []).Sublist [fiducialAnswer] ∧
      [] ++ [] = wireOf (packTable robotPacks) pending ∧
      hear fiducialAnswer fiducialClient =
        received.foldl (fun client msg => hear msg client) fiducialClient :=
  telemetry_arrives noGrammar starts_idle receives_idle run_idle

section Newest

/-- The messages of a device with a structure. -/
def concerns (addr : PlayerDevAddr) (name : RobotStructure) (hdr : Signature) : Bool :=
  hdr.addr = addr ∧ robotStructure hdr = some name

/-- The last message of a device with a structure says what the getters return. -/
theorem shows_fold (matched : start.Matched) (receives : ∀ msg ∈ received, start.Receives msg)
    (addr : PlayerDevAddr) (name : RobotStructure) :
    (received.foldl (fun client msg => hear msg client) start).shows addr name =
      ((received.filter fun msg => concerns addr name msg.header).getLast?.bind dataOf).or
        (start.shows addr name) := by
  induction received using List.reverseRecOn with
  | nil => rfl
  | append_singleton earlier msg ih =>
      rw [List.forall_mem_append] at receives
      rcases receives.2 msg (List.mem_singleton_self msg) with ⟨data, carries, heard, has⟩
      rcases matched_fold matched receives.1 with ⟨matched', has'⟩
      have last := shows_hear carries matched' (has' _ has) heard addr name
      rw [List.foldl_append, List.filter_append]
      by_cases own : msg.header.addr = addr ∧ data.name = name
      · rw [if_pos own] at last
        have concerned : concerns addr name msg.header = true := by
          simp [concerns, own.1, carries.row, own.2]
        simpa [concerned, carries.dataOf_eq] using last
      · rw [if_neg own, ih receives.1] at last
        have unconcerned : concerns addr name msg.header = false := by
          simpa [concerns, carries.row] using own
        simpa [unconcerned] using last

theorem wireOf_ne_nil (receives : ∀ msg ∈ pending, start.Receives msg) (some_ : pending ≠ []) :
    wireOf (packTable robotPacks) pending ≠ [] := by
  cases pending with
  | nil => exact absurd rfl some_
  | cons msg rest =>
      rcases receives msg (List.mem_cons_self ..) with ⟨data, carries, -, -⟩
      intro nothing
      have wire : (encode (packTable robotPacks) msg).wire = [] :=
        (List.append_eq_nil_iff.mp nothing).1
      rw [carries.encode] at wire
      exact data.packed_ne_nil (List.append_eq_nil_iff.mp wire).2

/-- Nothing is on its way any more. -/
structure Quiet (state : Telemetry ι) : Prop where
  empty : state.writer.queue.messages = []
  buffer : state.writer.writebuffer = []
  wire : state.wire = []

/-- Once everything has arrived, the getters return the newest data that were published, unless
the queue has dropped messages. -/
theorem telemetry_newest (grammar : InterfaceGrammar others) {events : List TelemetryEvent}
    (starts : Starts state)
    (receives : ∀ msg ∈ published events, state.client.Receives msg)
    (run : runEvents (step others synch) events state = some final) (quiet : Quiet final)
    (complete : final.writer.queue.dropCount = false) (addr : PlayerDevAddr)
    (name : RobotStructure) :
    final.client.shows addr name =
      (((published events).filter fun msg => concerns addr name msg.header).getLast?.bind
        dataOf).or (state.client.shows addr name) := by
  rcases starts.follows.run grammar starts.matched receives run with ⟨received, pending, -, follows⟩
  have known : ∀ msg ∈ received ++ pending, state.client.Receives msg := by
    intro msg member
    exact receives msg (follows.keeps.sublist.subset (List.mem_append_left _ member))
  rw [List.forall_mem_append] at known
  have arrived : pending = [] := by
    by_contra some_
    apply wireOf_ne_nil known.2 some_
    rw [← follows.wire, quiet.wire, quiet.buffer]
    rfl
  have newest := follows.keeps.newest complete (concerns addr name)
  rw [quiet.empty, arrived, List.append_nil, List.append_nil] at newest
  rw [follows.client, List.nil_append, shows_fold starts.matched known.1]
  rw [List.nil_append] at newest
  rw [newest]
  rfl

theorem telemetry_newest_id :
    (hear fiducialAnswer fiducialClient).shows ⟨0, 6665, 10, 0⟩ .fiducialId =
      some (.fiducialId 3) :=
  telemetry_newest noGrammar starts_idle receives_idle run_idle ⟨rfl, rfl, rfl⟩ rfl ⟨0, 6665, 10, 0⟩
    .fiducialId

end Newest

section Draining

variable {writer : Writer (Data RobotData)}

/-- Filling the buffer loses nothing and succeeds, and an empty buffer stays behind an empty queue
only. -/
theorem exists_fill (synch : Bool → Content (Data RobotData)) (pushing : writer.queue.Pushing)
    (receives : ∀ msg ∈ writer.queue.messages, start.Receives msg) :
    ∃ filled, TcpServer.fill (packTable robotPacks) synch writer = some filled ∧
      filled.queue.Pushing ∧
      (∀ msg ∈ filled.queue.messages, start.Receives msg) ∧
      (filled.writebuffer = [] → filled.queue.messages = []) ∧
      filled.writebuffer ++ wireOf (packTable robotPacks) filled.queue.messages =
        writer.writebuffer ++ wireOf (packTable robotPacks) writer.queue.messages := by
  rw [TcpServer.fill]
  by_cases full : writer.writebuffer ≠ []
  · rw [if_pos full]
    exact ⟨writer, rfl, pushing, receives, fun nothing => absurd nothing full, rfl⟩
  rw [if_neg full]
  cases elements : writer.queue.messages with
  | nil =>
      have idle : writer.queue.pop synch = (none, writer.queue) :=
        MessageQueue.pop_of_unselected (by simp [elements]) (by simp [pushing.push])
      rw [idle]
      refine ⟨_, rfl, pushing, ?_, fun _ => elements, ?_⟩
      · simp [elements]
      · rw [elements, not_not.mp full]
  | cons msg rest =>
      have isOpen : writer.queue.Open := ⟨pushing.unfiltered, Or.inl pushing.push⟩
      rw [elements, List.forall_mem_cons] at receives
      rcases receives.1 with ⟨data, carries, -, -⟩
      rw [MessageQueue.pop_head elements (isOpen.selects msg)]
      simp only [carries.encode]
      refine ⟨_, rfl, ⟨pushing.unfiltered, pushing.push, pushing.heeds⟩, receives.2, ?_, ?_⟩
      · intro nothing
        exact absurd (List.append_eq_nil_iff.mp nothing).2 data.packed_ne_nil
      · have split : wireOf (packTable robotPacks) (msg :: rest) =
            (encode (packTable robotPacks) msg).wire ++ wireOf (packTable robotPacks) rest := rfl
        rw [split, carries.encode, not_not.mp full]
        rfl

/-- A poll that finds room often enough writes everything. -/
theorem exists_writes (synch : Bool → Content (Data RobotData)) (n : ℕ)
    (pushing : writer.queue.Pushing)
    (receives : ∀ msg ∈ writer.queue.messages, start.Receives msg)
    (size : (writer.writebuffer ++
      wireOf (packTable robotPacks) writer.queue.messages).length ≤ n) :
    ∃ rooms result, writeClient (packTable robotPacks) synch rooms writer = some result ∧
      result.2.writebuffer = [] ∧ result.2.queue.messages = [] := by
  induction n generalizing writer with
  | zero =>
      rcases exists_fill synch pushing receives with ⟨filled, fills, -, -, stays, same⟩
      have none_ : filled.writebuffer = [] := by
        rw [← same] at size
        exact (List.append_eq_nil_iff.mp (List.length_eq_zero_iff.mp (Nat.le_zero.mp size))).1
      exact ⟨[], ([], filled), by rw [writeClient, fills]; rfl, none_, stays none_⟩
  | succ n ih =>
      rcases exists_fill synch pushing receives with
        ⟨filled, fills, pushing', receives', stays, same⟩
      by_cases none_ : filled.writebuffer = []
      · exact ⟨[], ([], filled), by rw [writeClient, fills]; rfl, none_, stays none_⟩
      · have some_ := List.length_pos_iff.mpr none_
        have one : min (0 + 1) (min filled.writebuffer.length writeBufferSize) = 1 := by
          rw [writeBufferSize]
          omega
        rw [← same, List.length_append] at size
        have size' : (filled.writebuffer.drop 1 ++
            wireOf (packTable robotPacks) filled.queue.messages).length ≤ n := by
          rw [List.length_append, List.length_drop]
          omega
        rcases @ih ⟨filled.queue, filled.writebuffer.drop 1⟩ pushing' receives' size' with
          ⟨rooms, result, writes, buffer, empty⟩
        refine ⟨0 :: rooms, (filled.writebuffer.take 1 ++ result.1, result.2), ?_, buffer, empty⟩
        simp only [writeClient, fills, Option.bind_some, if_neg none_, one, writes,
          Option.map_some]

/-- Calls of `read` take everything away that has been written. -/
theorem exists_receives (grammar : InterfaceGrammar others)
    (synch : Bool → Content (Data RobotData)) (matched : start.Matched)
    (receives : ∀ msg ∈ all, start.Receives msg)
    (follows : Follows start all received pending state) (empty : state.writer.queue.messages = [])
    (buffer : state.writer.writebuffer = []) :
    ∃ quiet, runEvents (step others synch) (List.replicate pending.length .receive) state =
      some quiet ∧ Quiet quiet := by
  induction pending generalizing received state with
  | nil =>
      have wire := follows.wire
      rw [buffer, List.append_nil] at wire
      exact ⟨state, rfl, empty, buffer, wire⟩
  | cons msg rest ih =>
      rcases follows.reads others matched receives with ⟨header, reads⟩
      have wire := follows.wire
      have split : wireOf (packTable robotPacks) (msg :: rest) =
          (encode (packTable robotPacks) msg).wire ++ wireOf (packTable robotPacks) rest := rfl
      rw [buffer, List.append_nil, split] at wire
      have taken := reads (wireOf (packTable robotPacks) rest)
      rw [← wire] at taken
      have steps : step others synch .receive state = some { state with
          wire := wireOf (packTable robotPacks) rest, client := hear msg state.client } := by
        simp only [step, taken]
      rcases follows.receive grammar matched receives steps with ⟨first, left, same, follows'⟩
      cases same
      rcases ih follows' empty buffer with ⟨quiet, run, isQuiet⟩
      refine ⟨quiet, ?_, isQuiet⟩
      rw [List.length_cons, List.replicate_succ, runEvents, steps]
      exact run

/-- From every state that is reached, one poll and some calls of `read` let everything arrive. -/
theorem telemetry_drains (grammar : InterfaceGrammar others) {events : List TelemetryEvent}
    (starts : Starts state)
    (receives : ∀ msg ∈ published events, state.client.Receives msg)
    (run : runEvents (step others synch) events state = some final) :
    ∃ rooms n quiet, runEvents (step others synch)
      (.write rooms :: List.replicate n .receive) final = some quiet ∧ Quiet quiet := by
  rcases starts.follows.run grammar starts.matched receives run with ⟨received, pending, -, follows⟩
  have known : ∀ msg ∈ final.writer.queue.messages, state.client.Receives msg := by
    intro msg member
    exact receives msg (follows.keeps.sublist.subset (List.mem_append_right _ member))
  rcases exists_writes synch _ follows.queue known le_rfl with
    ⟨rooms, result, writes, buffer, empty⟩
  have steps : step others synch (.write rooms) final =
      some { final with wire := final.wire ++ result.1, writer := result.2 } := by
    simp only [step, writes, Option.map_some]
  rcases follows.write steps with ⟨written, follows'⟩
  rcases exists_receives grammar synch starts.matched receives follows' empty buffer with
    ⟨quiet, later, isQuiet⟩
  refine ⟨rooms, (pending ++ written).length, quiet, ?_, isQuiet⟩
  rw [runEvents, steps]
  exact later

theorem telemetry_drains_id :
    ∃ rooms n quiet, runEvents (step noOthers fun _ => ⟨0, 0, none⟩)
      (.write rooms :: List.replicate n .receive)
      { idle with client := hear fiducialAnswer fiducialClient } = some quiet ∧ Quiet quiet :=
  telemetry_drains noGrammar starts_idle receives_idle run_idle

end Draining

end Telemetry

end MrsOptimization
