import MrsOptimization.Player.Answers

/-!
# The answers of the server

A queue that is idle gets one response for each message to the server itself.
`WriteClient` sends the bytes of this response, and then has nothing more to
send.
-/

namespace MrsOptimization

open TcpServer PlayerCore PlayerClient

variable {ω δ ι : Type}

namespace PlayerCore.MessageQueue

variable {α : Type} {synch : Bool → α}

/-- A queue without messages that owes no `PLAYER_MSGTYPE_SYNCH`. -/
structure Idle (queue : MessageQueue α) : Prop where
  messages : queue.messages = []
  unfiltered : queue.filter = none
  undelivered : queue.dataDelivered = false

/-- A queue that was idle before a response was pushed, which a rule may have ignored. -/
structure Awaits (queue : MessageQueue α) (msg : Message α) : Prop where
  messages : queue.messages = [] ∨ queue.messages = [msg]
  unfiltered : queue.filter = none
  undelivered : queue.dataDelivered = false
  response : msg.header.IsResponse

theorem Idle.pop {queue : MessageQueue α} (idle : queue.Idle) :
    queue.pop synch = (none, queue) := by
  rw [MessageQueue.pop, idle.messages, List.find?_nil]
  simp [idle.undelivered]

/-- A response gets to the end of the queue, unless a rule says that it is ignored. -/
theorem push_response {queue : MessageQueue α} {msg : Message α}
    (response : msg.header.IsResponse)
    (kept : queue.checkReplace msg.header ≠ MessageReplaceRule.ignore) :
    queue.push msg = queue.pushBack msg ∨
      queue.push msg = (queue.removeSame msg.header).pushBack msg := by
  have noDrop : ¬ queue.Drops msg.header := by
    rintro ⟨-, news, -⟩
    exact news.not_answer (Or.inr response)
  rw [MessageQueue.push, if_neg kept, if_neg noDrop]
  split
  · exact Or.inr rfl
  · exact Or.inl rfl

theorem Idle.messages_push {queue : MessageQueue α} (idle : queue.Idle) {msg : Message α}
    (response : msg.header.IsResponse)
    (kept : queue.checkReplace msg.header ≠ MessageReplaceRule.ignore) :
    (queue.push msg).messages = [msg] := by
  rcases push_response response kept with same | same <;> rw [same] <;>
    simp [removeSame, pushBack, idle.messages]

theorem Idle.push {queue : MessageQueue α} (idle : queue.Idle) {msg : Message α}
    (response : msg.header.IsResponse) : (queue.push msg).Awaits msg := by
  rcases idle with ⟨messages, unfiltered, undelivered⟩
  by_cases ignored : queue.checkReplace msg.header = MessageReplaceRule.ignore
  · have same : queue.push msg = queue := if_pos ignored
    rw [same]
    exact ⟨Or.inl messages, unfiltered, undelivered, response⟩
  · have single := Idle.messages_push ⟨messages, unfiltered, undelivered⟩ response ignored
    rcases push_response response ignored with same | same <;> rw [same] at single ⊢ <;>
      exact ⟨Or.inr single, unfiltered, undelivered, response⟩

theorem Idle.pushFront {queue : MessageQueue α} (idle : queue.Idle) {msg : Message α}
    (response : msg.header.IsResponse) :
    ((queue.pushFront msg).setDataRequested true).Awaits msg := by
  rcases idle with ⟨messages, unfiltered, -⟩
  exact ⟨Or.inr (by simp [setDataRequested, MessageQueue.pushFront, messages]), unfiltered, rfl,
    response⟩

theorem Idle.setPull {queue : MessageQueue α} (idle : queue.Idle) (pull : Bool) :
    (queue.setPull pull).Idle :=
  ⟨idle.messages, idle.unfiltered, idle.undelivered⟩

theorem Idle.addReplaceRule {queue : MessageQueue α} (idle : queue.Idle)
    (rule : MessageReplaceRule) : (queue.addReplaceRule rule).Idle :=
  ⟨idle.messages, idle.unfiltered, idle.undelivered⟩

/-- The response comes out of the queue, and then nothing. -/
theorem Awaits.pop (synch : Bool → α) {queue : MessageQueue α} {msg : Message α}
    (awaits : queue.Awaits msg) (single : queue.messages = [msg]) :
    ∃ after, queue.pop synch = (some msg, after) ∧ after.Idle := by
  rcases awaits with ⟨-, unfiltered, undelivered, response⟩
  have data : (msg.header.type == MsgType.data) = false := by
    rcases response with same | same <;> rw [same] <;> rfl
  have selected : queue.selects msg = true := by
    cases requested : queue.dataRequested <;>
      simp [selects, responsePending, passesFilter, single, unfiltered, requested, response]
  rw [MessageQueue.pop, single, List.find?_cons_of_pos selected]
  simp only [List.eraseP_cons_of_pos selected, data, undelivered, Bool.and_false, Bool.or_false]
  exact ⟨_, rfl, rfl, unfiltered, rfl⟩

theorem Awaits.of_pop {queue after : MessageQueue α} {msg popped : Message α}
    (awaits : queue.Awaits msg) (pops : queue.pop synch = (some popped, after)) :
    popped = msg ∧ after.Idle := by
  rcases awaits.messages with nothing | single
  · have idle : queue.Idle := ⟨nothing, awaits.unfiltered, awaits.undelivered⟩
    rw [idle.pop] at pops
    cases pops
  · rcases awaits.pop synch single with ⟨after', pops', idle⟩
    rw [pops] at pops'
    cases pops'
    exact ⟨rfl, idle⟩

end PlayerCore.MessageQueue

namespace TcpServer

open PlayerCore.MessageQueue (Idle Awaits)

section Writing

variable {packs : PackTable δ} {synch : Bool → Content δ}

/-- If the queue has nothing more, `WriteClient` sends the buffer, however little `send` accepts. -/
theorem writeClient_flushes {queue : MessageQueue (Content δ)}
    (nothing : queue.pop synch = (none, queue)) {rooms : List ℕ} {buffer : List Byte}
    (enough : buffer.length ≤ rooms.length) :
    writeClient packs synch rooms ⟨queue, buffer⟩ = some (buffer, ⟨queue, []⟩) := by
  have fills : ∀ buffer, fill packs synch ⟨queue, buffer⟩ = some ⟨queue, buffer⟩ := by
    intro buffer
    cases buffer with
    | nil => rw [fill, if_neg (not_not.mpr rfl), nothing]
    | cons byte rest => rw [fill, if_pos (List.cons_ne_nil byte rest)]
  induction rooms generalizing buffer with
  | nil =>
      have isEmpty := List.length_eq_zero_iff.mp (Nat.le_zero.mp enough)
      rw [writeClient, fills, isEmpty]
      rfl
  | cons room rest ih =>
      rw [writeClient, fills, Option.bind_some]
      by_cases isEmpty : buffer = []
      · rw [if_pos isEmpty, isEmpty]
      · rw [if_neg isEmpty]
        have some_ := List.length_pos_iff.mpr isEmpty
        have size : 0 < writeBufferSize := by decide
        simp only [List.length_cons] at enough
        dsimp only
        generalize count_ : min (room + 1) (min buffer.length writeBufferSize) = count
        have shorter : (buffer.drop count).length ≤ rest.length := by
          rw [List.length_drop]
          omega
        rw [ih shorter, Option.map_some, List.take_append_drop]

/-- The buffer that `fill` has filled is what `WriteClient` goes on with. -/
theorem writeClient_of_fill {rooms : List ℕ} {writer filled : Writer δ}
    (fills : fill packs synch writer = some filled) (some_ : filled.writebuffer ≠ []) :
    writeClient packs synch rooms writer = writeClient packs synch rooms filled := by
  have again : fill packs synch filled = some filled := by
    rw [fill, if_pos some_]
  cases rooms <;> rw [writeClient, writeClient, fills, again]

/-- The bytes of the one response of a queue leave the server. -/
theorem writeClient_response {queue after : MessageQueue (Content δ)}
    {msg : PlayerCore.Message (Content δ)} (pops : queue.pop synch = (some msg, after))
    (idle : after.Idle)
    {header : PlayerMsgHdr} {payload : List Byte}
    (encodes : encode packs msg = .bytes header payload) {rooms : List ℕ}
    (enough : headerSize + payload.length ≤ rooms.length) :
    writeClient packs synch rooms ⟨queue, []⟩ =
      some ((encode packs msg).wire, ⟨after, []⟩) := by
  have length := length_packed header
  have fills : fill packs synch ⟨queue, []⟩ = some ⟨after, header.packed ++ payload⟩ := by
    rw [fill, if_neg (not_not.mpr rfl), pops]
    simp only [encodes]
  have some_ : header.packed ++ payload ≠ [] := by
    apply List.ne_nil_of_length_pos
    rw [List.length_append, length]
    exact Nat.add_pos_left (by decide : 0 < headerSize) _
  rw [writeClient_of_fill fills some_, encodes]
  apply writeClient_flushes idle.pop
  rwa [List.length_append, length]

end Writing

section Answering

/-- An access that the server does not grant: the client does not look for the data of a negative
response, and stops in the middle of the other one. -/
def refused (msg : PlayerCore.Message (Content (Data δ))) : Bool :=
  match msg.content.payload with
  | some (.devreq _ access _) => access = errorMode
  | _ => false

/-- A server that owes the client nothing. The names of its drivers are not empty. -/
structure Ready (server : Server ω δ) : Prop where
  idle : server.queue.Idle
  named : ∀ device ∈ server.table, device.drivername ≠ []

/-- A device of the table at the place of the connection. -/
def Listed (place : Place) (table : List Device) (addr : PlayerDevAddr) : Prop :=
  addr.host = place.host ∧ addr.robot = place.port ∧ addr ∈ table.map Device.addr

/-- The server has answered with this response, and has left its table alone. -/
structure Answers (place : Place) (server server' : Server ω δ)
    (msg : PlayerCore.Message (Content (Data δ))) : Prop where
  awaits : server'.queue.Awaits msg
  table : server'.table = server.table
  shape : Answer msg ∨ refused msg
  listed : ∀ devices, msg.content.payload = some (.devlist devices) →
    ∀ addr ∈ devices, Listed place server.table addr

/-- A server that pushes a response onto an idle queue has answered. -/
theorem answers_push {place : Place} {server changed : Server ω δ}
    {msg : PlayerCore.Message (Content (Data δ))} (shape : Answer msg ∨ refused msg)
    (listed : ∀ devices, msg.content.payload = some (.devlist devices) →
      ∀ addr ∈ devices, Listed place server.table addr)
    (idle : changed.queue.Idle) (table : changed.table = server.table)
    (response : msg.header.IsResponse) :
    ∀ server', some (changed.push msg) = some server' →
      ∃ msg, Answers place server server' msg := by
  intro server' same
  cases same
  exact ⟨msg, idle.push response, table, shape, listed⟩

theorem listed_devices (place : Place) (table : List Device) :
    ∀ addr ∈ (((table.map Device.addr).filter fun addr =>
      addr.robot = place.port ∧ addr.host = place.host).take maxDevices),
      Listed place table addr := by
  intro addr member
  rcases List.mem_filter.mp (List.mem_of_mem_take member) with ⟨here, same⟩
  rcases of_decide_eq_true same with ⟨robot, host⟩
  exact ⟨host, robot, here⟩

theorem getDevice_mem {table : List Device} {addr : PlayerDevAddr} {device : Device}
    (found : getDevice table addr = some device) : device ∈ table := by
  rw [getDevice] at found
  split at found
  · cases found
  · exact List.mem_of_find?_eq_some found

theorem changeAccess_spec (drivers : Drivers ω δ) (addr : PlayerDevAddr) (access : Byte)
    (server : Server ω δ) :
    (changeAccess drivers addr access server).2.queue = server.queue ∧
      (changeAccess drivers addr access server).2.table = server.table := by
  rw [changeAccess]
  dsimp only
  split
  · split <;> exact ⟨rfl, rfl⟩
  · split
    · split <;> exact ⟨rfl, rfl⟩
    · exact ⟨rfl, rfl⟩

theorem name_fits (device : Device) (named : device.drivername ≠ []) :
    device.name.length ≠ 1 ∧ device.name.length ≤ maxNameLength := by
  have some_ := List.length_pos_iff.mpr named
  have fits := device.fits
  rw [Device.name, List.length_append, List.length_singleton]
  omega

/-- Every message to the server itself is answered once. -/
theorem answers_of_handle {place : Place} {drivers : Drivers ω δ} {hdr : PlayerMsgHdr}
    (player : hdr.addr.interf = playerCode) {data : Option (Data δ)}
    {server : Server ω δ} (ready : Ready server) :
    ∀ server', handlePlayerMessage place drivers hdr data server = some server' →
      ∃ msg, Answers place server server' msg := by
  have isAck : ∀ {subtype : BitVec 8},
      (⟨hdr.addr, MsgType.respAck, subtype⟩ : Signature).IsResponse := Or.inr rfl
  have isNack : ∀ {subtype : BitVec 8},
      (⟨hdr.addr, MsgType.respNack, subtype⟩ : Signature).IsResponse := Or.inl rfl
  fun_cases handlePlayerMessage place drivers hdr data server with
  | case1 data now nack other => exact answers_push (Or.inl .nack) nofun ready.idle rfl isNack
  | case2 now nack request addr access driverName number asked unknown =>
      have subtype : hdr.subtype = 3 := BitVec.eq_of_toNat_eq number
      refine answers_push ?_ nofun ready.idle rfl isNack
      simp only [nack, responseTo, subtype]
      exact Or.inr rfl
  | case3 now ack request addr access driverName number asked device found changed =>
      have subtype : hdr.subtype = 3 := BitVec.eq_of_toNat_eq number
      rcases name_fits device (ready.named device (getDevice_mem found)) with ⟨several, fits⟩
      rcases changeAccess_spec drivers asked access server with ⟨queue, table⟩
      refine answers_push ?_ nofun (by rw [queue]; exact ready.idle) table isAck
      simp only [ack, responseTo, subtype]
      by_cases failed : changed.1 = errorMode
      · exact Or.inr (decide_eq_true failed)
      · exact Or.inl (.deviceAccess player failed several fits)
  | case4 data now ack request number devices =>
      have subtype : hdr.subtype = 1 := BitVec.eq_of_toNat_eq number
      refine answers_push ?_ ?_ ready.idle rfl isAck
      · simp only [ack, responseTo, subtype]
        exact Or.inl (.deviceList player (List.length_take_le ..))
      · intro devices' same
        cases same
        exact listed_devices place server.table
  | case5 now nack request addr driverName number asked unknown =>
      exact answers_push (Or.inl .nack) nofun ready.idle rfl isNack
  | case6 now ack request addr driverName number asked device found =>
      have subtype : hdr.subtype = 2 := BitVec.eq_of_toNat_eq number
      rcases name_fits device (ready.named device (getDevice_mem found)) with ⟨several, fits⟩
      refine answers_push ?_ nofun ready.idle rfl isAck
      simp only [ack, responseTo, subtype]
      exact Or.inl (.driverInfo player several fits)
  | case7 now ack request interf index type subtype replace number =>
      have subtype : hdr.subtype = 10 := BitVec.eq_of_toNat_eq number
      refine answers_push ?_ nofun (ready.idle.addReplaceRule _) rfl isAck
      simp only [ack, responseTo, subtype]
      exact Or.inl (.ack player (by decide))
  | case8 now ack request mode number =>
      have subtype : hdr.subtype = 5 := BitVec.eq_of_toNat_eq number
      refine answers_push ?_ nofun ?_ rfl isAck
      · simp only [ack, responseTo, subtype]
        exact Or.inl (.ack player (by decide))
      · dsimp only
        split
        · exact ready.idle.setPull false
        · split
          · exact ready.idle.setPull true
          · exact ready.idle
  | case9 data now ack request number =>
      have subtype : hdr.subtype = 4 := BitVec.eq_of_toNat_eq number
      intro server' same
      cases same
      refine ⟨ack none, ready.idle.pushFront isAck, rfl, ?_, nofun⟩
      simp only [ack, responseTo, subtype]
      exact Or.inl (.ack player (by decide))
  | case14 data now nack request =>
      exact answers_push (Or.inl .nack) nofun ready.idle rfl isNack
  | _ => nofun

end Answering

/-- The generated functions of the devices. -/
def GeneratedTable (devices : FunctionTable δ) : Prop :=
  ∀ interf type subtype pack, devices interf type subtype = some pack → (pack []).1 = 0

theorem generated_player {type subtype : BitVec 8} {pack : PackFunction (Data δ)}
    (looked : playerFunction type subtype = some pack) : (pack []).1 = 0 := by
  rw [playerFunction] at looked
  split at looked
  · rcases Option.map_eq_some_iff.mp looked with ⟨request, -, rfl⟩
    rfl
  · split at looked
    · rcases Option.map_eq_some_iff.mp looked with ⟨request, -, rfl⟩
      rfl
    · split at looked
      · cases looked
        rfl
      · cases looked

theorem generated_environment (place : Place) (drivers : Drivers ω δ)
    {devices : FunctionTable δ} (generated : GeneratedTable devices) :
    Generated (environment place drivers devices) := by
  have device : ∀ interf type subtype pack,
      deviceFunction devices interf type subtype = some pack → (pack []).1 = 0 := by
    intro interf type subtype pack looked
    rcases Option.map_eq_some_iff.mp looked with ⟨pack', looked', rfl⟩
    exact generated interf type subtype pack' looked'
  intro interf type subtype pack looked
  simp only [environment] at looked
  split at looked
  · next player =>
      cases found : (playerFunction type subtype : Option (PackFunction (Data δ))) with
      | none =>
          rw [found] at looked
          exact device interf type subtype pack looked
      | some pack' =>
          rw [found] at looked
          cases looked
          exact generated_player found
  · exact device interf type subtype pack looked

end TcpServer

end MrsOptimization
