import MrsOptimization.Player.ServerAnswers

/-!
# Sessions

A client that waits for the answer to each of its calls. One round of the session
is a call, the bytes that the network brings to the server in some pieces, the
polls of the server, the bytes that it sends in some pieces, and one `read` of
the client. As long as the server refuses nothing, a session on the bytes is a
conversation in structures.
-/

namespace MrsOptimization

open TcpServer PlayerCore

variable {ω δ ι : Type}

namespace PlayerClient

/-- Both ends of a session, and what they know of their surroundings. -/
structure Ends (ω δ ι : Type) where
  charset : Charset
  interfaces : Interfaces ι
  recv : Recv
  place : Place
  drivers : Drivers ω δ
  devices : FunctionTable δ
  packs : PackTable δ
  synch : Bool → Content (Data δ)

/-- What happens between two calls of the client. -/
structure Round where
  timestamp : BitVec 64
  call : ClientCall
  arrivals : List (List Byte)
  polls : ℕ
  rooms : List ℕ

/-- The server gets what the client has written, and has the time to read it and to answer. -/
structure Round.Valid (charset : Charset) (round : Round) : Prop where
  cut : round.arrivals.flatten = written charset [(round.timestamp, round.call)]
  polls : round.arrivals.flatten.length ≤ round.polls
  rooms : headerSize + maxAnswerSize ≤ round.rooms.length

/-- The server, the client, and the responses that the client has got. -/
structure Conversation (ω δ ι : Type) where
  server : Server ω δ
  client : PlayerClient ι
  heard : List Signature

/-- The bytes besides: those that the server has not parsed, those that it has not read, those
that it has not sent, and those that the client has not read. -/
structure Session (ω δ ι : Type) extends Conversation ω δ ι where
  conn : Connection
  pending : List Byte
  writebuffer : List Byte
  unread : List Byte

/-- `requestDeviceAccess` looks for the device in the list of the client before it writes. -/
def ClientCall.permitted (client : PlayerClient ι) : ClientCall → Bool
  | .requestDeviceAccess code index _ =>
      client.pddlist.any fun devices => devices.any fun addr =>
        addr.interf.signExtend 32 = code ∧ addr.index.signExtend 32 = index
  | _ => true

namespace Ends

variable (ends : Ends ω δ ι)

/-- The bytes of a call reach the server, and the bytes of its answer reach the client. -/
def serve (round : Round) (session : Session ω δ ι) : Option (Session ω δ ι) :=
  if round.call.permitted session.client then
    (runEvents (TcpServer.read ends.recv (environment ends.place ends.drivers ends.devices))
        ((round.arrivals ++ List.replicate round.polls []).map .bytes)
        ⟨session.conn, session.pending, false, some session.server, false⟩).bind fun net =>
      net.server.bind fun server =>
        (writeClient (packTable ends.packs) ends.synch round.rooms
            ⟨server.queue, session.writebuffer⟩).map fun sent =>
          { session with
            server := { server with queue := sent.2.queue }
            conn := net.conn
            pending := net.pending
            writebuffer := sent.2.writebuffer
            unread := session.unread ++ sent.1 }
  else none

/-- The client reads one message. -/
def listen (session : Session ω δ ι) : Option (Session ω δ ι) :=
  match PlayerClient.read ends.interfaces session.client session.unread with
  | .ok (client, header) unread => some { session with
      client := client
      heard := session.heard ++ [⟨header.addr, header.type, header.subtype⟩]
      unread := unread }
  | .error _ _ => none

def exchange (round : Round) (session : Session ω δ ι) : Option (Session ω δ ι) :=
  (ends.serve round session).bind ends.listen

/-- The same without the bytes: the server gets the structure that the client asks about, and the
client learns the structure of the response. There is none after a refusal. -/
def converse (round : Round) (state : Conversation ω δ ι) : Option (Conversation ω δ ι) :=
  if round.call.permitted state.client then
    round.call.asks.bind fun asked =>
      (handlePlayerMessage ends.place ends.drivers
          (requestHeader ends.place round.timestamp asked.1) asked.2
          state.server).bind fun server =>
        match server.queue.pop ends.synch with
        | (none, _) => none
        | (some msg, queue) =>
          if refused msg then none
          else some
            { server := { server with queue := queue }
              client := learn ends.interfaces msg state.client
              heard := state.heard ++ [msg.header] }
  else none

/-- What has happened in a round of a conversation. -/
theorem converse_cases {ends : Ends ω δ ι} {round : Round} {state next : Conversation ω δ ι}
    (talks : ends.converse round state = some next) :
    round.call.permitted state.client ∧ ∃ asked server msg queue,
      round.call.asks = some asked ∧
      handlePlayerMessage ends.place ends.drivers
        (requestHeader ends.place round.timestamp asked.1) asked.2 state.server = some server ∧
      server.queue.pop ends.synch = (some msg, queue) ∧ ¬ refused msg ∧
      next =
        { server := { server with queue := queue }
          client := learn ends.interfaces msg state.client
          heard := state.heard ++ [msg.header] } := by
  rw [converse] at talks
  split at talks
  · next permitted =>
      refine ⟨permitted, ?_⟩
      rcases Option.bind_eq_some_iff.mp talks with ⟨asked, asks, talks⟩
      rcases Option.bind_eq_some_iff.mp talks with ⟨server, handles, talks⟩
      split at talks
      · cases talks
      · next msg queue pops =>
          split at talks
          · cases talks
          · next granted =>
              cases talks
              exact ⟨asked, server, msg, queue, asks, handles, pops, granted, rfl⟩
  · cases talks

end Ends

/-- Nothing is on its way. -/
structure Session.InStep (session : Session ω δ ι) : Prop where
  ready : Ready session.server
  conn : session.conn.Valid
  readbuffer : session.conn.readbuffer = []
  pending : session.pending = []
  writebuffer : session.writebuffer = []
  unread : session.unread = []

/-- What the server is asked is sent, and nothing besides. -/
theorem outgoing_of_asks {call : ClientCall} {asked : BitVec 8 × Option (Data δ)}
    (asks : call.asks = some asked) (charset : Charset) :
    ∃ out, call.outgoing charset = some out ∧ out.trailing = [] := by
  cases call
  case requestAuthentication key =>
    cases key with
    | nil => exact ⟨_, rfl, rfl⟩
    | cons _ _ => cases asks
  all_goals first | cases asks; exact ⟨_, rfl, rfl⟩ | cases asks

section Rounds

variable {ends : Ends ω δ ι}

/-- The server reads one call, and handles the structure that it asks about. -/
theorem reads_call {charset : Charset} (recv : Recv) (place : Place) (drivers : Drivers ω δ)
    {devices : FunctionTable δ} (generated : GeneratedTable devices) {round : Round}
    (valid : round.Valid charset) {conn : Connection} (fits : conn.Valid)
    (nothing : conn.readbuffer = []) {asked : BitVec 8 × Option (Data δ)}
    (asks : round.call.asks = some asked) (server : Server ω δ) :
    ∃ conn' : Connection, conn'.Valid ∧ conn'.readbuffer = [] ∧
      runEvents (TcpServer.read recv (environment place drivers devices))
          ((round.arrivals ++ List.replicate round.polls []).map .bytes)
          ⟨conn, [], false, some server, false⟩ =
        some ⟨conn', [], false, handlePlayerMessage place drivers
          (requestHeader place round.timestamp asked.1) asked.2 server, false⟩ := by
  rcases outgoing_of_asks asks charset with ⟨out, sends, plain⟩
  have calls : outgoings charset [(round.timestamp, round.call)] = [(round.timestamp, out)] := by
    simp [outgoings, sends]
  have split := @split_written charset [(round.timestamp, round.call)] (by simp [calls, plain])
  rw [← valid.cut, calls] at split
  have hasRead : HasRead (environment place drivers devices) (some server) []
      ⟨conn, [], false, some server, false⟩ :=
    { server := by rw [Framing.split_nil]; rfl
      buffer := by rw [Framing.split_nil]; exact nothing
      valid := fits
      room := by rw [nothing]; exact (by decide : 0 < maxMessageSize)
      stays := rfl }
  have well : ¬ Malformed round.arrivals.flatten := by
    rw [valid.cut]
    exact not_malformed_written (by simp [calls, plain])
  rcases run_everything recv (generated_environment place drivers generated) hasRead rfl well
    valid.polls with ⟨⟨conn', pending, ended, server', del⟩, run, rfl, rfl, after⟩
  have stream : [] ++ ([] ++ round.arrivals.flatten) = round.arrivals.flatten := rfl
  rw [stream] at after
  have processed := after.server
  have buffer := after.buffer
  have stays : del = false := after.stays
  rw [split] at processed buffer
  have handles : server' = handlePlayerMessage place drivers
      (requestHeader place round.timestamp asked.1) asked.2 server := by
    rw [← dispatch_call asks sends round.timestamp server]
    exact processed.trans (process_message _ round.timestamp out (some server))
  exact ⟨conn', after.valid, buffer, by rw [run, handles, stays]⟩

/-- The bytes of one response reach the client. -/
theorem serve_response (generated : GeneratedTable ends.devices) {round : Round}
    (valid : round.Valid ends.charset) {session : Session ω δ ι} (inStep : session.InStep)
    (permitted : round.call.permitted session.client)
    {asked : BitVec 8 × Option (Data δ)} (asks : round.call.asks = some asked)
    {server : Server ω δ}
    (handles : handlePlayerMessage ends.place ends.drivers
      (requestHeader ends.place round.timestamp asked.1) asked.2 session.server = some server)
    {msg : PlayerCore.Message (Content (Data δ))} {queue : MessageQueue (Content (Data δ))}
    (pops : server.queue.pop ends.synch = (some msg, queue)) (idle : queue.Idle)
    {header : PlayerMsgHdr} {payload : List Byte}
    (encodes : encode (packTable ends.packs) msg = .bytes header payload)
    (small : payload.length ≤ maxAnswerSize) :
    ∃ conn : Connection, conn.Valid ∧ conn.readbuffer = [] ∧
      ends.serve round session = some { session with
        server := { server with queue := queue }
        conn := conn
        pending := []
        writebuffer := []
        unread := (encode (packTable ends.packs) msg).wire } := by
  rcases reads_call ends.recv ends.place ends.drivers generated valid inStep.conn
    inStep.readbuffer asks session.server with ⟨conn, fits, nothing, run⟩
  have enough : headerSize + payload.length ≤ round.rooms.length :=
    (Nat.add_le_add_left small _).trans valid.rooms
  have writes := writeClient_response pops idle encodes enough
  refine ⟨conn, fits, nothing, ?_⟩
  rw [Ends.serve, if_pos permitted, inStep.pending, inStep.writebuffer, inStep.unread, run, handles]
  simp only [Option.bind_some, writes, List.nil_append, Option.map_some]

/-- A session where nothing is on its way, and what it is about. -/
def Session.About (session : Session ω δ ι) (state : Conversation ω δ ι) : Prop :=
  session.InStep ∧ session.toConversation = state

/-- A round that the conversation can go through takes place on the bytes, and leaves nothing on
its way. -/
theorem exchange_of_converse (grammar : InterfaceGrammar ends.interfaces)
    (generated : GeneratedTable ends.devices) (round : Round) (valid : round.Valid ends.charset)
    (session : Session ω δ ι) (state next : Conversation ω δ ι) (about : session.About state)
    (talks : ends.converse round state = some next) :
    ∃ session' : Session ω δ ι, ends.exchange round session = some session' ∧
      session'.About next := by
  rcases about with ⟨inStep, rfl⟩
  rcases Ends.converse_cases talks with
    ⟨permitted, asked, server, msg, queue, asks, handles, pops, granted, rfl⟩
  rcases answers_of_handle rfl inStep.ready server handles with ⟨msg', answers⟩
  rcases answers.awaits.of_pop pops with ⟨rfl, idle⟩
  have answer := answers.shape.resolve_right granted
  rcases understands_answer ends.packs grammar answer with ⟨payload, encodes, small, -⟩
  rcases serve_response generated valid inStep permitted asks handles pops idle encodes small with
    ⟨conn, fits, nothing, served⟩
  rcases reads_answer ends.packs grammar answer session.client with ⟨size, understands⟩
  have reads := understands []
  rw [List.append_nil] at reads
  have named : ∀ device ∈ server.table, device.drivername ≠ [] := by
    rw [answers.table]
    exact inStep.ready.named
  refine ⟨⟨_, conn, [], [], []⟩, ?_, ⟨⟨idle, named⟩, fits, nothing, rfl, rfl, rfl⟩, rfl⟩
  rw [Ends.exchange, served, Option.bind_some, Ends.listen]
  simp only [reads]
  rfl

/-- However the network cuts the bytes of a session, it is the conversation of the two ends: every
call is handled once, with the structure that the client had in mind, and its response is the next
one that the client reads. -/
theorem session_converses (grammar : InterfaceGrammar ends.interfaces)
    (generated : GeneratedTable ends.devices) {rounds : List Round}
    (valid : ∀ round ∈ rounds, round.Valid ends.charset) {session : Session ω δ ι}
    (inStep : session.InStep) {final : Conversation ω δ ι}
    (talks : runEvents ends.converse rounds session.toConversation = some final) :
    ∃ session' : Session ω δ ι, runEvents ends.exchange rounds session = some session' ∧
      session'.InStep ∧ session'.toConversation = final :=
  runEvents_follows Session.About (exchange_of_converse grammar generated) valid
    ⟨inStep, rfl⟩ talks

/-- A server whose drivers allow everything, and a client of it. -/
def loneEnds : Ends Unit Unit Position2DInterface.State where
  charset := .latin1
  interfaces := Position2DInterface.interfaces
  recv := .greedy
  place := ⟨0, 0, 6665⟩
  drivers := ⟨fun state _ => (0, state), fun state _ => (0, state), fun state _ _ => state,
    fun _ => 0⟩
  devices _ _ _ := none
  packs _ := none
  synch _ := ⟨0, 0, none⟩

def loneAddr : PlayerDevAddr :=
  ⟨0, 6665, 4, 0⟩

/-- A device `stage`, and nothing on its way. -/
def freshSession : Session Unit Unit Position2DInterface.State where
  server := ⟨[⟨loneAddr, [115, 116, 97, 103, 101], by decide⟩], (), .new false 32, []⟩
  client := {}
  heard := []
  conn := ⟨[], readBufferSize⟩
  pending := []
  writebuffer := []
  unread := []

theorem inStep_freshSession : freshSession.InStep where
  ready := ⟨⟨rfl, rfl, rfl⟩, by simp [freshSession]⟩
  conn := ⟨Nat.zero_le _, le_refl _, (by decide : readBufferSize ≤ maxMessageSize)⟩
  readbuffer := rfl
  pending := rfl
  writebuffer := rfl
  unread := rfl

/-- The bytes of a call arrive in one piece, and `send` accepts one byte at a time. -/
def roundOf (call : ClientCall) : Round :=
  ⟨0, call, [written .latin1 [(0, call)]], (written .latin1 [(0, call)]).length,
    List.replicate (headerSize + maxAnswerSize) 0⟩

theorem valid_roundOf (call : ClientCall) : (roundOf call).Valid .latin1 where
  cut := List.flatten_singleton
  polls := by simp [roundOf]
  rooms := by simp [roundOf]

theorem generated_loneEnds : GeneratedTable loneEnds.devices := nofun

/-- The client knows the device, and has subscribed to it. -/
def openedConversation : Conversation Unit Unit Position2DInterface.State where
  server := { freshSession.server with devSubs := [some loneAddr] }
  client :=
    { pddlist := some [loneAddr]
      readyPDDList := true
      newpd := some ⟨loneAddr, 1, [115, 116, 97, 103, 101, 0], {}⟩
      readyRequestDevice := true
      deviceList := [⟨loneAddr, 1, [115, 116, 97, 103, 101, 0], {}⟩] }
  heard := [⟨⟨0, 6665, 1, 0⟩, MsgType.respAck, 1⟩, ⟨⟨0, 6665, 1, 0⟩, MsgType.respAck, 3⟩]

theorem session_converses_opened :
    ∃ session' : Session Unit Unit Position2DInterface.State,
      runEvents loneEnds.exchange
          [roundOf .requestDeviceList, roundOf (.requestDeviceAccess 4 0 1)] freshSession =
        some session' ∧
      session'.InStep ∧ session'.toConversation = openedConversation := by
  have valid : ∀ round ∈ [roundOf .requestDeviceList, roundOf (.requestDeviceAccess 4 0 1)],
      round.Valid loneEnds.charset := by
    simp only [List.forall_mem_cons, List.not_mem_nil, false_implies, implies_true, and_true]
    exact ⟨valid_roundOf _, valid_roundOf _⟩
  exact session_converses Position2DInterface.grammar generated_loneEnds valid inStep_freshSession
    rfl

/-- The client only knows devices that the server has. -/
structure Conversation.Known (place : Place) (state : Conversation ω δ ι) : Prop where
  ready : Ready state.server
  listed : ∀ devices, state.client.pddlist = some devices →
    ∀ addr ∈ devices, Listed place state.server.table addr

theorem pddlist_requestSatisfy (interfaces : Interfaces ι) (addr : PlayerDevAddr) (access : Byte)
    (name : List Byte) (client : PlayerClient ι) :
    (requestSatisfy interfaces addr access name client).pddlist = client.pddlist := by
  rw [requestSatisfy]
  split
  · rfl
  · split <;> rfl

/-- Only a list of devices changes the list of the client. -/
theorem pddlist_learn (interfaces : Interfaces ι) (msg : PlayerCore.Message (Content (Data δ)))
    (client : PlayerClient ι) :
    (learn interfaces msg client).pddlist = client.pddlist ∨
      ∃ devices, msg.content.payload = some (.devlist devices) ∧
        (learn interfaces msg client).pddlist = some devices := by
  rw [learn]
  split
  · exact Or.inl rfl
  · split
    · next devices same => exact Or.inr ⟨devices, same, rfl⟩
    · exact Or.inl rfl
    · exact Or.inl (pddlist_requestSatisfy ..)
    · exact Or.inl rfl

theorem known_of_converse (round : Round) (state next : Conversation ω δ ι)
    (known : state.Known ends.place) (talks : ends.converse round state = some next) :
    next.Known ends.place := by
  rcases Ends.converse_cases talks with
    ⟨-, asked, server, msg, queue, -, handles, pops, -, rfl⟩
  rcases answers_of_handle rfl known.ready server handles with ⟨msg', answers⟩
  rcases answers.awaits.of_pop pops with ⟨rfl, idle⟩
  constructor
  · exact ⟨idle, by rw [answers.table]; exact known.ready.named⟩
  · intro devices same
    rw [answers.table]
    rcases pddlist_learn ends.interfaces msg state.client with kept | ⟨devices', payload, new_⟩
    · exact known.listed devices (kept.symm.trans same)
    · cases new_.symm.trans same
      exact answers.listed devices payload

/-- The address of a device as the server completes it. -/
def Ends.deviceAddr (ends : Ends ω δ ι) (code index : BitVec 32) : PlayerDevAddr :=
  ⟨ends.place.host, ends.place.port, code.setWidth 16, index.setWidth 16⟩

theorem getDevice_of_listed {place : Place} {table : List Device} {addr : PlayerDevAddr}
    (listed : Listed place table addr) (some_ : addr.interf ≠ 0) :
    (getDevice table addr).isSome := by
  rcases listed with ⟨-, -, member⟩
  rcases List.mem_map.mp member with ⟨device, here, rfl⟩
  rw [getDevice, if_neg some_, List.find?_isSome]
  exact ⟨device, here, by simp [matchDeviceAddress]⟩

/-- Along a conversation, whatever access the client may request, the server knows the device: a
request is refused by a driver only. -/
theorem permitted_known {rounds : List Round} {start final : Conversation ω δ ι}
    (known : start.Known ends.place) (talks : runEvents ends.converse rounds start = some final)
    {code index access : BitVec 32}
    (permitted : (ClientCall.requestDeviceAccess code index access).permitted final.client)
    (some_ : code.setWidth 16 ≠ (0 : BitVec 16)) :
    (getDevice final.server.table (ends.deviceAddr code index)).isSome := by
  have known' := runEvents_invariant (Conversation.Known ends.place) known_of_converse known talks
  rcases (Option.any_eq_true _ _).mp permitted with ⟨devices, list, found⟩
  rcases List.any_eq_true.mp found with ⟨addr, member, same⟩
  rcases of_decide_eq_true same with ⟨sameCode, sameIndex⟩
  have listed := known'.listed devices list addr member
  have addr_eq : ends.deviceAddr code index = addr := by
    rw [Ends.deviceAddr, ← sameCode, ← sameIndex, ← listed.1, ← listed.2.1,
      setWidth_signExtend (by decide), setWidth_signExtend (by decide)]
  rw [addr_eq]
  apply getDevice_of_listed listed
  rwa [← sameCode, setWidth_signExtend (by decide)] at some_

theorem permitted_known_position :
    (getDevice freshSession.server.table (loneEnds.deviceAddr 4 0)).isSome := by
  let listed : Conversation Unit Unit Position2DInterface.State :=
    { server := freshSession.server
      client := { pddlist := some [loneAddr], readyPDDList := true }
      heard := [⟨⟨0, 6665, 1, 0⟩, MsgType.respAck, 1⟩] }
  have known : freshSession.toConversation.Known loneEnds.place :=
    ⟨inStep_freshSession.ready, nofun⟩
  have talks : runEvents loneEnds.converse [roundOf .requestDeviceList]
      freshSession.toConversation = some listed := rfl
  have permitted : (ClientCall.requestDeviceAccess 4 0 1).permitted listed.client := rfl
  exact permitted_known known talks permitted (by decide)

/-- The signature of a positive response to `PLAYER_PLAYER_REQ_DEV` -/
def Ends.grant (ends : Ends ω δ ι) : Signature :=
  ⟨⟨ends.place.connection, ends.place.port, playerCode, 0⟩, MsgType.respAck, 3⟩

/-- The client stops behind the name of a driver that has refused. -/
theorem read_failed (interfaces : Interfaces ι) (client : PlayerClient ι) {header : PlayerMsgHdr}
    (type : header.type = MsgType.respAck) (player : header.addr.interf = playerCode)
    (subtype : header.subtype = 3) (addr : PlayerDevAddr) {name : List Byte}
    (fits : name.length ≤ maxNameLength) (rest : List Byte) :
    PlayerClient.read interfaces client (header.packed ++ (addr.packed ++
        (xdrUnsigned errorMode ++ beBytes (BitVec.ofNat 32 name.length) 4 ++
          (beBytes (BitVec.ofNat 32 name.length) 4 ++ (name ++ rest))))) =
      .error (.subscribing addr) rest := by
  have small : name.length < 2 ^ 31 := fits.trans_lt (by decide)
  have head : Reads readHeader header.packed header :=
    recognizes_readHeader.reads.mpr (field_of_reads (reads_packed header) (length_packed header))
  have first : Reads readDevAddr addr.packed addr :=
    recognizes_readDevAddr.reads.mpr (field_packed_addr addr)
  have second : Reads (readDecoded 12 decodeAccess) (xdrUnsigned errorMode ++
      beBytes (BitVec.ofNat 32 name.length) 4 ++ beBytes (BitVec.ofNat 32 name.length) 4)
      (errorMode, BitVec.ofNat 32 name.length) :=
    recognizes_readAccess.reads.mpr (field_access errorMode _ _ (length_beBytes _ _))
  have third : Reads (readBytes (BitVec.ofNat 32 name.length)) name
      ⟨name, small⟩ :=
    (recognizes_readBytes _).reads.mpr ⟨rfl, (JavaArray.toInt_ofNat small).symm⟩
  have fails : readDeviceAccess interfaces client (addr.packed ++ (xdrUnsigned errorMode ++
      beBytes (BitVec.ofNat 32 name.length) 4 ++ (beBytes (BitVec.ofNat 32 name.length) 4 ++
        (name ++ rest)))) = .error (.subscribing addr) rest := by
    rw [readDeviceAccess, bind_ok (first _), ← List.append_assoc (xdrUnsigned errorMode ++ _),
      bind_ok (second _), bind_ok (third _), if_pos rfl]
    rfl
  have data : PlayerClient.readData interfaces header client =
      readDeviceAccess interfaces client := by
    have noData : header.type ≠ MsgType.data := by
      rw [type]
      decide
    rw [PlayerClient.readData, if_neg (noData ·.1), if_pos type, if_neg (not_not.mpr player),
      readPlayerResponse, subtype]
    rfl
  rw [PlayerClient.read, bind_ok (head _), data, bind_error fails]

/-- If a driver refuses a subscription, the client throws and leaves what stands between the name
of the driver and the next multiple of 4. -/
theorem failed_subscription (generated : GeneratedTable ends.devices) {round : Round}
    (valid : round.Valid ends.charset) {session : Session ω δ ι} (inStep : session.InStep)
    {code index : BitVec 32} (call : round.call = .requestDeviceAccess code index 1)
    (permitted : round.call.permitted session.client) {device : Device}
    (found : getDevice session.server.table (ends.deviceAddr code index) = some device)
    (fails : (ends.drivers.subscribe session.server.drivers (ends.deviceAddr code index)).1 < 0)
    (sent : session.server.queue.checkReplace ends.grant ≠ MessageReplaceRule.ignore) :
    ∃ served : Session ω δ ι, ends.serve round session = some served ∧
      PlayerClient.read ends.interfaces served.client served.unread =
        .error (.subscribing (ends.deviceAddr code index))
          (List.replicate ((4 - device.name.length % 4) % 4) 0) := by
  let addr := ends.deviceAddr code index
  let hdr := requestHeader ends.place round.timestamp 3
  let changed := changeAccess ends.drivers addr 1 session.server
  let msg : PlayerCore.Message (Content (Data δ)) := responseTo hdr MsgType.respAck
    (ends.drivers.time session.server.drivers) (some (.devreq addr errorMode device.name))
  have asks : round.call.asks = some (3, some (.devreq (δ := δ)
      ⟨0, 0, code.setWidth 16, index.setWidth 16⟩ 1 [])) := by
    rw [call]
    rfl
  have access : changed.1 = errorMode := by
    simp only [changed, changeAccess, if_pos, if_pos fails, addr]
    rfl
  rcases changeAccess_spec ends.drivers addr 1 session.server with ⟨same, -⟩
  have handles : handlePlayerMessage ends.place ends.drivers hdr
      (some (.devreq ⟨0, 0, code.setWidth 16, index.setWidth 16⟩ 1 []))
      session.server = some (changed.2.push msg) := by
    have request : hdr.type = MsgType.req := rfl
    have known : getDevice session.server.table
        { host := ends.place.host, robot := ends.place.port, interf := code.setWidth 16,
          index := index.setWidth 16 } = some device := found
    rw [handlePlayerMessage, if_neg (not_not.mpr request)]
    · simp only [known]
      simp only [msg, ← access]
      rfl
    · rfl
  have idle : changed.2.queue.Idle := by
    rw [same]
    exact inStep.ready.idle
  have response : msg.header.IsResponse := Or.inr rfl
  have kept : changed.2.queue.checkReplace msg.header ≠ MessageReplaceRule.ignore := by
    rw [same]
    exact sent
  rcases (idle.push response).pop ends.synch (idle.messages_push response kept) with
    ⟨queue, pops, idle'⟩
  have fits : device.name.length ≤ maxNameLength := by
    have := device.fits
    rw [Device.name, List.length_append, List.length_singleton]
    omega
  let count := beBytes (BitVec.ofNat 32 device.name.length) 4
  let payload := addr.packed ++ (xdrUnsigned errorMode ++ count ++ (count ++ padded device.name))
  have encodes : encode (packTable ends.packs) msg =
      .bytes (headerOf msg payload.length) payload := by
    apply encode_player ends.packs rfl rfl rfl
    rw [packData, packBytes, if_pos fits]
    rfl
  have small : payload.length ≤ maxAnswerSize := by
    have length := length_padded device.name
    have front := length_packed_addr addr
    simp only [payload, count, xdrUnsigned, List.length_append, length_beBytes, maxAnswerSize,
      maxNameLength, maxDevices, devAddrSize] at length front fits ⊢
    omega
  rcases serve_response generated valid inStep permitted asks handles pops idle' encodes small with
    ⟨conn, -, -, served⟩
  refine ⟨_, served, ?_⟩
  dsimp only
  rw [encodes]
  exact read_failed ends.interfaces session.client rfl rfl rfl addr fits _

/-- The same server with drivers that refuse, and a client that has the list. -/
def refusingEnds : Ends Unit Unit Position2DInterface.State :=
  { loneEnds with drivers := { loneEnds.drivers with subscribe := fun state _ => (-1, state) } }

theorem failed_subscription_stage :
    ∃ served : Session Unit Unit Position2DInterface.State,
      refusingEnds.serve (roundOf (.requestDeviceAccess 4 0 1))
          { freshSession with client := { pddlist := some [loneAddr] } } = some served ∧
      PlayerClient.read refusingEnds.interfaces served.client served.unread =
        .error (.subscribing loneAddr) [0, 0] := by
  let session : Session Unit Unit Position2DInterface.State :=
    { freshSession with client := { pddlist := some [loneAddr] } }
  have inStep : session.InStep := ⟨inStep_freshSession.ready, inStep_freshSession.conn, rfl, rfl,
    rfl, rfl⟩
  have generated : GeneratedTable refusingEnds.devices := nofun
  exact failed_subscription generated (valid_roundOf (.requestDeviceAccess 4 0 1)) inStep rfl rfl
    rfl (by decide) (by decide)

end Rounds

end PlayerClient

end MrsOptimization
