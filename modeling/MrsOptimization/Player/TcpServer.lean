import MrsOptimization.Library.EventRuns
import MrsOptimization.Library.FrameStream
import MrsOptimization.Player.MessageHeader

/-!
# What the server reads from a client

`ReadClient` fills the read buffer of a connection with what `recv` gives, and
`ParseBuffer` takes complete messages from its front. What the server does with
a message is `handle`; whether there is a device and which function decodes the
data are the other questions that it asks. A client that has closed its end is
closed by the server, without a look at what `recv` has given since the last
poll.

A header may announce nearly `2 ^ 32` bytes. The length of the message is an
`int`, so it gets negative or shorter than the header. From a negative length
`ParseBuffer` moves memory that is not in the buffer, and with length zero it
does not get on. A short message is skipped if nobody decodes it; otherwise the
function gets a negative length, which is a huge one for it. All but the skipped
messages are faults here.
-/

namespace MrsOptimization

namespace TcpServer

/-- `PLAYERXDR_MAX_MESSAGE_SIZE` -/
def maxMessageSize : ℕ :=
  4 * 8388608

/-- `PLAYERTCP_READBUFFER_SIZE` -/
def readBufferSize : ℕ :=
  65536

/-- A function that decodes data: the length of what it decoded, negative if it failed. -/
abbrev PackFunction (δ : Type) :=
  List Byte → ℤ × δ

/-- The server as a connection knows it; `σ` is the state of the server, `δ` decoded data. -/
structure Environment (σ δ : Type) where
  host : BitVec 32
  port : BitVec 32
  knowsDevice : σ → PlayerDevAddr → Bool
  getPackfunc : BitVec 16 → BitVec 8 → BitVec 8 → Option (PackFunction δ)
  handle : σ → PlayerMsgHdr → Option δ → σ
  /-- What `Close` does for the devices of the client. -/
  close : σ → σ

variable {σ δ : Type}

/-- `msglen`, which is an `int` -/
def messageLength (hdr : PlayerMsgHdr) : ℤ :=
  min (wrap 32 (headerSize + hdr.size.toNat)) maxMessageSize

/-- One message. The function that decoded the last data stays in `packfunc`, and a message
without data is decoded by it. -/
def dispatch (env : Environment σ δ) (hdr : PlayerMsgHdr) (payload : List Byte)
    (packfunc : Option (PackFunction δ)) (state : σ) : Option (PackFunction δ) × σ :=
  let addr : PlayerDevAddr := ⟨env.host, env.port, hdr.addr.interf, hdr.addr.index⟩
  if env.knowsDevice state addr ∨ addr.interf = playerCode then
    let packfunc :=
      if hdr.size ≠ 0 then env.getPackfunc addr.interf hdr.type hdr.subtype else packfunc
    match packfunc with
    | some pack =>
      if (pack payload).1 < 0 then (packfunc, state)
      else (packfunc, env.handle state
        { hdr with addr := addr, size := BitVec.ofInt 32 (pack payload).1 }
        (if (pack payload).1 ≠ 0 then some (pack payload).2 else none))
    | none =>
      if hdr.size ≠ 0 then (packfunc, state)
      else (packfunc, env.handle state { hdr with addr := addr } none)
  else (packfunc, state)

/-- What `ParseBuffer` finds at the front of the buffer. A header that it cannot read leaves the
message incomplete. -/
def front (buffer : List Byte) : Front :=
  if buffer.length < headerSize then .incomplete
  else
    match unpackHeader buffer with
    | none => .incomplete
    | some hdr =>
      if buffer.length < messageLength hdr then .incomplete
      else if messageLength hdr ≤ 0 then .invalid
      else .frame (messageLength hdr).toNat

theorem front_frame {buffer : List Byte} {n : ℕ} (found : front buffer = .frame n) :
    headerSize ≤ buffer.length ∧ 0 < n ∧ n ≤ buffer.length ∧
      ∃ hdr, unpackHeader buffer = some hdr ∧ messageLength hdr = n := by
  rw [front] at found
  split at found
  · cases found
  · next enough =>
      split at found
      · cases found
      · next hdr read =>
          generalize sized : messageLength hdr = msglen at found
          split at found
          · cases found
          · next here =>
              split at found
              · cases found
              · next valid =>
                  cases found
                  exact ⟨by omega, by omega, by omega, hdr, read, by omega⟩

/-- The data of the message are given to a function. -/
def decodes (env : Environment σ δ) (hdr : PlayerMsgHdr) (state : σ) : Bool :=
  let addr : PlayerDevAddr := ⟨env.host, env.port, hdr.addr.interf, hdr.addr.index⟩
  (env.knowsDevice state addr ∨ addr.interf = playerCode) ∧ hdr.size ≠ 0 ∧
    (env.getPackfunc addr.interf hdr.type hdr.subtype).isSome

/-- The messages at the front of the buffer, one in each iteration. The result is what is left
in the buffer and the state of the server, or `none` for a fault. -/
def parseBuffer (env : Environment σ δ) (packfunc : Option (PackFunction δ)) (buffer : List Byte)
    (state : σ) : Option (List Byte × σ) :=
  match _found : front buffer with
  | .incomplete => some (buffer, state)
  | .invalid => none
  | .frame length =>
    match unpackHeader buffer with
    | none => some (buffer, state)
    | some hdr =>
      if length < headerSize ∧ decodes env hdr state then none
      else
        let payload := (buffer.take length).drop headerSize
        let next := dispatch env hdr payload packfunc state
        parseBuffer env next.1 (buffer.drop length) next.2
termination_by buffer.length
decreasing_by
  rcases front_frame _found with ⟨-, positive, inside, -⟩
  rw [List.length_drop]
  omega

/-- How `recv` cuts the bytes that have arrived: it gives some if it can. -/
structure Recv where
  count : ℕ → List Byte → ℕ
  pos : ∀ {room pending}, 0 < room → pending ≠ [] → 0 < count room pending
  le_room : ∀ room pending, count room pending ≤ room
  le_pending : ∀ room pending, count room pending ≤ pending.length

structure Connection where
  readbuffer : List Byte
  readbuffersize : ℕ

/-- A new size if there is little room. The size stays below `2 ^ 26`, so it never overflows. -/
def grown (conn : Connection) : ℕ :=
  if conn.readbuffersize - conn.readbuffer.length < readBufferSize then
    if maxMessageSize ≤ conn.readbuffersize * 2 then maxMessageSize else conn.readbuffersize * 2
  else conn.readbuffersize

/-- The loop of `ReadClient`, until nothing has arrived or the buffer is full. Behind the last byte
of a client that has closed its end, `recv` gives nothing or an error, and the first result is
`false`. -/
def readLoop (recv : Recv) (ended : Bool) (conn : Connection) (pending : List Byte) :
    Bool × Connection × List Byte :=
  if _full : grown conn ≤ conn.readbuffer.length then
    (true, ⟨conn.readbuffer, grown conn⟩, pending)
  else if _nothing : pending = [] then
    (!ended, ⟨conn.readbuffer, grown conn⟩, pending)
  else
    let count := recv.count (grown conn - conn.readbuffer.length) pending
    readLoop recv ended ⟨conn.readbuffer ++ pending.take count, grown conn⟩ (pending.drop count)
termination_by pending.length
decreasing_by
  have pos := recv.pos (Nat.sub_pos_of_lt (not_le.mp _full)) _nothing
  have some_ := List.length_pos_iff.mpr _nothing
  rw [List.length_drop]
  omega

/-- A connection, the bytes that `recv` has not given yet, and the state of the server. -/
structure State (σ : Type) where
  conn : Connection
  pending : List Byte
  /-- The client has closed its end behind these bytes. -/
  ended : Bool
  server : σ
  /-- The server has closed the connection. -/
  del : Bool

/-- The result is negative at the end of what the client sends. Then nothing is parsed. -/
def readClient (recv : Recv) (env : Environment σ δ) (state : State σ) :
    Option (ℤ × State σ) :=
  let read := readLoop recv state.ended state.conn state.pending
  if read.1 then
    (parseBuffer env none read.2.1.readbuffer state.server).map fun result =>
      (0, { state with
        conn := ⟨result.1, read.2.1.readbuffersize⟩
        pending := read.2.2
        server := result.2 })
  else some (-1, { state with conn := read.2.1, pending := read.2.2 })

/-- What the network brings for the next poll of the server. -/
inductive Arrival
  | bytes (arriving : List Byte)
  /-- The client closes its end behind these bytes. -/
  | last (arriving : List Byte)
  /-- `poll` finds an error on the connection. -/
  | error
deriving DecidableEq, Repr

def Arrival.arriving : Arrival → List Byte
  | .bytes arriving => arriving
  | .last arriving => arriving
  | .error => []

/-- There is no way back from a connection that has ended or failed. -/
def Arrival.closes : Arrival → Bool
  | .bytes _ => false
  | .last _ => true
  | .error => true

def State.arrive (arrival : Arrival) (state : State σ) : State σ :=
  { state with
    pending := state.pending ++ arrival.arriving
    ended := state.ended || arrival.closes }

def State.close (env : Environment σ δ) (state : State σ) : State σ :=
  { state with server := env.close state.server, del := true }

/-- One call of `Read`, as far as it is about this client. `poll` reports bytes, and the end of
the stream. -/
def read (recv : Recv) (env : Environment σ δ) (arrival : Arrival) (state : State σ) :
    Option (State σ) :=
  let state := state.arrive arrival
  if state.del then some state
  else if arrival = .error then some (state.close env)
  else if state.pending = [] ∧ ¬ state.ended then some state
  else (readClient recv env state).map fun result =>
    if result.1 < 0 then result.2.close env else result.2

end TcpServer

end MrsOptimization
