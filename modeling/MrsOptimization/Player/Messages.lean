import Mathlib.Data.BitVec

/-!
# Player messages

A message is a header and, if the header announces bytes, as many bytes of data.
The client library and the server share this.
-/

namespace MrsOptimization

/-- `player_devaddr_t` -/
structure PlayerDevAddr where
  host : BitVec 32
  robot : BitVec 32
  interf : BitVec 16
  index : BitVec 16
deriving DecidableEq, Repr

/-- `PLAYER_PLAYER_CODE` -/
def playerCode : BitVec 16 :=
  1

/-- `PLAYER_MSGTYPE_DATA` and the other message types -/
def MsgType.data : BitVec 8 :=
  1

def MsgType.cmd : BitVec 8 :=
  2

def MsgType.req : BitVec 8 :=
  3

def MsgType.respAck : BitVec 8 :=
  4

def MsgType.synch : BitVec 8 :=
  5

def MsgType.respNack : BitVec 8 :=
  6

/-- `player_msghdr_t` -/
structure PlayerMsgHdr where
  addr : PlayerDevAddr
  type : BitVec 8
  subtype : BitVec 8
  /-- The bits of a `double` -/
  timestamp : BitVec 64
  seq : BitVec 32
  size : BitVec 32
deriving DecidableEq, Repr

/-- The fields of a header that `MatchMessage` compares. -/
structure Signature where
  addr : PlayerDevAddr
  type : BitVec 8
  subtype : BitVec 8
deriving DecidableEq, Repr

namespace Signature

def IsResponse (hdr : Signature) : Prop :=
  hdr.type = MsgType.respNack ∨ hdr.type = MsgType.respAck

def IsDataOrCommand (hdr : Signature) : Prop :=
  hdr.type = MsgType.data ∨ hdr.type = MsgType.cmd

instance (hdr : Signature) : Decidable hdr.IsResponse :=
  inferInstanceAs (Decidable (_ ∨ _))

instance (hdr : Signature) : Decidable hdr.IsDataOrCommand :=
  inferInstanceAs (Decidable (_ ∨ _))

theorem IsDataOrCommand.not_answer {hdr : Signature} (news : hdr.IsDataOrCommand) :
    ¬ (hdr.type = MsgType.req ∨ hdr.IsResponse) := by
  rcases news with same | same <;> rw [IsResponse, same] <;> decide

end Signature

end MrsOptimization
