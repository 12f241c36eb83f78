import MrsOptimization.Player.PlayerClient

/-!
# The messages that a client understands

`Understands` is the grammar of the messages of the server as the client reads
them. It says for each kind of message which data may stand behind the header,
and what the client knows afterwards. `read` recognizes this grammar: it takes
away exactly one message of it, and whatever it takes away is one.
-/

namespace MrsOptimization

section Reading

theorem recognizes_readFully (buffer : JavaArray Byte) (length : ℕ) :
    Recognizes (readFully buffer length) fun filled text =>
      length ≤ buffer.values.length ∧ text.length = length ∧
        filled.values = text ++ buffer.values.drop length := by
  intro text filled rest
  rw [readFully]
  constructor
  · intro runs
    split at runs
    · next inside =>
        split at runs
        · next enough =>
            cases runs
            exact ⟨text.take length, (List.take_append_drop ..).symm, inside, by simp [enough], rfl⟩
        · cases runs
    · cases runs
  · rintro ⟨front, rfl, inside, rfl, values⟩
    rw [dif_pos inside, if_pos (by simp)]
    simp only [List.take_left, List.drop_left]
    exact congrArg (EStateM.Result.ok · rest) (JavaArray.ext values.symm)

/-- Several bytes in an array of their own. -/
theorem recognizes_readBytes (size : BitVec 32) :
    Recognizes (readBytes size) fun bytes text =>
      bytes.values = text ∧ (text.length : ℤ) = size.toInt := by
  by_cases nonneg : 0 ≤ size.toInt
  · have made : newBuffer size = pure ⟨List.replicate size.toInt.toNat 0, by
        have := size.toInt_lt
        rw [List.length_replicate]
        omega⟩ := by
      rw [newBuffer, JavaArray.ofLength, if_pos nonneg]
      rfl
    rw [readBytes, made, pure_bind]
    apply (recognizes_readFully _ _).of_iff
    intro bytes text
    simp only [List.length_replicate, le_refl, true_and]
    constructor
    · rintro ⟨length, values⟩
      rw [List.drop_of_length_le (by simp), List.append_nil] at values
      exact ⟨values, by omega⟩
    · rintro ⟨rfl, length⟩
      rw [List.drop_of_length_le (by simp), List.append_nil]
      exact ⟨by omega, rfl⟩
  · have fails : readBytes size = throw .negativeArraySize := by
      rw [readBytes, newBuffer, JavaArray.ofLength, if_neg nonneg]
      rfl
    rw [fails]
    apply (Recognizes.throw _).of_iff
    intro bytes text
    constructor
    · intro impossible
      exact impossible.elim
    · rintro ⟨-, length⟩
      omega

/-- So many bytes, from which the program decodes the value. -/
def Field {α : Type} (size : ℕ) (program : TextM α) (value : α) (text : List Byte) : Prop :=
  text.length = size ∧ ∃ left, program text = .ok value left

theorem field_of_reads {α : Type} {program : TextM α} {text : List Byte} {value : α} {n : ℕ}
    (reads : Reads program text value) (length : text.length = n) : Field n program value text := by
  have run := reads []
  rw [List.append_nil] at run
  exact ⟨length, [], run⟩

/-- A program that decodes from a buffer what it decodes from the bytes of the buffer. -/
def DecodesText {α : Type} (program : DecodeM α) (program' : TextM α) : Prop :=
  ∀ data, (XdrBufferDecodingStream.textRelation data).Related program program'

theorem decodeBuffer_eq {α : Type} {program : DecodeM α} {program' : TextM α}
    (related : DecodesText program program') {buffer : JavaArray Byte}
    (whole : buffer.values.length % 4 = 0) :
    decodeBuffer program buffer =
      match program' buffer.values with
      | .ok value _ => pure value
      | .error exception _ => throw (.xdr exception) := by
  have made : XdrBufferDecodingStream.ofBuffer buffer =
      .ok ⟨some buffer, buffer.values.length, 0, -4⟩ := by
    rw [XdrBufferDecodingStream.ofBuffer, XdrBufferDecodingStream.ofData, if_neg (by simp; omega),
      JavaArray.toInt_length]
  rcases XdrBufferDecodingStream.reading_of_begin made (JavaArray.toInt_length buffer).le with
    ⟨begun, begins, state⟩
  rw [JavaArray.toInt_length, Int.toNat_natCast, List.take_length] at state
  have same := related buffer.values begun buffer.values state
  rw [decodeBuffer, made]
  simp only [bind_ok begins]
  cases decodes : program' buffer.values with
  | ok value left =>
      rw [decodes] at same
      rcases same.of_ok with ⟨final, runs, -⟩
      rw [runs]
  | error exception left =>
      rw [decodes] at same
      rcases same.of_error with ⟨final, runs, -⟩
      rw [runs]

theorem recognizes_decodeBuffer {α : Type} {program : DecodeM α} {program' : TextM α}
    (related : DecodesText program program') {buffer : JavaArray Byte}
    (whole : buffer.values.length % 4 = 0) :
    Recognizes (decodeBuffer program buffer) fun value text =>
      (∃ left, program' buffer.values = .ok value left) ∧ text = [] := by
  rw [decodeBuffer_eq related whole]
  cases decodes : program' buffer.values with
  | ok value left =>
      apply (Recognizes.pure value).of_iff
      intro value' text
      simp [eq_comm]
  | error exception left =>
      apply (Recognizes.throw _).of_iff
      simp

/-- A buffer of its own whose size is computed. -/
theorem recognizes_readSized {α : Type} {program : DecodeM α} {program' : TextM α}
    (related : DecodesText program program') {size : BitVec 32} (whole : size.toNat % 4 = 0) :
    Recognizes (readDecoded size program) fun value text =>
      (text.length : ℤ) = size.toInt ∧ ∃ left, program' text = .ok value left := by
  have whole' : size.toInt % 4 = 0 := by
    rw [BitVec.toInt_eq_toNat_cond]
    split <;> omega
  apply ((recognizes_readBytes size).bind fun buffer text filled =>
    recognizes_decodeBuffer related (by rw [filled.1]; omega)).of_iff
  intro value text
  constructor
  · rintro ⟨buffer, front, -, rfl, ⟨rfl, size⟩, decodes, rfl⟩
    rw [List.append_nil]
    exact ⟨size, decodes⟩
  · rintro ⟨sizes, decodes⟩
    have small := size.toInt_lt
    exact ⟨⟨text, by omega⟩, text, [], (List.append_nil _).symm, ⟨rfl, sizes⟩, decodes, rfl⟩

/-- A buffer of its own for some fields. -/
theorem recognizes_readDecoded {α : Type} {program : DecodeM α} {program' : TextM α}
    (related : DecodesText program program') {size : BitVec 32} {n : ℕ} (length : size.toInt = n)
    (whole : n % 4 = 0) :
    Recognizes (readDecoded size program) (Field n program') := by
  have number : size.toNat = n := by
    rw [BitVec.toInt_eq_toNat_cond] at length
    split at length <;> omega
  apply (recognizes_readSized related (by omega)).of_iff
  intro value text
  rw [Field, length, Nat.cast_inj]

end Reading

namespace DecoderRelation

open XdrDecodingStream

variable {m n : Type → Type} [Monad m] [MonadExceptOf XdrException m] [XdrDecodingStream m]
variable [Monad n] [MonadExceptOf XdrException n] [XdrDecodingStream n] (R : DecoderRelation m n)

theorem byte : R.Related xdrDecodeByte xdrDecodeByte :=
  R.scalar .latin1 .byte

theorem short : R.Related xdrDecodeShort xdrDecodeShort :=
  R.scalar .latin1 .short

theorem double : R.Related xdrDecodeDouble xdrDecodeDouble :=
  R.scalar .latin1 .double

theorem devAddr : R.Related decodeDevAddr decodeDevAddr := by
  apply R.bind R.int
  intro host
  apply R.bind R.int
  intro robot
  apply R.bind R.short
  intro interf
  apply R.bind R.short
  intro index
  exact R.pure _

theorem header : R.Related decodeHeader decodeHeader := by
  apply R.bind R.devAddr
  intro addr
  apply R.bind R.byte
  intro type
  apply R.bind R.byte
  intro subtype
  apply R.bind R.double
  intro timestamp
  apply R.bind R.int
  intro seq
  apply R.bind R.int
  intro size
  exact R.pure _

theorem access : R.Related PlayerClient.decodeAccess PlayerClient.decodeAccess := by
  apply R.bind R.byte
  intro access
  apply R.bind R.int
  intro count
  exact R.pure _

theorem pose : R.Related Position2DInterface.decodePose Position2DInterface.decodePose := by
  apply R.bind R.double
  intro px
  apply R.bind R.double
  intro py
  apply R.bind R.double
  intro pa
  exact R.pure _

theorem position2dData : R.Related Position2DInterface.decodeData
    Position2DInterface.decodeData := by
  apply R.bind R.pose
  intro pos
  apply R.bind R.pose
  intro vel
  apply R.bind R.byte
  intro stall
  exact R.pure _

theorem position2dGeom : R.Related Position2DInterface.decodeGeom
    Position2DInterface.decodeGeom := by
  apply R.bind R.pose
  intro position
  apply R.bind R.pose
  intro rotation
  apply R.bind R.pose
  intro size
  exact R.pure _

end DecoderRelation

/-- What the devices read behind the headers of their messages. -/
structure InterfaceGrammar {ι : Type} (interfaces : Interfaces ι) where
  data : ι → PlayerMsgHdr → ι → List Byte → Prop
  response : ι → PlayerMsgHdr → ι → List Byte → Prop
  recognizes_data : ∀ interface header,
    Recognizes (interfaces.readData interface header) (data interface header)
  recognizes_response : ∀ interface header,
    Recognizes (interfaces.handleResponse interface header) (response interface header)

namespace Position2DInterface

/-- A geometry becomes the geometry of the device. -/
def GeomField (state state' : State) (text : List Byte) : Prop :=
  ∃ geom, state' = { state with pp2dgeom := some geom, readyPp2dgeom := true } ∧
    Field 72 decodeGeom geom text

def DataGrammar (state : State) (header : PlayerMsgHdr) (state' : State) (text : List Byte) :
    Prop :=
  if header.subtype = 1 then
    ∃ data, state' = { state with
      timestamp := header.timestamp, pp2ddata := some data, readyPp2ddata := true } ∧
      Field 52 decodeData data text
  else if header.subtype = 2 then
    GeomField { state with timestamp := header.timestamp } state' text
  else state' = state ∧ text = []

def ResponseGrammar (state : State) (header : PlayerMsgHdr) (state' : State)
    (text : List Byte) : Prop :=
  if header.subtype = 1 then GeomField state state' text else state' = state ∧ text = []

theorem recognizes_readGeom (state : State) : Recognizes (readGeom state) (GeomField state) :=
  (recognizes_readDecoded (fun data => (XdrBufferDecodingStream.textRelation data).position2dGeom)
    (by decide : (72 : BitVec 32).toInt = (72 : ℕ)) (by decide)).map _

theorem recognizes_readData (state : State) (header : PlayerMsgHdr) :
    Recognizes (readData state header) (DataGrammar state header) := by
  unfold readData DataGrammar
  by_cases isState : header.subtype = 1
  · simp only [if_pos isState]
    exact (recognizes_readDecoded
      (fun data => (XdrBufferDecodingStream.textRelation data).position2dData)
      (by decide : (52 : BitVec 32).toInt = (52 : ℕ)) (by decide)).map _
  · simp only [if_neg isState]
    by_cases isGeom : header.subtype = 2
    · simp only [if_pos isGeom]
      exact recognizes_readGeom _
    · simp only [if_neg isGeom]
      exact Recognizes.pure state

theorem recognizes_handleResponse (state : State) (header : PlayerMsgHdr) :
    Recognizes (handleResponse state header) (ResponseGrammar state header) := by
  unfold handleResponse ResponseGrammar
  by_cases isGeom : header.subtype = 1
  · simp only [if_pos isGeom]
    exact recognizes_readGeom state
  · simp only [if_neg isGeom]
    exact Recognizes.pure state

def grammar : InterfaceGrammar interfaces where
  data := DataGrammar
  response := ResponseGrammar
  recognizes_data := recognizes_readData
  recognizes_response := recognizes_handleResponse

end Position2DInterface

namespace PlayerClient

variable {ι : Type}

/-- What stands behind a name up to the next multiple of 4. Behind one byte, it does not fit into
the buffer of the name. -/
def Residual (name text : List Byte) : Prop :=
  name.length ≠ 1 ∧ text.length = (4 - name.length % 4) % 4

/-- The data that the first device with the address reads, if there is one. -/
inductive OnDevice (reads : ι → ι → List Byte → Prop) (addr : PlayerDevAddr) :
    List (PlayerDevice ι) → List (PlayerDevice ι) → List Byte → Prop
  | missing : OnDevice reads addr [] [] []
  | first {device : PlayerDevice ι} {rest : List (PlayerDevice ι)} {interface : ι}
      {text : List Byte} (same : device.deviceAddress = addr)
      (field : reads device.interface interface text) :
      OnDevice reads addr (device :: rest) ({ device with interface := interface } :: rest) text
  | later {device : PlayerDevice ι} {rest rest' : List (PlayerDevice ι)} {text : List Byte}
      (other : device.deviceAddress ≠ addr) (reads_ : OnDevice reads addr rest rest' text) :
      OnDevice reads addr (device :: rest) (device :: rest') text

/-- The data of an acknowledgement of the server itself. -/
inductive PlayerResponse (interfaces : Interfaces ι) (client : PlayerClient ι) :
    BitVec 8 → PlayerClient ι → List Byte → Prop
  | deviceList {count : BitVec 32} {addrs : List PlayerDevAddr} {head : List Byte}
      {texts : List (List Byte)} (counts : Field 8 XdrDecodingStream.xdrDecodeInt count head)
      (number : (addrs.length : ℤ) = count.toInt)
      (all : List.Forall₂ (Field devAddrSize decodeDevAddr) addrs texts) :
      PlayerResponse interfaces client 1
        { client with pddlist := some addrs, readyPDDList := true } (head ++ texts.flatten)
  | driverInfo {addr : PlayerDevAddr} {count : BitVec 32} {first head name residual : List Byte}
      (device : Field devAddrSize decodeDevAddr addr first)
      (counts : Field 8 XdrDecodingStream.xdrDecodeInt count head)
      (length : (name.length : ℤ) = count.toInt) (rest : Residual name residual) :
      PlayerResponse interfaces client 2
        { client with pddi := some ⟨addr, name⟩, readyPDDI := true }
        (first ++ (head ++ (name ++ residual)))
  | deviceAccess {addr : PlayerDevAddr} {access : Byte × BitVec 32}
      {first head name residual : List Byte} (device : Field devAddrSize decodeDevAddr addr first)
      (counts : Field 12 decodeAccess access head)
      (length : (name.length : ℤ) = access.2.toInt) (granted : access.1 ≠ errorMode)
      (rest : Residual name residual) :
      PlayerResponse interfaces client 3
        { requestSatisfy interfaces addr access.1 name client with readyRequestDevice := true }
        (first ++ (head ++ (name ++ residual)))
  | authentication : PlayerResponse interfaces client 7
      { client with receivedAuthentication := true } []
  | nameService : PlayerResponse interfaces client 8 { client with readyPortNumber := true } []
  | other {subtype : BitVec 8} (none_ : subtype ∉ ([1, 2, 3, 7, 8] : List (BitVec 8))) :
      PlayerResponse interfaces client subtype client []

/-- The data behind a header that leads from one state of the client to another. -/
inductive Understands {interfaces : Interfaces ι} (grammar : InterfaceGrammar interfaces)
    (client : PlayerClient ι) (header : PlayerMsgHdr) : PlayerClient ι → List Byte → Prop
  | data {deviceList : List (PlayerDevice ι)} {text : List Byte}
      (type : header.type = MsgType.data)
      (device : header.addr.interf ≠ 0 ∧ header.addr.interf ≠ playerCode)
      (reads : OnDevice (grammar.data · header) header.addr client.deviceList deviceList text) :
      Understands grammar client header { client with deviceList := deviceList } text
  | response {deviceList : List (PlayerDevice ι)} {text : List Byte}
      (type : header.type = MsgType.respAck) (device : header.addr.interf ≠ playerCode)
      (reads : OnDevice (grammar.response · header) header.addr client.deviceList deviceList
        text) :
      Understands grammar client header { client with deviceList := deviceList } text
  | player {client' : PlayerClient ι} {text : List Byte} (type : header.type = MsgType.respAck)
      (player : header.addr.interf = playerCode)
      (reads : PlayerResponse interfaces client header.subtype client' text) :
      Understands grammar client header client' text
  | nothing (noData : header.type = MsgType.data →
        header.addr.interf = 0 ∨ header.addr.interf = playerCode)
      (noResponse : header.type ≠ MsgType.respAck) :
      Understands grammar client header client []

theorem recognizes_readDevAddr :
    Recognizes readDevAddr (Field devAddrSize decodeDevAddr) :=
  recognizes_readDecoded (fun data => (XdrBufferDecodingStream.textRelation data).devAddr)
    (by decide) (by decide)

theorem recognizes_readHeader :
    Recognizes readHeader (Field headerSize decodeHeader) :=
  recognizes_readDecoded (fun data => (XdrBufferDecodingStream.textRelation data).header)
    (by decide) (by decide)

theorem recognizes_readCounts :
    Recognizes (readDecoded 8 XdrDecodingStream.xdrDecodeInt)
      (Field 8 XdrDecodingStream.xdrDecodeInt) :=
  recognizes_readDecoded (fun data => (XdrBufferDecodingStream.textRelation data).int)
    (by decide) (by decide)

theorem recognizes_readAccess :
    Recognizes (readDecoded 12 decodeAccess) (Field 12 decodeAccess) :=
  recognizes_readDecoded (fun data => (XdrBufferDecodingStream.textRelation data).access)
    (by decide) (by decide)

theorem recognizes_readResidual (name : JavaArray Byte) :
    Recognizes (readResidual name) fun _ text => Residual name.values text := by
  rw [readResidual]
  split
  · next some_ =>
      apply ((recognizes_readFully name (4 - name.values.length % 4)).map fun _ => ()).of_iff
      intro _ text
      rw [Residual]
      constructor
      · rintro ⟨filled, -, inside, length, -⟩
        omega
      · rintro ⟨several, length⟩
        have inside : 4 - name.values.length % 4 ≤ name.values.length := by omega
        refine ⟨⟨text ++ name.values.drop (4 - name.values.length % 4), ?_⟩, rfl, inside, by omega,
          rfl⟩
        have := name.length_lt
        rw [List.length_append, List.length_drop]
        omega
  · next none_ =>
      apply (Recognizes.pure ()).of_iff
      intro _ text
      rw [Residual]
      constructor
      · rintro ⟨-, rfl⟩
        rw [List.length_nil]
        omega
      · rintro ⟨-, length⟩
        exact ⟨rfl, List.length_eq_zero_iff.mp (by omega)⟩

theorem recognizes_onDevice {reads : ι → ι → List Byte → Prop} {action : ι → ReadM ι}
    (recognizes : ∀ interface, Recognizes (action interface) (reads interface))
    (addr : PlayerDevAddr) (devices : List (PlayerDevice ι)) :
    Recognizes (onDevice addr action devices) (OnDevice reads addr devices) := by
  induction devices with
  | nil =>
      apply (Recognizes.pure []).of_iff
      intro devices text
      constructor
      · rintro ⟨rfl, rfl⟩
        exact .missing
      · rintro ⟨⟩
        exact ⟨rfl, rfl⟩
  | cons device rest ih =>
      rw [onDevice]
      split
      · next same =>
          apply ((recognizes device.interface).map fun interface =>
            ({ device with interface := interface } :: rest : List (PlayerDevice ι))).of_iff
          intro devices text
          constructor
          · rintro ⟨interface, rfl, field⟩
            exact .first same field
          · intro reads
            cases reads with
            | first _ field => exact ⟨_, rfl, field⟩
            | later other _ => exact absurd same other
      · next other =>
          apply (ih.map fun rest => device :: rest).of_iff
          intro devices text
          constructor
          · rintro ⟨rest', rfl, reads⟩
            exact .later other reads
          · intro reads
            cases reads with
            | first same _ => exact absurd same other
            | later _ reads => exact ⟨_, rfl, reads⟩

theorem recognizes_readDeviceList (interfaces : Interfaces ι) (client : PlayerClient ι) :
    Recognizes (readDeviceList client) (PlayerResponse interfaces client 1) := by
  have list : ∀ count : BitVec 32, Recognizes
      (if count.toInt < 0 then throw .negativeArraySize
        else do
          let addrs ← times readDevAddr count.toInt.toNat
          pure { client with pddlist := some addrs.1, readyPDDList := true })
      fun client' text => ∃ addrs texts, client' = { client with
          pddlist := some addrs, readyPDDList := true } ∧ (addrs.length : ℤ) = count.toInt ∧
        List.Forall₂ (Field devAddrSize decodeDevAddr) addrs texts ∧ text = texts.flatten := by
    intro count
    split
    · next negative =>
        apply (Recognizes.throw _).of_iff
        intro client' text
        constructor
        · nofun
        · rintro ⟨addrs, texts, -, number, -⟩
          omega
    · next nonneg =>
        apply ((recognizes_readDevAddr.times count.toInt.toNat).map fun addrs =>
          ({ client with pddlist := some addrs.1, readyPDDList := true } : PlayerClient ι)).of_iff
        intro client' text
        constructor
        · rintro ⟨addrs, rfl, texts, all, rfl⟩
          exact ⟨addrs.1, texts, rfl, by rw [addrs.2]; omega, all, rfl⟩
        · rintro ⟨addrs, texts, rfl, number, all, rfl⟩
          exact ⟨⟨addrs, by omega⟩, rfl, texts, all, rfl⟩
  apply (recognizes_readCounts.bind fun count _ _ => list count).of_iff
  intro client' text
  constructor
  · rintro ⟨count, head, -, rfl, counts, addrs, texts, rfl, number, all, rfl⟩
    exact .deviceList counts number all
  · intro reads
    cases reads with
    | @deviceList count addrs head texts counts number all =>
        exact ⟨count, head, _, rfl, counts, addrs, texts, rfl, number, all, rfl⟩
    | other none_ => exact absurd (by simp) none_

theorem recognizes_readDriverInfo (interfaces : Interfaces ι) (client : PlayerClient ι) :
    Recognizes (readDriverInfo client) (PlayerResponse interfaces client 2) := by
  apply (recognizes_readDevAddr.bind fun addr _ _ => recognizes_readCounts.bind fun count _ _ =>
    (recognizes_readBytes count).bind fun name _ _ =>
      (recognizes_readResidual name).map fun _ =>
        { client with pddi := some ⟨addr, name.values⟩, readyPDDI := true }).of_iff
  intro client' text
  constructor
  · rintro ⟨addr, first, -, rfl, device, count, head, -, rfl, counts, name, -, residual, rfl,
      ⟨rfl, length⟩, -, rfl, rest⟩
    exact .driverInfo device counts length rest
  · intro reads
    cases reads with
    | @driverInfo addr count first head name residual device counts length rest =>
        have small := count.toInt_lt
        exact ⟨addr, first, _, rfl, device, count, head, _, rfl, counts, ⟨name, by omega⟩, name,
          residual, rfl, ⟨rfl, length⟩, (), rfl, rest⟩
    | other none_ => exact absurd (by simp) none_

theorem recognizes_readDeviceAccess (interfaces : Interfaces ι) (client : PlayerClient ι) :
    Recognizes (readDeviceAccess interfaces client) (PlayerResponse interfaces client 3) := by
  have granted : ∀ (addr : PlayerDevAddr) (access : Byte) (name : JavaArray Byte), Recognizes
      (if access = errorMode then throw (.subscribing addr)
        else do
          readResidual name
          pure { requestSatisfy interfaces addr access name.values client with
            readyRequestDevice := true })
      fun client' text => client' = { requestSatisfy interfaces addr access name.values client with
          readyRequestDevice := true } ∧ access ≠ errorMode ∧ Residual name.values text := by
    intro addr access name
    split
    · next refused =>
        apply (Recognizes.throw _).of_iff
        intro client' text
        simp [refused]
    · next granted =>
        apply ((recognizes_readResidual name).map fun _ =>
          ({ requestSatisfy interfaces addr access name.values client with
            readyRequestDevice := true } : PlayerClient ι)).of_iff
        intro client' text
        simp [granted]
  apply (recognizes_readDevAddr.bind fun addr _ _ => recognizes_readAccess.bind fun access _ _ =>
    (recognizes_readBytes access.2).bind fun name _ _ => granted addr access.1 name).of_iff
  intro client' text
  constructor
  · rintro ⟨addr, first, -, rfl, device, access, head, -, rfl, counts, name, -, residual, rfl,
      ⟨rfl, length⟩, rfl, granted, rest⟩
    exact .deviceAccess device counts length granted rest
  · intro reads
    cases reads with
    | @deviceAccess addr access first head name residual device counts length granted rest =>
        have small := access.2.toInt_lt
        exact ⟨addr, first, _, rfl, device, access, head, _, rfl, counts, ⟨name, by omega⟩, name,
          residual, rfl, ⟨rfl, length⟩, rfl, granted, rest⟩
    | other none_ => exact absurd (by simp) none_

theorem recognizes_readPlayerResponse (interfaces : Interfaces ι) (subtype : BitVec 8)
    (client : PlayerClient ι) :
    Recognizes (readPlayerResponse interfaces subtype client)
      (PlayerResponse interfaces client subtype) := by
  rw [readPlayerResponse]
  split
  · next same =>
      subst same
      exact recognizes_readDeviceList interfaces client
  split
  · next same =>
      subst same
      exact recognizes_readDriverInfo interfaces client
  split
  · next same =>
      subst same
      exact recognizes_readDeviceAccess interfaces client
  split
  · next same =>
      subst same
      apply (Recognizes.pure _).of_iff
      intro client' text
      constructor
      · rintro ⟨rfl, rfl⟩
        exact .authentication
      · intro reads
        cases reads with
        | authentication => exact ⟨rfl, rfl⟩
        | other none_ => exact absurd (by simp) none_
  split
  · next same =>
      subst same
      apply (Recognizes.pure _).of_iff
      intro client' text
      constructor
      · rintro ⟨rfl, rfl⟩
        exact .nameService
      · intro reads
        cases reads with
        | nameService => exact ⟨rfl, rfl⟩
        | other none_ => exact absurd (by simp) none_
  · next no1 no2 no3 no7 no8 =>
      apply (Recognizes.pure _).of_iff
      intro client' text
      constructor
      · rintro ⟨rfl, rfl⟩
        apply PlayerResponse.other
        simp only [List.mem_cons, List.not_mem_nil, or_false, not_or]
        exact ⟨no1, no2, no3, no7, no8⟩
      · intro reads
        cases reads with
        | other _ => exact ⟨rfl, rfl⟩
        | _ => contradiction

theorem recognizes_readData {interfaces : Interfaces ι} (grammar : InterfaceGrammar interfaces)
    (header : PlayerMsgHdr) (client : PlayerClient ι) :
    Recognizes (readData interfaces header client) (Understands grammar client header) := by
  rw [readData]
  split
  · next isData =>
      apply ((recognizes_onDevice (fun interface => grammar.recognizes_data interface header)
        header.addr client.deviceList).map fun deviceList =>
          ({ client with deviceList := deviceList } : PlayerClient ι)).of_iff
      intro client' text
      constructor
      · rintro ⟨deviceList, rfl, reads⟩
        exact .data isData.1 isData.2 reads
      · intro reads
        cases reads with
        | data _ _ reads => exact ⟨_, rfl, reads⟩
        | response type _ _ => exact absurd (isData.1.symm.trans type) (by decide)
        | player type _ _ => exact absurd (isData.1.symm.trans type) (by decide)
        | nothing noData _ =>
            rcases noData isData.1 with no | player
            · exact absurd no isData.2.1
            · exact absurd player isData.2.2
  split
  · next isResponse =>
      have noData : header.type ≠ MsgType.data := by
        rw [isResponse]
        decide
      split
      · next device =>
          apply ((recognizes_onDevice
            (fun interface => grammar.recognizes_response interface header)
            header.addr client.deviceList).map fun deviceList =>
              ({ client with deviceList := deviceList } : PlayerClient ι)).of_iff
          intro client' text
          constructor
          · rintro ⟨deviceList, rfl, reads⟩
            exact .response isResponse device reads
          · intro reads
            cases reads with
            | data type _ _ => exact absurd type noData
            | response _ _ reads => exact ⟨_, rfl, reads⟩
            | player _ player _ => exact absurd player device
            | nothing _ noResponse => exact absurd isResponse noResponse
      · next player =>
          apply (recognizes_readPlayerResponse interfaces header.subtype client).of_iff
          intro client' text
          constructor
          · exact .player isResponse (not_not.mp player)
          · intro reads
            cases reads with
            | data type _ _ => exact absurd type noData
            | response _ device _ => exact absurd device player
            | player _ _ reads => exact reads
            | nothing _ noResponse => exact absurd isResponse noResponse
  · next noData noResponse =>
      apply (Recognizes.pure client).of_iff
      intro client' text
      constructor
      · rintro ⟨rfl, rfl⟩
        apply Understands.nothing _ noResponse
        intro isData
        by_contra neither
        rw [not_or] at neither
        exact noData ⟨isData, neither⟩
      · intro reads
        cases reads with
        | data type device _ => exact absurd ⟨type, device⟩ noData
        | response type _ _ => exact absurd type noResponse
        | player type _ _ => exact absurd type noResponse
        | nothing _ _ => exact ⟨rfl, rfl⟩

/-- A header and data that the client understands behind it. -/
def UnderstandsMessage {interfaces : Interfaces ι} (grammar : InterfaceGrammar interfaces)
    (client : PlayerClient ι) (result : PlayerClient ι × PlayerMsgHdr) (text : List Byte) : Prop :=
  ∃ header payload, text = header ++ payload ∧ Field headerSize decodeHeader result.2 header ∧
    Understands grammar client result.2 result.1 payload

theorem recognizes_read {interfaces : Interfaces ι} (grammar : InterfaceGrammar interfaces)
    (client : PlayerClient ι) :
    Recognizes (read interfaces client) (UnderstandsMessage grammar client) := by
  apply (recognizes_readHeader.bind fun header _ _ =>
    (recognizes_readData grammar header client).map fun client' => (client', header)).of_iff
  intro result text
  constructor
  · rintro ⟨header, front, payload, rfl, field, client', rfl, understands⟩
    exact ⟨front, payload, rfl, field, understands⟩
  · rintro ⟨front, payload, rfl, field, understands⟩
    exact ⟨result.2, front, payload, rfl, field, result.1, rfl, understands⟩

/-- Several calls of `read` -/
def readMessages (interfaces : Interfaces ι) :
    ℕ → PlayerClient ι → ReadM (PlayerClient ι × List PlayerMsgHdr)
  | 0, client => pure (client, [])
  | n + 1, client => do
      let first ← read interfaces client
      let rest ← readMessages interfaces n first.1
      pure (rest.1, first.2 :: rest.2)

/-- Messages one behind the other, each of them for the client as the last one left it. -/
inductive UnderstandsAll {interfaces : Interfaces ι} (grammar : InterfaceGrammar interfaces) :
    PlayerClient ι → PlayerClient ι × List PlayerMsgHdr → List (List Byte) → Prop
  | none (client : PlayerClient ι) : UnderstandsAll grammar client (client, []) []
  | next {client : PlayerClient ι} {first : PlayerClient ι × PlayerMsgHdr} {text : List Byte}
      {final : PlayerClient ι × List PlayerMsgHdr} {texts : List (List Byte)}
      (message : UnderstandsMessage grammar client first text)
      (later : UnderstandsAll grammar first.1 final texts) :
      UnderstandsAll grammar client (final.1, first.2 :: final.2) (text :: texts)

/-- The client stays in step with the server as long as it understands the messages, and no
longer: `n` calls of `read` take away `n` messages that it understands. -/
theorem recognizes_readMessages {interfaces : Interfaces ι}
    (grammar : InterfaceGrammar interfaces) (n : ℕ) (client : PlayerClient ι) :
    Recognizes (readMessages interfaces n client) fun result text =>
      ∃ texts, texts.length = n ∧ text = texts.flatten ∧
        UnderstandsAll grammar client result texts := by
  induction n generalizing client with
  | zero =>
      apply (Recognizes.pure _).of_iff
      intro result text
      constructor
      · rintro ⟨rfl, rfl⟩
        exact ⟨[], rfl, rfl, .none client⟩
      · rintro ⟨texts, none_, rfl, all⟩
        cases all with
        | none => exact ⟨rfl, rfl⟩
        | next _ _ => cases none_
  | succ n ih =>
      apply ((recognizes_read grammar client).bind fun first _ _ => (ih first.1).map fun rest =>
        (rest.1, first.2 :: rest.2)).of_iff
      intro result text
      constructor
      · rintro ⟨first, front, -, rfl, message, rest, rfl, texts, rfl, rfl, later⟩
        exact ⟨front :: texts, rfl, rfl, .next message later⟩
      · rintro ⟨texts, length, rfl, all⟩
        cases all with
        | none => cases length
        | @next _ first front final texts message later =>
            exact ⟨first, front, texts.flatten, rfl, message, final, rfl, texts,
              Nat.succ.inj length, rfl, later⟩

end PlayerClient

end MrsOptimization
