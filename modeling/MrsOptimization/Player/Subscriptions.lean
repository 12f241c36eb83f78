import Mathlib.Algebra.BigOperators.Group.Finset.Basic
import Mathlib.Data.Fintype.Basic

/-!
# Subscriptions to a driver

A driver may have several devices. Each of them has a list of the queues that are
subscribed, with free places in it, and the driver counts the subscriptions of all
devices. It is set up for the first one and shut down after the last one.
-/

namespace MrsOptimization

namespace PlayerCore

variable {D Q : Type}

/-- A driver and the queues of its devices. `none` is a place with `NULL`. The last two fields
count the calls of `Setup` that succeed and the calls of `Shutdown`. -/
structure Driver (D Q : Type) where
  queues : D → List (Option Q)
  subscriptions : ℕ
  setups : ℕ
  shutdowns : ℕ

namespace Driver

section Counting

/-- Every device has room for two queues. -/
def new : Driver D Q :=
  ⟨fun _ => [none, none], 0, 0, 0⟩

/-- `Driver::Subscribe`, where `setup` is what `Setup` returns. -/
def subscribe (setup : ℤ) (driver : Driver D Q) : ℤ × Driver D Q :=
  if driver.subscriptions = 0 then
    if setup = 0 then
      (0, { driver with subscriptions := driver.subscriptions + 1, setups := driver.setups + 1 })
    else (setup, driver)
  else (0, { driver with subscriptions := driver.subscriptions + 1 })

/-- `Driver::Unsubscribe`, where `shutdown` is what `Shutdown` returns. -/
def unsubscribe (shutdown : ℤ) (driver : Driver D Q) : ℤ × Driver D Q :=
  if driver.subscriptions = 0 then (-1, driver)
  else if driver.subscriptions = 1 then
    (shutdown, { driver with subscriptions := 0, shutdowns := driver.shutdowns + 1 })
  else (0, { driver with subscriptions := driver.subscriptions - 1 })

/-- What holds of a driver at any time. -/
structure Sound (driver : Driver D Q) : Prop where
  room : ∀ device, driver.queues device ≠ []
  setups : driver.setups = driver.shutdowns + if driver.subscriptions = 0 then 0 else 1

theorem sound_new : (new : Driver D Q).Sound :=
  ⟨fun _ => List.cons_ne_nil _ _, rfl⟩

/-- Either `Setup` fails, or the driver counts one more subscription. -/
theorem subscribe_cases (driver : Driver D Q) (setup : ℤ) :
    (setup ≠ 0 ∧ driver.subscribe setup = (setup, driver)) ∨
      ∃ counted, driver.subscribe setup = (0, counted) ∧ counted.queues = driver.queues ∧
        counted.subscriptions = driver.subscriptions + 1 ∧ (driver.Sound → counted.Sound) := by
  rw [subscribe]
  split
  · next none_ =>
      split
      · refine Or.inr ⟨_, rfl, rfl, rfl, fun sound => ⟨sound.room, ?_⟩⟩
        have setups := sound.setups
        simp only [none_, if_true] at setups ⊢
        simp [setups]
      · next fails => exact Or.inl ⟨fails, rfl⟩
  · next some_ =>
      refine Or.inr ⟨_, rfl, rfl, rfl, fun sound => ⟨sound.room, ?_⟩⟩
      have setups := sound.setups
      rw [if_neg some_] at setups
      simpa using setups

/-- Either the driver counts nothing, or it counts one subscription less. -/
theorem unsubscribe_cases (driver : Driver D Q) (shutdown : ℤ) :
    (driver.subscriptions = 0 ∧ driver.unsubscribe shutdown = (-1, driver)) ∨
      (driver.subscriptions ≠ 0 ∧ ∃ counted, driver.unsubscribe shutdown =
          (if driver.subscriptions = 1 then shutdown else 0, counted) ∧
        counted.queues = driver.queues ∧ counted.subscriptions + 1 = driver.subscriptions ∧
        (driver.Sound → counted.Sound)) := by
  rw [unsubscribe]
  split
  · next none_ => exact Or.inl ⟨none_, rfl⟩
  · next some_ =>
      refine Or.inr ⟨some_, ?_⟩
      split
      · next one =>
          refine ⟨_, rfl, rfl, one.symm, fun sound => ⟨sound.room, ?_⟩⟩
          have setups := sound.setups
          rw [if_neg some_] at setups
          simpa using setups
      · next several =>
          refine ⟨_, rfl, rfl, by simp only; omega, fun sound => ⟨sound.room, ?_⟩⟩
          have setups := sound.setups
          have left : driver.subscriptions - 1 ≠ 0 := by omega
          rw [if_neg some_] at setups
          simpa only [if_neg left] using setups

end Counting

section Places

variable [DecidableEq Q]

/-- The list is doubled if there is no free place. -/
def withRoom (queues : List (Option Q)) : List (Option Q) :=
  if none ∈ queues then queues else queues ++ List.replicate queues.length none

/-- The first place with a value gets another one. -/
def replaceFirst (old new : Option Q) : List (Option Q) → List (Option Q)
  | [] => []
  | queue :: rest => if queue = old then new :: rest else queue :: replaceFirst old new rest

/-- The places that are taken. -/
def taken (queues : List (Option Q)) : ℕ :=
  queues.countP Option.isSome

theorem none_mem_withRoom {queues : List (Option Q)} (some_ : queues ≠ []) :
    none ∈ withRoom queues := by
  rw [withRoom]
  split
  · next free => exact free
  · apply List.mem_append_right
    rw [List.mem_replicate]
    exact ⟨by simpa using some_, rfl⟩

theorem withRoom_ne_nil {queues : List (Option Q)} (some_ : queues ≠ []) :
    withRoom queues ≠ [] :=
  List.ne_nil_of_mem (none_mem_withRoom some_)

theorem replaceFirst_ne_nil {old new : Option Q} {queues : List (Option Q)} (some_ : queues ≠ []) :
    replaceFirst old new queues ≠ [] := by
  cases queues with
  | nil => exact absurd rfl some_
  | cons queue rest =>
      rw [replaceFirst]
      split <;> exact List.cons_ne_nil _ _

theorem countP_replaceFirst (p : Option Q → Bool) {old : Option Q} {queues : List (Option Q)}
    (member : old ∈ queues) (new : Option Q) :
    (replaceFirst old new queues).countP p + (if p old then 1 else 0) =
      queues.countP p + if p new then 1 else 0 := by
  induction queues with
  | nil => cases member
  | cons queue rest ih =>
      rw [replaceFirst]
      split
      · next same =>
          rw [List.countP_cons, List.countP_cons, same]
          omega
      · next other =>
          have later : old ∈ rest := by simpa [Ne.symm other] using member
          have same := ih later
          rw [List.countP_cons, List.countP_cons]
          omega

theorem taken_withRoom (queues : List (Option Q)) : taken (withRoom queues) = taken queues := by
  rw [withRoom]
  split
  · rfl
  · simp [taken, List.countP_append, List.countP_replicate]

theorem taken_replaceFirst {old : Option Q} {queues : List (Option Q)} (member : old ∈ queues)
    (new : Option Q) :
    taken (replaceFirst old new queues) + (if old.isSome then 1 else 0) =
      taken queues + if new.isSome then 1 else 0 :=
  countP_replaceFirst Option.isSome member new

end Places

section Devices

variable [DecidableEq D]

def setQueues (device : D) (queues : List (Option Q)) (driver : Driver D Q) : Driver D Q :=
  { driver with queues := Function.update driver.queues device queues }

@[simp]
theorem queues_setQueues_self (driver : Driver D Q) (device : D) (queues : List (Option Q)) :
    (driver.setQueues device queues).queues device = queues :=
  Function.update_self ..

theorem queues_setQueues_of_ne (driver : Driver D Q) {device other : D}
    (different : other ≠ device) (queues : List (Option Q)) :
    (driver.setQueues device queues).queues other = driver.queues other :=
  Function.update_of_ne different ..

theorem Sound.setQueues {driver : Driver D Q} (sound : driver.Sound) {device : D}
    {queues : List (Option Q)} (some_ : queues ≠ []) : (driver.setQueues device queues).Sound := by
  refine ⟨fun other => ?_, sound.setups⟩
  by_cases same : other = device
  · rw [same, queues_setQueues_self]
    exact some_
  · rw [queues_setQueues_of_ne driver same]
    exact sound.room other

variable [DecidableEq Q]

/-- `Device::Subscribe` -/
def subscribeDevice (device : D) (queue : Q) (setup : ℤ) (driver : Driver D Q) :
    ℤ × Driver D Q :=
  let room := withRoom (driver.queues device)
  let result := driver.subscribe setup
  if result.1 ≠ 0 then (result.1, result.2.setQueues device room)
  else (0, result.2.setQueues device (replaceFirst none (some queue) room))

/-- `Device::Unsubscribe` -/
def unsubscribeDevice (device : D) (queue : Q) (shutdown : ℤ) (driver : Driver D Q) :
    ℤ × Driver D Q :=
  let result := driver.unsubscribe shutdown
  if result.1 ≠ 0 then result
  else if some queue ∈ driver.queues device then
    (0, result.2.setQueues device (replaceFirst (some queue) none (driver.queues device)))
  else (-1, result.2)

end Devices

end Driver

/-- Somebody subscribes to a device or unsubscribes from it, and `Setup` or `Shutdown` return a
number if they are called. -/
inductive SubscriptionEvent (D Q : Type)
  | subscribe (device : D) (queue : Q) (setup : ℤ)
  | unsubscribe (device : D) (queue : Q) (shutdown : ℤ)

namespace Driver

variable [DecidableEq D] [DecidableEq Q]

def react (event : SubscriptionEvent D Q) (driver : Driver D Q) : Driver D Q :=
  match event with
  | .subscribe device queue setup => (driver.subscribeDevice device queue setup).2
  | .unsubscribe device queue shutdown => (driver.unsubscribeDevice device queue shutdown).2

/-- Several calls, one after the other. -/
def run (events : List (SubscriptionEvent D Q)) (driver : Driver D Q) : Driver D Q :=
  events.foldl (fun driver event => driver.react event) driver

theorem run_append (first rest : List (SubscriptionEvent D Q)) (driver : Driver D Q) :
    run (first ++ rest) driver = run rest (run first driver) :=
  List.foldl_append

section Balance

/-- A call that the driver counts, although no queue is taken out of a list: somebody was not
subscribed, or `Shutdown` has failed. -/
def Stray (event : SubscriptionEvent D Q) (driver : Driver D Q) : Prop :=
  match event with
  | .subscribe _ _ _ => False
  | .unsubscribe device queue shutdown => driver.subscriptions ≠ 0 ∧
      (some queue ∈ driver.queues device → driver.subscriptions = 1 ∧ shutdown ≠ 0)

instance (event : SubscriptionEvent D Q) (driver : Driver D Q) : Decidable (Stray event driver) :=
  match event with
  | .subscribe _ _ _ => inferInstanceAs (Decidable False)
  | .unsubscribe _ _ _ => inferInstanceAs (Decidable (_ ∧ _))

/-- The number of such calls in a run. -/
def strays : List (SubscriptionEvent D Q) → Driver D Q → ℕ
  | [], _ => 0
  | event :: rest, driver =>
    (if Stray event driver then 1 else 0) + strays rest (driver.react event)

variable [Fintype D]

/-- The subscriptions that the devices know of. -/
def subscribed (driver : Driver D Q) : ℕ :=
  ∑ device, taken (driver.queues device)

omit [DecidableEq D] [DecidableEq Q] in
theorem subscribed_new : (new : Driver D Q).subscribed = 0 := by
  simp [subscribed, new, taken]

omit [DecidableEq Q] in
theorem subscribed_setQueues (driver : Driver D Q) (device : D) (queues : List (Option Q)) :
    (driver.setQueues device queues).subscribed + taken (driver.queues device) =
      driver.subscribed + taken queues := by
  have update : ∀ driver : Driver D Q, driver.subscribed =
      taken (driver.queues device) +
        ∑ other ∈ Finset.univ.erase device, taken (driver.queues other) :=
    fun driver => (Finset.add_sum_erase _ _ (Finset.mem_univ device)).symm
  have others : ∑ other ∈ Finset.univ.erase device,
      taken ((driver.setQueues device queues).queues other) =
        ∑ other ∈ Finset.univ.erase device, taken (driver.queues other) := by
    apply Finset.sum_congr rfl
    intro other member
    rw [queues_setQueues_of_ne driver (Finset.ne_of_mem_erase member)]
  rw [update (driver.setQueues device queues), others, update driver, queues_setQueues_self]
  omega

/-- One place gets another value, after the driver has counted. -/
theorem subscribed_replaceFirst {driver counted : Driver D Q}
    (queues : counted.queues = driver.queues) {device : D} {places : List (Option Q)}
    (same : taken places = taken (driver.queues device)) {old : Option Q}
    (member : old ∈ places) (new : Option Q) :
    (counted.setQueues device (replaceFirst old new places)).subscribed +
        (if old.isSome then 1 else 0) = driver.subscribed + if new.isSome then 1 else 0 := by
  have replaced := taken_replaceFirst member new
  have balance := subscribed_setQueues counted device (replaceFirst old new places)
  have known : counted.subscribed = driver.subscribed := by rw [subscribed, queues]; rfl
  rw [queues, known] at balance
  omega

theorem subscribeDevice_balance {driver : Driver D Q} (sound : driver.Sound) (device : D)
    (queue : Q) (setup : ℤ) :
    (driver.subscribeDevice device queue setup).2.Sound ∧
      (driver.subscribeDevice device queue setup).2.subscribed + driver.subscriptions =
        driver.subscribed + (driver.subscribeDevice device queue setup).2.subscriptions := by
  have some_ := sound.room device
  rw [subscribeDevice]
  rcases driver.subscribe_cases setup with
    ⟨fails, result⟩ | ⟨counted, result, queues, count, sound'⟩
  · have balance := subscribed_setQueues driver device (withRoom (driver.queues device))
    rw [taken_withRoom] at balance
    simp only [result, if_pos fails]
    refine ⟨sound.setQueues (withRoom_ne_nil some_), ?_⟩
    have same : (driver.setQueues device (withRoom (driver.queues device))).subscriptions =
      driver.subscriptions := rfl
    omega
  · have balance := subscribed_replaceFirst queues (taken_withRoom (driver.queues device))
      (none_mem_withRoom some_) (some queue)
    simp only [result, ne_eq, not_true_eq_false, if_false]
    refine ⟨(sound' sound).setQueues (replaceFirst_ne_nil (withRoom_ne_nil some_)), ?_⟩
    have same : (counted.setQueues device
      (replaceFirst none (some queue) (withRoom (driver.queues device)))).subscriptions =
        driver.subscriptions + 1 := count
    simp only [Option.isSome_none, Option.isSome_some, if_true, Bool.false_eq_true,
      if_false] at balance
    omega

/-- The call is a stray one if it is counted and the lists stay as they are. -/
theorem unsubscribeDevice_balance {driver : Driver D Q} (sound : driver.Sound) (device : D)
    (queue : Q) (shutdown : ℤ) :
    (driver.unsubscribeDevice device queue shutdown).2.Sound ∧
      (driver.unsubscribeDevice device queue shutdown).2.subscribed + driver.subscriptions =
        driver.subscribed + (driver.unsubscribeDevice device queue shutdown).2.subscriptions +
          if Stray (.unsubscribe device queue shutdown) driver then 1 else 0 := by
  rw [unsubscribeDevice]
  rcases driver.unsubscribe_cases shutdown with
    ⟨none_, result⟩ | ⟨several, counted, result, queues, count, sound'⟩
  · have balanced : ¬ Stray (.unsubscribe device queue shutdown) driver :=
      fun stray => stray.1 none_
    rw [if_neg balanced, result]
    exact ⟨sound, rfl⟩
  · have known : counted.subscribed = driver.subscribed := by rw [subscribed, queues]; rfl
    simp only [result]
    by_cases fails : (if driver.subscriptions = 1 then shutdown else 0) ≠ 0
    · have last : driver.subscriptions = 1 ∧ shutdown ≠ 0 := by
        by_cases one : driver.subscriptions = 1
        · exact ⟨one, by simpa [one] using fails⟩
        · simp [one] at fails
      have stray : Stray (.unsubscribe device queue shutdown) driver := ⟨several, fun _ => last⟩
      rw [if_pos fails, if_pos stray]
      simp only
      exact ⟨sound' sound, by omega⟩
    rw [if_neg fails]
    by_cases member : some queue ∈ driver.queues device
    · have balanced : ¬ Stray (.unsubscribe device queue shutdown) driver := by
        intro stray
        rcases stray.2 member with ⟨one, fails'⟩
        rw [if_pos one] at fails
        exact fails fails'
      have balance := subscribed_replaceFirst queues rfl member none
      rw [if_neg balanced, if_pos member]
      refine ⟨(sound' sound).setQueues (replaceFirst_ne_nil (sound.room device)), ?_⟩
      have same : (counted.setQueues device
        (replaceFirst (some queue) none (driver.queues device))).subscriptions =
          counted.subscriptions := rfl
      simp only [Option.isSome_none, Option.isSome_some, if_true, Bool.false_eq_true,
        if_false] at balance ⊢
      omega
    · have stray : Stray (.unsubscribe device queue shutdown) driver :=
        ⟨several, fun own => absurd own member⟩
      rw [if_neg member, if_pos stray]
      simp only
      exact ⟨sound' sound, by omega⟩

/-- One call keeps the balance, unless it is a stray one. -/
theorem react_balance {driver : Driver D Q} (sound : driver.Sound)
    (event : SubscriptionEvent D Q) :
    (driver.react event).Sound ∧ (driver.react event).subscribed + driver.subscriptions =
      driver.subscribed + (driver.react event).subscriptions +
        if Stray event driver then 1 else 0 := by
  cases event with
  | subscribe device queue setup =>
      rw [if_neg (show ¬ Stray (.subscribe device queue setup) driver from id)]
      exact subscribeDevice_balance sound device queue setup
  | unsubscribe device queue shutdown =>
      exact unsubscribeDevice_balance sound device queue shutdown

theorem run_balance (events : List (SubscriptionEvent D Q)) {driver : Driver D Q}
    (sound : driver.Sound) {k : ℕ} (known : driver.subscribed = driver.subscriptions + k) :
    (run events driver).subscribed =
        (run events driver).subscriptions + (k + strays events driver) ∧
      (run events driver).Sound := by
  induction events generalizing driver k with
  | nil => exact ⟨known, sound⟩
  | cons event rest ih =>
      rcases react_balance sound event with ⟨sound', balance⟩
      have known' : (driver.react event).subscribed = (driver.react event).subscriptions +
          (k + if Stray event driver then 1 else 0) := by omega
      rcases ih sound' known' with ⟨result, final⟩
      rw [Nat.add_assoc k] at result
      exact ⟨result, final⟩

/-- In every run, the devices know of the subscriptions that the driver counts and of one more for
every stray call, and the driver is set up as long as it counts some. -/
theorem subscriptions_balance (events : List (SubscriptionEvent D Q)) :
    (run events new).subscribed =
        (run events new).subscriptions + strays events (new : Driver D Q) ∧
      (run events (new : Driver D Q)).setups = (run events (new : Driver D Q)).shutdowns +
        if (run events (new : Driver D Q)).subscriptions = 0 then 0 else 1 := by
  rcases run_balance events sound_new (k := 0) subscribed_new with
    ⟨balance, sound⟩
  exact ⟨by simpa using balance, sound.setups⟩

end Balance

section Foreign

/-- A queue that is not subscribed only takes the count down. -/
theorem react_foreign {driver : Driver D Q} {device : D} {queue : Q}
    (foreign : some queue ∉ driver.queues device) :
    (driver.react (.unsubscribe device queue 0)).queues = driver.queues ∧
      (driver.react (.unsubscribe device queue 0)).subscriptions = driver.subscriptions - 1 := by
  rw [react, unsubscribeDevice]
  rcases driver.unsubscribe_cases 0 with
    ⟨none_, result⟩ | ⟨several, counted, result, queues, count, -⟩
  · simp [result, none_]
  · simp only [result, ite_self, ne_eq, not_true_eq_false, if_false, if_neg foreign]
    exact ⟨queues, by omega⟩

theorem run_foreign (n : ℕ) {driver : Driver D Q} {device : D} {queue : Q}
    (foreign : some queue ∉ driver.queues device) :
    (run (List.replicate n (.unsubscribe device queue 0)) driver).queues = driver.queues ∧
      (run (List.replicate n (.unsubscribe device queue 0)) driver).subscriptions =
        driver.subscriptions - n := by
  induction n generalizing driver with
  | zero => exact ⟨rfl, rfl⟩
  | succ n ih =>
      rcases react_foreign foreign with ⟨queues, count⟩
      have foreign' : some queue ∉ (driver.react (.unsubscribe device queue 0)).queues device := by
        rw [queues]
        exact foreign
      rcases ih foreign' with ⟨queues', count'⟩
      rw [List.replicate_succ]
      refine ⟨queues'.trans queues, ?_⟩
      have whole := count'
      rw [count] at whole
      exact whole.trans (by omega)

variable [Fintype D]

/-- Somebody who is not subscribed can shut the driver down for all others. -/
theorem foreign_shuts_down {events : List (SubscriptionEvent D Q)} {device : D} {queue : Q}
    (balanced : strays events (new : Driver D Q) = 0)
    (foreign : some queue ∉ (run events new).queues device) :
    (run (events ++ List.replicate (run events (new : Driver D Q)).subscribed
          (.unsubscribe device queue 0)) new).queues = (run events new).queues ∧
      (run (events ++ List.replicate (run events (new : Driver D Q)).subscribed
          (.unsubscribe device queue 0)) (new : Driver D Q)).setups =
        (run (events ++ List.replicate (run events (new : Driver D Q)).subscribed
          (.unsubscribe device queue 0)) (new : Driver D Q)).shutdowns := by
  rcases run_balance events sound_new (k := 0) subscribed_new with
    ⟨balance, sound⟩
  rw [balanced, Nat.add_zero] at balance
  rcases run_foreign (run events (new : Driver D Q)).subscribed foreign with ⟨queues, count⟩
  rw [balance, Nat.sub_self] at count
  rcases run_balance (List.replicate (run events (new : Driver D Q)).subscribed
    (.unsubscribe device queue 0)) sound (k := 0) balance with ⟨-, sound'⟩
  have setups := sound'.setups
  rw [balance, count] at setups
  rw [run_append, balance]
  rw [balance] at queues
  exact ⟨queues, setups⟩

theorem foreign_shuts_down_one :
    (run [.subscribe () 0 0, .unsubscribe () 1 0] (new : Driver Unit ℕ)).queues =
        (run [.subscribe () 0 0] new).queues ∧
      (run [.subscribe () 0 0, .unsubscribe () 1 0] (new : Driver Unit ℕ)).setups =
        (run [.subscribe () 0 0, .unsubscribe () 1 0] (new : Driver Unit ℕ)).shutdowns :=
  @foreign_shuts_down Unit ℕ _ _ _ [.subscribe () 0 0] () 1 (by decide) (by decide)

end Foreign

end Driver

end PlayerCore

end MrsOptimization
