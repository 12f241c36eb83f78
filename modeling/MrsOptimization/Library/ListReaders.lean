import Mathlib.Data.List.Forall2
import MrsOptimization.Library.MonadRelation

/-!
# Programs that read a list

The state of such a program is the list that is left. `Reads program text value`
says that the program takes exactly the text away, whatever follows it, and
returns the value.
-/

namespace MrsOptimization

variable {ε : Type} {β α γ : Type}

def Reads (program : EStateM ε (List β) α) (text : List β) (value : α) : Prop :=
  ∀ rest, program (text ++ rest) = .ok value rest

namespace Reads

theorem pure (value : α) : Reads (Pure.pure value : EStateM ε (List β) α) [] value :=
  fun _ => rfl

theorem bind {first : EStateM ε (List β) α} {next : α → EStateM ε (List β) γ}
    {text text' : List β} {value : α} {value' : γ} (reads : Reads first text value)
    (reads' : Reads (next value) text' value') : Reads (first >>= next) (text ++ text') value' := by
  intro rest
  rw [List.append_assoc, bind_ok (reads (text' ++ rest))]
  exact reads' rest

/-- A program that ends by computing a value. -/
theorem map {first : EStateM ε (List β) α} {text : List β} {value : α}
    (reads : Reads first text value) (f : α → γ) :
    Reads (first >>= fun value => Pure.pure (f value)) text (f value) := by
  intro rest
  rw [bind_ok (reads rest)]
  rfl

theorem flatten_singleton {program : EStateM ε (List β) α} {text : List β} {value : α}
    (reads : Reads program text value) : Reads program [text].flatten value := by
  simpa using reads

theorem times {program : EStateM ε (List β) α} {text : γ → List β} {value : γ → α}
    (reads : ∀ item, Reads program (text item) (value item)) {n : ℕ} {items : List γ}
    (count : n = items.length) :
    ∃ values, values.1 = items.map value ∧
      Reads (MrsOptimization.times program n) (items.map text).flatten values := by
  subst count
  induction items with
  | nil => exact ⟨⟨[], rfl⟩, rfl, pure _⟩
  | cons item rest ih =>
      rcases ih with ⟨values, map, readsRest⟩
      refine ⟨⟨value item :: values.1, by simp [values.2]⟩, by simp [map], ?_⟩
      rw [List.map_cons, List.flatten_cons]
      apply (reads item).bind
      intro rest'
      rw [bind_ok (readsRest rest')]
      rfl

end Reads

/-- Whatever follows the text, the program does not take exactly the text away. -/
def Misses (program : EStateM ε (List β) α) (text : List β) : Prop :=
  ∀ rest value, program (text ++ rest) ≠ .ok value rest

namespace Misses

/-- A program that takes nothing away. -/
theorem pure (value : α) {text : List β} (some_ : text ≠ []) :
    Misses (Pure.pure value : EStateM ε (List β) α) text := by
  intro rest value' runs
  have left : text ++ rest = rest := (EStateM.Result.ok.inj runs).2
  rw [List.append_left_eq_self] at left
  exact some_ left

theorem of_error {program : EStateM ε (List β) α} {text : List β} {exception : ε}
    (fails : ∀ rest, ∃ left, program (text ++ rest) = .error exception left) :
    Misses program text := by
  intro rest value runs
  rcases fails rest with ⟨left, fails⟩
  rw [runs] at fails
  cases fails

/-- A program that ends by computing a value. -/
theorem map {first : EStateM ε (List β) α} {text : List β} (misses : Misses first text)
    (f : α → γ) : Misses (first >>= fun value => Pure.pure (f value)) text := by
  intro rest value' runs
  cases run : first (text ++ rest) with
  | ok value middle =>
      rw [bind_ok run] at runs
      cases runs
      exact misses rest value run
  | error exception middle =>
      rw [bind_error run] at runs
      cases runs

theorem bind {first : EStateM ε (List β) α} {next : α → EStateM ε (List β) γ}
    {text text' : List β} {value : α} (reads : Reads first text value)
    (misses : Misses (next value) text') : Misses (first >>= next) (text ++ text') := by
  intro rest value' runs
  rw [List.append_assoc, bind_ok (reads (text' ++ rest))] at runs
  exact misses rest value' runs

end Misses

/-- Whenever the program returns a value, it has taken away a text with this property. -/
def Accepts (program : EStateM ε (List β) α) (accepted : α → List β → Prop) : Prop :=
  ∀ text value rest, program text = .ok value rest →
    ∃ front, text = front ++ rest ∧ accepted value front

namespace Accepts

theorem pure {accepted : α → List β → Prop} {value : α} (holds : accepted value []) :
    Accepts (Pure.pure value : EStateM ε (List β) α) accepted := by
  intro text value' rest runs
  cases runs
  exact ⟨[], rfl, holds⟩

theorem throw {accepted : α → List β → Prop} (exception : ε) :
    Accepts (MonadExcept.throw exception : EStateM ε (List β) α) accepted := by
  intro text value rest runs
  cases runs

theorem bind {first : EStateM ε (List β) α} {next : α → EStateM ε (List β) γ}
    {accepted : α → List β → Prop} {accepted' : γ → List β → Prop}
    (accepts : Accepts first accepted)
    (accepts' : ∀ value front, accepted value front →
      Accepts (next value) fun value' rest => accepted' value' (front ++ rest)) :
    Accepts (first >>= next) accepted' := by
  intro text value' rest runs
  cases run : first text with
  | ok value middle =>
      rw [bind_ok run] at runs
      rcases accepts _ _ _ run with ⟨front, rfl, holds⟩
      rcases accepts' value front holds _ _ _ runs with ⟨front', rfl, holds'⟩
      exact ⟨front ++ front', by rw [List.append_assoc], holds'⟩
  | error exception middle =>
      rw [bind_error run] at runs
      cases runs

theorem weaken {program : EStateM ε (List β) α} {accepted accepted' : α → List β → Prop}
    (accepts : Accepts program accepted)
    (implies : ∀ value text, accepted value text → accepted' value text) :
    Accepts program accepted' := by
  intro text value rest runs
  rcases accepts _ _ _ runs with ⟨front, split, holds⟩
  exact ⟨front, split, implies value front holds⟩

/-- A program that ends by computing a value. -/
theorem map {first : EStateM ε (List β) α} {accepted : α → List β → Prop}
    {accepted' : γ → List β → Prop} (accepts : Accepts first accepted) (f : α → γ)
    (implies : ∀ value text, accepted value text → accepted' (f value) text) :
    Accepts (first >>= fun value => Pure.pure (f value)) accepted' := by
  apply accepts.bind
  intro value front holds
  apply pure
  simpa using implies value front holds

theorem times {program : EStateM ε (List β) α} {accepted : α → List β → Prop}
    (accepts : Accepts program accepted) (count : ℕ) :
    Accepts (MrsOptimization.times program count) fun values text =>
      ∃ texts, List.Forall₂ accepted values.1 texts ∧ text = texts.flatten := by
  induction count with
  | zero =>
      apply pure
      exact ⟨[], .nil, rfl⟩
  | succ count ih =>
      apply accepts.bind
      intro value front holds
      apply ih.bind
      rintro values text ⟨texts, all, rfl⟩
      apply pure
      exact ⟨front :: texts, .cons holds all, by simp⟩

end Accepts

/-- The program takes a text away and returns a value exactly if the grammar relates the two. -/
def Recognizes (program : EStateM ε (List β) α) (grammar : α → List β → Prop) : Prop :=
  ∀ text value rest, program text = .ok value rest ↔
    ∃ front, text = front ++ rest ∧ grammar value front

namespace Recognizes

theorem reads {program : EStateM ε (List β) α} {grammar : α → List β → Prop}
    (recognizes : Recognizes program grammar) {value : α} {text : List β} :
    Reads program text value ↔ grammar value text := by
  constructor
  · intro reads
    rcases (recognizes _ _ _).mp (reads []) with ⟨front, split, derives⟩
    rwa [List.append_cancel_right split]
  · intro derives rest
    exact (recognizes _ _ _).mpr ⟨text, rfl, derives⟩

theorem of_iff {program : EStateM ε (List β) α} {grammar grammar' : α → List β → Prop}
    (recognizes : Recognizes program grammar)
    (iff : ∀ value text, grammar value text ↔ grammar' value text) :
    Recognizes program grammar' := by
  intro text value rest
  simp only [recognizes text value rest, iff]

theorem pure (value : α) :
    Recognizes (Pure.pure value : EStateM ε (List β) α) fun value' text =>
      value' = value ∧ text = [] := by
  intro text value' rest
  constructor
  · intro runs
    cases runs
    exact ⟨[], rfl, rfl, rfl⟩
  · rintro ⟨front, rfl, rfl, rfl⟩
    rfl

theorem throw (exception : ε) :
    Recognizes (MonadExcept.throw exception : EStateM ε (List β) α) fun _ _ => False := by
  intro text value rest
  constructor
  · nofun
  · rintro ⟨front, -, ⟨⟩⟩

/-- One text behind the other. -/
theorem bind {first : EStateM ε (List β) α} {next : α → EStateM ε (List β) γ}
    {grammar : α → List β → Prop} {grammar' : α → γ → List β → Prop}
    (recognizes : Recognizes first grammar)
    (recognizes' : ∀ value front, grammar value front →
      Recognizes (next value) (grammar' value)) :
    Recognizes (first >>= next) fun value' text =>
      ∃ value front back, text = front ++ back ∧ grammar value front ∧
        grammar' value value' back := by
  intro text value' rest
  constructor
  · intro runs
    cases run : first text with
    | ok value middle =>
        rw [bind_ok run] at runs
        rcases (recognizes _ _ _).mp run with ⟨front, rfl, derives⟩
        rcases (recognizes' value front derives _ _ _).mp runs with ⟨back, rfl, derives'⟩
        exact ⟨front ++ back, by rw [List.append_assoc],
          value, front, back, rfl, derives, derives'⟩
    | error exception middle =>
        rw [bind_error run] at runs
        cases runs
  · rintro ⟨-, rfl, value, front, back, rfl, derives, derives'⟩
    have run := (recognizes (front ++ (back ++ rest)) value (back ++ rest)).mpr
      ⟨front, rfl, derives⟩
    rw [List.append_assoc, bind_ok run]
    exact (recognizes' value front derives _ _ _).mpr ⟨back, rfl, derives'⟩

/-- A program that ends by computing a value. -/
theorem map {first : EStateM ε (List β) α} {grammar : α → List β → Prop}
    (recognizes : Recognizes first grammar) (f : α → γ) :
    Recognizes (first >>= fun value => Pure.pure (f value)) fun value' text =>
      ∃ value, value' = f value ∧ grammar value text := by
  apply (recognizes.bind fun value _ _ => pure (f value)).of_iff
  intro value' text
  constructor
  · rintro ⟨value, front, -, rfl, derives, rfl, rfl⟩
    exact ⟨value, rfl, by rwa [List.append_nil]⟩
  · rintro ⟨value, rfl, derives⟩
    exact ⟨value, text, [], by rw [List.append_nil], derives, rfl, rfl⟩

theorem times {program : EStateM ε (List β) α} {grammar : α → List β → Prop}
    (recognizes : Recognizes program grammar) (count : ℕ) :
    Recognizes (MrsOptimization.times program count) fun values text =>
      ∃ texts, List.Forall₂ grammar values.1 texts ∧ text = texts.flatten := by
  induction count with
  | zero =>
      apply (pure _).of_iff
      rintro ⟨values, length⟩ text
      cases List.length_eq_zero_iff.mp length
      constructor
      · rintro ⟨-, rfl⟩
        exact ⟨[], .nil, rfl⟩
      · rintro ⟨texts, all, rfl⟩
        cases all
        exact ⟨rfl, rfl⟩
  | succ count ih =>
      apply (recognizes.bind fun value _ _ => ih.map fun rest =>
        (⟨value :: rest.1, by rw [List.length_cons, rest.2]⟩ :
          {values : List α // values.length = count + 1})).of_iff
      intro values text
      constructor
      · rintro ⟨value, front, back, rfl, first, rest, rfl, texts, all, rfl⟩
        exact ⟨front :: texts, .cons first all, rfl⟩
      · rcases values with ⟨values, length⟩
        rintro ⟨texts, all, rfl⟩
        cases all with
        | nil => cases length
        | cons first all =>
            rename_i value text values texts
            exact ⟨value, text, texts.flatten, rfl, first,
              ⟨values, Nat.succ.inj length⟩, rfl, texts, all, rfl⟩

end Recognizes

/-- What follows the text that the program takes away does not matter. -/
def Steady (program : EStateM ε (List β) α) : Prop :=
  Recognizes program fun value text => Reads program text value

theorem Recognizes.steady {program : EStateM ε (List β) α} {grammar : α → List β → Prop}
    (recognizes : Recognizes program grammar) : Steady program :=
  recognizes.of_iff fun _ _ => recognizes.reads.symm

theorem Recognizes.extend {program : EStateM ε (List β) α} {grammar : α → List β → Prop}
    (recognizes : Recognizes program grammar) {text rest : List β} {value : α}
    (runs : program text = .ok value rest) (more : List β) :
    program (text ++ more) = .ok value (rest ++ more) := by
  rcases (recognizes _ _ _).mp runs with ⟨front, rfl, derives⟩
  rw [List.append_assoc]
  exact (recognizes _ _ _).mpr ⟨front, rfl, derives⟩

namespace Steady

theorem pure (value : α) : Steady (Pure.pure value : EStateM ε (List β) α) :=
  (Recognizes.pure value).steady

theorem throw (exception : ε) : Steady (MonadExcept.throw exception : EStateM ε (List β) α) :=
  (Recognizes.throw exception).steady

theorem bind {first : EStateM ε (List β) α} {next : α → EStateM ε (List β) γ}
    (steady : Steady first) (steady' : ∀ value, Steady (next value)) : Steady (first >>= next) := by
  have recognizes : ∀ value front, Reads first front value →
      Recognizes (next value) fun value' text => Reads (next value) text value' :=
    fun value _ _ => steady' value
  exact (Recognizes.bind steady recognizes).steady

theorem map {first : EStateM ε (List β) α} (steady : Steady first) (f : α → γ) :
    Steady (first >>= fun value => Pure.pure (f value)) :=
  steady.bind fun value => pure (f value)

end Steady

/-- The program takes so many elements away from every list that has them. -/
def Takes (program : EStateM ε (List β) α) (n : ℕ) : Prop :=
  ∀ text, n ≤ text.length → ∃ value, program text = .ok value (text.drop n)

namespace Takes

theorem pure (value : α) : Takes (Pure.pure value : EStateM ε (List β) α) 0 :=
  fun _ _ => ⟨value, rfl⟩

theorem bind {first : EStateM ε (List β) α} {next : α → EStateM ε (List β) γ} {m n : ℕ}
    (takes : Takes first m) (takes' : ∀ value, Takes (next value) n) :
    Takes (first >>= next) (m + n) := by
  intro text enough
  rcases takes text (by omega) with ⟨value, runs⟩
  rcases takes' value (text.drop m) (by rw [List.length_drop]; omega) with ⟨value', runs'⟩
  refine ⟨value', ?_⟩
  rw [bind_ok runs, runs', List.drop_drop]

end Takes

end MrsOptimization
