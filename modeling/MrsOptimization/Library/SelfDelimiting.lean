import Mathlib.Data.List.Basic
import Mathlib.Data.List.Forall2
import Mathlib.Data.List.Infix

/-!
# Printers that can be read back

A printer is given as the relation between a value and its text. It is
self-delimiting when a text it printed, followed by anything, says which value
was printed and what follows. The property passes through a frame of fixed
symbols, and to lists of values: either a closing word that no printed text
begins with follows them, or the printed texts are not empty and nothing follows.

At the bottom a printer is self-delimiting because of what it does not print:
the first occurrence of a symbol, or of a word whose first symbol does not
return in it, splits a text in one way only.
-/

namespace MrsOptimization

universe u v

variable {α : Type u} {β : Type v}

section FirstOccurrence

/-- The first occurrence of a symbol splits a text in one way only. -/
theorem append_cons_inj_of_first {symbol : β} {before before' after after' : List β}
    (first : symbol ∉ before) (first' : symbol ∉ before')
    (same : before ++ symbol :: after = before' ++ symbol :: after') :
    before = before' ∧ after = after' := by
  induction before generalizing before' with
  | nil =>
    cases before' with
    | nil => simpa using same
    | cons head' tail' =>
      simp only [List.nil_append, List.cons_append, List.cons.injEq] at same
      exact absurd (by simp [same.1]) first'
  | cons head tail ih =>
    cases before' with
    | nil =>
      simp only [List.nil_append, List.cons_append, List.cons.injEq] at same
      exact absurd (by simp [same.1]) first
    | cons head' tail' =>
      simp only [List.cons_append, List.cons.injEq] at same
      simp only [List.mem_cons, not_or] at first first'
      rcases ih first.2 first'.2 same.2 with ⟨tails, afters⟩
      exact ⟨by rw [same.1, tails], afters⟩

/-- A text without the symbol that a longer text begins with ends before the symbol. -/
theorem prefix_of_append_cons {symbol : β} {free before rest after : List β}
    (absent : symbol ∉ free) (same : free ++ rest = before ++ symbol :: after) :
    ∃ between, before = free ++ between := by
  rcases List.append_eq_append_iff.mp same with ⟨between, h, _⟩ | ⟨between, h, h'⟩
  · exact ⟨between, h⟩
  · cases between with
    | nil => exact ⟨[], by simpa using h.symm⟩
    | cons head tail =>
      simp only [List.cons_append, List.cons.injEq] at h'
      exact absurd (by simp [h, ← h'.1]) absent

/-- A word that ends in a symbol `last` does not end among symbols that are not `last`. -/
theorem infix_of_infix_append {word text added : List β} {last : β} (absent : last ∉ added)
    (found : word ++ [last] <:+: text ++ added) : word ++ [last] <:+: text := by
  rcases found with ⟨before, after, h⟩
  rcases List.append_eq_append_iff.mp h with ⟨between, h, _⟩ | ⟨between, h, h'⟩
  · exact ⟨before, between, h.symm⟩
  · rcases List.eq_nil_or_concat between with rfl | ⟨initial, symbol, rfl⟩
    · exact ⟨before, [], by simpa using h⟩
    · have ends : symbol = last := by
        have := congrArg List.getLast? h
        simpa using this.symm
      exact absurd (by simp [h', ends]) absent

variable {first : β} {word : List β}

/-- Two occurrences of a word whose first symbol does not return in it do not overlap. -/
theorem eq_nil_or_infix_of_append (noReturn : first ∉ word) {skipped after after' : List β}
    (same : first :: word ++ after = skipped ++ (first :: word ++ after')) :
    skipped = [] ∨ first :: word <:+: skipped := by
  cases skipped with
  | nil => exact Or.inl rfl
  | cons head tail =>
    right
    simp only [List.cons_append, List.cons.injEq] at same
    rcases prefix_of_append_cons noReturn same.2 with ⟨between, rfl⟩
    exact ⟨[], between, by simp [same.1]⟩

/-- The first occurrence of such a word splits a text in one way only. -/
theorem append_word_inj_of_first (noReturn : first ∉ word) {before before' after after' : List β}
    (absent : ¬ first :: word <:+: before) (absent' : ¬ first :: word <:+: before')
    (same : before ++ (first :: word ++ after) = before' ++ (first :: word ++ after')) :
    before = before' ∧ after = after' := by
  have equal : before = before' := by
    rcases List.append_eq_append_iff.mp same with ⟨skipped, h, h'⟩ | ⟨skipped, h, h'⟩
    · rcases eq_nil_or_infix_of_append noReturn h' with rfl | found
      · simpa using h.symm
      · exact absurd (h ▸ found.trans (List.suffix_append before skipped).isInfix) absent'
    · rcases eq_nil_or_infix_of_append noReturn h' with rfl | found
      · simpa using h
      · exact absurd (h ▸ found.trans (List.suffix_append before' skipped).isInfix) absent
  subst equal
  exact ⟨rfl, by simpa using same⟩

end FirstOccurrence

/-- A text of the printer, followed by anything, determines the value and what follows. -/
def SelfDelimiting (Prints : α → List β → Prop) : Prop :=
  ∀ ⦃a b : α⦄ ⦃text text' : List β⦄, Prints a text → Prints b text' →
    ∀ ⦃rest rest' : List β⦄, text ++ rest = text' ++ rest' → a = b ∧ rest = rest'

/-- The same values with each text put between two fixed ones. -/
def Framed (before after : List β) (Prints : α → List β → Prop) (a : α) (text : List β) : Prop :=
  ∃ inner, Prints a inner ∧ text = before ++ inner ++ after

/-- The values of a list one after another, and a closing word. -/
def ClosedBy (closing : List β) (Prints : α → List β → Prop) (as : List α) (text : List β) : Prop :=
  ∃ texts, List.Forall₂ Prints as texts ∧ text = texts.flatten ++ closing

namespace SelfDelimiting

variable {Prints : α → List β → Prop}

theorem framed (before : List β) {after : List β} (h : SelfDelimiting (Framed [] after Prints)) :
    SelfDelimiting (Framed before after Prints) := by
  rintro a b _ _ ⟨inner, printed, rfl⟩ ⟨inner', printed', rfl⟩ rest rest' same
  apply h ⟨inner, printed, rfl⟩ ⟨inner', printed', rfl⟩
  simpa using same

theorem followed {after : List β} (h : SelfDelimiting Prints) :
    SelfDelimiting (Framed [] after Prints) := by
  rintro a b _ _ ⟨inner, printed, rfl⟩ ⟨inner', printed', rfl⟩ rest rest' same
  simp only [List.nil_append, List.append_assoc] at same
  rcases h printed printed' same with ⟨values, rests⟩
  exact ⟨values, List.append_cancel_left rests⟩

/-- What follows the values of a list does not matter once a closing word ends them. -/
theorem closed {closing : List β} (h : SelfDelimiting Prints)
    (closes : ∀ a text, Prints a text → ∀ rest rest', text ++ rest ≠ closing ++ rest') :
    SelfDelimiting (ClosedBy closing Prints) := by
  rintro as bs _ _ ⟨texts, printed, rfl⟩ ⟨texts', printed', rfl⟩ rest rest' same
  induction printed generalizing bs texts' with
  | nil =>
    cases printed' with
    | nil => simpa using same
    | cons head' _ =>
      simp only [List.flatten_nil, List.nil_append, List.flatten_cons, List.append_assoc] at same
      exact absurd same.symm (closes _ _ head' _ _)
  | cons head _ ih =>
    cases printed' with
    | nil =>
      simp only [List.flatten_nil, List.nil_append, List.flatten_cons, List.append_assoc] at same
      exact absurd same (closes _ _ head _ _)
    | cons head' tail' =>
      simp only [List.flatten_cons, List.append_assoc] at same
      rcases h head head' same with ⟨heads, tails⟩
      rcases ih _ tail' (by simpa using tails) with ⟨tailsEqual, rests⟩
      exact ⟨by rw [heads, tailsEqual], rests⟩

/-- Values with nonempty texts are determined by the whole text of their list. -/
theorem eq_of_flatten (h : SelfDelimiting Prints) (nonempty : ∀ a text, Prints a text → text ≠ [])
    {as bs : List α} {texts texts' : List (List β)} (printed : List.Forall₂ Prints as texts)
    (printed' : List.Forall₂ Prints bs texts') (same : texts.flatten = texts'.flatten) :
    as = bs := by
  induction printed generalizing bs texts' with
  | nil =>
    cases printed' with
    | nil => rfl
    | cons head' _ => simp_all [nonempty _ _ head']
  | cons head _ ih =>
    cases printed' with
    | nil => simp_all [nonempty _ _ head]
    | cons head' tail' =>
      simp only [List.flatten_cons] at same
      rcases h head head' same with ⟨heads, tails⟩
      rw [heads, ih tail' tails]

end SelfDelimiting

end MrsOptimization
