import Mathlib.Data.List.Induction
import Mathlib.Logic.Function.Basic

/-!
# Maps filled by loops

A loop that puts an entry for every item into a map leaves, for each key, the value of the
last item with this key.
-/

namespace MrsOptimization

universe u v w

variable {ι : Type u} {κ : Type v} {β : Type w} [DecidableEq κ] (key : ι → κ) (value : ι → β)

theorem foldl_update_apply (items : List ι) (map : κ → β) (k : κ) :
    items.foldl (fun map item => Function.update map (key item) (value item)) map k =
      ((items.reverse.find? fun item => key item = k).map value).getD (map k) := by
  induction items using List.reverseRecOn with
  | nil => rfl
  | append_singleton items item ih =>
      rw [List.foldl_append, List.foldl_cons, List.foldl_nil, List.reverse_append,
        List.reverse_singleton, List.singleton_append]
      by_cases here : key item = k
      · subst here
        simp
      · rw [Function.update_of_ne (Ne.symm here), ih, List.find?_cons_of_neg (by simpa using here)]

theorem foldl_update_of_mem {items : List ι} {map : κ → β} {item : ι} (itemMem : item ∈ items) :
    ∃ other ∈ items, key other = key item ∧
      items.foldl (fun map item => Function.update map (key item) (value item)) map (key item) =
        value other := by
  rw [foldl_update_apply]
  cases found : items.reverse.find? fun other => key other = key item with
  | none =>
      have absent := List.find?_eq_none.mp found item (List.mem_reverse.mpr itemMem)
      simp at absent
  | some other =>
      exact ⟨other, List.mem_reverse.mp (List.mem_of_find?_eq_some found),
        by simpa using List.find?_some found, rfl⟩

/-- The map that a loop fills with the items themselves, each under its key. -/
def fill (items : List ι) : κ → Option ι :=
  items.foldl (fun map item => Function.update map (key item) (some item)) fun _ => none

theorem fill_apply (items : List ι) (k : κ) :
    fill key items k = items.reverse.find? fun item => key item = k := by
  rw [fill, foldl_update_apply]
  cases items.reverse.find? fun item => key item = k <;> rfl

/-- The map holds one item for every key that an item has, and no others. -/
structure IsChoice (items : List ι) (map : κ → Option ι) : Prop where
  of_some : ∀ k item, map k = some item → item ∈ items ∧ key item = k
  of_mem : ∀ item ∈ items, ∃ chosen, map (key item) = some chosen

namespace IsChoice

variable {key} {items others : List ι} {map : κ → Option ι}

omit [DecidableEq κ] in
theorem of_mem_iff (choice : IsChoice key items map)
    (same : ∀ item, item ∈ items ↔ item ∈ others) : IsChoice key others map where
  of_some k item chosen :=
    ⟨(same item).mp (choice.of_some k item chosen).1, (choice.of_some k item chosen).2⟩
  of_mem item itemMem := choice.of_mem item ((same item).mpr itemMem)

omit [DecidableEq κ] in
/-- Items with different keys leave no choice. -/
theorem unique (choice : IsChoice key items map) {other : κ → Option ι}
    (another : IsChoice key items other)
    (injective : ∀ left ∈ items, ∀ right ∈ items, key left = key right → left = right) :
    map = other := by
  funext k
  cases chosen : map k with
  | some item =>
      rcases choice.of_some k item chosen with ⟨itemMem, rfl⟩
      rcases another.of_mem item itemMem with ⟨second, secondChosen⟩
      rcases another.of_some (key item) second secondChosen with ⟨secondMem, sameKey⟩
      rw [secondChosen, injective second secondMem item itemMem sameKey]
  | none =>
      cases otherChosen : other k with
      | none => rfl
      | some item =>
          rcases another.of_some k item otherChosen with ⟨itemMem, rfl⟩
          rcases choice.of_mem item itemMem with ⟨second, secondChosen⟩
          simp [chosen] at secondChosen

end IsChoice

theorem isChoice_fill (items : List ι) : IsChoice key items (fill key items) where
  of_some k item chosen := by
    rw [fill_apply] at chosen
    exact ⟨List.mem_reverse.mp (List.mem_of_find?_eq_some chosen), by
      simpa using List.find?_some chosen⟩
  of_mem item itemMem := by
    rcases @foldl_update_of_mem _ _ _ _ key some items (fun _ => none) item itemMem with
      ⟨other, -, -, chosen⟩
    exact ⟨other, chosen⟩

/-- Every choice is what the loop makes of some order of the items: the chosen ones come last. -/
theorem IsChoice.exists_perm_fill [DecidableEq ι] {items : List ι} {map : κ → Option ι}
    (choice : IsChoice key items map) :
    ∃ arranged : List ι, arranged.Perm items ∧ fill key arranged = map := by
  let chosen : ι → Bool := fun item => map (key item) = some item
  refine ⟨items.filter (fun item => !chosen item) ++ items.filter chosen, ?_, ?_⟩
  · exact List.perm_append_comm.trans (List.filter_append_perm chosen items)
  funext k
  rw [fill_apply, List.reverse_append, List.find?_append]
  cases mapEq : map k with
  | some item =>
      rcases choice.of_some k item mapEq with ⟨itemMem, rfl⟩
      cases found : (items.filter chosen).reverse.find? fun other => key other = key item with
      | some other =>
          have otherMem := List.mem_reverse.mp (List.mem_of_find?_eq_some found)
          have sameKey : key other = key item := by simpa using List.find?_some found
          have otherChosen : map (key other) = some other := by
            simpa [chosen] using (List.mem_filter.mp otherMem).2
          rw [Option.some_or, ← otherChosen, sameKey, mapEq]
      | none =>
          have absent := List.find?_eq_none.mp found item (List.mem_reverse.mpr
            (List.mem_filter.mpr ⟨itemMem, by simpa [chosen] using mapEq⟩))
          simp at absent
  | none =>
      have keyless : ∀ item ∈ items, key item ≠ k := by
        rintro item itemMem rfl
        rcases choice.of_mem item itemMem with ⟨other, otherChosen⟩
        simp [mapEq] at otherChosen
      rw [Option.or_eq_none_iff, List.find?_eq_none, List.find?_eq_none]
      constructor
      · intro item itemMem
        simpa using keyless item (List.mem_filter.mp (List.mem_reverse.mp itemMem)).1
      · intro item itemMem
        simpa using keyless item (List.mem_filter.mp (List.mem_reverse.mp itemMem)).1

end MrsOptimization
