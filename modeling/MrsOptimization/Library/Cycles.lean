import Mathlib.Data.List.Nodup
import Mathlib.Data.List.Rotate

/-!
# The edges of a cyclic list

A list read as a closed path: every element has an edge to the next one and the last
element to the first. A rotation of the list permutes the edges, and a chord between two
elements splits a closed path into two.
-/

namespace MrsOptimization

variable {α β : Type}

/-- The pairs of consecutive elements. -/
def chain : List α → List (α × α)
  | [] => []
  | [_] => []
  | p :: q :: rest => (p, q) :: chain (q :: rest)

/-- The edges of the closed path through the elements of a list. -/
def edges : List α → List (α × α)
  | [] => []
  | p :: rest => chain (p :: (rest ++ [p]))

@[simp] theorem chain_singleton (p : α) : chain [p] = [] := rfl

@[simp] theorem chain_cons_cons (p q : α) (rest : List α) :
    chain (p :: q :: rest) = (p, q) :: chain (q :: rest) := rfl

theorem chain_append (xs ys : List α) (d : α) :
    chain (xs ++ d :: ys) = chain (xs ++ [d]) ++ chain (d :: ys) := by
  induction xs with
  | nil => rfl
  | cons x xs ih =>
      cases xs with
      | nil => rfl
      | cons x' xs => simpa using ih

theorem map_fst_chain (xs : List α) (d : α) : (chain (xs ++ [d])).map Prod.fst = xs := by
  induction xs with
  | nil => rfl
  | cons x xs ih =>
      cases xs with
      | nil => rfl
      | cons x' xs => simpa using ih

theorem map_snd_chain (d : α) (ys : List α) : (chain (d :: ys)).map Prod.snd = ys := by
  induction ys generalizing d with
  | nil => rfl
  | cons y ys ih => simpa using ih y

theorem chain_map (f : α → β) (xs : List α) :
    chain (xs.map f) = (chain xs).map (Prod.map f f) := by
  induction xs with
  | nil => rfl
  | cons x xs ih =>
      cases xs with
      | nil => rfl
      | cons x' xs => simpa using ih

theorem chain_reverse (xs : List α) : chain xs.reverse = ((chain xs).map Prod.swap).reverse := by
  induction xs with
  | nil => rfl
  | cons x xs ih =>
      cases xs with
      | nil => rfl
      | cons x' xs =>
          simp only [List.reverse_cons, List.append_assoc, List.cons_append, List.nil_append,
            chain_cons_cons, List.map_cons, Prod.swap_prod_mk] at ih ⊢
          rw [chain_append, ih]
          rfl

theorem chain_subset (xs ys zs : List α) : chain ys ⊆ chain (xs ++ (ys ++ zs)) := by
  cases ys with
  | nil => simp [chain]
  | cons y ys =>
      intro e mem
      rw [List.cons_append, chain_append]
      apply List.mem_append_right
      rw [← List.cons_append]
      cases zs with
      | nil => simpa using mem
      | cons z zs =>
          rcases List.eq_nil_or_concat (y :: ys) with none | ⟨init, last, shape⟩
          · simp at none
          · rw [shape, List.concat_eq_append] at mem ⊢
            rw [List.append_assoc, List.singleton_append, chain_append]
            exact List.mem_append_left _ mem

theorem mem_of_mem_chain {path : List α} {e : α × α} (mem : e ∈ chain path) :
    e.1 ∈ path ∧ e.2 ∈ path := by
  induction path with
  | nil => simp [chain] at mem
  | cons p rest ih =>
      cases rest with
      | nil => simp at mem
      | cons q rest =>
          rcases List.mem_cons.mp mem with rfl | mem
          · simp
          · exact ⟨List.mem_cons_of_mem _ (ih mem).1, List.mem_cons_of_mem _ (ih mem).2⟩

/-- A value that every edge of a path keeps is the same along the path. -/
theorem eq_of_chain {path : List α} (f : α → β) (same : ∀ e ∈ chain path, f e.1 = f e.2)
    {p q : α} (pMem : p ∈ path) (qMem : q ∈ path) : f p = f q := by
  induction path generalizing p q with
  | nil => simp at pMem
  | cons first rest ih =>
      cases rest with
      | nil => simp_all
      | cons second rest =>
          have step : f first = f second := same (first, second) List.mem_cons_self
          have tail : ∀ {v}, v ∈ first :: second :: rest → f v = f second := by
            intro v vMem
            rcases List.mem_cons.mp vMem with rfl | vMem
            · exact step
            · exact ih (fun e eMem => same e (List.mem_cons_of_mem _ eMem)) vMem
                List.mem_cons_self
          exact (tail pMem).trans (tail qMem).symm

theorem edges_cons (p : α) (rest : List α) : edges (p :: rest) = chain (p :: (rest ++ [p])) := rfl

/-- A closed path is a path to any of its elements and the path back. -/
theorem edges_split (p d : α) (xs ys : List α) :
    edges (p :: (xs ++ d :: ys)) = chain (p :: (xs ++ [d])) ++ chain (d :: (ys ++ [p])) := by
  rw [edges_cons, List.append_assoc]
  exact chain_append (p :: xs) (ys ++ [p]) d

theorem edges_map (f : α → β) (path : List α) :
    edges (path.map f) = (edges path).map (Prod.map f f) := by
  cases path with
  | nil => rfl
  | cons p rest => simpa [edges_cons] using chain_map f (p :: (rest ++ [p]))

@[simp] theorem map_fst_edges (path : List α) : (edges path).map Prod.fst = path := by
  cases path with
  | nil => rfl
  | cons p rest => exact map_fst_chain (p :: rest) p

theorem map_snd_edges_cons (p : α) (rest : List α) :
    (edges (p :: rest)).map Prod.snd = rest ++ [p] :=
  map_snd_chain p (rest ++ [p])

theorem map_snd_edges_perm (path : List α) : ((edges path).map Prod.snd).Perm path := by
  cases path with
  | nil => exact List.Perm.refl _
  | cons p rest =>
      rw [map_snd_edges_cons]
      exact List.perm_append_singleton p rest

theorem edges_append_comm (xs ys : List α) : (edges (xs ++ ys)).Perm (edges (ys ++ xs)) := by
  cases xs with
  | nil => simp
  | cons x xs =>
      cases ys with
      | nil => simp
      | cons y ys =>
          rw [List.cons_append, List.cons_append, edges_split, edges_split]
          exact List.perm_append_comm

theorem edges_perm {path path' : List α} (rotated : path.IsRotated path') :
    (edges path).Perm (edges path') := by
  rcases List.isRotated_iff_mod.mp rotated with ⟨n, bound, rfl⟩
  rw [List.rotate_eq_drop_append_take bound]
  nth_rewrite 1 [← List.take_append_drop n path]
  exact edges_append_comm _ _

theorem edges_reverse_perm (path : List α) :
    (edges path.reverse).Perm ((edges path).map Prod.swap) := by
  cases path with
  | nil => exact List.Perm.refl _
  | cons p rest =>
      have rotated : (p :: rest).reverse.IsRotated (p :: rest.reverse) := by
        rw [List.reverse_cons]
        exact List.isRotated_concat p rest.reverse
      have closed : p :: (rest.reverse ++ [p]) = (p :: (rest ++ [p])).reverse := by simp
      refine (edges_perm rotated).trans ?_
      rw [edges_cons, closed, chain_reverse]
      exact List.reverse_perm _

section Membership

variable {path : List α} {e e' : α × α}

theorem fst_mem (mem : e ∈ edges path) : e.1 ∈ path := by
  have image := List.mem_map_of_mem (f := Prod.fst) mem
  rwa [map_fst_edges] at image

theorem snd_mem (mem : e ∈ edges path) : e.2 ∈ path :=
  (map_snd_edges_perm path).mem_iff.mp (List.mem_map_of_mem mem)

theorem exists_edge_from {p : α} (mem : p ∈ path) : ∃ q, (p, q) ∈ edges path := by
  rw [← map_fst_edges path] at mem
  rcases List.mem_map.mp mem with ⟨e, eMem, rfl⟩
  exact ⟨e.2, eMem⟩

theorem eq_of_fst_eq (nodup : path.Nodup) (mem : e ∈ edges path) (mem' : e' ∈ edges path)
    (same : e.1 = e'.1) : e = e' := by
  rw [← map_fst_edges path] at nodup
  exact List.inj_on_of_nodup_map nodup mem mem' same

theorem eq_of_snd_eq (nodup : path.Nodup) (mem : e ∈ edges path) (mem' : e' ∈ edges path)
    (same : e.2 = e'.2) : e = e' :=
  List.inj_on_of_nodup_map ((map_snd_edges_perm path).nodup_iff.mpr nodup) mem mem' same

end Membership

/-- Every element of a path of three or more is a corner between two neighbours. -/
theorem exists_corner {path : List α} {m : α} (long : 3 ≤ path.length) (mem : m ∈ path) :
    ∃ a b rest, path.IsRotated (a :: m :: b :: rest) := by
  rcases List.append_of_mem mem with ⟨before, after, rfl⟩
  have rotated : (before ++ m :: after).IsRotated (m :: (after ++ before)) := by
    simpa using @List.isRotated_append _ before (m :: after)
  have short : 2 ≤ (after ++ before).length := by
    simp only [List.length_append, List.length_cons] at long ⊢
    omega
  cases others : after ++ before with
  | nil => simp [others] at short
  | cons b others' =>
      cases reversed : others'.reverse with
      | nil =>
          rw [List.reverse_eq_nil_iff] at reversed
          simp [others, reversed] at short
      | cons a rest =>
          have last : others' = rest.reverse ++ [a] := by
            rw [← List.reverse_reverse others', reversed, List.reverse_cons]
          refine ⟨a, b, rest.reverse, rotated.trans ?_⟩
          rw [others, last]
          exact List.isRotated_concat a (m :: b :: rest.reverse)

theorem isRotated_filter {path path' : List α} (keep : α → Bool)
    (rotated : path.IsRotated path') : (path.filter keep).IsRotated (path'.filter keep) := by
  rcases List.isRotated_iff_mod.mp rotated with ⟨n, bound, rfl⟩
  rw [List.rotate_eq_drop_append_take bound, List.filter_append]
  nth_rewrite 1 [← List.take_append_drop n path]
  rw [List.filter_append]
  exact List.isRotated_append

open Classical in
/-- Without an element a cyclic list goes from the one before it to the one after it. -/
theorem isRotated_remove {before after rest : List α} {a m : α}
    (nodup : (before ++ m :: after).Nodup)
    (rotated : (before ++ m :: after).IsRotated (a :: m :: rest)) :
    (before ++ after).IsRotated (a :: rest) := by
  have filtered := isRotated_filter (fun p => decide (p ≠ m)) rotated
  have nodup' := rotated.nodup_iff.mp nodup
  have others : ∀ {part : List α}, m ∉ part → part.filter (fun p => decide (p ≠ m)) = part := by
    intro part notMem
    refine List.filter_eq_self.mpr fun p pMem => decide_eq_true ?_
    rintro rfl
    exact notMem pMem
  simp only [List.nodup_append, List.nodup_cons, List.mem_cons, not_or] at nodup nodup'
  have notBefore : m ∉ before := fun mem => nodup.2.2 m mem m (.inl rfl) rfl
  rw [List.filter_append, List.filter_cons_of_neg (by simp), others notBefore,
    others nodup.2.1.1, List.filter_cons_of_pos (by simpa using nodup'.1.1),
    List.filter_cons_of_neg (by simp), others nodup'.2.1] at filtered
  exact filtered

end MrsOptimization
