import Mathlib.Data.List.Dedup
import Mathlib.Data.List.Destutter
import Mathlib.Data.List.Sort

/-!
# Ascending lists

A list is brought into ascending order by sorting it and dropping equal neighbours.

Results: `ascending_pairwise` and `mem_ascending` (the list is in strict order and has the same members),
`ascending_congr` (nothing but the members counts), and `filter_take` with `takeWhile_eq_filter` for
predicates that hold on a front.
-/

namespace Brf.Lib

variable {α : Type} [LinearOrder α]

/-- Sorted, and every value once. -/
def ascending (xs : List α) : List α :=
  (xs.insertionSort fun a b => a ≤ b).destutter fun a b => a ≠ b

theorem ascending_eq (xs : List α) : ascending xs = (xs.insertionSort fun a b => a ≤ b).dedup :=
  (List.pairwise_insertionSort (fun a b : α => a ≤ b) xs).destutter_eq_dedup

@[simp] theorem mem_ascending {xs : List α} {x : α} : x ∈ ascending xs ↔ x ∈ xs := by
  rw [ascending_eq, List.mem_dedup, List.mem_insertionSort]

theorem ascending_pairwise (xs : List α) : (ascending xs).Pairwise fun a b => a < b := by
  have sorted : (ascending xs).Pairwise fun a b => a ≤ b :=
    (List.pairwise_insertionSort (fun a b : α => a ≤ b) xs).sublist (List.destutter_sublist _ _)
  have once : (ascending xs).Nodup := by
    rw [ascending_eq]
    exact List.nodup_dedup _
  exact (sorted.and once).imp fun {a b} both => lt_of_le_of_ne both.1 both.2

/-- Ascending lists are known by their members. -/
theorem ascending_congr {xs ys : List α} (same : ∀ a, a ∈ xs ↔ a ∈ ys) : ascending xs = ascending ys :=
  (ascending_pairwise xs).eq_of_mem_iff (ascending_pairwise ys) fun {a} => by
    rw [mem_ascending, mem_ascending, same]

theorem ascending_of_pairwise {xs : List α} (h : xs.Pairwise fun a b => a < b) : ascending xs = xs :=
  (ascending_pairwise xs).eq_of_mem_iff h fun {_} => mem_ascending

theorem length_ascending_le (xs : List α) : (ascending xs).length ≤ xs.length := by
  have le := (List.destutter_sublist (fun a b : α => a ≠ b) (xs.insertionSort fun a b => a ≤ b)).length_le
  rwa [List.length_insertionSort] at le

/-- Keys that rise with the values rise strictly when no two values share one. -/
theorem ascending_strict_iff {κ : Type} [LinearOrder κ] {key : α → κ} (rises : Monotone key)
    {xs : List α} : ((ascending xs).Pairwise fun a b => key a < key b) ↔
      ∀ a ∈ xs, ∀ b ∈ xs, key a = key b → a = b := by
  constructor
  · intro strict a ha b hb same
    have once : ((ascending xs).map key).Nodup :=
      List.pairwise_map.mpr (strict.imp fun {a b} less => ne_of_lt less)
    exact List.inj_on_of_nodup_map once (mem_ascending.mpr ha) (mem_ascending.mpr hb) same
  · intro single
    refine (ascending_pairwise xs).imp_of_mem fun {a b} ha hb less => ?_
    refine lt_of_le_of_ne (rises (le_of_lt less)) fun same => ?_
    exact ne_of_lt less (single a (mem_ascending.mp ha) b (mem_ascending.mp hb) same)

/-- Dropping equal neighbours keeps the front. -/
theorem exists_destutter'_eq_cons (x : α) (xs : List α) :
    ∃ tail, xs.destutter' (fun a b => a ≠ b) x = x :: tail := by
  induction xs with
  | nil => exact ⟨[], rfl⟩
  | cons y ys ih =>
    by_cases h : x ≠ y
    · exact ⟨_, List.destutter'_cons_pos _ h⟩
    · rw [List.destutter'_cons_neg _ h]
      exact ih

/-! ## Fronts -/

/-- A predicate that fails behind its first failure picks a front. -/
theorem takeWhile_eq_filter {β : Type} {p : β → Bool} {xs : List β}
    (h : xs.Pairwise fun a b => p b = true → p a = true) : xs.takeWhile p = xs.filter p := by
  induction xs with
  | nil => rfl
  | cons x xs ih =>
    obtain ⟨head, tail⟩ := List.pairwise_cons.mp h
    by_cases hx : p x = true
    · rw [List.takeWhile_cons_of_pos hx, List.filter_cons_of_pos hx, ih tail]
    · have none : xs.filter p = [] :=
        List.filter_eq_nil_iff.mpr fun y hy picked => hx (head y hy picked)
      rw [List.takeWhile_cons_of_neg hx, List.filter_cons_of_neg hx, none]

/-- Such a predicate may be applied before or after cutting the list. -/
theorem filter_take {β : Type} {p : β → Bool} {xs : List β}
    (h : xs.Pairwise fun a b => p b = true → p a = true) (n : Nat) :
    (xs.take n).filter p = (xs.filter p).take n := by
  induction xs generalizing n with
  | nil => simp
  | cons x xs ih =>
    obtain ⟨head, tail⟩ := List.pairwise_cons.mp h
    cases n with
    | zero => simp
    | succ n =>
      by_cases hx : p x = true
      · simp [hx, ih tail]
      · have none : xs.filter p = [] :=
          List.filter_eq_nil_iff.mpr fun y hy picked => hx (head y hy picked)
        simp [hx, none, ih tail]

end Brf.Lib
