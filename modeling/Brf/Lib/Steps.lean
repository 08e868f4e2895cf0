import Brf.Lib.Ascending
import Mathlib.Data.Prod.Lex

/-!
# Step functions from samples

A function that changes at finitely many points only is known from its values there: the value at a
point is that of the last sample before it.

* `lastAt` is the value of the last sample that is not behind a point.

Results: `lastAt_sampled` (samples at all points of change give the function back).
-/

namespace Brf.Lib

variable {τ : Type} [LinearOrder τ] {β : Type}

/-- The value of the last sample that is not behind `t`. -/
def lastAt (initial : β) (samples : List (τ × β)) (t : τ) : β :=
  ((samples.filter fun s => s.1 ≤ t).getLast?.map Prod.snd).getD initial

/-- The last member of an ascending list that is not behind `t`. -/
theorem exists_last {ts : List τ} (sorted : ts.Pairwise fun a b => a < b) {s t : τ} (mem : s ∈ ts)
    (le : s ≤ t) : ∃ u ∈ ts, u ≤ t ∧ (∀ c ∈ ts, c ≤ u ∨ t < c) ∧
      (ts.filter fun c => c ≤ t).getLast? = some u := by
  have listed : s ∈ ts.filter fun c => c ≤ t := List.mem_filter.mpr ⟨mem, by simpa using le⟩
  have some : ts.filter (fun c => c ≤ t) ≠ [] := List.ne_nil_of_mem listed
  obtain ⟨u_mem, u_le⟩ := List.mem_filter.mp (List.getLast_mem some)
  refine ⟨_, u_mem, of_decide_eq_true u_le, fun c hc => ?_, List.getLast?_eq_some_getLast some⟩
  by_cases behind : t < c
  · exact .inr behind
  · left
    have inside : c ∈ ts.filter fun c => c ≤ t := List.mem_filter.mpr ⟨hc, by simpa using behind⟩
    have last : (ts.filter fun c => c ≤ t).Pairwise fun a b => a ≤ b :=
      (sorted.filter _).imp fun {a b} less => less.le
    exact last.rel_getLast inside

/-- **Samples at all points of change** give the function back. -/
theorem lastAt_sampled {f : τ → β} {ts : List τ} (sorted : ts.Pairwise fun a b => a < b) {s t : τ}
    (mem : s ∈ ts) (le : s ≤ t) (initial : β)
    (still : ∀ u ∈ ts, u ≤ t → (∀ c ∈ ts, c ≤ u ∨ t < c) → f u = f t) :
    lastAt initial (ts.map fun u => (u, f u)) t = f t := by
  obtain ⟨u, u_mem, u_le, apart, last⟩ := exists_last sorted mem le
  have cut : (ts.map fun u => (u, f u)).filter (fun s => s.1 ≤ t) =
      (ts.filter fun c => c ≤ t).map fun u => (u, f u) := by
    rw [List.filter_map]
    rfl
  rw [lastAt, cut, List.getLast?_map, last]
  exact still u u_mem u_le apart

end Brf.Lib
