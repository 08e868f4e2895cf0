import Brf.Lib.OrderedMap

/-!
# Batches of writes to a table

A batch applies its items one by one to a table, and stops at the first that the table refuses. What
it has done by then stays.

* `Pointwise name apply`: an item is decided by the entry under its own name, and writes no other.
* `batch apply as t`: the error of the first refused item, if there is one, and the table that the
  items before it leave.
* `taken apply t as`: the items before the first that `t` itself refuses. If no name occurs twice,
  these are the items the batch applies.

Results: `batch_error`, `batch_elsewhere`, `batch_taken`, and `batch_same` (when a batch leaves its
table as it was).
-/

namespace Brf.Lib

variable {κ ν α ε : Type} [LinearOrder κ]

/-- An item is decided by the entry under its own name, and writes no other. -/
structure Pointwise (name : α → κ) (apply : Map κ ν → α → Except ε (Map κ ν)) : Prop where
  elsewhere : ∀ {t t' : Map κ ν} {a : α}, apply t a = .ok t' → ∀ n, n ≠ name a → t'[n]? = t[n]?
  here : ∀ {t t' u : Map κ ν} {a : α}, u[name a]? = t[name a]? → apply t a = .ok t' →
    ∃ u', apply u a = .ok u' ∧ u'[name a]? = t'[name a]?

/-- The items in order, up to the first that is refused. -/
def batch (apply : Map κ ν → α → Except ε (Map κ ν)) : List α → Map κ ν → Option ε × Map κ ν
  | [], t => (none, t)
  | a :: as, t =>
    match apply t a with
    | .error e => (some e, t)
    | .ok t' => batch apply as t'

/-- The items in front of the first that the table refuses. -/
def taken (apply : Map κ ν → α → Except ε (Map κ ν)) (t : Map κ ν) (as : List α) : List α :=
  as.takeWhile fun a => (apply t a).toBool

section

variable {name : α → κ} {apply : Map κ ν → α → Except ε (Map κ ν)}

theorem Pointwise.toBool (h : Pointwise name apply) {t u : Map κ ν} {a : α}
    (same : u[name a]? = t[name a]?) : (apply u a).toBool = (apply t a).toBool := by
  cases decided : apply t a with
  | ok t' =>
    obtain ⟨u', ok, -⟩ := h.here same decided
    rw [ok]
    rfl
  | error e =>
    cases other : apply u a with
    | error e' => rfl
    | ok u' =>
      obtain ⟨t', ok, -⟩ := h.here same.symm other
      rw [decided] at ok
      cases ok

/-- Another table takes the same items, if it has the same entries under their names. -/
theorem Pointwise.taken (h : Pointwise name apply) {t u : Map κ ν} :
    ∀ {as : List α}, (∀ a ∈ as, u[name a]? = t[name a]?) → taken apply u as = taken apply t as
  | [], _ => rfl
  | a :: as, same => by
    obtain ⟨own, same⟩ := List.forall_mem_cons.mp same
    have rest := h.taken same
    unfold Brf.Lib.taken at rest ⊢
    rw [List.takeWhile_cons, List.takeWhile_cons, h.toBool own, rest]

theorem taken_cons_ok {t t' : Map κ ν} {a : α} {as : List α} (ok : apply t a = .ok t') :
    taken apply t (a :: as) = a :: taken apply t as := by
  unfold taken
  rw [List.takeWhile_cons, ok]
  rfl

theorem taken_cons_error {t : Map κ ν} {e : ε} {a : α} {as : List α} (no : apply t a = .error e) :
    taken apply t (a :: as) = [] := by
  unfold taken
  rw [List.takeWhile_cons, no]
  rfl

/-- What follows an item in a batch without repetition sees the table from before it. -/
theorem Pointwise.step (h : Pointwise name apply) {t t' : Map κ ν} {a : α} {as : List α}
    (distinct : ((a :: as).map name).Nodup) (ok : apply t a = .ok t') :
    (∀ b ∈ as, t'[name b]? = t[name b]?) ∧ (as.map name).Nodup := by
  obtain ⟨fresh, distinct⟩ := List.nodup_cons.mp distinct
  refine ⟨fun b mem => h.elsewhere ok _ fun same => ?_, distinct⟩
  exact fresh (same ▸ List.mem_map_of_mem mem)

/-- A batch fails exactly if its table refuses an item. -/
theorem batch_error (h : Pointwise name apply) : ∀ {as : List α} {t : Map κ ν},
    (as.map name).Nodup → ((batch apply as t).1 = none ↔ taken apply t as = as)
  | [], t, _ => by simp [batch, taken]
  | a :: as, t, distinct => by
    unfold batch
    cases decided : apply t a with
    | error e =>
      rw [taken_cons_error decided]
      simp
    | ok t' =>
      obtain ⟨same, distinct⟩ := h.step distinct decided
      rw [taken_cons_ok decided, ← h.taken same, batch_error h distinct]
      simp

/-- Entries under other names stay. -/
theorem batch_elsewhere (h : Pointwise name apply) {n : κ} : ∀ {as : List α} {t : Map κ ν},
    (as.map name).Nodup → n ∉ (taken apply t as).map name → (batch apply as t).2[n]? = t[n]?
  | [], t, _, _ => rfl
  | a :: as, t, distinct, other => by
    unfold batch
    cases decided : apply t a with
    | error e => rfl
    | ok t' =>
      obtain ⟨same, distinct⟩ := h.step distinct decided
      rw [taken_cons_ok decided, ← h.taken same, List.map_cons] at other
      obtain ⟨apart, other⟩ := not_or.mp fun mem => other (List.mem_cons.mpr mem)
      exact (batch_elsewhere h distinct other).trans (h.elsewhere decided n apart)

/-- An item that is taken leaves what it makes of the table it finds at first. -/
theorem batch_taken (h : Pointwise name apply) : ∀ {as : List α} {t : Map κ ν},
    (as.map name).Nodup → ∀ a ∈ taken apply t as, ∃ t', apply t a = .ok t' ∧
      (batch apply as t).2[name a]? = t'[name a]?
  | [], t, _, _, no => absurd no List.not_mem_nil
  | b :: as, t, distinct, a, mem => by
    unfold batch
    cases decided : apply t b with
    | error e =>
      rw [taken_cons_error decided] at mem
      exact absurd mem List.not_mem_nil
    | ok t₁ =>
      have fresh := (List.nodup_cons.mp distinct).1
      obtain ⟨same, others⟩ := h.step distinct decided
      rw [taken_cons_ok decided, ← h.taken same] at mem
      dsimp only
      rcases List.mem_cons.mp mem with rfl | mem
      · refine ⟨t₁, decided, batch_elsewhere h others fun again => fresh ?_⟩
        obtain ⟨c, there, named⟩ := List.mem_map.mp again
        exact named ▸ List.mem_map_of_mem (List.takeWhile_sublist _ |>.subset there)
      · obtain ⟨t', ok, left⟩ := batch_taken h others a mem
        have listed : a ∈ as := (List.takeWhile_sublist _).subset mem
        obtain ⟨u', ok', entry⟩ := h.here (same a listed).symm ok
        exact ⟨u', ok', left.trans entry.symm⟩

/-- **A batch leaves its table as it was** exactly if every item that is taken would. -/
theorem batch_same (h : Pointwise name apply) {as : List α} {t : Map κ ν}
    (distinct : (as.map name).Nodup) :
    (batch apply as t).2 = t ↔ ∀ a ∈ taken apply t as, apply t a = .ok t := by
  constructor
  · intro same a mem
    obtain ⟨t', ok, left⟩ := batch_taken h distinct a mem
    rw [same] at left
    rw [ok]
    refine congrArg Except.ok (Map.ext_get fun n => ?_)
    by_cases own : n = name a
    · rw [own, left]
    · exact h.elsewhere ok n own
  · intro idle
    refine Map.ext_get fun n => ?_
    by_cases own : n ∈ (taken apply t as).map name
    · obtain ⟨a, mem, rfl⟩ := List.mem_map.mp own
      obtain ⟨t', ok, left⟩ := batch_taken h distinct a mem
      rw [left, Except.ok.inj (ok.symm.trans (idle a mem))]
    · exact batch_elsewhere h distinct own

end

end Brf.Lib
