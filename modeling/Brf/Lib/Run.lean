import Mathlib.Data.List.Basic

/-!
# Runs of a deterministic system

A system with a step function `step : σ → α → σ`: a run is the list of the actions it took.

* `after step s as` is the state the actions lead to; `Along step P s as` says that each action of
  the run is taken in a state where `P` allows it.

Results: `invariant_along` and `moves_along`, the induction over a run, and the splitting of a run
in two.
-/

namespace Brf.Lib

variable {σ α : Type} (step : σ → α → σ)

/-- The state after a list of actions. -/
def after (s : σ) : List α → σ
  | [] => s
  | a :: as => after (step s a) as

/-- Every action of the run is taken where `P` holds of the state and the action. -/
def Along (P : σ → α → Prop) (s : σ) : List α → Prop
  | [] => True
  | a :: as => P s a ∧ Along P (step s a) as

instance instDecidableAlong (P : σ → α → Prop) [∀ s a, Decidable (P s a)] :
    ∀ (s : σ) (as : List α), Decidable (Along step P s as)
  | _, [] => inferInstanceAs (Decidable True)
  | s, a :: as =>
    have := instDecidableAlong P (step s a) as
    inferInstanceAs (Decidable (P s a ∧ Along step P (step s a) as))

@[simp] theorem after_nil (s : σ) : after step s [] = s := rfl

@[simp] theorem after_cons (s : σ) (a : α) (as : List α) :
    after step s (a :: as) = after step (step s a) as := rfl

theorem after_append (s : σ) (as bs : List α) :
    after step s (as ++ bs) = after step (after step s as) bs := by
  induction as generalizing s with
  | nil => rfl
  | cons a as ih => exact ih (step s a)

theorem along_append {P : σ → α → Prop} (s : σ) (as bs : List α) :
    Along step P s (as ++ bs) ↔ Along step P s as ∧ Along step P (after step s as) bs := by
  induction as generalizing s with
  | nil => simp [Along]
  | cons a as ih => simp [Along, ih, and_assoc]

theorem Along.mono {P Q : σ → α → Prop} (imp : ∀ s a, P s a → Q s a) {s : σ} {as : List α}
    (h : Along step P s as) : Along step Q s as := by
  induction as generalizing s with
  | nil => trivial
  | cons a as ih => exact ⟨imp s a h.1, ih h.2⟩

theorem along_of_forall {P : σ → α → Prop} (h : ∀ s a, P s a) : ∀ {s : σ} {as : List α},
    Along step P s as
  | _, [] => trivial
  | s, a :: _ => ⟨h s a, along_of_forall h⟩

/-- A condition on the actions of a run, taken one by one. -/
theorem along_of_split {P : σ → α → Prop} : ∀ {s : σ} {as : List α},
    (∀ bs a cs, as = bs ++ a :: cs → P (after step s bs) a) → Along step P s as
  | _, [], _ => trivial
  | _, a :: as, h => ⟨h [] a as rfl, along_of_split fun bs b cs split =>
      h (a :: bs) b cs (congrArg (a :: ·) split)⟩

/-- **Invariant rule**: what every allowed step keeps holds after every allowed run. -/
theorem invariant_along {P : σ → α → Prop} {I : σ → Prop}
    (keep : ∀ s a, I s → P s a → I (step s a)) {s : σ} {as : List α} (hs : I s)
    (h : Along step P s as) : I (after step s as) := by
  induction as generalizing s with
  | nil => exact hs
  | cons a as ih => exact ih (keep s a hs h.1) h.2

/-- A reflexive and transitive relation that every step of an invariant's states respects relates
the ends of every run. -/
theorem moves_along {P : σ → α → Prop} {I : σ → Prop} {R : σ → σ → Prop}
    (keep : ∀ s a, I s → P s a → I (step s a)) (refl : ∀ s, R s s)
    (trans : ∀ {a b c}, R a b → R b c → R a c) (move : ∀ s a, I s → P s a → R s (step s a))
    {s : σ} {as : List α} (hs : I s) (h : Along step P s as) : R s (after step s as) := by
  induction as generalizing s with
  | nil => exact refl s
  | cons a as ih => exact trans (move s a hs h.1) (ih (keep s a hs h.1) h.2)

end Brf.Lib
