import Brf.Lib.Machine

/-!
# Signed operations that may overflow

A signed operation of a C++ program has a meaning only while its exact result fits its type.
`Checked ε α` is a computation that looks at every one of them: it overflows, or it ends in a value or
an error as any fallible computation does.

* `signed w v` is the operation of a `w`-bit type with the exact result `v`.
* `Computes m x` says that no operation of `m` overflows and that `m` ends in `x`; `Overflows m` that
  one of them does.

Results: the rules `computes_bind`, `computes_signed`, `computes_lift`, and `overflows_bind`.
-/

namespace Brf.Lib

/-- The values of a signed integer type of `w` bits. -/
def Fits (w : Nat) (v : Int) : Prop := -2 ^ (w - 1) ≤ v ∧ v < 2 ^ (w - 1)

instance (w : Nat) (v : Int) : Decidable (Fits w v) := inferInstanceAs (Decidable (_ ∧ _))

theorem fits_64 {v : Int} :
    Fits 64 v ↔ -9223372036854775808 ≤ v ∧ v ≤ 9223372036854775807 := by
  unfold Fits
  omega

theorem fits_32 {v : Int} : Fits 32 v ↔ -2147483648 ≤ v ∧ v ≤ 2147483647 := by
  unfold Fits
  omega

/-- A fallible computation that stops at the first signed overflow. -/
abbrev Checked (ε α : Type) := ExceptT ε Option α

variable {ε α β : Type}

/-- A signed operation of `w` bits with the exact result `v`. -/
def signed (w : Nat) (v : Int) : Checked ε Int := if Fits w v then pure v else ExceptT.mk none

/-- A computation without signed operations. -/
def Checked.lift (x : Except ε α) : Checked ε α := ExceptT.mk (some x)

/-- Nothing overflows, and the computation ends in `x`. -/
def Computes (m : Checked ε α) (x : Except ε α) : Prop := m.run = some x

/-- A signed operation overflows. -/
def Overflows (m : Checked ε α) : Prop := m.run = none

theorem computes_pure (a : α) : Computes (pure a : Checked ε α) (.ok a) := rfl

theorem computes_lift (x : Except ε α) : Computes (Checked.lift x) x := rfl

theorem computes_signed {w : Nat} {v : Int} (h : Fits w v) :
    Computes (signed w v : Checked ε Int) (.ok v) := by
  simp only [signed, h, if_true]
  rfl

theorem overflows_signed {w : Nat} {v : Int} (h : ¬ Fits w v) :
    Overflows (signed w v : Checked ε Int) := by
  simp only [signed, h, if_false]
  rfl

theorem Computes.not_overflows {m : Checked ε α} {x : Except ε α} (h : Computes m x) :
    ¬ Overflows m := by
  intro no
  rw [Overflows, h] at no
  cases no

/-- A computation has one end. -/
theorem Computes.unique {m : Checked ε α} {x y : Except ε α} (h : Computes m x) (h' : Computes m y) :
    x = y := by
  rw [Computes, h] at h'
  exact Option.some.inj h'

/-- What follows a first part that has ended. -/
def Checked.andThen (f : α → Checked ε β) : Except ε α → Option (Except ε β)
  | .ok a => (f a).run
  | .error e => some (.error e)

theorem run_bind (m : Checked ε α) (f : α → Checked ε β) :
    (m >>= f).run = m.run >>= Checked.andThen f := by
  rcases h : m.run with _ | _ | _ <;>
    simp [ExceptT.run_bind, h, Checked.andThen]

/-- **Sequencing**: what follows is looked at only where the first part succeeds. -/
theorem computes_bind {m : Checked ε α} {x : Except ε α} {f : α → Checked ε β} {g : α → Except ε β}
    (h : Computes m x) (later : ∀ a, x = .ok a → Computes (f a) (g a)) :
    Computes (m >>= f) (x >>= g) := by
  rw [Computes, run_bind, h]
  cases x with
  | ok a => exact later a rfl
  | error e => rfl

/-- After a first part that succeeds. -/
theorem computes_bind_ok {m : Checked ε α} {a : α} {f : α → Checked ε β} {y : Except ε β}
    (h : Computes m (.ok a)) (later : Computes (f a) y) : Computes (m >>= f) y :=
  computes_bind (g := fun _ => y) h fun _ same => Except.ok.inj same ▸ later

/-- A first part that succeeds is replaced by its value. -/
theorem Computes.bind_eq {m : Checked ε α} {a : α} (h : Computes m (.ok a)) (f : α → Checked ε β) :
    m >>= f = f a := by
  apply ExceptT.ext
  rw [run_bind, h]
  rfl

/-- After a first part that fails. -/
theorem computes_bind_error {m : Checked ε α} {e : ε} {f : α → Checked ε β}
    (h : Computes m (.error e)) : Computes (m >>= f) (.error e) :=
  computes_bind (g := fun _ => .error e) h fun _ same => by cases same

/-- The computation does not end in an error. -/
def NoError (m : Checked ε α) : Prop := ∀ e, ¬ Computes m (.error e)

/-- Then no part of it does. -/
theorem NoError.bind {m : Checked ε α} {x : Except ε α} {f : α → Checked ε β}
    (h : NoError (m >>= f)) (first : Computes m x) : ∃ a, x = .ok a ∧ NoError (f a) := by
  cases x with
  | ok a =>
    rw [first.bind_eq] at h
    exact ⟨a, rfl, h⟩
  | error e => exact absurd (computes_bind_error first) (h e)

theorem overflows_bind {m : Checked ε α} {a : α} {f : α → Checked ε β} (h : Computes m (.ok a))
    (later : Overflows (f a)) : Overflows (m >>= f) := by
  rw [Overflows, run_bind, h]
  exact later

end Brf.Lib
