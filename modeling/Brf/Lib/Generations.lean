import Mathlib.Data.List.Pairwise
import Mathlib.Order.Basic

/-!
# Generation-stamped slots

What a table keeps under one name when every statement carries a generation, and only a statement
of a later generation takes the place of the one in force.

* `Slot` is the statement in force with the generations it has replaced.
* `Slot.Becomes s s'`: one call leads from `s` to `s'`, either of which may be absent.
* `Slot.Outlasts s' s`: `s'` is what may have become of `s` after any number of calls.

Results: `Becomes.ordered` (the replaced generations stay in order and below the one in force) and
`Becomes.outlasts` (the generation never goes back, and while it stands still so does the statement).
-/

namespace Brf.Lib

/-- The statement in force under a name. -/
structure Slot (γ α : Type) where
  generation : γ
  stated : α
  prior : List γ := []
  deriving DecidableEq

namespace Slot

variable {γ α : Type} [PartialOrder γ]

/-- A later statement takes the place of the one in force. -/
def advance (s : Slot γ α) (generation : γ) (stated : α) : Slot γ α :=
  { generation, stated, prior := s.prior ++ [s.generation] }

/-- The replaced generations are in order, and before the one in force. -/
def Ordered (s : Slot γ α) : Prop := s.prior.Pairwise (· < ·) ∧ ∀ g ∈ s.prior, g < s.generation

/-- What one call makes of a slot. -/
inductive Becomes : Option (Slot γ α) → Option (Slot γ α) → Prop
  | same (s : Option (Slot γ α)) : Becomes s s
  | declared (generation : γ) (stated : α) : Becomes none (some { generation, stated })
  | advanced (s : Slot γ α) (generation : γ) (stated : α) (later : s.generation < generation) :
      Becomes (some s) (some (s.advance generation stated))

/-- What an accepted declaration makes of a slot, and whether it reports a change: the generation in
force may be declared again, which changes something only if it has been withdrawn. -/
inductive Declares (same : α → α → Prop) (g : γ) (a : α) (withdrawn : Bool) :
    Option (Slot γ α) → Bool → Option (Slot γ α) → Prop
  | first : Declares same g a withdrawn none true (some { generation := g, stated := a })
  | again (s : Slot γ α) (current : g = s.generation) (equal : same a s.stated) :
      Declares same g a withdrawn (some s) withdrawn (some s)
  | later (s : Slot γ α) (later : s.generation < g) :
      Declares same g a withdrawn (some s) true (some (s.advance g a))

theorem Declares.becomes {same : α → α → Prop} {g : γ} {a : α} {withdrawn changed : Bool}
    {s s' : Option (Slot γ α)} (h : Declares same g a withdrawn s changed s') : Becomes s s' := by
  cases h with
  | first => exact .declared g a
  | again s => exact .same (some s)
  | later s later => exact .advanced s g a later

/-- What is in force after a declaration was accepted is that declaration, up to the comparison. -/
theorem Declares.stated {same : α → α → Prop} {g : γ} {a : α} {withdrawn changed : Bool}
    {s s' : Option (Slot γ α)} (h : Declares same g a withdrawn s changed s') (refl : same a a) :
    ∃ t, s' = some t ∧ t.generation = g ∧ same a t.stated := by
  cases h with
  | first => exact ⟨_, rfl, rfl, refl⟩
  | again s current equal => exact ⟨s, rfl, current.symm, equal⟩
  | later s later => exact ⟨_, rfl, rfl, refl⟩

/-- Declaring the generation in force keeps the slot. -/
theorem Declares.current {same : α → α → Prop} {g : γ} {a : α} {withdrawn changed : Bool}
    {s : Slot γ α} {s' : Option (Slot γ α)} (h : Declares same g a withdrawn (some s) changed s')
    (current : g = s.generation) : same a s.stated ∧ changed = withdrawn ∧ s' = some s := by
  cases h with
  | again _ _ equal => exact ⟨equal, rfl, rfl⟩
  | later _ later => exact absurd current later.ne'

/-- `s'` is no older than `s`, and states the same if it has the same generation. -/
def Outlasts (s' s : Slot γ α) : Prop :=
  s.generation ≤ s'.generation ∧ (s'.generation = s.generation → s'.stated = s.stated)

theorem Outlasts.refl (s : Slot γ α) : s.Outlasts s := ⟨le_rfl, fun _ => rfl⟩

theorem Outlasts.trans {a b c : Slot γ α} (h : c.Outlasts b) (h' : b.Outlasts a) :
    c.Outlasts a := by
  refine ⟨h'.1.trans h.1, fun same => ?_⟩
  have hb : b.generation = a.generation := le_antisymm (h.1.trans_eq same) h'.1
  rw [h.2 (same.trans hb.symm), h'.2 hb]

theorem Ordered.advance {s : Slot γ α} (h : s.Ordered) {g : γ} (later : s.generation < g) (a : α) :
    (s.advance g a).Ordered := by
  constructor
  · refine List.pairwise_append.mpr ⟨h.1, List.pairwise_singleton _ _, ?_⟩
    intro x hx y hy
    rw [List.mem_singleton.mp hy]
    exact h.2 x hx
  · intro x hx
    rcases List.mem_append.mp hx with hx | hx
    · exact (h.2 x hx).trans later
    · rw [List.mem_singleton.mp hx]
      exact later

theorem Becomes.ordered {s s' : Option (Slot γ α)} (h : Becomes s s') (hs : ∀ t ∈ s, t.Ordered) :
    ∀ t ∈ s', t.Ordered := by
  cases h with
  | same => exact hs
  | declared g a =>
    rintro _ ⟨⟩
    exact ⟨List.Pairwise.nil, fun _ no => absurd no List.not_mem_nil⟩
  | advanced s g a later =>
    rintro _ ⟨⟩
    exact (hs s rfl).advance later a

theorem Becomes.outlasts {s : Slot γ α} {s' : Option (Slot γ α)} (h : Becomes (some s) s') :
    ∃ t, s' = some t ∧ t.Outlasts s := by
  cases h with
  | same => exact ⟨s, rfl, .refl s⟩
  | advanced _ g a later =>
    exact ⟨_, rfl, later.le, fun same => absurd same later.ne'⟩

end Slot

end Brf.Lib
