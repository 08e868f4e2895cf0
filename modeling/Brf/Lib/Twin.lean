import Brf.Lib.Op

/-!
# Pairs of runs

Two operations that run from related states: `Twin R m n s t` says that `m` from `s` and `n` from `t`
end in the same result and in states that `R` relates again. With one operation on both sides it says
that the operation cannot tell the two states apart.

Results: the rules of the pieces of an operation (`twin_bind`, `twin_get_bind`, `twin_modify`,
`twin_attempt`, `twin_zoom`) and the loop rule `twin_each`.
-/

namespace Brf.Lib.Op

variable {ε σ τ α β : Type} {R : σ → σ → Prop} {s t : σ}

/-- The runs of `m` from `s` and of `n` from `t` agree. -/
def Twin (R : σ → σ → Prop) (m n : Op ε σ α) (s t : σ) : Prop :=
  (exec m s).1 = (exec n t).1 ∧ R (exec m s).2 (exec n t).2

theorem twin_pure (a : α) (h : R s t) : Twin R (pure a : Op ε σ α) (pure a) s t := ⟨rfl, h⟩

theorem twin_throw (e : ε) (h : R s t) : Twin R (throw e : Op ε σ α) (throw e) s t := ⟨rfl, h⟩

theorem twin_set {s' t' : σ} (h : R s' t') : Twin R (set s' : Op ε σ PUnit) (set t') s t := ⟨rfl, h⟩

theorem twin_modify {f g : σ → σ} (h : R (f s) (g t)) :
    Twin R (modify f : Op ε σ PUnit) (modify g) s t := ⟨rfl, h⟩

theorem twin_get_bind {f g : σ → Op ε σ β} (h : Twin R (f s) (g t) s t) :
    Twin R (get >>= f) (get >>= g) s t := h

/-- **Sequencing**: the second parts start from the same result and from related states. -/
theorem twin_bind {m n : Op ε σ α} {f g : α → Op ε σ β} (first : Twin R m n s t)
    (rest : ∀ a s' t', R s' t' → Twin R (f a) (g a) s' t') :
    Twin R (m >>= f) (n >>= g) s t := by
  obtain ⟨same, related⟩ := first
  unfold Twin
  rw [exec_bind, exec_bind]
  rcases hm : exec m s with ⟨e | a, s'⟩
  · rcases hn : exec n t with ⟨e' | b, t'⟩
    · rw [hm, hn] at same related
      obtain rfl : e = e' := Except.error.inj same
      exact ⟨rfl, related⟩
    · rw [hm, hn] at same
      cases same
  · rcases hn : exec n t with ⟨e' | b, t'⟩
    · rw [hm, hn] at same
      cases same
    · rw [hm, hn] at same related
      obtain rfl : a = b := Except.ok.inj same
      exact rest a s' t' related

theorem twin_attempt {m n : Op ε σ α} (h : Twin R m n s t) : Twin R (attempt m) (attempt n) s t :=
  ⟨congrArg Except.ok h.1, h.2⟩

theorem twin_refuseIf_bind {c : Bool} {e : ε} {f g : Unit → Op ε σ β} (h : R s t)
    (pass : c = false → Twin R (f ()) (g ()) s t) :
    Twin R (refuseIf c e >>= f) (refuseIf c e >>= g) s t := by
  cases c with
  | false => exact pass rfl
  | true => exact ⟨rfl, h⟩

/-- A call of a component of each state. -/
theorem twin_zoom {S : τ → τ → Prop} {view : σ → τ} {put : τ → σ → σ} {m n : Op ε τ α}
    (h : Twin S m n (view s) (view t)) (lift : ∀ x y, S x y → R (put x s) (put y t)) :
    Twin R (zoom view put m) (zoom view put n) s t :=
  ⟨h.1, lift _ _ h.2⟩

/-- **Loop rule**: turns that agree make loops that agree. -/
theorem twin_each {f g : α → Op ε σ Unit} (turn : ∀ x s t, R s t → Twin R (f x) (g x) s t)
    (xs : List α) (h : R s t) : Twin R (each f xs) (each g xs) s t := by
  induction xs generalizing s t with
  | nil => exact ⟨rfl, h⟩
  | cons x xs ih => exact twin_bind (turn x s t h) fun _ _ _ related => ih related

end Brf.Lib.Op
