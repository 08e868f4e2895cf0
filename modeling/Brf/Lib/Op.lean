import Mathlib.Data.List.Basic
import Mathlib.Logic.Relation
import Mathlib.Order.Defs.Unbundled

/-!
# Fallible operations on a state

A method that mutates an object and may fail half way: `Op ε σ α` runs from a state to a result or
an error *and* a state, so what was changed before the failure stays changed, as in the program.

* `exec m s` is the run of `m` from `s`; `Ensures m s Q` says that it ends in a result and a state
  that satisfy `Q`.
* `attempt` turns the error of an operation into a value, for a caller that looks at it.
* `refuseIf` is the guard `if (c) return error;`, `when` the statement `if (c) m;`, and `each` the loop
  `for (x : xs) f(x);`.
* `zoom` runs an operation of a component on the component of a larger state.
* `Within R m` says that `m` relates every state to the one it leaves, by success or by failure; for
  a preorder `R` it is checked piece by piece.
* `Tells R ts m` also says what was told on the way: `R` is graded by lists, which add up.

Results: the composition rules `ensures_bind`, `Ensures.mono`, `ensures_attempt`, the loop rules
`ensures_each` and `each_moves`, the inversion `exec_bind_ok`, and the rules of `Within` and `Tells`.
-/

namespace Brf.Lib

/-- An operation on a state `σ` that fails with `ε`; the state at the failure is kept. -/
abbrev Op (ε σ α : Type) := ExceptT ε (StateM σ) α

namespace Op

variable {ε σ α β : Type}

/-- The run of an operation from a state. -/
def exec (m : Op ε σ α) (s : σ) : Except ε α × σ := (ExceptT.run m).run s

/-- The guard `if (c) return e;`. -/
def refuseIf (c : Bool) (e : ε) : Op ε σ Unit := if c then throw e else pure ()

/-- The statement `if (c) m;`. -/
def when (c : Bool) (m : Op ε σ Unit) : Op ε σ Unit := if c then m else pure ()

/-- Runs a pure check that may fail. -/
def lift (x : Except ε α) : Op ε σ α :=
  match x with
  | .ok a => pure a
  | .error e => throw e

/-- Hands the outcome of `m` to the caller instead of failing with it. -/
def attempt (m : Op ε σ α) : Op ε σ (Except ε α) :=
  ExceptT.mk (fun s => let (r, s') := m.exec s; (.ok r, s'))

/-- Runs an operation of a component of the state. -/
def zoom {τ : Type} (view : σ → τ) (put : τ → σ → σ) (m : Op ε τ α) : Op ε σ α :=
  ExceptT.mk (fun s => let (r, t) := m.exec (view s); (r, put t s))

/-! ## Equations of a run -/

@[simp] theorem exec_pure (a : α) (s : σ) : exec (pure a : Op ε σ α) s = (.ok a, s) := rfl

@[simp] theorem exec_throw (e : ε) (s : σ) : exec (throw e : Op ε σ α) s = (.error e, s) := rfl

@[simp] theorem exec_get (s : σ) : exec (get : Op ε σ σ) s = (.ok s, s) := rfl

@[simp] theorem exec_set (s t : σ) : exec (set t : Op ε σ PUnit) s = (.ok ⟨⟩, t) := rfl

@[simp] theorem exec_modify (f : σ → σ) (s : σ) :
    exec (modify f : Op ε σ PUnit) s = (.ok ⟨⟩, f s) := rfl

@[simp] theorem exec_attempt (m : Op ε σ α) (s : σ) :
    exec (attempt m) s = (.ok (exec m s).1, (exec m s).2) := rfl

@[simp] theorem exec_zoom {τ : Type} (view : σ → τ) (put : τ → σ → σ) (m : Op ε τ α) (s : σ) :
    exec (zoom view put m) s = ((exec m (view s)).1, put (exec m (view s)).2 s) := rfl

@[simp] theorem exec_lift_ok (a : α) (s : σ) :
    exec (lift (.ok a) : Op ε σ α) s = (.ok a, s) := rfl

@[simp] theorem exec_lift_error (e : ε) (s : σ) :
    exec (lift (.error e) : Op ε σ α) s = (.error e, s) := rfl

@[simp] theorem exec_refuseIf (c : Bool) (e : ε) (s : σ) :
    exec (refuseIf c e : Op ε σ Unit) s = (if c then .error e else .ok (), s) := by
  cases c <;> rfl

/-- A sequence runs its second part on what the first part left, if that did not fail. -/
theorem exec_bind (m : Op ε σ α) (f : α → Op ε σ β) (s : σ) :
    exec (m >>= f) s = match exec m s with
      | (.ok a, s') => exec (f a) s'
      | (.error e, s') => (.error e, s') := by
  change (match exec m s with
    | (r, s') => (ExceptT.bindCont f r).run s') = _
  rcases exec m s with ⟨_ | a, s'⟩ <;> rfl

theorem exec_bind_of_ok {m : Op ε σ α} {f : α → Op ε σ β} {s s' : σ} {a : α}
    (h : exec m s = (.ok a, s')) : exec (m >>= f) s = exec (f a) s' := by
  rw [exec_bind, h]

theorem exec_bind_of_error {m : Op ε σ α} {f : α → Op ε σ β} {s s' : σ} {e : ε}
    (h : exec m s = (.error e, s')) : exec (m >>= f) s = (.error e, s') := by
  rw [exec_bind, h]

/-- A sequence succeeds only if both parts do. -/
theorem exec_bind_ok {m : Op ε σ α} {f : α → Op ε σ β} {s s'' : σ} {b : β}
    (h : exec (m >>= f) s = (.ok b, s'')) :
    ∃ a s', exec m s = (.ok a, s') ∧ exec (f a) s' = (.ok b, s'') := by
  rw [exec_bind] at h
  rcases hm : exec m s with ⟨_ | a, s'⟩
  · rw [hm] at h
    simp at h
  · rw [hm] at h
    exact ⟨a, s', rfl, h⟩

@[simp] theorem exec_get_bind (f : σ → Op ε σ β) (s : σ) :
    exec (get >>= f) s = exec (f s) s := rfl

@[simp] theorem exec_modify_bind (g : σ → σ) (f : PUnit → Op ε σ β) (s : σ) :
    exec (modify g >>= f) s = exec (f ⟨⟩) (g s) := rfl

@[simp] theorem exec_pure_bind (a : α) (f : α → Op ε σ β) (s : σ) :
    exec (pure a >>= f) s = exec (f a) s := rfl

@[simp] theorem exec_throw_bind (e : ε) (f : α → Op ε σ β) (s : σ) :
    exec ((throw e : Op ε σ α) >>= f) s = (.error e, s) := rfl

/-- A sequence that starts with a pure computation succeeds only if that does. -/
theorem exec_lift_bind_ok {x : Except ε α} {f : α → Op ε σ β} {s s' : σ} {b : β}
    (h : exec (lift x >>= f) s = (.ok b, s')) : ∃ a, x = .ok a ∧ exec (f a) s = (.ok b, s') := by
  cases x with
  | error e => cases h
  | ok a => exact ⟨a, rfl, h⟩

/-- A sequence that starts with a check succeeds only if the check passes. -/
theorem exec_refuseIf_bind_ok {c : Bool} {e : ε} {f : Unit → Op ε σ β} {s s' : σ} {b : β}
    (h : exec (refuseIf c e >>= f) s = (.ok b, s')) : c = false ∧ exec (f ()) s = (.ok b, s') := by
  cases c with
  | true => cases h
  | false => exact ⟨rfl, h⟩

@[simp] theorem exec_ite (c : Prop) [Decidable c] (m n : Op ε σ α) (s : σ) :
    exec (if c then m else n) s = if c then exec m s else exec n s := by
  split <;> rfl

/-- A run is known by its answer and the state it leaves. -/
theorem exec_of_fst {m : Op ε σ α} {s : σ} {r : Except ε α} (h : (exec m s).1 = r) :
    exec m s = (r, (exec m s).2) := Prod.ext h rfl

/-! ## What a run ensures -/

/-- Every way `m` can end when it starts from `s` satisfies `Q`. -/
def Ensures (m : Op ε σ α) (s : σ) (Q : Except ε α → σ → Prop) : Prop :=
  Q (exec m s).1 (exec m s).2

theorem Ensures.mono {m : Op ε σ α} {s : σ} {Q R : Except ε α → σ → Prop}
    (h : Ensures m s Q) (imp : ∀ r t, Q r t → R r t) : Ensures m s R :=
  imp _ _ h

theorem Ensures.and {m : Op ε σ α} {s : σ} {Q R : Except ε α → σ → Prop} (hQ : Ensures m s Q)
    (hR : Ensures m s R) : Ensures m s fun r t => Q r t ∧ R r t :=
  ⟨hQ, hR⟩

theorem ensures_pure {a : α} {s : σ} {Q : Except ε α → σ → Prop} (h : Q (.ok a) s) :
    Ensures (pure a : Op ε σ α) s Q := h

theorem ensures_throw {e : ε} {s : σ} {Q : Except ε α → σ → Prop} (h : Q (.error e) s) :
    Ensures (throw e : Op ε σ α) s Q := h

theorem ensures_get_bind {f : σ → Op ε σ β} {s : σ} {Q : Except ε β → σ → Prop}
    (h : Ensures (f s) s Q) : Ensures (get >>= f) s Q := h

theorem ensures_modify_bind {g : σ → σ} {f : PUnit → Op ε σ β} {s : σ}
    {Q : Except ε β → σ → Prop} (h : Ensures (f ⟨⟩) (g s) Q) : Ensures (modify g >>= f) s Q := h

theorem ensures_set {t s : σ} {Q : Except ε PUnit → σ → Prop} (h : Q (.ok ⟨⟩) t) :
    Ensures (set t : Op ε σ PUnit) s Q := h

theorem ensures_modify {g : σ → σ} {s : σ} {Q : Except ε PUnit → σ → Prop}
    (h : Q (.ok ⟨⟩) (g s)) : Ensures (modify g : Op ε σ PUnit) s Q := h

theorem ensures_set_bind {t : σ} {f : PUnit → Op ε σ β} {s : σ} {Q : Except ε β → σ → Prop}
    (h : Ensures (f ⟨⟩) t Q) : Ensures (set t >>= f) s Q := h

/-- **Sequencing**: the first part ends where the second can start, or fails where `Q` holds. -/
theorem ensures_bind {m : Op ε σ α} {f : α → Op ε σ β} {s : σ} {Q : Except ε β → σ → Prop}
    (h : Ensures m s (fun r t => match r with
      | .ok a => Ensures (f a) t Q
      | .error e => Q (.error e) t)) : Ensures (m >>= f) s Q := by
  unfold Ensures at h ⊢
  rw [exec_bind]
  rcases hm : exec m s with ⟨_ | a, t⟩
  · rw [hm] at h
    exact h
  · rw [hm] at h
    exact h

/-- What is ensured holds of how a known run ended. -/
theorem Ensures.of_run {m : Op ε σ α} {s t : σ} {r : Except ε α} {Q : Except ε α → σ → Prop}
    (h : Ensures m s Q) (run : exec m s = (r, t)) : Q r t := by
  unfold Ensures at h
  rw [run] at h
  exact h

/-- A known run ensures what holds of how it ended. -/
theorem Ensures.of_exec {m : Op ε σ α} {s t : σ} {r : Except ε α} {Q : Except ε α → σ → Prop}
    (run : exec m s = (r, t)) (h : Q r t) : Ensures m s Q := by
  unfold Ensures
  rw [run]
  exact h

/-- Sequencing, when the rest needs to know the run of the first part. -/
theorem ensures_bind_run {m : Op ε σ α} {f : α → Op ε σ β} {s : σ} {Q : Except ε β → σ → Prop}
    (h : ∀ r t, exec m s = (r, t) → match r with
      | .ok a => Ensures (f a) t Q
      | .error e => Q (.error e) t) : Ensures (m >>= f) s Q :=
  ensures_bind (h _ _ rfl)

theorem ensures_attempt {m : Op ε σ α} {s : σ} {Q : Except ε (Except ε α) → σ → Prop}
    (h : Ensures m s (fun r t => Q (.ok r) t)) : Ensures (attempt m) s Q := h

theorem exec_discard (m : Op ε σ α) (s : σ) : exec (discard m) s = match exec m s with
    | (.ok _, t) => (.ok ⟨⟩, t)
    | (.error e, t) => (.error e, t) := by
  change (match exec m s with
    | (r, t) => (match r with
      | .ok _ => pure (.ok ⟨⟩)
      | .error e => pure (.error e) : StateM σ (Except ε PUnit)).run t) = _
  rcases exec m s with ⟨_ | a, t⟩ <;> rfl

/-- An operation whose result is dropped has succeeded. -/
theorem exec_discard_ok {m : Op ε σ α} {s t : σ} {u : PUnit}
    (h : exec (discard m) s = (.ok u, t)) : ∃ a, exec m s = (.ok a, t) := by
  rw [exec_discard] at h
  rcases hm : exec m s with ⟨e | a, s'⟩
  · rw [hm] at h
    exact absurd (congrArg Prod.fst h) (by simp)
  · rw [hm] at h
    obtain ⟨-, rfl⟩ := Prod.mk.inj h
    exact ⟨a, rfl⟩

/-- The result of an operation is dropped. -/
theorem ensures_discard {m : Op ε σ α} {s : σ} {Q : Except ε PUnit → σ → Prop}
    (h : Ensures m s (fun r t => match r with
      | .ok _ => Q (.ok ⟨⟩) t
      | .error e => Q (.error e) t)) : Ensures (discard m) s Q := by
  unfold Ensures at h ⊢
  rw [exec_discard]
  rcases hm : exec m s with ⟨_ | a, t⟩
  · rw [hm] at h
    exact h
  · rw [hm] at h
    exact h

theorem ensures_zoom {τ : Type} {view : σ → τ} {put : τ → σ → σ} {m : Op ε τ α} {s : σ}
    {Q : Except ε α → σ → Prop} (h : Ensures m (view s) (fun r t => Q r (put t s))) :
    Ensures (zoom view put m) s Q := h

theorem ensures_ite {c : Prop} [Decidable c] {m n : Op ε σ α} {s : σ}
    {Q : Except ε α → σ → Prop} (hm : c → Ensures m s Q) (hn : ¬ c → Ensures n s Q) :
    Ensures (if c then m else n) s Q := by
  by_cases h : c
  · simpa [h] using hm h
  · simpa [h] using hn h

/-- A conditional statement is run where its condition holds. -/
theorem ensures_when {c : Bool} {m : Op ε σ Unit} {s : σ} {Q : Except ε Unit → σ → Prop}
    (hm : c = true → Ensures m s Q) (skip : c = false → Q (.ok ()) s) : Ensures (when c m) s Q := by
  cases c with
  | false => exact skip rfl
  | true => exact hm rfl

theorem ensures_lift {x : Except ε α} {s : σ} {Q : Except ε α → σ → Prop} (h : Q x s) :
    Ensures (lift x) s Q := by
  cases x with
  | ok a => exact h
  | error e => exact h

theorem ensures_lift_bind {x : Except ε α} {f : α → Op ε σ β} {s : σ}
    {Q : Except ε β → σ → Prop} (ok : ∀ a, x = .ok a → Ensures (f a) s Q)
    (err : ∀ e, x = .error e → Q (.error e) s) : Ensures (lift x >>= f) s Q := by
  cases x with
  | ok a => exact ok a rfl
  | error e => exact err e rfl

theorem ensures_refuseIf_bind {c : Bool} {e : ε} {f : Unit → Op ε σ β} {s : σ}
    {Q : Except ε β → σ → Prop} (pass : c = false → Ensures (f ()) s Q)
    (refuse : c = true → Q (.error e) s) : Ensures (refuseIf c e >>= f) s Q := by
  cases c with
  | false => exact pass rfl
  | true => exact refuse rfl

/-! ## Loops -/

/-- `for (x : xs) f(x);`, where a failing turn ends the loop. -/
def each (f : α → Op ε σ Unit) : List α → Op ε σ Unit
  | [] => pure ()
  | x :: xs => do
    f x
    each f xs

theorem each_congr {f g : α → Op ε σ Unit} :
    ∀ {xs : List α}, (∀ x ∈ xs, f x = g x) → each f xs = each g xs
  | [], _ => rfl
  | x :: xs, h => by
    unfold each
    rw [h x List.mem_cons_self, each_congr fun y hy => h y (List.mem_cons_of_mem _ hy)]

/-- **Loop rule**: what the body keeps, from any state and also when it fails, the loop keeps. -/
theorem ensures_each {I : σ → Prop} {f : α → Op ε σ Unit} :
    ∀ {xs : List α} {s : σ}, I s → (∀ x ∈ xs, ∀ t, I t → Ensures (f x) t (fun _ u => I u)) →
      Ensures (each f xs) s (fun _ t => I t)
  | [], _, hs, _ => hs
  | x :: xs, s, hs, step => by
    apply ensures_bind
    refine (step x List.mem_cons_self s hs).mono ?_
    rintro (e | ⟨⟩) t ht
    · exact ht
    · exact ensures_each ht fun y hy => step y (List.mem_cons_of_mem _ hy)

/-- **Loop rule** for a body that does not fail. -/
theorem ensures_each_ok {I : σ → Prop} {f : α → Op ε σ Unit} :
    ∀ {xs : List α} {s : σ}, I s →
      (∀ x ∈ xs, ∀ t, I t → Ensures (f x) t (fun r u => r = .ok () ∧ I u)) →
      Ensures (each f xs) s (fun r t => r = .ok () ∧ I t)
  | [], _, hs, _ => ⟨rfl, hs⟩
  | x :: xs, s, hs, step => by
    apply ensures_bind
    refine (step x List.mem_cons_self s hs).mono ?_
    rintro _ t ⟨rfl, ht⟩
    exact ensures_each_ok ht fun y hy => step y (List.mem_cons_of_mem _ hy)

/-- A loop that succeeds has made each of its turns. -/
theorem each_split_ok {f : α → Op ε σ Unit} {x : α} {ys : List α} :
    ∀ {xs : List α} {s t : σ}, exec (each f (xs ++ x :: ys)) s = (.ok (), t) →
      ∃ a b, exec (each f xs) s = (.ok (), a) ∧ exec (f x) a = (.ok (), b) ∧
        exec (each f ys) b = (.ok (), t)
  | [], s, t, h => by
    obtain ⟨_, b, here, rest⟩ := exec_bind_ok h
    exact ⟨s, b, rfl, here, rest⟩
  | z :: xs, s, t, h => by
    obtain ⟨_, s', first, rest⟩ := exec_bind_ok h
    obtain ⟨a, b, before, here, behind⟩ := each_split_ok rest
    exact ⟨a, b, (exec_bind_of_ok first).trans before, here, behind⟩

/-- A loop relates its first and last state by every reflexive and transitive relation that relates
the ends of each turn. -/
theorem each_moves {R : σ → σ → Prop} (refl : ∀ s, R s s)
    (trans : ∀ {a b c}, R a b → R b c → R a c) {f : α → Op ε σ Unit} {xs : List α} {s : σ}
    (step : ∀ x ∈ xs, ∀ t, Ensures (f x) t (fun _ u => R t u)) :
    Ensures (each f xs) s (fun _ t => R s t) :=
  ensures_each (refl s) fun x hx t ht => (step x hx t).mono fun _ _ hu => trans ht hu

/-! ## Operations within a preorder -/

/-- `m` relates every state to the state it leaves, whether it fails or not. -/
def Within (R : σ → σ → Prop) (m : Op ε σ α) : Prop := ∀ s, Ensures m s fun _ t => R s t

section Within

variable {R : σ → σ → Prop}

theorem within_modify {g : σ → σ} (h : ∀ s, R s (g s)) :
    Within R (modify g : Op ε σ PUnit) := fun s => h s

theorem within_get_bind {f : σ → Op ε σ β} (h : ∀ s, Ensures (f s) s fun _ t => R s t) :
    Within R (get >>= f) := fun s => ensures_get_bind (h s)

theorem within_ite {c : Prop} [Decidable c] {m n : Op ε σ α} (hm : Within R m)
    (hn : Within R n) : Within R (if c then m else n) := fun s =>
  ensures_ite (fun _ => hm s) fun _ => hn s

theorem within_attempt {m : Op ε σ α} (hm : Within R m) : Within R (attempt m) := fun s =>
  ensures_attempt ((hm s).mono fun _ _ moved => moved)

theorem within_discard {m : Op ε σ α} (hm : Within R m) :
    Within R (discard m : Op ε σ PUnit) := fun s =>
  ensures_discard ((hm s).mono fun _ _ moved => by
    split
    · exact moved
    · exact moved)

theorem within_zoom {τ : Type} {view : σ → τ} {put : τ → σ → σ} (h : ∀ s t, R s (put t s))
    (m : Op ε τ α) : Within R (zoom view put m) := fun s => h s _

variable [IsPreorder σ R]

/-- Two operations in a row, when the second depends on what the first has done. -/
theorem ensures_trans {m : Op ε σ α} {f : α → Op ε σ β} {s : σ}
    (first : Ensures m s fun r t => R s t ∧
      ∀ a, r = .ok a → Ensures (f a) t fun _ u => R t u) :
    Ensures (m >>= f) s fun _ t => R s t := by
  apply ensures_bind
  refine first.mono ?_
  rintro (e | a) t ⟨moved, rest⟩
  · exact moved
  · exact (rest a rfl).mono fun _ u later => IsTrans.trans s t u moved later

theorem within_pure (a : α) : Within R (pure a : Op ε σ α) := fun s => Std.Refl.refl s

theorem within_throw (e : ε) : Within R (throw e : Op ε σ α) := fun s => Std.Refl.refl s

theorem within_get : Within R (get : Op ε σ σ) := fun s => Std.Refl.refl s

theorem within_lift (x : Except ε α) : Within R (lift x : Op ε σ α) := by
  intro s
  cases x
  · exact Std.Refl.refl s
  · exact Std.Refl.refl s

theorem within_refuseIf (c : Bool) (e : ε) : Within R (refuseIf c e : Op ε σ Unit) := by
  intro s
  cases c
  · exact Std.Refl.refl s
  · exact Std.Refl.refl s

theorem within_bind {m : Op ε σ α} {f : α → Op ε σ β} (hm : Within R m)
    (hf : ∀ a, Within R (f a)) : Within R (m >>= f) := fun s =>
  ensures_trans ((hm s).mono fun _ t moved => ⟨moved, fun a _ => hf a t⟩)

theorem within_when {c : Bool} {m : Op ε σ Unit} (hm : Within R m) : Within R (when c m) := by
  cases c
  · exact within_pure ()
  · exact hm

theorem within_each {f : α → Op ε σ Unit} (hf : ∀ x, Within R (f x)) (xs : List α) :
    Within R (each f xs) := fun _ =>
  each_moves (R := R) Std.Refl.refl (fun {a b c} h h' => IsTrans.trans a b c h h')
    fun x _ t => hf x t

end Within

/-! ## What an operation tells -/

/-- A relation between states that is graded by what the steps from one to the other tell. -/
class Graded {τ : Type} (R : List τ → σ → σ → Prop) : Prop where
  refl : ∀ s, R [] s s
  trans : ∀ {ts us : List τ} {a b c : σ}, R ts a b → R us b c → R (ts ++ us) a c

/-- If it succeeds, `m` tells `ts`. -/
def Tells {τ : Type} (R : List τ → σ → σ → Prop) (ts : List τ) (m : Op ε σ α) : Prop :=
  ∀ s, Ensures m s fun r t => match r with
    | .ok _ => R ts s t
    | .error _ => True

namespace Tells

variable {τ : Type} {R : List τ → σ → σ → Prop} {ts us : List τ}

theorem of_within {Q : σ → σ → Prop} (silent : ∀ a b, Q a b → R [] a b) {m : Op ε σ α}
    (h : Within Q m) : Tells R [] m := fun s =>
  (h s).mono fun r t moved => by
    split
    · exact silent s t moved
    · trivial

theorem modify {f : σ → σ} (h : ∀ s, R ts s (f s)) : Tells R ts (modify f : Op ε σ PUnit) :=
  fun s => h s

variable [Graded R]

theorem bind {m : Op ε σ α} {f : α → Op ε σ β} (first : Tells R ts m)
    (rest : ∀ a, Tells R us (f a)) : Tells R (ts ++ us) (m >>= f) := fun s => by
  apply ensures_bind
  refine (first s).mono ?_
  rintro (e | a) t here
  · trivial
  · refine (rest a t).mono ?_
    rintro (e | b) u later
    · trivial
    · exact Graded.trans here later

/-- An operation that tells nothing, before one that tells `ts`. -/
theorem silent_bind {m : Op ε σ α} {f : α → Op ε σ β} (first : Tells R [] m)
    (rest : ∀ a, Tells R ts (f a)) : Tells R ts (m >>= f) := first.bind rest

theorem each {f : α → Op ε σ Unit} {t : α → List τ} (turn : ∀ x, Tells R (t x) (f x)) :
    ∀ xs : List α, Tells R (xs.flatMap t) (each f xs)
  | [] => fun s => Graded.refl s
  | x :: xs => (turn x).bind fun _ => each turn xs

end Tells

section Graded

variable {τ : Type} {R : List τ → σ → σ → Prop} [Graded R]

/-- A loop whose turns tell one thing each. -/
theorem graded_foldl {f : σ → α → σ} {t : α → τ} (turn : ∀ s x, R [t x] s (f s x)) :
    ∀ (xs : List α) (s : σ), R (xs.map t) s (xs.foldl f s)
  | [], s => Graded.refl s
  | x :: xs, s => Graded.trans (turn s x) (graded_foldl turn xs (f s x))

/-- A loop that tells nothing. -/
theorem graded_foldl_silent {f : σ → α → σ} (turn : ∀ s x, R [] s (f s x)) :
    ∀ (xs : List α) (s : σ), R [] s (xs.foldl f s)
  | [], s => Graded.refl s
  | x :: xs, s => Graded.trans (turn s x) (graded_foldl_silent turn xs (f s x))

end Graded

/-! ## What an operation leaves -/

/-- A second part that leaves the state alone leaves what the first part has left. -/
theorem exec_bind_still (m : Op ε σ α) {f : α → Op ε σ β} (still : ∀ a t, (exec (f a) t).2 = t)
    (s : σ) : (exec (m >>= f) s).2 = (exec m s).2 := by
  rw [exec_bind]
  rcases exec m s with ⟨e | a, t⟩
  · rfl
  · exact still a t

/-- What both parts leave as it is stays as it is. -/
theorem exec_bind_view {τ : Type} (view : σ → τ) {m : Op ε σ α} {f : α → Op ε σ β}
    (first : ∀ s, view (exec m s).2 = view s) (rest : ∀ a s, view (exec (f a) s).2 = view s) (s : σ) :
    view (exec (m >>= f) s).2 = view s := by
  rw [exec_bind]
  have begins := first s
  rcases run : exec m s with ⟨e | a, t⟩ <;> rw [run] at begins
  · exact begins
  · exact (rest a t).trans begins

/-- What an operation leaves does not depend on what is made of its result. -/
theorem exec_bind_pure (m : Op ε σ α) (f : α → β) (s : σ) :
    (exec (m >>= fun a => pure (f a)) s).2 = (exec m s).2 :=
  exec_bind_still m (fun _ _ => rfl) s

theorem exec_discard_snd (m : Op ε σ α) (s : σ) : (exec (discard m) s).2 = (exec m s).2 := by
  rw [exec_discard]
  rcases exec m s with ⟨e | a, t⟩ <;> rfl

theorem exec_attempt_snd (m : Op ε σ α) (s : σ) : (exec (attempt m) s).2 = (exec m s).2 := rfl

theorem exec_lift_snd (x : Except ε α) (s : σ) : (exec (lift x : Op ε σ α) s).2 = s := by
  cases x <;> rfl

theorem exec_refuseIf_snd (c : Bool) (e : ε) (s : σ) :
    (exec (refuseIf c e : Op ε σ Unit) s).2 = s := by
  rw [exec_refuseIf]

end Op

end Brf.Lib
