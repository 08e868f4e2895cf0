import Brf.Lib.Run
import Mathlib.Data.List.Induction
import Mathlib.Order.MinMax

/-!
# Generations under an identity

What a store keeps of generation-stamped records, as far as counting them goes: which generations of
an identity are stored, which of those have ended, and which generation is the current one.

* A `Turn` is one change: a generation is put, moved, dropped, or taken up by an archive.
* `Proper v t` are the turns that mistake no generation for another: a live generation is put only
  where it is new, a stored one that has ended is not put back to life, and a live one is not dropped.
* `Shadows b a`: what `b` holds will do in the place of what `a` holds, after everything that lives
  only in memory has been lost.

Results: `commit_along` (the turns of a commit may come in any order), and what keeps a shadow:
`Shadows.commit`, `Shadows.move`, `Shadows.drops` and `Shadows.restate`.
-/

namespace Brf.Lib

/-- The stored generations of every identity, each with whether it has ended, and the current
generation. -/
@[ext] structure Versions (ι γ : Type) where
  standing : ι → γ → Option Bool
  current : ι → Option γ

/-- One change of the generations. -/
inductive Turn (ι γ : Type) where
  | put (i : ι) (g : γ) (ended : Bool)
  | move (i : ι) (g : γ) (ended : Bool)
  | drop (i : ι) (g : γ)
  /-- The archive takes the generation up. -/
  | shelve (i : ι) (g : γ)

namespace Versions

variable {ι γ : Type}

/-- Nothing is stored. -/
def empty : Versions ι γ := ⟨fun _ _ => none, fun _ => none⟩

variable {v w a b : Versions ι γ} {i j : ι} {g h : γ}

/-- What the turns of a commit have made of `v`: the generations that end, and those that enter. -/
structure Commits (ts : List (Turn ι γ)) (v w : Versions ι γ) : Prop where
  entered : ∀ i g, .put i g false ∈ ts → w.standing i g = some false ∧ w.current i = some g
  ended : ∀ i g, .move i g true ∈ ts → w.standing i g = some true
  standing : ∀ i g, .put i g false ∉ ts → .move i g true ∉ ts → w.standing i g = v.standing i g
  current : ∀ i, (∀ g, .put i g false ∉ ts) → w.current i = v.current i

/-- A commit brings to life only what it puts. -/
theorem Commits.live {ts : List (Turn ι γ)} (made : Commits ts v w)
    (stands : w.standing i g = some false) :
    .put i g false ∈ ts ∨ v.standing i g = some false ∧ .move i g true ∉ ts := by
  by_cases put : .put i g false ∈ ts
  · exact .inl put
  · by_cases ends : .move i g true ∈ ts
    · rw [made.ended i g ends] at stands
      cases stands
    · rw [made.standing i g put ends] at stands
      exact .inr ⟨stands, ends⟩

section

variable [LinearOrder γ]

/-- The identity has had the generation, or a later one. -/
def Known (v : Versions ι γ) (i : ι) (g : γ) : Prop := ∃ c, v.current i = some c ∧ g ≤ c

/-- Whatever is stored is known. -/
def Tidy (v : Versions ι γ) : Prop := ∀ i g, v.standing i g ≠ none → v.Known i g

/-- The generation is known, and is not stored as a live one. -/
def Shelved (v : Versions ι γ) (i : ι) (g : γ) : Prop := v.Known i g ∧ v.standing i g ≠ some false

/-- The turns that mistake no generation for another. -/
def Proper (v : Versions ι γ) : Turn ι γ → Prop
  | .put i g false => v.Known i g → v.standing i g = some false
  | .put i g true => v.standing i g ≠ some false
  | .move i g false => v.standing i g ≠ some true
  | .move _ _ true => True
  | .drop i g => v.standing i g ≠ some false
  | .shelve i g => v.Shelved i g

theorem Known.mono (known : v.Known i g) (le : h ≤ g) : v.Known i h := by
  obtain ⟨c, current, above⟩ := known
  exact ⟨c, current, le.trans above⟩

/-- Nothing is known of an empty store. -/
theorem tidy_empty : (empty : Versions ι γ).Tidy := fun _ _ stored => absurd rfl stored

/-! ## Commits -/

/-- The turns of a commit: stored generations end, and new ones enter, one for each identity. -/
structure Committing (v : Versions ι γ) (ts : List (Turn ι γ)) : Prop where
  turns : ∀ t ∈ ts, (∃ i g, t = .move i g true ∧ v.standing i g ≠ none) ∨
    ∃ i g, t = .put i g false ∧ ¬ v.Known i g
  one : ∀ i g h, .put i g false ∈ ts → .put i h false ∈ ts → g = h

namespace Committing

variable {ts : List (Turn ι γ)}

theorem stored (h : v.Committing ts) (mem : .move i g true ∈ ts) : v.standing i g ≠ none := by
  rcases h.turns _ mem with ⟨_, _, ⟨⟩, stored⟩ | ⟨_, _, ⟨⟩, _⟩
  exact stored

theorem fresh (h : v.Committing ts) (mem : .put i g false ∈ ts) : ¬ v.Known i g := by
  rcases h.turns _ mem with ⟨_, _, ⟨⟩, _⟩ | ⟨_, _, ⟨⟩, fresh⟩
  exact fresh

theorem front {us : List (Turn ι γ)} (h : v.Committing (ts ++ us)) : v.Committing ts where
  turns t mem := h.turns t (List.mem_append_left _ mem)
  one i g k mem mem' := h.one i g k (List.mem_append_left _ mem) (List.mem_append_left _ mem')

/-- The same turns in another order. -/
theorem congr {us : List (Turn ι γ)} (h : v.Committing ts) (same : ∀ t, t ∈ us ↔ t ∈ ts) :
    v.Committing us where
  turns t mem := h.turns t ((same t).mp mem)
  one i g k mem mem' := h.one i g k ((same _).mp mem) ((same _).mp mem')

end Committing

/-! ## Shadows -/

/-- `b` will do in the place of `a`: the live generations are the same and current in both, and what
else `b` stores has ended, and is known in `a`. -/
structure Shadows (b a : Versions ι γ) : Prop where
  tidy : a.Tidy
  tidy' : b.Tidy
  standing : ∀ i g, b.standing i g = a.standing i g ∨
    a.standing i g = none ∧ b.standing i g = some true ∧ a.Known i g
  live : ∀ i g, a.standing i g = some false → a.current i = some g ∧ b.current i = some g
  behind : ∀ i c, b.current i = some c → a.Known i c

namespace Shadows

theorem known (shadows : Shadows b a) (known : b.Known i g) : a.Known i g := by
  obtain ⟨c, current, le⟩ := known
  exact (shadows.behind i c current).mono le

/-- What `a` stores, `b` stores. -/
theorem stored (shadows : Shadows b a) (stored : a.standing i g ≠ none) :
    b.standing i g = a.standing i g := by
  rcases shadows.standing i g with same | ⟨none, -⟩
  · exact same
  · exact absurd none stored

theorem not_live (shadows : Shadows b a) (apart : a.standing i g ≠ some false) :
    b.standing i g ≠ some false := by
  rcases shadows.standing i g with same | ⟨-, ended, -⟩
  · rwa [same]
  · rw [ended]
    simp

/-- Where every live generation is current, a store is a shadow of itself. -/
theorem itself (tidy : a.Tidy) (live : ∀ i g, a.standing i g = some false → a.current i = some g) :
    Shadows a a where
  tidy := tidy
  tidy' := tidy
  standing _ _ := .inl rfl
  live i g stands := ⟨live i g stands, live i g stands⟩
  behind _ c current := ⟨c, current, le_rfl⟩

/-- The shadow is one of itself. -/
theorem kept (shadows : Shadows b a) : Shadows b b := by
  refine itself shadows.tidy' fun i g stands => (shadows.live i g ?_).2
  rcases shadows.standing i g with same | ⟨-, ended, -⟩
  · exact same.symm.trans stands
  · rw [ended] at stands
    cases stands

end Shadows

end

/-! ## Turns -/

variable [DecidableEq ι] [LinearOrder γ]

/-- One generation stands otherwise. -/
def stand (v : Versions ι γ) (i : ι) (g : γ) (x : Option Bool) : Versions ι γ :=
  { v with standing := fun j h => if j = i ∧ h = g then x else v.standing j h }

/-- The current generation of an identity is at least `g`. -/
def raise (v : Versions ι γ) (i : ι) (g : γ) : Versions ι γ :=
  { v with current := fun j => if j = i then some ((v.current i).elim g (max g)) else v.current j }

/-- The effect of one turn; a generation that is not stored does not move. -/
def turn (v : Versions ι γ) : Turn ι γ → Versions ι γ
  | .put i g ended => (v.stand i g (some ended)).raise i g
  | .move i g ended => v.stand i g ((v.standing i g).map fun _ => ended)
  | .drop i g => v.stand i g none
  | .shelve _ _ => v

variable {v w a b : Versions ι γ} {i j : ι} {g h : γ}

/-! ## One turn -/

@[simp] theorem standing_stand (x : Option Bool) :
    (v.stand i g x).standing j h = if j = i ∧ h = g then x else v.standing j h := rfl

@[simp] theorem current_stand (x : Option Bool) : (v.stand i g x).current j = v.current j := rfl

@[simp] theorem standing_raise : (v.raise i g).standing j h = v.standing j h := rfl

@[simp] theorem known_stand (x : Option Bool) : (v.stand i g x).Known j h ↔ v.Known j h := Iff.rfl

theorem known_raise : (v.raise i g).Known j h ↔ v.Known j h ∨ j = i ∧ h ≤ g := by
  unfold Known raise
  by_cases same : j = i
  · subst same
    cases v.current j <;> simp [or_comm]
  · simp [same]

theorem Known.turn (known : v.Known i g) (t : Turn ι γ) : (v.turn t).Known i g := by
  cases t with
  | put => exact known_raise.mpr (.inl known)
  | move => exact known
  | drop => exact known
  | shelve => exact known

theorem known_put (i : ι) (g : γ) (ended : Bool) : (v.turn (.put i g ended)).Known i g :=
  known_raise.mpr (.inr ⟨rfl, le_rfl⟩)

/-- A turn stores only what it puts. -/
theorem Tidy.turn (tidy : v.Tidy) (t : Turn ι γ) : (v.turn t).Tidy := by
  intro j h stored
  cases t with
  | put i g ended =>
    by_cases same : j = i ∧ h = g
    · obtain ⟨rfl, rfl⟩ := same
      exact known_put j h ended
    · refine Known.turn (tidy j h ?_) _
      simpa [Versions.turn, same] using stored
  | move i g ended =>
    refine tidy j h fun none => stored ?_
    by_cases same : j = i ∧ h = g
    · obtain ⟨rfl, rfl⟩ := same
      simp [Versions.turn, none]
    · simp [Versions.turn, same, none]
  | drop i g =>
    refine tidy j h fun none => stored ?_
    simp [Versions.turn, none]
  | shelve i g => exact tidy j h stored

/-- What the archive has taken up stays out of the way of proper turns. -/
theorem Shelved.turn (shelved : v.Shelved i g) {t : Turn ι γ} (proper : v.Proper t) :
    (v.turn t).Shelved i g := by
  obtain ⟨known, apart⟩ := shelved
  refine ⟨known.turn t, ?_⟩
  cases t with
  | put j h ended =>
    by_cases same : i = j ∧ g = h
    · obtain ⟨rfl, rfl⟩ := same
      cases ended with
      | false => exact absurd (proper known) apart
      | true => simp [Versions.turn]
    · simpa [Versions.turn, same] using apart
  | move j h ended =>
    by_cases same : i = j ∧ g = h
    · obtain ⟨rfl, rfl⟩ := same
      cases ended with
      | false =>
        cases stored : v.standing i g with
        | none => simp [Versions.turn, stored]
        | some e =>
          cases e with
          | false => exact absurd stored apart
          | true => exact absurd stored proper
      | true => cases stored : v.standing i g <;> simp [Versions.turn, stored]
    · simpa [Versions.turn, same] using apart
  | drop j h =>
    by_cases same : i = j ∧ g = h
    · simp [Versions.turn, same]
    · simpa [Versions.turn, same] using apart
  | shelve j h => exact apart

/-- A move to where the generation stands already. -/
theorem turn_move_still {ended : Bool} (stands : v.standing i g = some ended) :
    v.turn (.move i g ended) = v := by
  refine Versions.ext ?_ rfl
  funext j h
  by_cases same : j = i ∧ h = g
  · obtain ⟨rfl, rfl⟩ := same
    simp [turn, stands]
  · simp [turn, same]

theorem proper_move_again (i : ι) (g : γ) (ended : Bool) :
    (v.turn (.move i g ended)).Proper (.move i g ended) := by
  cases ended with
  | true => trivial
  | false => cases stands : v.standing i g <;> simp [Proper, turn, stands]

/-- One move twice. -/
theorem turn_move_again (v : Versions ι γ) (i : ι) (g : γ) (ended : Bool) :
    (v.turn (.move i g ended)).turn (.move i g ended) = v.turn (.move i g ended) := by
  cases stands : v.standing i g with
  | some e => exact turn_move_still (by simp [turn, stands])
  | none =>
    refine Versions.ext ?_ rfl
    funext j h
    by_cases same : j = i ∧ h = g
    · obtain ⟨rfl, rfl⟩ := same
      simp [turn, stands]
    · simp [turn, same]

/-! ## Sequences of turns -/

theorem Tidy.after (tidy : v.Tidy) (ts : List (Turn ι γ)) :
    (Lib.after Versions.turn v ts).Tidy := by
  induction ts generalizing v with
  | nil => exact tidy
  | cons t ts ih => exact ih (tidy.turn t)

theorem Known.after (known : v.Known i g) (ts : List (Turn ι γ)) :
    (Lib.after Versions.turn v ts).Known i g := by
  induction ts generalizing v with
  | nil => exact known
  | cons t ts ih => exact ih (known.turn t)

/-- What has been put is known. -/
theorem known_after_put {ts : List (Turn ι γ)} {ended : Bool} (put : .put i g ended ∈ ts) :
    (Lib.after Versions.turn v ts).Known i g := by
  induction ts generalizing v with
  | nil => cases put
  | cons t ts ih =>
    rcases List.mem_cons.mp put with rfl | later
    · exact (known_put i g ended).after ts
    · exact ih later

/-- After proper turns, a live generation has been put, or was live and has not been ended. -/
theorem live_after {ts : List (Turn ι γ)} (proper : Along turn Proper v ts)
    (stands : (after turn v ts).standing i g = some false) :
    .put i g false ∈ ts ∨ v.standing i g = some false ∧ .move i g true ∉ ts := by
  induction ts generalizing v with
  | nil => exact .inr ⟨stands, List.not_mem_nil⟩
  | cons t ts ih =>
    obtain ⟨first, rest⟩ := proper
    rcases ih rest stands with put | ⟨live, unended⟩
    · exact .inl (List.mem_cons_of_mem _ put)
    · cases t with
      | put j h ended =>
        by_cases same : i = j ∧ g = h
        · obtain ⟨rfl, rfl⟩ := same
          obtain rfl : ended = false := by simpa [turn] using live
          exact .inl List.mem_cons_self
        · exact .inr ⟨by simpa [turn, same] using live, by simpa using unended⟩
      | move j h ended =>
        by_cases same : i = j ∧ g = h
        · obtain ⟨rfl, rfl⟩ := same
          cases stood : v.standing i g with
          | none => simp [turn, stood] at live
          | some e =>
            obtain rfl : ended = false := by simpa [turn, stood] using live
            cases e with
            | false => exact .inr ⟨rfl, by simpa using unended⟩
            | true => exact absurd stood first
        · exact .inr ⟨by simpa [turn, same] using live, by
            simpa [show ¬ (i = j ∧ g = h ∧ ended = true) from fun no => same ⟨no.1, no.2.1⟩]
              using unended⟩
      | drop j h =>
        by_cases same : i = j ∧ g = h
        · simp [turn, same] at live
        · exact .inr ⟨by simpa [turn, same] using live, by simpa using unended⟩
      | shelve j h => exact .inr ⟨live, by simpa using unended⟩

/-- A current generation was current, or has been put. -/
theorem current_after {ts : List (Turn ι γ)} (there : (after turn v ts).current i = some g) :
    v.current i = some g ∨ ∃ ended, .put i g ended ∈ ts := by
  induction ts generalizing v with
  | nil => exact .inl there
  | cons t ts ih =>
    rcases ih there with before | ⟨ended, mem⟩
    · cases t with
      | put j h ended =>
        by_cases same : i = j
        · subst same
          have raised : (v.current i).elim h (max h) = g := by
            simpa [Versions.turn, raise] using before
          cases current : v.current i with
          | none =>
            rw [current] at raised
            exact .inr ⟨ended, raised ▸ List.mem_cons_self⟩
          | some c =>
            rw [current] at raised
            rcases max_choice h c with first | second
            · refine .inr ⟨ended, ?_⟩
              rw [← raised, Option.elim_some, first]
              exact List.mem_cons_self
            · refine .inl ?_
              rw [← raised, Option.elim_some, second]
        · exact .inl (by simpa [Versions.turn, raise, same] using before)
      | move => exact .inl before
      | drop => exact .inl before
      | shelve => exact .inl before
    · exact .inr ⟨ended, List.mem_cons_of_mem _ mem⟩

/-- **The turns of a commit** are proper, and come to the same in any order. -/
theorem commit_along (tidy : v.Tidy) {ts : List (Turn ι γ)} (commit : v.Committing ts) :
    Along turn Proper v ts ∧ Commits ts v (after turn v ts) := by
  induction ts using List.reverseRecOn with
  | nil =>
    exact ⟨trivial, fun _ _ no => absurd no List.not_mem_nil,
      fun _ _ no => absurd no List.not_mem_nil, fun _ _ _ _ => rfl, fun _ _ => rfl⟩
  | append_singleton ts t ih =>
    obtain ⟨along, made⟩ := ih commit.front
    rw [along_append, after_append]
    generalize after turn v ts = w at along made
    have last := List.mem_append_right ts (List.mem_singleton_self t)
    rcases commit.turns t last with ⟨i, g, rfl, stored⟩ | ⟨i, g, rfl, fresh⟩
    · -- What ends was known, so it is not among what enters.
      have known := tidy i g stored
      have apart : .put i g false ∉ ts := fun mem =>
        commit.fresh (List.mem_append_left _ mem) known
      have there : w.standing i g ≠ none := by
        by_cases done : .move i g true ∈ ts
        · simp [made.ended i g done]
        · rwa [made.standing i g apart done]
      refine ⟨⟨along, trivial, trivial⟩, ?_, ?_, ?_, ?_⟩
      · intro j h mem
        have before : .put j h false ∈ ts := by simpa using mem
        have other : ¬ (j = i ∧ h = g) := by
          rintro ⟨rfl, rfl⟩
          exact apart before
        obtain ⟨stands, current⟩ := made.entered j h before
        exact ⟨by simpa [turn, other] using stands, current⟩
      · intro j h mem
        by_cases same : j = i ∧ h = g
        · obtain ⟨e, stands⟩ := Option.ne_none_iff_exists'.mp there
          simp [turn, same, stands]
        · have mem : .move j h true ∈ ts := by simpa [same] using mem
          simpa [turn, same] using made.ended j h mem
      · intro j h noPut noMove
        have noPut : .put j h false ∉ ts := by simpa using noPut
        have noMove : .move j h true ∉ ts ∧ ¬ (j = i ∧ h = g) := by simpa using noMove
        have before := made.standing j h noPut noMove.1
        simpa [turn, noMove.2] using before
      · intro j none
        exact made.current j fun h mem => none h (List.mem_append_left _ mem)
    · have proper : w.Proper (.put i g false) := by
        intro known
        by_cases done : .put i g false ∈ ts
        · exact (made.entered i g done).1
        · have none : ∀ h, .put i h false ∉ ts := by
            intro h mem
            obtain rfl := commit.one i h g (List.mem_append_left _ mem) last
            exact done mem
          unfold Known at known
          rw [made.current i none] at known
          exact absurd known fresh
      have raised : (w.turn (.put i g false)).current i = some g := by
        by_cases done : .put i g false ∈ ts
        · simp [turn, raise, (made.entered i g done).2]
        · have none : ∀ h, .put i h false ∉ ts := by
            intro h mem
            obtain rfl := commit.one i h g (List.mem_append_left _ mem) last
            exact done mem
          cases current : v.current i with
          | none => simp [turn, raise, made.current i none, current]
          | some c =>
            have below : c < g := lt_of_not_ge fun above => fresh ⟨c, current, above⟩
            simp [turn, raise, made.current i none, current, below.le]
      refine ⟨⟨along, proper, trivial⟩, ?_, ?_, ?_, ?_⟩
      · intro j h mem
        by_cases same : j = i
        · subst same
          obtain rfl := commit.one j g h last mem
          exact ⟨by simp [turn], raised⟩
        · have mem : .put j h false ∈ ts := by simpa [same] using mem
          obtain ⟨stands, current⟩ := made.entered j h mem
          exact ⟨by simpa [turn, same] using stands, by simpa [turn, raise, same] using current⟩
      · intro j h mem
        have before : .move j h true ∈ ts := by simpa using mem
        have other : ¬ (j = i ∧ h = g) := by
          rintro ⟨rfl, rfl⟩
          exact fresh (tidy j h (commit.stored (List.mem_append_left _ before)))
        simpa [turn, other] using made.ended j h before
      · intro j h noPut noMove
        have noPut : .put j h false ∉ ts ∧ ¬ (j = i ∧ h = g) := by simpa using noPut
        have noMove : .move j h true ∉ ts := by simpa using noMove
        have before := made.standing j h noPut.1 noMove
        simpa [turn, noPut.2] using before
      · intro j none
        have other : j ≠ i := by
          rintro rfl
          exact none g last
        have before := made.current j fun h mem => none h (List.mem_append_left _ mem)
        simpa [turn, raise, other] using before

/-! ## What keeps a shadow -/

namespace Shadows

/-- **A commit keeps the shadow**, in whatever order each side makes its turns, if every live
generation of an identity that gets a new one ends. -/
theorem commit (shadows : Shadows b a) {ts us : List (Turn ι γ)} (same : ∀ t, t ∈ us ↔ t ∈ ts)
    (made : a.Committing ts)
    (closes : ∀ i g h, .put i g false ∈ ts → a.standing i h = some false → .move i h true ∈ ts) :
    Along turn Proper b us ∧ Shadows (after turn b us) (after turn a ts) := by
  have made' : b.Committing us := by
    refine Committing.congr ⟨fun t mem => ?_, made.one⟩ same
    rcases made.turns t mem with ⟨i, g, rfl, stored⟩ | ⟨i, g, rfl, fresh⟩
    · exact .inl ⟨i, g, rfl, by rwa [shadows.stored stored]⟩
    · exact .inr ⟨i, g, rfl, fun known => fresh (shadows.known known)⟩
  obtain ⟨-, ca⟩ := commit_along shadows.tidy made
  obtain ⟨along, cb⟩ := commit_along shadows.tidy' made'
  have tidy := shadows.tidy.after ts
  have tidy' := shadows.tidy'.after us
  refine ⟨along, ?_⟩
  generalize after turn a ts = a' at ca tidy
  generalize after turn b us = b' at cb tidy'
  have current : ∀ i g, .put i g false ∈ ts → a'.current i = some g ∧ b'.current i = some g :=
    fun i g put => ⟨(ca.entered i g put).2, (cb.entered i g ((same _).mpr put)).2⟩
  refine ⟨tidy, tidy', fun i g => ?_, fun i g stands => ?_, fun i c there => ?_⟩
  · by_cases put : .put i g false ∈ ts
    · exact .inl ((cb.entered i g ((same _).mpr put)).1.trans (ca.entered i g put).1.symm)
    · by_cases ends : .move i g true ∈ ts
      · exact .inl ((cb.ended i g ((same _).mpr ends)).trans (ca.ended i g ends).symm)
      · rw [ca.standing i g put ends,
          cb.standing i g (fun mem => put ((same _).mp mem)) fun mem => ends ((same _).mp mem)]
        rcases shadows.standing i g with equal | ⟨none, ended, known⟩
        · exact .inl equal
        · refine .inr ⟨none, ended, ?_⟩
          by_cases new : ∃ h, .put i h false ∈ ts
          · obtain ⟨h, put'⟩ := new
            have above : g ≤ h := by
              obtain ⟨c, there, le⟩ := known
              exact le.trans (le_of_not_ge fun back => made.fresh put' ⟨c, there, back⟩)
            exact ⟨h, (current i h put').1, above⟩
          · have still := ca.current i fun h mem => new ⟨h, mem⟩
            obtain ⟨c, there, le⟩ := known
            exact ⟨c, still.trans there, le⟩
  · by_cases put : .put i g false ∈ ts
    · exact current i g put
    · have none : .move i g true ∉ ts := fun ends => by
        rw [ca.ended i g ends] at stands
        cases stands
      rw [ca.standing i g put none] at stands
      have still : ∀ h, .put i h false ∉ ts := fun h put' => none (closes i h g put' stands)
      rw [ca.current i still, cb.current i fun h mem => still h ((same _).mp mem)]
      exact shadows.live i g stands
  · by_cases new : ∃ h, .put i h false ∈ ts
    · obtain ⟨h, put⟩ := new
      obtain ⟨there', there''⟩ := current i h put
      rw [there''] at there
      obtain rfl := Option.some.inj there
      exact ⟨h, there', le_rfl⟩
    · have still : ∀ h, .put i h false ∉ ts := fun h mem => new ⟨h, mem⟩
      rw [cb.current i fun h mem => still h ((same _).mp mem)] at there
      obtain ⟨k, there', le⟩ := shadows.behind i c there
      exact ⟨k, (ca.current i still).trans there', le⟩

/-- A live generation moves on both sides. -/
theorem move (shadows : Shadows b a) (live : a.standing i g = some false) (ended : Bool) :
    Shadows (b.turn (.move i g ended)) (a.turn (.move i g ended)) := by
  have there : b.standing i g = some false := by
    rw [shadows.stored (by rw [live]; simp), live]
  refine ⟨shadows.tidy.turn _, shadows.tidy'.turn _, fun j h => ?_, fun j h stands => ?_,
    shadows.behind⟩
  · by_cases same : j = i ∧ h = g
    · exact .inl (by simp [turn, same, live, there])
    · simpa [turn, same] using shadows.standing j h
  · by_cases same : j = i ∧ h = g
    · obtain ⟨rfl, rfl⟩ := same
      exact shadows.live j h live
    · exact shadows.live j h (by simpa [turn, same] using stands)

/-- Generations that have ended leave both sides. -/
theorem drops (shadows : Shadows b a) {ts : List (Turn ι γ)}
    (ended : ∀ t ∈ ts, ∃ i g, t = .drop i g ∧ a.standing i g ≠ some false) :
    Along turn Proper a ts ∧ Along turn Proper b ts ∧
      Shadows (after turn b ts) (after turn a ts) := by
  induction ts generalizing a b with
  | nil => exact ⟨trivial, trivial, shadows⟩
  | cons t ts ih =>
    obtain ⟨⟨i, g, rfl, apart⟩, rest⟩ := List.forall_mem_cons.mp ended
    have dropped : Shadows (b.turn (.drop i g)) (a.turn (.drop i g)) := by
      refine ⟨shadows.tidy.turn _, shadows.tidy'.turn _, fun j h => ?_, fun j h stands => ?_,
        shadows.behind⟩
      · by_cases same : j = i ∧ h = g
        · exact .inl (by simp [turn, same])
        · simpa [turn, same] using shadows.standing j h
      · by_cases same : j = i ∧ h = g
        · simp [turn, same] at stands
        · exact shadows.live j h (by simpa [turn, same] using stands)
    obtain ⟨first, second, both⟩ := ih dropped fun t mem => by
      obtain ⟨j, h, rfl, apart'⟩ := rest t mem
      refine ⟨j, h, rfl, ?_⟩
      by_cases same : j = i ∧ h = g
      · simp [turn, same]
      · simpa [turn, same] using apart'
    exact ⟨⟨apart, first⟩, ⟨shadows.not_live apart, second⟩, both⟩

/-! ## A shadow from the records -/

/-- The turns that put records back. -/
def puts (rs : List (ι × γ × Bool)) : List (Turn ι γ) := rs.map fun r => .put r.1 r.2.1 r.2.2

/-- The turns that put back what the archive holds. -/
def shelves (qs : List (ι × γ × Bool)) : List (Turn ι γ) :=
  qs.flatMap fun q => [.put q.1 q.2.1 q.2.2, .shelve q.1 q.2.1]

/-- Records put back, each once, where every live one is current. -/
theorem puts_along (tidy : a.Tidy) (live : ∀ i g, a.standing i g = some false → a.current i = some g)
    {rs : List (ι × γ × Bool)} (once : rs.Pairwise fun r s => ¬ (r.1 = s.1 ∧ r.2.1 = s.2.1))
    (there : ∀ r ∈ rs, a.standing r.1 r.2.1 = some r.2.2) :
    let w := after turn empty (puts rs)
    Along turn Proper empty (puts rs) ∧
      (∀ i g e, w.standing i g = some e ↔ (i, g, e) ∈ rs) ∧
      (∀ i c, w.current i = some c → ∃ e, (i, c, e) ∈ rs) := by
  dsimp only
  induction rs using List.reverseRecOn with
  | nil =>
    refine ⟨trivial, fun i g e => ?_, fun i c no => ?_⟩
    · simp [puts, empty]
    · simp [puts, empty] at no
  | append_singleton rs r ih =>
    obtain ⟨i, g, e⟩ := r
    obtain ⟨once, -, apart⟩ := List.pairwise_append.mp once
    obtain ⟨along, standing, current⟩ := ih once fun r mem => there r (List.mem_append_left _ mem)
    have tidy' := (tidy_empty (ι := ι) (γ := γ)).after (puts rs)
    have here := there _ (List.mem_append_right rs (List.mem_singleton_self _))
    have single : ∀ e', (i, g, e') ∉ rs := fun e' mem =>
      apart _ mem _ (List.mem_singleton_self _) ⟨rfl, rfl⟩
    unfold puts at along standing current tidy' ⊢
    rw [List.map_append, along_append, after_append]
    generalize after turn empty (rs.map fun r => Turn.put r.1 r.2.1 r.2.2) = w
      at along standing current tidy'
    have before : w.standing i g = none := by
      cases stands : w.standing i g with
      | none => rfl
      | some e' => exact absurd ((standing i g e').mp stands) (single e')
    have proper : w.Proper (.put i g e) := by
      cases e with
      | true => simp [Proper, before]
      | false =>
        rintro ⟨c, now, le⟩
        obtain ⟨e', mem⟩ := current i c now
        have stored := there _ (List.mem_append_left _ mem)
        obtain ⟨d, there', above⟩ := tidy i c (by rw [stored]; simp)
        rw [live i g here] at there'
        obtain rfl := Option.some.inj there'
        obtain rfl := le_antisymm le above
        exact absurd mem (single e')
    refine ⟨⟨along, proper, trivial⟩, fun j h e' => ?_, fun j c now => ?_⟩
    · by_cases same : j = i ∧ h = g
      · obtain ⟨rfl, rfl⟩ := same
        simp [turn, single, eq_comm]
      · have other : (j, h, e') ≠ (i, g, e) := fun eq => same ⟨congrArg Prod.fst eq,
          congrArg (fun r => r.2.1) eq⟩
        simpa [turn, same, other] using standing j h e'
    · rcases @current_after _ _ _ _ _ _ _ [.put i g e] now with before | ⟨e', mem⟩
      · obtain ⟨e', mem⟩ := current j c before
        exact ⟨e', List.mem_append_left _ mem⟩
      · obtain ⟨rfl, rfl, rfl⟩ : j = i ∧ c = g ∧ e' = e := by simpa using mem
        exact ⟨e', List.mem_append_right _ (List.mem_singleton_self _)⟩

/-- What the archive holds may be put back beside the records. -/
theorem shelves_along (shadows : Shadows b a) {qs : List (ι × γ × Bool)}
    (shelved : ∀ q ∈ qs, q.2.2 = true ∧ a.Shelved q.1 q.2.1) :
    Along turn Proper b (shelves qs) ∧ Shadows (after turn b (shelves qs)) a := by
  induction qs generalizing b with
  | nil => exact ⟨trivial, shadows⟩
  | cons q qs ih =>
    obtain ⟨i, g, e⟩ := q
    obtain ⟨⟨ended, known, apart⟩, rest⟩ := List.forall_mem_cons.mp shelved
    dsimp only at ended known apart
    subst ended
    have beside : Shadows (b.turn (.put i g true)) a := by
      refine ⟨shadows.tidy, shadows.tidy'.turn _, fun j h => ?_, fun j h stands => ?_,
        fun j c there => ?_⟩
      · by_cases same : j = i ∧ h = g
        · obtain ⟨rfl, rfl⟩ := same
          cases stands : a.standing j h with
          | none => exact .inr ⟨rfl, by simp [turn], known⟩
          | some e =>
            cases e with
            | false => exact absurd stands apart
            | true => exact .inl (by simp [turn])
        · simpa [turn, same] using shadows.standing j h
      · obtain ⟨current, current'⟩ := shadows.live j h stands
        refine ⟨current, ?_⟩
        by_cases same : j = i
        · subst same
          obtain ⟨c, there, le⟩ := known
          obtain rfl := Option.some.inj (current.symm.trans there)
          simp [turn, raise, current', le]
        · simpa [turn, raise, same] using current'
      · rcases @current_after _ _ _ _ _ _ _ [.put i g true] there with before | ⟨e, mem⟩
        · exact shadows.behind j c before
        · obtain ⟨rfl, rfl, -⟩ : j = i ∧ c = g ∧ e = true := by simpa using mem
          exact known
    obtain ⟨along, shadow⟩ := ih beside rest
    exact ⟨⟨shadows.not_live apart, ⟨known_put i g true, by simp [turn]⟩, along⟩, shadow⟩

/-- **A shadow from the records**: everything that is stored is put back, and then what the archive
holds. -/
theorem restate (tidy : a.Tidy) (live : ∀ i g, a.standing i g = some false → a.current i = some g)
    {rs qs : List (ι × γ × Bool)} (once : rs.Pairwise fun r s => ¬ (r.1 = s.1 ∧ r.2.1 = s.2.1))
    (all : ∀ i g e, (i, g, e) ∈ rs ↔ a.standing i g = some e)
    (shelved : ∀ q ∈ qs, q.2.2 = true ∧ a.Shelved q.1 q.2.1) :
    Along turn Proper empty (puts rs ++ shelves qs) ∧
      Shadows (after turn empty (puts rs ++ shelves qs)) a := by
  obtain ⟨along, standing, current⟩ := puts_along tidy live once fun r mem => (all _ _ _).mp mem
  have tidy' := (tidy_empty (ι := ι) (γ := γ)).after (puts rs)
  have same : ∀ i g, (after turn empty (puts rs)).standing i g = a.standing i g := fun i g =>
    Option.ext fun e => (standing i g e).trans (all i g e)
  have behind : ∀ i c, (after turn empty (puts rs)).current i = some c → a.Known i c := by
    intro i c there
    obtain ⟨e, mem⟩ := current i c there
    exact tidy i c (by rw [(all i c e).mp mem]; simp)
  have shadow : Shadows (after turn empty (puts rs)) a := by
    refine ⟨tidy, tidy', fun i g => .inl (same i g), fun i g stands => ?_, behind⟩
    have now := live i g stands
    obtain ⟨c, there, le⟩ := tidy' i g (by rw [same i g, stands]; simp)
    obtain ⟨d, above, le'⟩ := behind i c there
    obtain rfl := Option.some.inj (now.symm.trans above)
    exact ⟨now, by rw [there, le_antisymm le' le]⟩
  rw [along_append, after_append]
  obtain ⟨along', shadow'⟩ := shelves_along shadow shelved
  exact ⟨⟨along, along'⟩, shadow'⟩

end Shadows

end Versions

end Brf.Lib
