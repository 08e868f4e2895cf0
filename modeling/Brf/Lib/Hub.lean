import Brf.Lib.Run

/-!
# Parties around a shared object

Parties that act in any order. Each has a state of its own, all share one object, and a turn of a party
looks at both: it leaves a new state of the party and of the object, and perhaps tells something of it,
such as a request that the object has served.

* `Hub` is the object with the parties, by number. Somebody may `enter` at any time, and `opening` is
  the state of one who does.
* `told` is what a turn tells, with the number of its party, and `trace` what a run tells.
* `own i` is the part of a trace that party `i` has told.

Results: `trace_sequential` (the object is changed as if the told entries came one after the other), and
`party_invariant` (what every turn of a party keeps of its state and its own entries holds of every party,
whatever the others do).
-/

namespace Brf.Lib

/-- A shared object and the parties around it. -/
structure Hub (κ σ : Type) where
  core : κ
  parties : List σ

variable {κ σ ι τ η : Type}

namespace Hub

/-- Somebody enters, or a party acts on an input. -/
inductive Turn (ι τ : Type) where
  | enter (who : ι)
  | act (i : Nat) (input : τ)

/-- What a party does: its next state, the object it leaves, and what it tells. -/
abbrev Conduct (κ σ τ η : Type) := τ → σ → κ → σ × κ × Option η

variable (opening : ι → σ) (conduct : Conduct κ σ τ η)

/-- One turn. -/
def turn (h : Hub κ σ) : Turn ι τ → Hub κ σ
  | .enter who => { h with parties := h.parties ++ [opening who] }
  | .act i input => match h.parties[i]? with
    | none => h
    | some party =>
      { core := (conduct input party h.core).2.1
        parties := h.parties.set i (conduct input party h.core).1 }

/-- What a turn tells. -/
def told (h : Hub κ σ) : Turn ι τ → List (Nat × η)
  | .enter _ => []
  | .act i input => match h.parties[i]? with
    | none => []
    | some party => (conduct input party h.core).2.2.toList.map (i, ·)

/-- What a run tells. -/
def trace (h : Hub κ σ) : List (Turn ι τ) → List (Nat × η)
  | [] => []
  | t :: ts => h.told conduct t ++ (h.turn opening conduct t).trace ts

/-- What a run tells of party `i`. -/
def own (i : Nat) (entries : List (Nat × η)) : List η :=
  (entries.filter fun e => e.1 = i).map Prod.snd

/-- Those who enter in a run. -/
def entrants : List (Turn ι τ) → List ι
  | [] => []
  | .enter who :: ts => who :: entrants ts
  | .act _ _ :: ts => entrants ts

@[simp] theorem own_nil (i : Nat) : own i ([] : List (Nat × η)) = [] := rfl

theorem own_append (i : Nat) (es fs : List (Nat × η)) : own i (es ++ fs) = own i es ++ own i fs := by
  simp [own]

theorem own_same (i : Nat) (es : List η) : own i (es.map (i, ·)) = es := by
  simp [own, List.filter_map, Function.comp_def]

theorem own_other {i j : Nat} (other : j ≠ i) (es : List η) : own j (es.map (i, ·)) = [] := by
  simp [own, List.filter_map, Function.comp_def, other.symm]

theorem own_beyond {i : Nat} {entries : List (Nat × η)} (below : ∀ e ∈ entries, e.1 < i) :
    own i entries = [] := by
  unfold own
  rw [List.filter_eq_nil_iff.mpr fun e mem => ?_, List.map_nil]
  have := below e mem
  simp only [decide_eq_true_eq]
  omega

theorem turn_nobody {h : Hub κ σ} {i : Nat} (nobody : h.parties[i]? = none) (input : τ) :
    h.turn opening conduct (.act i input) = h ∧ h.told conduct (.act i input : Turn ι τ) = [] := by
  simp [turn, told, nobody]

theorem turn_party {h : Hub κ σ} {i : Nat} {party : σ} (here : h.parties[i]? = some party)
    (input : τ) :
    h.turn opening conduct (.act i input) =
        { core := (conduct input party h.core).2.1
          parties := h.parties.set i (conduct input party h.core).1 } ∧
      h.told conduct (.act i input : Turn ι τ) =
        (conduct input party h.core).2.2.toList.map (i, ·) := by
  simp [turn, told, here]

variable {opening} {conduct}

theorem trace_append (h : Hub κ σ) (ts us : List (Turn ι τ)) :
    h.trace opening conduct (ts ++ us) =
      h.trace opening conduct ts ++ (after (turn opening conduct) h ts).trace opening conduct us := by
  induction ts generalizing h with
  | nil => rfl
  | cons t ts ih => rw [List.cons_append, trace, ih, trace, after_cons, List.append_assoc]

/-! ## The object -/

variable (opening) in
/-- **The object is changed in sequence**: if a turn changes the object as `act` does what it tells, and
not at all when it tells nothing, then a run changes it as `act` does its trace; and what holds of each
entry where it is told holds along the trace. -/
theorem trace_sequential {act : κ → η → κ} {P : κ → η → Prop}
    (silent : ∀ t s c, (conduct t s c).2.2 = none → (conduct t s c).2.1 = c)
    (tells : ∀ t s c e, (conduct t s c).2.2 = some e → (conduct t s c).2.1 = act c e ∧ P c e)
    (ts : List (Turn ι τ)) (h : Hub κ σ) :
    (after (turn opening conduct) h ts).core =
        after act h.core ((h.trace opening conduct ts).map Prod.snd) ∧
      Along act P h.core ((h.trace opening conduct ts).map Prod.snd) := by
  induction ts generalizing h with
  | nil => exact ⟨rfl, trivial⟩
  | cons t ts ih =>
    have one : (h.turn opening conduct t).core =
          after act h.core ((h.told conduct t).map Prod.snd) ∧
        Along act P h.core ((h.told conduct t).map Prod.snd) := by
      cases t with
      | enter who => exact ⟨rfl, trivial⟩
      | act i input =>
        cases here : h.parties[i]? with
        | none =>
          obtain ⟨same, nothing⟩ := turn_nobody opening conduct here input
          rw [same, nothing]
          exact ⟨rfl, trivial⟩
        | some party =>
          obtain ⟨next, entries⟩ := turn_party opening conduct here input
          rw [next, entries]
          cases telling : (conduct input party h.core).2.2 with
          | none => exact ⟨silent _ _ _ telling, trivial⟩
          | some e =>
            obtain ⟨changed, holds⟩ := tells _ _ _ e telling
            exact ⟨changed, holds, trivial⟩
    obtain ⟨rest, along⟩ := ih (h.turn opening conduct t)
    rw [one.1] at rest along
    rw [after_cons, trace, List.map_append, after_append, along_append]
    exact ⟨rest, one.2, along⟩

variable (opening) in
/-- What has been told held of the object at that time. -/
theorem trace_mem {act : κ → η → κ} {P : κ → η → Prop}
    (silent : ∀ t s c, (conduct t s c).2.2 = none → (conduct t s c).2.1 = c)
    (tells : ∀ t s c e, (conduct t s c).2.2 = some e → (conduct t s c).2.1 = act c e ∧ P c e)
    (ts : List (Turn ι τ)) (h : Hub κ σ) {i : Nat} {e : η}
    (mem : e ∈ own i (h.trace opening conduct ts)) : ∃ c, P c e := by
  have held : ∀ {es : List η} {c : κ}, Along act P c es → e ∈ es → ∃ c, P c e := by
    intro es
    induction es with
    | nil => exact fun _ no => absurd no List.not_mem_nil
    | cons f es ih =>
      intro c along mem
      rcases List.mem_cons.mp mem with rfl | mem
      · exact ⟨c, along.1⟩
      · exact ih along.2 mem
  have told : e ∈ (h.trace opening conduct ts).map Prod.snd :=
    List.map_subset _ (fun _ => List.mem_of_mem_filter) mem
  exact held (trace_sequential opening silent tells ts h).2 told

/-! ## The parties -/

/-- The parties of a hub, each with what it has told since it entered as one of `starts`. -/
def Parties (I : ι → List η → σ → Prop) (starts : List ι) (entries : List (Nat × η))
    (h : Hub κ σ) : Prop :=
  h.parties.length = starts.length ∧ (∀ e ∈ entries, e.1 < starts.length) ∧
    ∀ (i : Nat) (s : σ), h.parties[i]? = some s →
      ∃ who, starts[i]? = some who ∧ I who (own i entries) s

variable {I : ι → List η → σ → Prop}

/-- A turn of one party leaves the others as they are. -/
theorem parties_turn
    (keeps : ∀ who es t s c, I who es s →
      I who (es ++ (conduct t s c).2.2.toList) (conduct t s c).1)
    (begins : ∀ who, I who [] (opening who)) {starts : List ι} {entries : List (Nat × η)}
    {h : Hub κ σ} (held : Parties I starts entries h) (t : Turn ι τ) :
    Parties I (starts ++ entrants [t]) (entries ++ h.told conduct t)
      (h.turn opening conduct t) := by
  obtain ⟨long, numbered, each⟩ := held
  cases t with
  | enter who =>
    simp only [turn, told, entrants, List.append_nil]
    refine ⟨by simp [long], fun e mem => ?_, fun i s found => ?_⟩
    · have := numbered e mem
      rw [List.length_append, List.length_singleton]
      omega
    · rw [List.getElem?_append, long] at found
      rw [List.getElem?_append]
      by_cases old : i < starts.length
      · rw [if_pos old] at found ⊢
        exact each i s found
      · rw [if_neg old] at found ⊢
        have alone : i - starts.length = 0 := by
          have := (List.getElem?_eq_some_iff.mp found).1
          rw [List.length_singleton] at this
          omega
        rw [alone] at found ⊢
        obtain rfl := Option.some.inj found
        refine ⟨who, rfl, ?_⟩
        rw [own_beyond fun e mem => Nat.lt_of_lt_of_le (numbered e mem) (Nat.le_of_not_lt old)]
        exact begins who
  | act i input =>
    rw [entrants, entrants, List.append_nil]
    cases here : h.parties[i]? with
    | none =>
      obtain ⟨same, nothing⟩ := turn_nobody opening conduct here input
      rw [same, nothing, List.append_nil]
      exact ⟨long, numbered, each⟩
    | some party =>
      have inside : i < starts.length := by
        rw [← long]
        exact (List.getElem?_eq_some_iff.mp here).1
      obtain ⟨next, told'⟩ := turn_party opening conduct here input
      rw [next, told']
      refine ⟨by rw [List.length_set, long], fun e mem => ?_, fun j s found => ?_⟩
      · rcases List.mem_append.mp mem with mem | mem
        · exact numbered e mem
        · obtain ⟨_, -, rfl⟩ := List.mem_map.mp mem
          exact inside
      · rw [own_append]
        by_cases same : j = i
        · subst same
          obtain ⟨who, start, holds⟩ := each j party here
          rw [List.getElem?_set_self (by omega)] at found
          obtain rfl := Option.some.inj found
          rw [own_same]
          exact ⟨who, start, keeps who _ input party h.core holds⟩
        · rw [List.getElem?_set_ne (Ne.symm same)] at found
          rw [own_other same, List.append_nil]
          exact each j s found

theorem parties_after
    (keeps : ∀ who es t s c, I who es s →
      I who (es ++ (conduct t s c).2.2.toList) (conduct t s c).1)
    (begins : ∀ who, I who [] (opening who)) (ts : List (Turn ι τ)) {starts : List ι}
    {entries : List (Nat × η)} {h : Hub κ σ} (held : Parties I starts entries h) :
    Parties I (starts ++ entrants ts) (entries ++ h.trace opening conduct ts)
      (after (turn opening conduct) h ts) := by
  induction ts generalizing starts entries h with
  | nil => simpa [entrants, trace] using held
  | cons t ts ih =>
    have later := ih (parties_turn keeps begins held t)
    have entered : entrants (t :: ts) = entrants [t] ++ entrants ts := by
      cases t <;> rfl
    rw [entered, trace, ← List.append_assoc, ← List.append_assoc]
    exact later

/-- **Every party**: what a turn of a party keeps of the one it is, its own entries and its state holds
of each of them after a run that starts with nobody. -/
theorem party_invariant
    (keeps : ∀ who es t s c, I who es s →
      I who (es ++ (conduct t s c).2.2.toList) (conduct t s c).1)
    (begins : ∀ who, I who [] (opening who)) (c : κ) (ts : List (Turn ι τ)) {i : Nat} {s : σ}
    (there : (after (turn opening conduct) ⟨c, []⟩ ts).parties[i]? = some s) :
    ∃ who, (entrants ts)[i]? = some who ∧
      I who (own i ((⟨c, []⟩ : Hub κ σ).trace opening conduct ts)) s := by
  have start : Parties I [] ([] : List (Nat × η)) (⟨c, []⟩ : Hub κ σ) :=
    ⟨rfl, fun _ no => absurd no List.not_mem_nil, fun i s no => by simp at no⟩
  have held := parties_after keeps begins ts start
  rw [List.nil_append, List.nil_append] at held
  exact held.2.2 i s there

end Hub

end Brf.Lib
