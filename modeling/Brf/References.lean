import Brf.Authority
import Brf.Lib.Ascending

/-!
# Canonical references

`canonicalize` sorts the references it is given, drops equal neighbours and refuses a name at two
generations. Its loop sees nothing but the ascending list of the references (`dedupeAfter_eq`), and on
an ascending list it finds a name twice exactly when two references share it (`dedupeAfter_eq_ok`).

* `dedupeAt` is the loop as the source writes it, with the vector and the index; `canonicalize_loop`
  shows that it computes what the recursion of `canonicalize` does.

Results:
* `canonicalize_eq_ok` — canonical references are the given ones in strict order of their names.
* `references_canonical` — what both `canonicalize_*` functions promise their callers.
-/

namespace Brf

open Brf.Lib

section

variable {α κ : Type} [LinearOrder α] [DecidableEq κ] {name : α → κ} {tooWide : Error}
  {conflict : α → Error}

/-! ## The loop -/

/-- The loop of both `canonicalize_*` functions over the sorted references. -/
def dedupe (name : α → κ) (conflict : α → Error) : List α → Result (List α)
  | [] => .ok []
  | first :: rest => dedupeAfter name conflict first rest

/-- The same loop over the whole vector, at index `i`; an equal neighbour is erased in place. -/
def dedupeAt (name : α → κ) (conflict : α → Error) (refs : List α) (i : Nat) : Result (List α) :=
  if h : i < refs.length then
    if name refs[i] = name refs[i - 1] then
      if refs[i] = refs[i - 1] then dedupeAt name conflict (refs.eraseIdx i) i
      else .error (conflict refs[i])
    else dedupeAt name conflict refs (i + 1)
  else .ok refs
termination_by refs.length - i
decreasing_by
  · rw [List.length_eraseIdx_of_lt h]
    omega
  · omega

theorem dedupeAt_eq (done : List α) (prev : α) (rest : List α) :
    dedupeAt name conflict (done ++ prev :: rest) (done.length + 1) =
      (dedupeAfter name conflict prev rest).map fun out => done ++ out := by
  induction rest generalizing done prev with
  | nil =>
    rw [dedupeAt, dif_neg (by simp)]
    rfl
  | cons next rest ih =>
    have here : (done ++ prev :: next :: rest)[done.length + 1]? = some next := by simp
    have before : (done ++ prev :: next :: rest)[done.length]? = some prev := by simp
    obtain ⟨inside, here⟩ := List.getElem?_eq_some_iff.mp here
    obtain ⟨_, before⟩ := List.getElem?_eq_some_iff.mp before
    have erased : (done ++ prev :: next :: rest).eraseIdx (done.length + 1) = done ++ prev :: rest := by
      rw [List.eraseIdx_append_of_length_le (by omega)]
      simp
    rw [dedupeAt, dif_pos inside, here]
    simp only [Nat.add_sub_cancel, before, erased]
    unfold dedupeAfter
    by_cases same : name next = name prev
    · rw [if_pos same, if_pos same]
      by_cases equal : next = prev
      · rw [if_pos equal, if_pos equal, ih]
      · rw [if_neg equal, if_neg equal]
        rfl
    · rw [if_neg same, if_neg same]
      have step := ih (done ++ [prev]) next
      rw [List.append_assoc, List.singleton_append, List.length_append, List.length_singleton] at step
      rw [step]
      cases dedupeAfter name conflict next rest with
      | error e => rfl
      | ok out => simp [Except.map, bind, Except.bind, pure, Except.pure]

/-- The loop of the source starts at index one. -/
theorem dedupeAt_one (refs : List α) : dedupeAt name conflict refs 1 = dedupe name conflict refs := by
  cases refs with
  | nil =>
    rw [dedupeAt, dif_neg (by simp)]
    rfl
  | cons first rest =>
    have step := @dedupeAt_eq α κ _ _ name conflict [] first rest
    rw [List.nil_append, List.length_nil, Nat.zero_add] at step
    rw [step]
    change _ = dedupeAfter name conflict first rest
    cases dedupeAfter name conflict first rest <;> rfl

/-- Equal neighbours make no difference to the loop. -/
theorem dedupeAfter_eq (prev : α) (rest : List α) :
    dedupeAfter name conflict prev rest =
      dedupe name conflict (rest.destutter' (fun a b => a ≠ b) prev) := by
  induction rest generalizing prev with
  | nil => rfl
  | cons next rest ih =>
    unfold dedupeAfter
    by_cases equal : next = prev
    · subst equal
      rw [if_pos rfl, if_pos rfl, List.destutter'_cons_neg _ (by simp), ih]
    · rw [List.destutter'_cons_pos _ (Ne.symm equal)]
      obtain ⟨tail, front⟩ := exists_destutter'_eq_cons next rest
      have kept : dedupeAfter name conflict next rest = dedupeAfter name conflict next tail := by
        rw [ih, front]
        rfl
      rw [front]
      change _ = dedupeAfter name conflict prev (next :: tail)
      rw [kept, dedupeAfter]
      by_cases same : name next = name prev
      · simp [same, equal]
      · simp [same]

/-- On an ascending list the loop drops nothing, and it is through when every name is there once. -/
theorem dedupeAfter_eq_ok {_ : LinearOrder κ} {prev : α} {rest out : List α}
    (rising : (prev :: rest).Pairwise fun a b => name a ≤ name b) (once : (prev :: rest).Nodup) :
    dedupeAfter name conflict prev rest = .ok out ↔
      out = prev :: rest ∧ (prev :: rest).Pairwise fun a b => name a < name b := by
  induction rest generalizing prev out with
  | nil => simp [dedupeAfter, eq_comm]
  | cons next rest ih =>
    obtain ⟨above, rising⟩ := List.pairwise_cons.mp rising
    obtain ⟨fresh, once⟩ := List.nodup_cons.mp once
    unfold dedupeAfter
    by_cases same : name next = name prev
    · have other : next ≠ prev := fun equal => fresh (equal ▸ List.mem_cons_self)
      rw [if_pos same, if_neg other]
      constructor
      · intro h
        cases h
      · rintro ⟨-, strict⟩
        have less := (List.pairwise_cons.mp strict).1 next List.mem_cons_self
        exact absurd same (ne_of_gt less)
    · have less : name prev < name next :=
        lt_of_le_of_ne (above next List.mem_cons_self) (Ne.symm same)
      rw [if_neg same, Result.bind_eq_ok]
      constructor
      · rintro ⟨tail, kept, whole⟩
        obtain ⟨rfl, strict⟩ := (ih rising once).mp kept
        refine ⟨(Except.ok.inj whole).symm, List.pairwise_cons.mpr ⟨fun a mem => ?_, strict⟩⟩
        rcases List.mem_cons.mp mem with rfl | mem
        · exact less
        · exact lt_trans less ((List.pairwise_cons.mp strict).1 a mem)
      · rintro ⟨rfl, strict⟩
        exact ⟨_, (ih rising once).mpr ⟨rfl, (List.pairwise_cons.mp strict).2⟩, rfl⟩

theorem dedupe_eq_ok {_ : LinearOrder κ} {refs out : List α}
    (rising : refs.Pairwise fun a b => name a ≤ name b) (once : refs.Nodup) :
    dedupe name conflict refs = .ok out ↔
      out = refs ∧ refs.Pairwise fun a b => name a < name b := by
  cases refs with
  | nil => simp [dedupe, eq_comm]
  | cons first rest => exact dedupeAfter_eq_ok rising once

/-! ## Canonical lists -/

/-- `canonicalize` runs the source's loop over the sorted vector. -/
theorem canonicalize_loop (refs : List α) : canonicalize name tooWide conflict refs =
    if maxBindingResources < refs.length then .error tooWide
    else dedupeAt name conflict (sorted refs) 1 := by
  rw [dedupeAt_one]
  unfold canonicalize
  cases sorted refs <;> rfl

theorem canonicalize_eq (refs : List α) : canonicalize name tooWide conflict refs =
    if maxBindingResources < refs.length then .error tooWide
    else dedupe name conflict (ascending refs) := by
  unfold canonicalize
  by_cases wide : maxBindingResources < refs.length
  · rw [if_pos wide, if_pos wide]
  · rw [if_neg wide, if_neg wide]
    unfold ascending sorted
    cases refs.insertionSort fun a b => a ≤ b with
    | nil => rfl
    | cons first rest => exact dedupeAfter_eq first rest

/-- Canonical references are the given ones in strict order of their names, and there are such when
no two of the given ones share a name. -/
theorem canonicalize_eq_ok {_ : LinearOrder κ} (by_name : Monotone name)
    {refs out : List α} : canonicalize name tooWide conflict refs = .ok out ↔
      refs.length ≤ maxBindingResources ∧ out = ascending refs ∧
        out.Pairwise fun a b => name a < name b := by
  have strict := ascending_pairwise refs
  have rising : (ascending refs).Pairwise fun a b => name a ≤ name b :=
    strict.imp fun {a b} less => by_name (le_of_lt less)
  rw [canonicalize_eq]
  by_cases wide : maxBindingResources < refs.length
  · rw [if_pos wide]
    constructor
    · intro h
      cases h
    · rintro ⟨fits, -⟩
      omega
  · rw [if_neg wide, dedupe_eq_ok rising (strict.imp fun {a b} less => ne_of_lt less)]
    constructor
    · rintro ⟨rfl, apart⟩
      exact ⟨by omega, rfl, apart⟩
    · rintro ⟨-, rfl, apart⟩
      exact ⟨rfl, apart⟩

end

/-! ## Both kinds of references -/

/-- What a `canonicalize_*` function promises about references of one kind. -/
structure Canonicalises {α κ γ : Type} [LinearOrder κ] (name : α → κ) (generation : α → γ)
    (f : List α → Result (List α)) : Prop where
  accepts : ∀ refs, (∃ out, f refs = .ok out) ↔ refs.length ≤ maxBindingResources ∧
    ∀ a ∈ refs, ∀ b ∈ refs, name a = name b → generation a = generation b
  rises : ∀ refs out, f refs = .ok out → out.Pairwise fun a b => name a < name b
  members : ∀ refs out, f refs = .ok out → ∀ a, a ∈ out ↔ a ∈ refs
  again : ∀ refs out, f refs = .ok out → f out = .ok out
  /-- Neither the order of the references nor how often one is given makes a difference. -/
  stable : ∀ refs refs', refs.length ≤ maxBindingResources → refs'.length ≤ maxBindingResources →
    (∀ a, a ∈ refs ↔ a ∈ refs') → f refs = f refs'

/-- References are known by name and generation, and rise by name. -/
theorem canonicalises {α κ γ : Type} [LinearOrder α] [LinearOrder κ] {name : α → κ}
    {generation : α → γ} {tooWide : Error} {conflict : α → Error}
    (by_name : Monotone name)
    (pinned : ∀ a b : α, name a = name b → generation a = generation b → a = b) :
    Canonicalises name generation (canonicalize name tooWide conflict) where
  accepts refs := by
    simp only [canonicalize_eq_ok by_name, exists_and_left, exists_eq_left,
      ascending_strict_iff by_name]
    refine and_congr_right fun _ => ⟨fun single a ha b hb same => ?_, fun single a ha b hb same => ?_⟩
    · rw [single a ha b hb same]
    · exact pinned a b same (single a ha b hb same)
  rises _ _ ok := ((canonicalize_eq_ok by_name).mp ok).2.2
  members refs out ok a := by
    obtain ⟨-, rfl, -⟩ := (canonicalize_eq_ok by_name).mp ok
    exact mem_ascending
  again refs out ok := by
    obtain ⟨fits, rfl, strict⟩ := (canonicalize_eq_ok by_name).mp ok
    exact (canonicalize_eq_ok by_name).mpr ⟨le_trans (length_ascending_le refs) fits,
      (ascending_of_pairwise (ascending_pairwise refs)).symm, strict⟩
  stable refs refs' fits fits' same := by
    rw [canonicalize_eq, canonicalize_eq, if_neg (by omega), if_neg (by omega), ascending_congr same]

theorem ResourceRef.resource_monotone : Monotone ResourceRef.resource := by
  intro a b le
  rcases Prod.Lex.le_iff.mp le with less | ⟨same, -⟩
  · exact le_of_lt less
  · exact le_of_eq same

theorem FailureDomainRef.domain_monotone : Monotone FailureDomainRef.domain := by
  intro a b le
  rcases Prod.Lex.le_iff.mp le with less | ⟨same, -⟩
  · exact le_of_lt less
  · exact le_of_eq same

theorem canonicalizeResources_eq_ok {refs out : List ResourceRef} :
    canonicalizeResources refs = .ok out ↔ refs.length ≤ maxBindingResources ∧ out = ascending refs ∧
      out.Pairwise fun a b => a.resource < b.resource :=
  canonicalize_eq_ok ResourceRef.resource_monotone

theorem canonicalizeFailureDomains_eq_ok {refs out : List FailureDomainRef} :
    canonicalizeFailureDomains refs = .ok out ↔ refs.length ≤ maxBindingResources ∧
      out = ascending refs ∧ out.Pairwise fun a b => a.domain < b.domain :=
  canonicalize_eq_ok FailureDomainRef.domain_monotone

theorem mem_canonicalizeResources {refs out : List ResourceRef}
    (ok : canonicalizeResources refs = .ok out) (ref : ResourceRef) : ref ∈ out ↔ ref ∈ refs := by
  obtain ⟨-, rfl, -⟩ := canonicalizeResources_eq_ok.mp ok
  exact mem_ascending

theorem mem_canonicalizeFailureDomains {refs out : List FailureDomainRef}
    (ok : canonicalizeFailureDomains refs = .ok out) (ref : FailureDomainRef) :
    ref ∈ out ↔ ref ∈ refs := by
  obtain ⟨-, rfl, -⟩ := canonicalizeFailureDomains_eq_ok.mp ok
  exact mem_ascending

/-- Canonical references rise, and name what the given ones name. -/
theorem canonicalizeResources_names {refs out : List ResourceRef}
    (ok : canonicalizeResources refs = .ok out) :
    (out.map ResourceRef.resource).Pairwise (· < ·) ∧
      ∀ n, n ∈ out.map ResourceRef.resource ↔ n ∈ refs.map ResourceRef.resource := by
  obtain ⟨-, -, strict⟩ := canonicalizeResources_eq_ok.mp ok
  refine ⟨List.pairwise_map.mpr strict, fun n => ?_⟩
  simp only [List.mem_map, mem_canonicalizeResources ok]

/-- `canonicalize_resources` brings references into canonical form, and `canonicalize_failure_domains`
does the same. -/
theorem references_canonical :
    Canonicalises ResourceRef.resource ResourceRef.generation canonicalizeResources ∧
      Canonicalises FailureDomainRef.domain FailureDomainRef.generation canonicalizeFailureDomains :=
  ⟨canonicalises ResourceRef.resource_monotone fun _ _ => ResourceRef.ext,
    canonicalises FailureDomainRef.domain_monotone fun _ _ => FailureDomainRef.ext⟩

end Brf
