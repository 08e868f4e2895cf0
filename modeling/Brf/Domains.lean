import Brf.Attestation

/-!
# Failure domains

A failure domain has no entry of its own: the resources declare it, each at a generation, and
`CapacityLedger.isCurrentFailureDomain` believes the first resource by name that is in force.

* `CapacityLedger.declared`: what a resource in force says of a domain.
* `CapacityLedger.Upheld`: a resource that says this, and if it says nothing the next one, gives the
  domain the generation of the reference.
* `CapacityLedger.Shielded`: a new statement of a resource cannot change what is reported of a
  reference, because another resource decides or because it is to the same effect.

Results: `isCurrentFailureDomain_iff`, `resolveBinding_domains`, `domain_evidence`, and
`domain_evidence_unrelated`, where a resource that a reservation does not bind outdates it.
-/

namespace Brf

open Brf.Lib

/-- What a statement says of a failure domain. -/
def ResourceCapacity.gives (capacity : ResourceCapacity) (domain : FailureDomainName) :
    Option FailureDomainGeneration :=
  if capacity.failureDomain = domain then some capacity.failureDomainGeneration else none

namespace CapacityLedger

variable {ledger ledger' : CapacityLedger} {ref : FailureDomainRef} {domain : FailureDomainName}

/-- What a resource that is in force says of a failure domain. -/
def declared (ledger : CapacityLedger) (name : ResourceName) (domain : FailureDomainName) :
    Option FailureDomainGeneration :=
  (ledger[name]?.filter fun e => !e.withdrawn).bind fun e => e.capacity.gives domain

/-- Among the resources behind `name`, the first that declares the domain of the reference declares
it at the generation of the reference. -/
def UpheldBehind (ledger : CapacityLedger) (name : ResourceName) (ref : FailureDomainRef) : Prop :=
  ∃ n, name < n ∧ ledger.declared n ref.domain = some ref.generation ∧
    ∀ m, name < m → m < n → ledger.declared m ref.domain = none

/-- What the resource `name` says agrees with the reference. If it says nothing, the resources behind
it are asked. -/
def Upheld (ledger : CapacityLedger) (name : ResourceName) (said : Option FailureDomainGeneration)
    (ref : FailureDomainRef) : Prop :=
  said = some ref.generation ∨ said = none ∧ ledger.UpheldBehind name ref

/-- A statement does not matter to a reference: a resource in front of it declares the domain, or
the statement agrees with the reference exactly if the one in force does. -/
def Shielded (ledger : CapacityLedger) (capacity : ResourceCapacity) (ref : FailureDomainRef) :
    Prop :=
  (∃ n, n < capacity.resource ∧ ledger.declared n ref.domain ≠ none) ∨
    (ledger.Upheld capacity.resource (ledger.declared capacity.resource ref.domain) ref ↔
      ledger.Upheld capacity.resource (capacity.gives ref.domain) ref)

theorem declared_eq_some {name : ResourceName} {g : FailureDomainGeneration} :
    ledger.declared name domain = some g ↔ ∃ e, ledger[name]? = some e ∧ e.withdrawn = false ∧
      e.capacity.failureDomain = domain ∧ e.capacity.failureDomainGeneration = g := by
  unfold declared ResourceCapacity.gives
  simp [Option.bind_eq_some_iff, Option.filter_eq_some_iff, and_assoc]

theorem declared_eq_none {name : ResourceName} :
    ledger.declared name domain = none ↔ ∀ e, ledger[name]? = some e → e.withdrawn = false →
      e.capacity.failureDomain ≠ domain := by
  constructor
  · intro nothing e there active same
    rw [declared_eq_some.mpr ⟨e, there, active, same, rfl⟩] at nothing
    cases nothing
  · intro nothing
    cases said : ledger.declared name domain with
    | none => rfl
    | some g =>
      obtain ⟨e, there, active, same, -⟩ := declared_eq_some.mp said
      exact absurd same (nothing e there active)

/-- **The first resource by name** that declares a domain decides. -/
theorem isCurrentFailureDomain_iff : ledger.isCurrentFailureDomain ref = true ↔
    ∃ n, ledger.declared n ref.domain = some ref.generation ∧
      ∀ m, m < n → ledger.declared m ref.domain = none := by
  have first := fun e => @Map.find_values _ _ _ ledger
    (fun e => !e.withdrawn && decide (e.capacity.failureDomain = ref.domain)) e
  simp only [Bool.and_eq_true, Bool.not_eq_true', decide_eq_true_eq, Bool.and_eq_false_iff,
    Bool.not_eq_false', decide_eq_false_iff_not] at first
  unfold isCurrentFailureDomain
  constructor
  · intro current
    cases found : ledger.values.find?
        fun e => !e.withdrawn && decide (e.capacity.failureDomain = ref.domain) with
    | none =>
      rw [found] at current
      cases current
    | some e =>
      rw [found] at current
      obtain ⟨n, there, ⟨active, own⟩, ahead⟩ := (first e).mp found
      refine ⟨n, declared_eq_some.mpr ⟨e, there, active, own, of_decide_eq_true current⟩, ?_⟩
      intro m less
      refine declared_eq_none.mpr fun f other force => ?_
      exact (ahead m f less other).resolve_left (by simp [force])
  · rintro ⟨n, said, ahead⟩
    obtain ⟨e, there, active, own, generation⟩ := declared_eq_some.mp said
    have found := (first e).mpr ⟨n, there, ⟨active, own⟩, fun m f less other => ?_⟩
    · rw [found]
      exact decide_eq_true generation
    · cases force : f.withdrawn with
      | true => exact .inl rfl
      | false => exact .inr (declared_eq_none.mp (ahead m less) f other force)

/-- Seen from a resource with nobody in front, it or the resources behind it decide. -/
theorem isCurrentFailureDomain_upheld {name : ResourceName}
    (front : ∀ n, n < name → ledger.declared n ref.domain = none) :
    ledger.isCurrentFailureDomain ref = true ↔
      ledger.Upheld name (ledger.declared name ref.domain) ref := by
  rw [isCurrentFailureDomain_iff]
  constructor
  · rintro ⟨n, said, ahead⟩
    rcases lt_trichotomy n name with less | rfl | more
    · rw [front n less] at said
      cases said
    · exact .inl said
    · exact .inr ⟨ahead name more, n, more, said, fun m _ less => ahead m less⟩
  · rintro (said | ⟨nothing, n, more, said, between⟩)
    · exact ⟨name, said, front⟩
    · refine ⟨n, said, fun m less => ?_⟩
      rcases lt_trichotomy m name with before | rfl | behind
      · exact front m before
      · exact nothing
      · exact between m behind less

/-- With somebody in front, what a resource says does not matter. -/
theorem isCurrentFailureDomain_front {name : ResourceName}
    (same : ∀ n, n ≠ name → ledger'[n]? = ledger[n]?)
    (front : ∃ n, n < name ∧ ledger.declared n ref.domain ≠ none) :
    ledger'.isCurrentFailureDomain ref = true ↔ ledger.isCurrentFailureDomain ref = true := by
  have saying : ∀ n, n ≠ name → ledger'.declared n ref.domain = ledger.declared n ref.domain := by
    intro n other
    unfold declared
    rw [same n other]
  obtain ⟨f, less, speaks⟩ := front
  have above : ∀ {l : CapacityLedger} {n : ResourceName},
      l.declared f ref.domain ≠ none → (∀ m, m < n → l.declared m ref.domain = none) → n < name :=
    fun told ahead => lt_of_le_of_lt (le_of_not_gt fun more => told (ahead f more)) less
  rw [isCurrentFailureDomain_iff, isCurrentFailureDomain_iff]
  constructor
  · rintro ⟨n, said, ahead⟩
    have told : ledger'.declared f ref.domain ≠ none := by
      rw [saying f (ne_of_lt less)]
      exact speaks
    have before := above told ahead
    refine ⟨n, (saying n (ne_of_lt before)).symm.trans said, fun m lower => ?_⟩
    exact (saying m (ne_of_lt (lower.trans before))).symm.trans (ahead m lower)
  · rintro ⟨n, said, ahead⟩
    have before := above speaks ahead
    refine ⟨n, (saying n (ne_of_lt before)).trans said, fun m lower => ?_⟩
    exact (saying m (ne_of_lt (lower.trans before))).trans (ahead m lower)

/-- An accepted statement is in force, and the other resources are as they were. -/
theorem apply_inForce {capacity : ResourceCapacity} {snapshot : CapacitySnapshotId} {now : Timestamp}
    {changed : Bool} (ok : ledger.apply capacity snapshot now = .ok (changed, ledger')) :
    (∀ n, n ≠ capacity.resource → ledger'[n]? = ledger[n]?) ∧
      ∃ e, ledger'[capacity.resource]? = some e ∧ e.withdrawn = false ∧ e.capacity = capacity := by
  have inserted : ∀ {e : CapacityEntry}, e.withdrawn = false → e.capacity = capacity →
      (true, ledger.insert capacity.resource e) = (changed, ledger') →
      (∀ n, n ≠ capacity.resource → ledger'[n]? = ledger[n]?) ∧
        ∃ e, ledger'[capacity.resource]? = some e ∧ e.withdrawn = false ∧
          e.capacity = capacity := by
    intro e active same made
    obtain ⟨-, rfl⟩ := Prod.mk.inj made
    exact ⟨fun n other => Map.get_insert_ne other, e,
      (Map.get_insert _ _ _ _).trans (if_pos rfl), active, same⟩
  unfold CapacityLedger.apply at ok
  obtain ⟨⟨⟩, -, ok⟩ := Result.bind_eq_ok.mp ok
  cases there : ledger[capacity.resource]? with
  | none =>
    rw [there] at ok
    exact inserted rfl rfl (Except.ok.inj ok)
  | some entry =>
    rw [there] at ok
    dsimp only at ok
    split at ok
    · split at ok
      · rename_i same
        split at ok
        · exact inserted (e := { entry with withdrawn := false, snapshot, ingestedAt := now }) rfl
            same.symm (Except.ok.inj ok)
        · rename_i active
          obtain ⟨-, rfl⟩ := Prod.mk.inj (Except.ok.inj ok)
          exact ⟨fun _ _ => rfl, entry, there, by simpa using active, same.symm⟩
      · cases ok
    · split at ok
      · cases ok
      · exact inserted rfl rfl (Except.ok.inj ok)

/-- **A statement** leaves what is reported of a reference alone exactly if the reference is
shielded. -/
theorem shielded_iff {capacity : ResourceCapacity} {snapshot : CapacitySnapshotId} {now : Timestamp}
    {changed : Bool} (ok : ledger.apply capacity snapshot now = .ok (changed, ledger')) :
    ledger'.isCurrentFailureDomain ref = ledger.isCurrentFailureDomain ref ↔
      ledger.Shielded capacity ref := by
  obtain ⟨same, e, there, active, stated⟩ := apply_inForce ok
  have saying : ∀ n, n ≠ capacity.resource →
      ledger'.declared n ref.domain = ledger.declared n ref.domain := by
    intro n other
    unfold declared
    rw [same n other]
  have now : ledger'.declared capacity.resource ref.domain = capacity.gives ref.domain := by
    unfold declared
    rw [there, Option.filter_some, if_pos (by simp [active]), Option.bind_some, stated]
  rw [Bool.eq_iff_iff]
  by_cases front : ∃ n, n < capacity.resource ∧ ledger.declared n ref.domain ≠ none
  · exact ⟨fun _ => .inl front, fun _ => isCurrentFailureDomain_front same front⟩
  · have nobody : ∀ n, n < capacity.resource → ledger.declared n ref.domain = none :=
      fun n less => not_not.mp fun speaks => front ⟨n, less, speaks⟩
    have nobody' : ∀ n, n < capacity.resource → ledger'.declared n ref.domain = none :=
      fun n less => (saying n (ne_of_lt less)).trans (nobody n less)
    have behind : ledger'.UpheldBehind capacity.resource ref ↔
        ledger.UpheldBehind capacity.resource ref := by
      unfold UpheldBehind
      refine exists_congr fun n => and_congr_right fun more => ?_
      rw [saying n (ne_of_gt more)]
      refine and_congr_right fun _ => forall_congr' fun m => forall_congr' fun after => ?_
      rw [saying m (ne_of_gt after)]
    rw [isCurrentFailureDomain_upheld nobody', isCurrentFailureDomain_upheld nobody, now]
    unfold Upheld at *
    rw [behind]
    exact ⟨fun agree => .inr agree.symm, fun shield => (shield.resolve_left front).symm⟩

/-- If a resource declares a domain, a first one does. -/
theorem exists_first {name : ResourceName} {g : FailureDomainGeneration}
    (said : ledger.declared name domain = some g) :
    ∃ n g', ledger.declared n domain = some g' ∧
      ∀ m, m < n → ledger.declared m domain = none := by
  obtain ⟨e, there, active, own, -⟩ := declared_eq_some.mp said
  have found : (ledger.values.find?
      fun e => !e.withdrawn && decide (e.capacity.failureDomain = domain)).isSome = true := by
    rw [List.find?_isSome]
    exact ⟨e, Map.mem_values.mpr ⟨name, there⟩, by simp [active, own]⟩
  obtain ⟨f, first⟩ := Option.isSome_iff_exists.mp found
  obtain ⟨n, listed, accepted, ahead⟩ := Map.find_values.mp first
  obtain ⟨force, domainSame⟩ : f.withdrawn = false ∧ f.capacity.failureDomain = domain := by
    simpa using accepted
  refine ⟨n, _, declared_eq_some.mpr ⟨f, listed, force, domainSame, rfl⟩, fun m less => ?_⟩
  refine declared_eq_none.mpr fun w other active' same => ?_
  simpa [active', same] using ahead m w less other

/-- The bound resources speak for their domains: the first resource that declares the domain of a
bound resource declares it at the generation that the bound resource does. -/
def Leads (ledger : CapacityLedger) (bound : List ResourceRef) : Prop :=
  ∀ r ∈ bound, ∀ domain g, domain.empty = false → ledger.declared r.resource domain = some g →
    ∀ n g', ledger.declared n domain = some g' →
      (∀ m, m < n → ledger.declared m domain = none) → g' = g

end CapacityLedger

namespace Coordinator

section

variable {c c' : Coordinator} {terms : ReservationTerms} {b : ResolvedBinding}

/-- What a list of resources declares, as a reference. -/
def Declares (c : Coordinator) (names : List ResourceName) (ref : FailureDomainRef) : Prop :=
  ref.domain.empty = false ∧
    ∃ n ∈ names, c.ledger.declared n ref.domain = some ref.generation

/-- One more resource enters a binding. -/
theorem mem_bind_domains {binding : ResolvedBinding} {name : ResourceName} {e : CapacityEntry}
    (there : c.ledger[name]? = some e) (active : e.withdrawn = false) (ref : FailureDomainRef) :
    ref ∈ (ResolvedBinding.bind binding name e.capacity).failureDomains ↔
      ref ∈ binding.failureDomains ∨ c.Declares [name] ref := by
  have own : c.Declares [name] ref ↔ e.capacity.failureDomain.empty = false ∧
      ref = ⟨e.capacity.failureDomain, e.capacity.failureDomainGeneration⟩ := by
    unfold Declares
    constructor
    · rintro ⟨named, n, mem, said⟩
      obtain rfl := List.mem_singleton.mp mem
      obtain ⟨f, found, -, domain, generation⟩ := CapacityLedger.declared_eq_some.mp said
      obtain rfl := Option.some.inj (there.symm.trans found)
      exact ⟨by rw [domain]; exact named, FailureDomainRef.ext domain.symm generation.symm⟩
    · rintro ⟨named, rfl⟩
      exact ⟨named, name, List.mem_singleton_self _,
        CapacityLedger.declared_eq_some.mpr ⟨e, there, active, rfl, rfl⟩⟩
  rw [own]
  unfold ResolvedBinding.bind
  dsimp only
  by_cases unnamed : e.capacity.failureDomain.empty = true
  · simp [unnamed]
  · simp [unnamed]

theorem Declares.cons {name : ResourceName} {rest : List ResourceName} {ref : FailureDomainRef} :
    c.Declares (name :: rest) ref ↔ c.Declares [name] ref ∨ c.Declares rest ref := by
  unfold Declares
  simp only [List.mem_cons, List.not_mem_nil, or_false, exists_eq_or_imp, exists_eq_left]
  tauto

theorem bindResources_domains : ∀ {names : List ResourceName} {binding b : ResolvedBinding},
    c.bindResources names binding = .ok b → ∀ ref, ref ∈ b.failureDomains ↔
      ref ∈ binding.failureDomains ∨ c.Declares names ref
  | [], binding, b, ok, ref => by
    obtain rfl := Except.ok.inj ok
    simp [Declares]
  | name :: rest, binding, b, ok, ref => by
    unfold bindResources at ok
    split at ok
    · cases ok
    · rename_i e there
      split at ok
      · cases ok
      · rename_i active
        rw [bindResources_domains ok ref, mem_bind_domains there (by simpa using active),
          @Declares.cons _ _ rest _, or_assoc]

theorem bindComponents_domains : ∀ {names : List ResourceName} {binding b : ResolvedBinding},
    c.bindComponents names binding = .ok b → ∀ ref, ref ∈ b.failureDomains ↔
      ref ∈ binding.failureDomains ∨ c.Declares names ref
  | [], binding, b, ok, ref => by
    obtain rfl := Except.ok.inj ok
    simp [Declares]
  | name :: rest, binding, b, ok, ref => by
    unfold bindComponents at ok
    split at ok
    · cases ok
    · rename_i e found
      obtain ⟨there, active⟩ := Option.filter_eq_some_iff.mp found
      rw [bindComponents_domains ok ref, mem_bind_domains there (by simpa using active),
        @Declares.cons _ _ rest _, or_assoc]

/-- **A resolved binding** refers to what its resources declare. -/
theorem resolveBinding_domains (ok : c.resolveBinding terms = .ok b) (ref : FailureDomainRef) :
    ref ∈ b.failureDomains ↔ c.Declares (b.resources.map ResourceRef.resource) ref := by
  have canonical : ∀ {binding : ResolvedBinding} {names : List ResourceName},
      binding.resources.map ResourceRef.resource = names →
      (∀ ref, ref ∈ binding.failureDomains ↔ c.Declares names ref) → (do
        let resources ← canonicalizeResources binding.resources
        let failureDomains ← canonicalizeFailureDomains binding.failureDomains
        pure { binding with resources, failureDomains } : Result ResolvedBinding) = .ok b →
      (ref ∈ b.failureDomains ↔ c.Declares (b.resources.map ResourceRef.resource) ref) := by
    intro binding names listed declares ok
    obtain ⟨resources, named, ok⟩ := Result.bind_eq_ok.mp ok
    obtain ⟨domains, stated, ok⟩ := Result.bind_eq_ok.mp ok
    obtain rfl := Except.ok.inj ok
    dsimp only
    rw [mem_canonicalizeFailureDomains stated ref, declares ref, ← listed]
    unfold Declares
    simp only [(canonicalizeResources_names named).2]
  unfold resolveBinding at ok
  cases kind : terms.bindingKind with
  | resources =>
    rw [kind] at ok
    obtain ⟨binding, bound, ok⟩ := Result.bind_eq_ok.mp ok
    refine @canonical _ terms.resources ?_ (fun ref => ?_) ok
    · rw [(bindResources_names bound).1]
      rfl
    · rw [bindResources_domains bound ref]
      simp
  | path =>
    rw [kind] at ok
    obtain ⟨binding, bound, ok⟩ := Result.bind_eq_ok.mp ok
    obtain ⟨entry, -, -, components⟩ := bindPath_ok bound
    refine @canonical _ entry.path.components ?_ (fun ref => ?_) ok
    · rw [(bindComponents_names components).1]
      rfl
    · rw [bindComponents_domains components ref]
      simp

/-- The binding that a commit has resolved is that of the record it registers. -/
theorem committed_binding (idle : Idle c) {m : Move} (takes : m.Takes c c') {r : ReservationRecord}
    (registered : .record r ∈ m.recollections c) : ∃ terms b, c.resolveBinding terms = .ok b ∧
      r.authority.resources = b.resources ∧ r.authority.failureDomains = b.failureDomains ∧
      r.authority.pathGeneration = b.pathGeneration ∧ r.terms.path = terms.path := by
  rcases record_recollections registered with ⟨p, victims, rfl, mem⟩ |
    ⟨p, superseded, successors, mutation, rfl, mem⟩ | ⟨r', binding, now, context, rfl, rfl⟩
  · obtain ⟨admitted, -⟩ := takes
    rw [createMutation_records c victims (expandSeries_length admitted.intervals).2] at mem
    refine ⟨p.terms, p.binding, admitted.binding, ?_⟩
    unfold createRecords at mem
    split at mem
    · obtain ⟨i, -, rfl⟩ := List.mem_mapIdx.mp mem
      exact ⟨rfl, rfl, rfl, rfl⟩
    · rw [List.mem_singleton.mp mem]
      exact ⟨rfl, rfl, rfl, rfl⟩
  · obtain ⟨made, -⟩ := takes_amend idle takes
    refine ⟨p.terms, p.binding, takes.1.binding, ?_⟩
    rcases (amendMutation_successors made).2 with ⟨-, rfl⟩ | ⟨-, rfl⟩
    · obtain ⟨i, -, rfl⟩ := List.mem_mapIdx.mp mem
      unfold amendedMember
      split <;> exact ⟨rfl, rfl, rfl, rfl⟩
    · rw [List.mem_singleton.mp mem]
      exact ⟨rfl, rfl, rfl, rfl⟩
  · exact ⟨r'.terms, binding, takes.1, rfl, rfl, rfl, rfl⟩

/-- A commit leaves the capacity ledger alone. -/
theorem committed_ledger (idle : Idle c) {m : Move} (takes : m.Takes c c') {r : ReservationRecord}
    (registered : .record r ∈ m.recollections c) : c'.ledger = c.ledger := by
  have tables := tables_takes idle takes
  rcases record_recollections registered with ⟨p, victims, rfl, -⟩ |
    ⟨p, superseded, successors, mutation, rfl, -⟩ | ⟨r', binding, now, context, rfl, -⟩
  · exact tables.ledger
  · exact tables.ledger
  · exact tables.ledger

/-- **A record that has been committed** has current failure domains exactly if its resources speak
for their domains. -/
theorem committed_domains (idle : Idle c) {m : Move} (takes : m.Takes c c') {r : ReservationRecord}
    (registered : .record r ∈ m.recollections c) :
    (∀ ref ∈ r.authority.failureDomains, c'.ledger.isCurrentFailureDomain ref = true) ↔
      c.ledger.Leads r.authority.resources := by
  obtain ⟨terms, b, resolved, resources, domains, -⟩ := committed_binding idle takes registered
  rw [committed_ledger idle takes registered, resources, domains]
  constructor
  · intro current ref mem domain g named said n g' first ahead
    have own : (⟨domain, g⟩ : FailureDomainRef) ∈ b.failureDomains :=
      (resolveBinding_domains resolved _).mpr
        ⟨named, ref.resource, List.mem_map_of_mem mem, said⟩
    obtain ⟨n', said', ahead'⟩ := CapacityLedger.isCurrentFailureDomain_iff.mp (current _ own)
    have same : n' = n := by
      refine le_antisymm (le_of_not_gt fun less => ?_) (le_of_not_gt fun less => ?_)
      · rw [ahead' n less] at first
        cases first
      · have nothing := ahead n' less
        rw [nothing] at said'
        cases said'
    rw [same, first] at said'
    exact Option.some.inj said'
  · intro leads ref mem
    obtain ⟨named, name, listed, said⟩ := (resolveBinding_domains resolved ref).mp mem
    obtain ⟨bound, own, rfl⟩ := List.mem_map.mp listed
    obtain ⟨n, g', first, ahead⟩ := CapacityLedger.exists_first said
    have same := leads bound own ref.domain ref.generation named said n g' first ahead
    rw [same] at first
    exact CapacityLedger.isCurrentFailureDomain_iff.mpr ⟨n, first, ahead⟩

/-- A record that is new after a sequence of moves descends from one that a commit among them has
registered. -/
theorem Moves.registered {P : Coordinator → Move → Prop} (h : Moves P c c') (idle : Idle c)
    {k : ReservationKey} {r : ReservationRecord} (fresh : c.records[k]? = none)
    (there : c'.records[k]? = some r) : ∃ d d' m r', Idle d ∧ P d m ∧ Move.Takes m d d' ∧
      .record r' ∈ m.recollections d ∧ Descends r' r := by
  have both := h.invariant_idle idle (I := fun e => ∀ r, e.records[k]? = some r →
    ∃ d d' m r', Idle d ∧ P d m ∧ Move.Takes m d d' ∧ .record r' ∈ m.recollections d ∧
      Descends r' r) ?_ fun r no => nomatch fresh.symm.trans no
  · exact both.2 r there
  · intro e e' m eIdle kept own takes r stored
    rcases becomes_takes eIdle takes stored with ⟨registered, -⟩ | ⟨before, was, becomes⟩
    · exact ⟨e, e', m, r, eIdle, own, takes, registered, .refl r⟩
    · obtain ⟨d, d', m', r', dIdle, made, taken, registered, descends⟩ := kept before was
      exact ⟨d, d', m', r', dIdle, made, taken, registered, descends.trans becomes.descends⟩

end

end Coordinator

/-- A record that is new after a create descends from one that its commit has registered. -/
theorem System.create_registered {as : List Action} {c : Coordinator} (up : System.run as = .up c)
    {now : Timestamp} {context : RequestContext} {terms : ReservationTerms}
    {requestedId : ReservationId} {dryRun : Bool} {holds : List HoldId} {faults : List Bool}
    {k : ReservationKey} {r : ReservationRecord} (fresh : c.records[k]? = none)
    (there : (System.serve c (.create now context terms requestedId dryRun holds)
      faults).2.records[k]? = some r) :
    ∃ d d' p victims r', Coordinator.Idle d ∧ (Coordinator.Move.create p victims).Takes d d' ∧
      (.record r' ∈ (Coordinator.Move.create p victims).recollections d) ∧
      Coordinator.Descends r' r := by
  have idle := System.idle_withFaults (System.reachable_idle up).1 faults
  rcases served : System.serve c (.create now context terms requestedId dryRun holds) faults
    with ⟨answer, e⟩
  rw [served] at there
  have run := (Coordinator.ensures_perform (.create now context terms requestedId dryRun holds)
    (c.withFaults faults)).of_run served idle
  obtain ⟨d, d', m, r', dIdle, made, takes, registered, descends⟩ :=
    run.2.registered idle fresh there
  rcases Coordinator.record_recollections registered with ⟨p, victims, rfl, -⟩ |
    ⟨p, superseded, successors, mutation, rfl, -⟩ | ⟨r'', binding, now, context, rfl, -⟩
  · exact ⟨d, d', p, victims, r', dIdle, takes, registered, descends⟩
  · rcases made.1 with no | no
    · exact absurd no id
    · exact absurd no id
  · exact absurd trivial made.2

/-- **Evidence on failure domains.** A capacity statement changes nothing of what is reported of the
failure domains of a reservation exactly if all of them are shielded from it. A record that has just
been committed has current failure domains exactly if its resources speak for their domains. -/
theorem domain_evidence (r : ReservationRecord) :
    (∀ (ledger ledger' : CapacityLedger) (capacity : ResourceCapacity)
      (snapshot : CapacitySnapshotId) (now : Timestamp) (changed : Bool),
      ledger.apply capacity snapshot now = .ok (changed, ledger') →
      ((∀ ref ∈ r.authority.failureDomains,
          ledger'.isCurrentFailureDomain ref = ledger.isCurrentFailureDomain ref) ↔
        ∀ ref ∈ r.authority.failureDomains, ledger.Shielded capacity ref)) ∧
    ∀ (c c' : Coordinator) (m : Coordinator.Move), Coordinator.Idle c →
      m.Takes c c' → .record r ∈ m.recollections c →
      ((∀ ref ∈ r.authority.failureDomains, c'.ledger.isCurrentFailureDomain ref = true) ↔
        c.ledger.Leads r.authority.resources) := by
  refine ⟨fun ledger ledger' capacity snapshot now changed ok => ?_, ?_⟩
  · exact forall₂_congr fun ref _ => CapacityLedger.shielded_iff ok
  · exact fun c c' m idle takes registered => Coordinator.committed_domains idle takes registered

namespace System.Sample

/-- A resource in the failure domain `pod`, at a generation of the domain. -/
def inPod (name : ResourceName) (generation : FailureDomainGeneration) : ResourceCapacity :=
  { resource with
    resource := name
    failureDomain := FixedName.lit "pod"
    failureDomainGeneration := generation }

/-- The link is in the domain at its generation 1, and it is reserved. -/
def reservedInPod : List Action :=
  [opened 0,
    { event := .request (.ingestCapacity 2
        { id := 11, generation := 1, resources := [inPod (FixedName.lit "link") 1] } []
        (context 1 0)) },
    created 1 3 20 30 50]

/-- Another resource, whose name comes first, in the domain at its generation 2. -/
def unrelated : ResourceCapacity := inPod (FixedName.lit "aaa") 2

end System.Sample

open System.Sample in
/-- The reservation of the link in the domain. -/
theorem domain_evidence_reserved :
    let c := (System.run reservedInPod).coordinator
    (∃ (ledger' : CapacityLedger) (changed : Bool) (r : ReservationRecord),
      c.records[(⟨50, 1⟩ : ReservationKey)]? = some r ∧
      c.ledger.apply unrelated 12 4 = .ok (changed, ledger') ∧
      ((∀ ref ∈ r.authority.failureDomains,
          ledger'.isCurrentFailureDomain ref = c.ledger.isCurrentFailureDomain ref) ↔
        ∀ ref ∈ r.authority.failureDomains, c.ledger.Shielded unrelated ref)) ∧
    ∃ (d d' : Coordinator) (m : Coordinator.Move) (r : ReservationRecord), m.Takes d d' ∧
      .record r ∈ m.recollections d ∧
      ((∀ ref ∈ r.authority.failureDomains, d'.ledger.isCurrentFailureDomain ref = true) ↔
        d.ledger.Leads r.authority.resources) := by
  intro c
  have up : System.run (reservedInPod.take 2) =
      .up (System.run (reservedInPod.take 2)).coordinator := System.eq_up (by decide +kernel)
  have facts : (c.ledger.apply unrelated 12 4).toOption.isSome = true ∧
      (c.records[(⟨50, 1⟩ : ReservationKey)]?).isSome = true ∧
      (System.run (reservedInPod.take 2)).coordinator.records[(⟨50, 1⟩ : ReservationKey)]? = none ∧
      ((System.serve (System.run (reservedInPod.take 2)).coordinator
        (.create 3 (context 1 20) (terms 30) 50 false []) []).2.records[
        (⟨50, 1⟩ : ReservationKey)]?).isSome = true := by decide +kernel
  obtain ⟨applies, reserved, fresh, stored⟩ := facts
  generalize (System.run (reservedInPod.take 2)).coordinator = before at up fresh stored
  refine ⟨?_, ?_⟩
  · obtain ⟨r, there⟩ := Option.isSome_iff_exists.mp reserved
    obtain ⟨⟨changed, ledger'⟩, applied⟩ := Option.isSome_iff_exists.mp applies
    have ok : c.ledger.apply unrelated 12 4 = .ok (changed, ledger') := by
      cases run : c.ledger.apply unrelated 12 4 with
      | error e =>
        rw [run] at applied
        cases applied
      | ok out =>
        rw [run] at applied
        rw [Option.some.inj applied]
    exact ⟨ledger', changed, r, there, ok, (domain_evidence r).1 _ _ _ _ _ _ ok⟩
  · obtain ⟨r, there⟩ := Option.isSome_iff_exists.mp stored
    obtain ⟨d, d', p, victims, r', dIdle, takes, registered, -⟩ :=
      System.create_registered up fresh there
    exact ⟨d, d', _, r', takes, registered,
      (domain_evidence r').2 d d' _ dIdle takes registered⟩

open System.Sample in
/-- The statement of the other resource outdates the failure domain of the reservation, which does
not bind that resource. -/
theorem domain_evidence_unrelated :
    ¬ ∀ (as : List Action) (c : Coordinator) (capacity : ResourceCapacity)
      (snapshot : CapacitySnapshotId) (now : Timestamp) (changed : Bool) (ledger' : CapacityLedger)
      (k : ReservationKey) (r : ReservationRecord), System.run as = .up c →
      c.ledger.apply capacity snapshot now = .ok (changed, ledger') → c.records[k]? = some r →
      (∀ ref ∈ r.authority.resources, ref.resource ≠ capacity.resource) →
      ∀ ref ∈ r.authority.failureDomains,
        ledger'.isCurrentFailureDomain ref = c.ledger.isCurrentFailureDomain ref := by
  intro claimed
  let c := (System.run reservedInPod).coordinator
  let ref : FailureDomainRef := ⟨FixedName.lit "pod", 1⟩
  have facts : (System.run reservedInPod).isUp = true ∧
      ((c.ledger.apply unrelated 12 4).toOption.any fun out =>
        out.2.isCurrentFailureDomain ref != c.ledger.isCurrentFailureDomain ref) = true ∧
      ((c.records[(⟨50, 1⟩ : ReservationKey)]?).any fun r =>
        decide (ref ∈ r.authority.failureDomains) &&
          r.authority.resources.all fun own => own.resource ≠ unrelated.resource) = true := by
    decide +kernel
  obtain ⟨up, outdates, binds⟩ := facts
  obtain ⟨r, stored, both⟩ := (Option.any_eq_true _ _).mp binds
  obtain ⟨own, others⟩ := Bool.and_eq_true_iff.mp both
  cases run : c.ledger.apply unrelated 12 4 with
  | error e =>
    rw [run] at outdates
    cases outdates
  | ok out =>
    rw [run] at outdates
    have differ : out.2.isCurrentFailureDomain ref ≠ c.ledger.isCurrentFailureDomain ref := by
      simpa [Except.toOption] using outdates
    refine differ (claimed reservedInPod c unrelated 12 4 out.1 out.2 _ r (System.eq_up up) run
      stored (fun own' mem => ?_) ref (of_decide_eq_true own))
    simpa using List.all_eq_true.mp others own' mem

end Brf
