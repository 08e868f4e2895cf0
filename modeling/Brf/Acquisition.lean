import Brf.Reachable
import Brf.Requests

/-!
# Hold acquisitions

`acquire_hold` derives the identity of a hold from the attempt and indexes the hold resource by
resource. An insertion that fails erases every entry of the identity, also those of an earlier hold.

* `Coordinator.openHold` is the opening of the call, up to the time reconciliation, and
  `Coordinator.grantHold` what it decides on the state it finds then.
* `Coordinator.Unused`: the derived identity is not in use.
* `Coordinator.HoldFramed`: a failure leaves the holds and the index as they were, and a success
  replaces no live hold.

Results: `hold_acquisition` (exactly when an acquisition is `HoldFramed`) and
`retried_hold_erases`.
-/

namespace Brf

open Brf.Lib

namespace Coordinator

variable {c : Coordinator} {now : Timestamp} {context : RequestContext} {terms : ReservationTerms}
  {expiresAt : Timestamp} {h : HoldRecord}

/-! ## The two parts of the call -/

/-- The opening of `acquire_hold`: the context and the terms are checked, the claimant is registered,
and time catches up. -/
def openHold (now : Timestamp) (context : RequestContext) (terms : ReservationTerms) :
    Method Unit := do
  Op.lift ((← get).validateContext context true)
  Op.lift (validateTerms terms)
  ensureClaimant terms.claimant terms.claimantGeneration now
  reconcile now

/-- The hold that is granted in a state. -/
def grantHold (c : Coordinator) (now : Timestamp) (context : RequestContext)
    (terms : ReservationTerms) (expiresAt : Timestamp) : Result HoldRecord := do
  c.checkHoldLimits (c.policyFor terms.policy).1 context terms now expiresAt
  let binding ← c.resolveBinding terms
  let assessment := c.assess terms binding (c.policyFor terms.policy).1
  if assessment.outcome = .committable then
    pure (c.grantedHold context terms binding now expiresAt)
  else throw ⟨outcomeToErrorCode assessment.outcome, assessment.explanation⟩

theorem exec_admitHold (now : Timestamp) (context : RequestContext) (terms : ReservationTerms)
    (expiresAt : Timestamp) (c : Coordinator) :
    (admitHold now context terms expiresAt).exec c =
      match (openHold now context terms).exec c with
      | (.ok (), s) => (s.grantHold now context terms expiresAt, s)
      | (.error e, s) => (.error e, s) := by
  unfold admitHold openHold
  rw [Op.exec_get_bind, Op.exec_get_bind]
  cases c.validateContext context true with
  | error e => rfl
  | ok =>
    cases validateTerms terms with
    | error e => rfl
    | ok =>
      change (ensureClaimant terms.claimant terms.claimantGeneration now >>= _ : Method _).exec c =
        match (ensureClaimant terms.claimant terms.claimantGeneration now >>= _ :
          Method _).exec c with
        | (.ok (), s) => _
        | (.error e, s) => _
      rw [Op.exec_bind, Op.exec_bind]
      rcases (ensureClaimant terms.claimant terms.claimantGeneration now).exec c with ⟨_ | ⟨⟩, c₁⟩
      · rfl
      dsimp only
      rw [Op.exec_bind]
      rcases (reconcile now).exec c₁ with ⟨_ | ⟨⟩, s⟩
      · rfl
      dsimp only
      rw [Op.exec_get_bind]
      unfold grantHold
      dsimp only
      cases s.checkHoldLimits (s.policyFor terms.policy).1 context terms now expiresAt with
      | error e => rfl
      | ok =>
        cases s.resolveBinding terms with
        | error e => rfl
        | ok binding =>
          change (Op.refuseIf _ _ >>= _ : Method _).exec s = (ite _ _ _, s)
          rw [Op.exec_bind, Op.exec_refuseIf]
          by_cases closes : (s.assess terms binding (s.policyFor terms.policy).1).outcome =
            .committable
          · rw [if_pos closes, if_neg (by simp [closes])]
            rfl
          · rw [if_neg closes, if_pos (by simp [closes])]
            rfl

/-! ## The indexing loop -/

theorem holdEntry_own (h : HoldRecord) (name : ResourceName) :
    (holdEntry h name).kind = .hold ∧ (holdEntry h name).id = h.id := ⟨rfl, rfl⟩

/-- One turn adds the entry, or finds it and erases all of the identity. -/
theorem ensures_indexHold {name : ResourceName} (wf : c.index.Wf)
    (valid : (holdEntry h name).Valid) :
    Op.Ensures (indexHold h name) c fun r d => ∃ y, d = c.withIndex y ∧ y.Wf ∧ match r with
      | .ok _ => (∀ x, c.index.Has x → x.identity ≠ (holdEntry h name).identity) ∧
          ∀ x, y.Has x ↔ x = holdEntry h name ∨ c.index.Has x
      | .error _ => (∃ x, c.index.Has x ∧ x.identity = (holdEntry h name).identity) ∧
          ∀ x, y.Has x ↔ c.index.Has x ∧ ¬ (x.kind = .hold ∧ x.id = h.id) := by
  unfold indexHold
  apply Op.ensures_bind
  apply Op.ensures_attempt
  refine (ensures_onIndex (CapacityIndex.ensures_insert wf (holdEntry h name))).mono ?_
  rintro (err | ⟨⟩) _ ⟨y, rfl, ywf, result⟩
  · obtain ⟨rfl, found⟩ := result
    apply Op.ensures_bind
    apply Op.ensures_discard
    apply Op.ensures_attempt
    refine (ensures_onIndex (c := c.withIndex c.index)
      (CapacityIndex.ensures_eraseAll wf .hold h.id)).mono ?_
    rintro _ _ ⟨z, rfl, zwf, has, -⟩
    exact ⟨z, rfl, zwf, found valid, has⟩
  · exact ⟨y, rfl, ywf, result.2.1, result.2.2⟩

/-- **The loop** adds an entry for each name, or finds one that is there and erases all of the
identity. -/
theorem ensures_indexHolds : ∀ {names : List ResourceName} {c : Coordinator}, c.index.Wf →
    (∀ name ∈ names, (holdEntry h name).Valid) → names.Nodup →
    Op.Ensures (Op.each (indexHold h) names) c fun r d => ∃ y, d = c.withIndex y ∧ match r with
      | .ok _ => ∀ name ∈ names, ∀ x, c.index.Has x → x.identity ≠ (holdEntry h name).identity
      | .error _ => (∃ name ∈ names, ∃ x, c.index.Has x ∧
            x.identity = (holdEntry h name).identity) ∧
          ∀ x, y.Has x ↔ c.index.Has x ∧ ¬ (x.kind = .hold ∧ x.id = h.id)
  | [], c, _, _, _ => ⟨c.index, rfl, fun _ no => absurd no List.not_mem_nil⟩
  | name :: names, c, wf, valid, distinct => by
    obtain ⟨fresh, distinct⟩ := List.nodup_cons.mp distinct
    obtain ⟨first, others⟩ := List.forall_mem_cons.mp valid
    apply Op.ensures_bind
    refine (ensures_indexHold wf first).mono ?_
    rintro (err | ⟨⟩) _ ⟨y, rfl, ywf, result⟩
    · exact ⟨y, rfl, ⟨name, List.mem_cons_self, result.1⟩, result.2⟩
    · obtain ⟨apart, has⟩ := result
      refine (ensures_indexHolds (c := c.withIndex y) ywf others distinct).mono ?_
      rintro (err | ⟨⟩) _ ⟨z, rfl, result⟩
      · obtain ⟨⟨other, mem, x, there, same⟩, erased⟩ := result
        refine ⟨z, rfl, ⟨other, List.mem_cons_of_mem _ mem, x, ?_, same⟩, fun f => ?_⟩
        · refine ((has x).mp there).resolve_left ?_
          rintro rfl
          have named : name = other := congrArg EntryIdentity.resource same
          exact fresh (named ▸ mem)
        · rw [erased f]
          refine ⟨fun ⟨there, other⟩ => ⟨?_, other⟩, fun ⟨there, other⟩ => ⟨?_, other⟩⟩
          · refine ((has f).mp there).resolve_left ?_
            rintro rfl
            exact other (holdEntry_own h name)
          · exact (has f).mpr (.inr there)
      · refine ⟨z, rfl, List.forall_mem_cons.mpr ⟨apart, fun other mem x there => ?_⟩⟩
        exact result other mem x ((has x).mpr (.inr there))

/-! ## Frames -/

/-- The identity of a hold is free: no live hold has it, and no entry of it is on a resource of the
hold. -/
structure Unused (c : Coordinator) (h : HoldRecord) : Prop where
  hold : ∀ earlier, c.holds[h.id]? = some earlier → earlier.released = true
  index : ∀ e, c.index.Has e → e.kind = .hold → e.id = h.id → e.resource ∉ h.resources

/-- A failure leaves the holds and the entries of the index as they were, and a success replaces no
live hold. -/
structure HoldFramed (c : Coordinator) (res : Except Error HoldRecord) (c' : Coordinator) :
    Prop where
  failure : ∀ e, res = .error e → c'.holds = c.holds ∧ ∀ e, c'.index.Has e ↔ c.index.Has e
  success : ∀ h, res = .ok h → ∀ earlier, c.holds[h.id]? = some earlier → earlier.released = true

theorem HoldFramed.refl (c : Coordinator) (e : Error) : c.HoldFramed (.error e) c :=
  ⟨fun _ _ => ⟨rfl, fun _ => Iff.rfl⟩, fun _ no => nomatch no⟩

/-- The names of a hold that is granted are distinct, and its entries can be indexed. -/
theorem grantHold_valid (consistent : Consistent c) (valid : validateTerms terms = .ok ())
    (granted : c.grantHold now context terms expiresAt = .ok h) :
    (∀ name ∈ h.resources, (holdEntry h name).Valid) ∧ h.resources.Nodup := by
  unfold grantHold at granted
  obtain ⟨⟨⟩, -, granted⟩ := Result.bind_eq_ok.mp granted
  obtain ⟨binding, bound, granted⟩ := Result.bind_eq_ok.mp granted
  dsimp only at granted
  split at granted
  · obtain rfl := Except.ok.inj granted
    obtain ⟨named, distinct⟩ := resolveBinding_bound consistent bound
    refine ⟨fun name mem => ?_, List.pairwise_map.mpr distinct⟩
    obtain ⟨ref, there, rfl⟩ := List.mem_map.mp mem
    have order : terms.interval.start < terms.interval.stop :=
      (validateInterval_ok (validateTerms_interval valid)).2.1
    have nonempty : terms.interval.empty = false := by simp [Interval.empty, order]
    exact ⟨nonempty, validateTerms_amount valid, named ref there⟩
  · cases granted

/-- The opening succeeds only for valid terms, and it leads to an idle state. -/
theorem ensures_openHold (idle : Idle c) (now : Timestamp) (context : RequestContext)
    (terms : ReservationTerms) : Op.Ensures (openHold now context terms) c fun res d =>
      res = .ok () → validateTerms terms = .ok () ∧ Idle d := by
  unfold openHold
  apply Op.ensures_get_bind
  refine Op.ensures_lift_bind (fun _ _ => ?_) fun _ _ no => (nomatch no)
  refine Op.ensures_lift_bind (fun _ valid => ?_) fun _ _ no => (nomatch no)
  have runs : Op.Within (Runs fun _ => True)
      (ensureClaimant terms.claimant terms.claimantGeneration now >>= fun _ => reconcile now) :=
    Op.within_bind (within_ensureClaimant (fun _ _ => trivial) _ _ now trivial) fun _ =>
      within_reconcile (fun _ _ => trivial) now
  exact (runs c).mono fun _ d there _ => ⟨valid, (there idle).1⟩

/-- **The loop keeps the frame** exactly if the identity of the hold is unused. -/
theorem indexHolds_framed (wf : c.index.Wf) (valid : ∀ name ∈ h.resources, (holdEntry h name).Valid)
    (distinct : h.resources.Nodup) :
    Op.Ensures (do
      Op.each (indexHold h) h.resources
      modify fun c => { c with holds := c.holds.insert h.id h }
      pure h) c fun res d => c.HoldFramed res d ↔ c.Unused h := by
  apply Op.ensures_bind
  refine (ensures_indexHolds wf valid distinct).mono ?_
  rintro (e | ⟨⟩) _ ⟨y, rfl, result⟩
  · obtain ⟨⟨name, mem, x, there, same⟩, erased⟩ := result
    have kind : x.kind = .hold := congrArg EntryIdentity.kind same
    have id : x.id = h.id := congrArg EntryIdentity.id same
    have resource : x.resource = name := congrArg EntryIdentity.resource same
    constructor
    · exact fun framed => absurd ⟨kind, id⟩
        ((erased x).mp (((framed.failure e rfl).2 x).mpr there)).2
    · exact fun unused => absurd (resource ▸ mem) (unused.index x there kind id)
  · change c.HoldFramed (.ok h) _ ↔ _
    constructor
    · refine fun framed => ⟨framed.success h rfl, fun x there kind id mem => ?_⟩
      exact result x.resource mem x there (EntryIdentity.ext kind id rfl)
    · refine fun unused => ⟨fun _ no => (nomatch no), fun h' same => ?_⟩
      obtain rfl := Except.ok.inj same
      exact unused.hold

end Coordinator

/-- **An acquisition keeps the frame** exactly if it is refused before the hold is indexed, or the
identity of the hold is unused. -/
theorem hold_acquisition {as : List Action} {c : Coordinator} (h : System.run as = .up c)
    (faults : List Bool) (now : Timestamp) (context : RequestContext) (terms : ReservationTerms)
    (expiresAt : Timestamp) :
    let opened := (Coordinator.openHold now context terms).exec (c.withFaults faults)
    let done := (Coordinator.acquireHold now context terms expiresAt).exec (c.withFaults faults)
    opened.2.HoldFramed done.1 done.2 ↔ (opened.1 = .ok () → ∀ hold,
      opened.2.grantHold now context terms expiresAt = .ok hold → opened.2.Unused hold) := by
  intro opened done
  have idle : Coordinator.Idle (c.withFaults faults) :=
    System.idle_withFaults (System.reachable_idle h).1 faults
  rcases first : (Coordinator.openHold now context terms).exec (c.withFaults faults) with ⟨r, s⟩
  rcases last : (Coordinator.acquireHold now context terms expiresAt).exec (c.withFaults faults)
    with ⟨res, c'⟩
  have start : opened = (r, s) := first
  have finish : done = (res, c') := last
  rw [start, finish]
  unfold Coordinator.acquireHold at last
  rw [Op.exec_bind, Coordinator.exec_admitHold, first] at last
  rcases r with e | ⟨⟩
  · obtain ⟨rfl, rfl⟩ := Prod.mk.inj last
    exact ⟨fun _ no => (nomatch no), fun _ => .refl _ e⟩
  obtain ⟨valid, sIdle⟩ := (Coordinator.ensures_openHold idle now context terms).of_run first rfl
  rw [forall_prop_of_true rfl]
  dsimp only at last ⊢
  cases granted : s.grantHold now context terms expiresAt with
  | error e =>
    rw [granted] at last
    obtain ⟨rfl, rfl⟩ := Prod.mk.inj last
    exact ⟨fun _ _ no => (nomatch no), fun _ => .refl _ e⟩
  | ok hold =>
    rw [granted] at last
    obtain ⟨entries, distinct⟩ := Coordinator.grantHold_valid sIdle.consistent valid granted
    rw [(Coordinator.indexHolds_framed sIdle.consistent.index entries distinct).of_run last]
    exact ⟨fun unused _ same => Except.ok.inj same ▸ unused, fun all => all hold rfl⟩

namespace System.Sample

/-- A hold of 30 bits per second has been acquired under the attempt 20. -/
def held : List Action :=
  [opened 0, ingested, { event := .request (.acquireHold 3 (context 1 20) (terms 30) 50) }]

end System.Sample

open System.Sample in
theorem hold_acquisition_held :
    let c := (System.run held).coordinator
    let opened := (Coordinator.openHold 4 (context 1 20) (terms 30)).exec (c.withFaults [])
    let done := (Coordinator.acquireHold 4 (context 1 20) (terms 30) 50).exec (c.withFaults [])
    opened.2.HoldFramed done.1 done.2 ↔ (opened.1 = .ok () → ∀ hold,
      opened.2.grantHold 4 (context 1 20) (terms 30) 50 = .ok hold → opened.2.Unused hold) :=
  hold_acquisition (System.eq_up (by decide +kernel)) [] 4 (context 1 20) (terms 30) 50

open System.Sample in
/-- The same request again is refused, and erases the entry of the hold it has acquired before. -/
theorem retried_hold_erases :
    ¬ ∀ (as : List Action) (c : Coordinator) (faults : List Bool) (now : Timestamp)
      (context : RequestContext) (terms : ReservationTerms) (expiresAt : Timestamp),
      System.run as = .up c →
      ((Coordinator.openHold now context terms).exec (c.withFaults faults)).2.HoldFramed
        ((Coordinator.acquireHold now context terms expiresAt).exec (c.withFaults faults)).1
        ((Coordinator.acquireHold now context terms expiresAt).exec (c.withFaults faults)).2 := by
  intro claimed
  let c := (System.run held).coordinator
  let s := ((Coordinator.openHold 4 (context 1 20) (terms 30)).exec (c.withFaults [])).2
  let done := (Coordinator.acquireHold 4 (context 1 20) (terms 30) 50).exec (c.withFaults [])
  let e : IndexEntry :=
    { kind := .hold
      id := (20 : AttemptId).derive Coordinator.holdDerivation
      holderGeneration := 1
      resource := resource.resource
      interval := (terms 30).interval
      amount := 30
      guarantee := (terms 30).guarantee
      state := .pending }
  have facts : (System.run held).isUp = true ∧ done.1.toBool = false ∧
      ((s.index.resources[e.resource]?).any fun t => decide (e ∈ t.byStart)) = true ∧
      ((done.2.index.resources[e.resource]?).any fun t => decide (e ∈ t.byStart)) = false := by
    decide +kernel
  obtain ⟨up, refused, indexed, erased⟩ := facts
  have framed := claimed held c [] 4 (context 1 20) (terms 30) 50 (System.eq_up up)
  change s.HoldFramed done.1 done.2 at framed
  clear_value s done
  obtain ⟨t, there, mem⟩ := (Option.any_eq_true _ _).mp indexed
  rcases done with ⟨failed | hold, c'⟩
  · have same := (framed.failure failed rfl).2 e
    obtain ⟨t', there', mem'⟩ := same.mpr ⟨t, there, of_decide_eq_true mem⟩
    rw [there'] at erased
    simp [mem'] at erased
  · cases refused

end Brf
