import Brf.Limits

/-!
# Material policy changes

An ingestion of a policy whose content differs materially from what was in force marks the live
reservations under that name whose authority carries another generation number. The built-in strict
policy, which applies until the name is registered, carries the number 1 as well.

* `Coordinator.Outdated`: a generation is marked because its policy has changed.
* `Coordinator.markPolicyChanges_marks`: the marking loop marks what it is given, and nothing else.

Results: `policy_change` (exactly when every reservation that was admitted under other content is
marked) and `builtin_number_is_reused`.
-/

namespace Brf

open Brf.Lib

/-- A record that changes nothing says what is in force. -/
theorem PolicyRegistry.apply_same {registry registry' : PolicyRegistry} {record : PolicyRecord}
    (applied : registry.apply record = .ok (false, registry')) :
    ∃ previous, registry.current record.name = some previous ∧
      record.materiallyDiffers previous = false := by
  unfold apply at applied
  obtain ⟨⟨⟩, -, applied⟩ := Result.bind_eq_ok.mp applied
  cases there : registry[record.name]? with
  | none =>
    rw [there] at applied
    cases applied
  | some entry =>
    rw [there] at applied
    dsimp only at applied
    split_ifs at applied with number content older
    · refine ⟨entry.record, by simp [current, there], ?_⟩
      rw [show record = { entry.record with ingestedAt := record.ingestedAt } from
        of_decide_eq_true content]
      simp [PolicyRecord.materiallyDiffers]
    all_goals cases applied

namespace Coordinator

variable {c c' : Coordinator}

/-- The record asks for a revalidation because its policy has changed. -/
def OutdatedRecord (r : ReservationRecord) : Prop :=
  r.applicability = .revalidationRequired ∧ r.applicabilityReason = .policyMaterialChange

instance (r : ReservationRecord) : Decidable (OutdatedRecord r) :=
  inferInstanceAs (Decidable (_ ∧ _))

/-- The generation asks for a revalidation because its policy has changed. -/
def Outdated (c : Coordinator) (key : ReservationKey) : Prop :=
  ∃ r, c.records[key]? = some r ∧ OutdatedRecord r

/-- One turn of the marking loop. -/
theorem ensures_markPolicyChange (idle : Idle c) (now : Timestamp) (key : ReservationKey) :
    Op.Ensures (markPolicyChange now key) c fun res c' => Idle c' ∧ (res = .ok () →
      ((c.records[key]?).isSome = true → Outdated c' key) ∧
        ∀ k, k ≠ key → c'.records[k]? = c.records[k]?) := by
  unfold markPolicyChange
  apply Op.ensures_get_bind
  cases found : c.records[key]? with
  | none => exact ⟨idle, fun _ => ⟨fun no => absurd no (by simp), fun _ _ => rfl⟩⟩
  | some r =>
    have named := idle.consistent.keyed key r found
    subst named
    apply Op.ensures_discard
    refine (runs_markApplicability_exact (P := Housekeeping) trivial found
      .revalidationRequired .policyMaterialChange now trivial
      fun no => absurd no (by decide)).mono ?_
    rintro (e | next) d ⟨runs, marks⟩
    · exact ⟨(runs idle).1, fun no => nomatch no⟩
    · refine ⟨(runs idle).1, fun _ => ?_⟩
      rcases marks idle rfl with ⟨same, was⟩ | ⟨sequence, stamped⟩
      · exact ⟨fun _ => ⟨r, by rw [same, found], was⟩, fun k _ => by rw [same]⟩
      · refine ⟨fun _ => ⟨r.marked .revalidationRequired .policyMaterialChange now sequence, ?_, rfl,
          rfl⟩, fun k other => ?_⟩
        · rw [stamped]
          simp
        · rw [stamped, Map.get_insert_ne other]

/-- **The marking loop** marks what it is given, and nothing else. -/
theorem markPolicyChanges_marks (now : Timestamp) : ∀ {keys : List ReservationKey} {c : Coordinator},
    Idle c → Op.Ensures (Op.each (markPolicyChange now) keys) c fun res c' => res = .ok () →
      ∀ k, (k ∈ keys → (c.records[k]?).isSome = true → Outdated c' k) ∧
        (k ∉ keys → c'.records[k]? = c.records[k]?)
  | [], c, _ => fun _ k => ⟨fun no => absurd no List.not_mem_nil, fun _ => rfl⟩
  | key :: keys, c, idle => by
    apply Op.ensures_bind
    refine (ensures_markPolicyChange idle now key).mono ?_
    rintro (e | ⟨⟩) d ⟨dIdle, turn⟩
    · exact fun no => nomatch no
    obtain ⟨marked, others⟩ := turn rfl
    refine (markPolicyChanges_marks now dIdle).mono ?_
    intro res c' rest done k
    obtain ⟨later, kept⟩ := rest done k
    constructor
    · intro mem stored
      by_cases again : k ∈ keys
      · refine later again ?_
        by_cases same : k = key
        · subst same
          obtain ⟨r, there, -⟩ := marked stored
          simp [there]
        · rw [others k same]
          exact stored
      · obtain rfl : k = key := (List.mem_cons.mp mem).resolve_right again
        obtain ⟨r, there, own⟩ := marked stored
        exact ⟨r, (kept again).trans there, own⟩
    · intro other
      rw [List.mem_cons, not_or] at other
      exact (kept other.2).trans (others k other.1)

theorem mem_affectedBy {record : PolicyRecord} {key : ReservationKey} {r : ReservationRecord}
    (stored : c.records[key]? = some r) : key ∈ c.affectedBy record ↔
      isTerminal r.state = false ∧ r.authority.policy = record.name ∧
        r.authority.policyGeneration ≠ record.generation := by
  unfold affectedBy
  rw [List.mem_map]
  constructor
  · rintro ⟨⟨k, r'⟩, listed, rfl⟩
    obtain ⟨there, chosen⟩ := List.mem_filter.mp listed
    obtain rfl : r = r' := Option.some.inj (stored.symm.trans (Map.mem_toList.mp there))
    simpa [and_assoc] using chosen
  · intro chosen
    refine ⟨(key, r), List.mem_filter.mpr ⟨Map.mem_toList.mpr stored, ?_⟩, rfl⟩
    simpa [and_assoc] using chosen

/-- **An accepted material change** marks the live reservations of the name that carry another
generation number, and leaves the others as they are. -/
theorem ensures_ingestPolicy_marks (idle : Idle c) (now : Timestamp) (record : PolicyRecord)
    (context : RequestContext) (material : record.materiallyDiffers (c.policyFor record.name).1 = true) :
    Op.Ensures (ingestPolicy now record context) c fun res c' => res = .ok () →
      ∀ k r, c.records[k]? = some r → (k ∈ c.affectedBy record → Outdated c' k) ∧
        (k ∉ c.affectedBy record → c'.records[k]? = some r) := by
  have differs : (c.policies.current record.name).all record.materiallyDiffers = true := by
    unfold policyFor at material
    cases current : c.policies.current record.name with
    | none => rfl
    | some previous =>
      rw [current] at material
      exact material
  unfold ingestPolicy
  apply Op.ensures_get_bind
  refine Op.ensures_lift_bind (fun _ _ => ?_) fun _ _ no => nomatch no
  dsimp only
  refine Op.ensures_lift_bind (fun ⟨changed, policies⟩ applied => ?_) fun _ _ no => nomatch no
  apply Op.ensures_modify_bind
  refine Op.ensures_ite (fun changes => ?_) fun unchanged => ?_
  · obtain rfl : changed = true := changes
    apply Op.ensures_bind
    apply Op.ensures_discard
    refine (ensures_appendRecord _ _).mono ?_
    rintro (e | sequence) d spec
    · exact fun no => nomatch no
    · obtain ⟨faults, rfl⟩ := spec.2.shape
      have dIdle : Idle (({ c with policies } : Coordinator).logged _ faults) :=
        idle_takes idle (m := .policy now record) ⟨policies, _, applied, spec.2, rfl⟩
      refine Op.ensures_ite (fun _ => ?_) fun no => absurd differs no
      apply Op.ensures_get_bind
      refine (markPolicyChanges_marks now dIdle).mono ?_
      intro res c' marks done k r stored
      obtain ⟨marked, kept⟩ := marks done k
      exact ⟨fun mem => marked mem (Option.isSome_iff_exists.mpr ⟨r, stored⟩),
        fun other => (kept other).trans stored⟩
  · obtain rfl : changed = false := by simpa using unchanged
    obtain ⟨previous, current, same⟩ := PolicyRegistry.apply_same applied
    rw [current, Option.all_some, same] at differs
    cases differs

/-- **Material policy changes.** An accepted policy that differs materially from what was in force
outdates every live reservation of its name that was admitted under materially different content
exactly if none of these carries the number of the new policy, unless it is outdated already. -/
theorem policy_change (idle : Idle c) {now : Timestamp} {record : PolicyRecord}
    {context : RequestContext}
    (accepted : (ingestPolicy now record context).exec c = (.ok (), c'))
    (material : record.materiallyDiffers (c.policyFor record.name).1 = true)
    (admitted : ReservationKey → PolicyRecord) :
    (∀ key r, c.records[key]? = some r → isTerminal r.state = false →
        r.authority.policy = record.name → record.materiallyDiffers (admitted key) = true →
        Outdated c' key) ↔
      ∀ key r, c.records[key]? = some r → isTerminal r.state = false →
        r.authority.policy = record.name → record.materiallyDiffers (admitted key) = true →
        r.authority.policyGeneration = record.generation → OutdatedRecord r := by
  have marks := (ensures_ingestPolicy_marks idle now record context material).of_run accepted rfl
  constructor
  · intro all key r stored live named differs number
    have unlisted : key ∉ c.affectedBy record :=
      fun mem => ((mem_affectedBy stored).mp mem).2.2 number
    obtain ⟨r', there, outdated⟩ := all key r stored live named differs
    obtain rfl : r = r' := Option.some.inj (((marks key r stored).2 unlisted).symm.trans there)
    exact outdated
  · intro reused key r stored live named differs
    by_cases number : r.authority.policyGeneration = record.generation
    · have unlisted : key ∉ c.affectedBy record :=
        fun mem => ((mem_affectedBy stored).mp mem).2.2 number
      exact ⟨r, (marks key r stored).2 unlisted, reused key r stored live named differs number⟩
    · exact (marks key r stored).1 ((mem_affectedBy stored).mpr ⟨live, named, number⟩)

end Coordinator

namespace System.Sample

/-- The policy of the claims, at a generation, with a minimum amount. -/
def minimumOf (generation : PolicyGeneration) (amount : Bandwidth) : PolicyRecord :=
  { name := FixedName.lit "default", generation, minimumReservationAmount := amount }

end System.Sample

open System.Sample in
/-- The second generation of a policy asks for more than the first. -/
theorem policy_change_second :
    ∃ c c', (Coordinator.ingestPolicy 5 (minimumOf 2 30) (context 1 0)).exec c = (.ok (), c') ∧
      ((∀ (key : ReservationKey) (r : ReservationRecord), c.records[key]? = some r →
          isTerminal r.state = false → r.authority.policy = (minimumOf 2 30).name →
          (minimumOf 2 30).materiallyDiffers (minimumOf 1 20) = true → c'.Outdated key) ↔
        ∀ (key : ReservationKey) (r : ReservationRecord), c.records[key]? = some r → isTerminal r.state = false →
          r.authority.policy = (minimumOf 2 30).name →
          (minimumOf 2 30).materiallyDiffers (minimumOf 1 20) = true →
          r.authority.policyGeneration = (minimumOf 2 30).generation →
          Coordinator.OutdatedRecord r) := by
  obtain ⟨c, up, accepts, material⟩ : ∃ c, System.run aboveFloor = .up c ∧
      ((Coordinator.ingestPolicy 5 (minimumOf 2 30) (context 1 0)).exec c).1.toBool = true ∧
      (minimumOf 2 30).materiallyDiffers (c.policyFor (minimumOf 2 30).name).1 = true := by
    refine ⟨_, System.eq_up (by decide +kernel), ?_⟩
    decide +kernel
  rcases run : (Coordinator.ingestPolicy 5 (minimumOf 2 30) (context 1 0)).exec c with ⟨e | ⟨⟩, c'⟩
  · rw [run] at accepts
    cases accepts
  · exact ⟨c, c', run, Coordinator.policy_change (System.reachable_idle up).1 run material
      fun _ => minimumOf 1 20⟩

open System.Sample in
/-- A reservation is admitted while no policy is registered; the first registered policy carries the
number of the built-in one, so the reservation is not marked. -/
theorem builtin_number_is_reused :
    ¬ ∀ (as : List Action) (make : Action) (b c : Coordinator) (now : Timestamp)
      (record : PolicyRecord) (context : RequestContext) (key : ReservationKey)
      (r : ReservationRecord), System.run as = .up b → System.run (as ++ [make]) = .up c →
      b.records[key]? = none → c.records[key]? = some r → isTerminal r.state = false →
      r.authority.policy = record.name →
      record.materiallyDiffers (b.policyFor record.name).1 = true →
      record.materiallyDiffers (c.policyFor record.name).1 = true →
      (System.serve c (.ingestPolicy now record context) []).1 = .ok () →
      (System.serve c (.ingestPolicy now record context) []).2.Outdated key := by
  intro claimed
  obtain ⟨b, bUp, unregistered⟩ : ∃ b, System.run [opened 0, ingested] = .up b ∧
      b.records[(⟨50, 1⟩ : ReservationKey)]? = none ∧
      (minimumOf 1 20).materiallyDiffers (b.policyFor (minimumOf 1 20).name).1 = true := by
    refine ⟨_, System.eq_up (by decide +kernel), ?_⟩
    decide +kernel
  obtain ⟨c, cUp, stored, material, accepts, unmarked⟩ :
      ∃ c, System.run ([opened 0, ingested] ++ [created 1 3 20 30 50]) = .up c ∧
      ((c.records[(⟨50, 1⟩ : ReservationKey)]?).any fun r =>
        !isTerminal r.state && decide (r.authority.policy = (minimumOf 1 20).name)) = true ∧
      (minimumOf 1 20).materiallyDiffers (c.policyFor (minimumOf 1 20).name).1 = true ∧
      (System.serve c (.ingestPolicy 5 (minimumOf 1 20) (context 1 0)) []).1.toBool = true ∧
      ((System.serve c (.ingestPolicy 5 (minimumOf 1 20) (context 1 0)) []).2.records[
        (⟨50, 1⟩ : ReservationKey)]?).any (fun r => decide (Coordinator.OutdatedRecord r)) =
          false := by
    refine ⟨_, System.eq_up (by decide +kernel), ?_⟩
    decide +kernel
  obtain ⟨r, there, both⟩ := (Option.any_eq_true _ _).mp stored
  obtain ⟨live, named⟩ := Bool.and_eq_true_iff.mp both
  have accepted : (System.serve c (.ingestPolicy 5 (minimumOf 1 20) (context 1 0)) []).1 =
      .ok () := by
    cases ran : (System.serve c (.ingestPolicy 5 (minimumOf 1 20) (context 1 0)) []).1 with
    | error e =>
      rw [ran] at accepts
      cases accepts
    | ok => rfl
  obtain ⟨r', there', outdated⟩ := claimed _ _ b c 5 _ _ _ r bUp cUp unregistered.1 there
    (by simpa using live) (of_decide_eq_true named) unregistered.2 material accepted
  rw [there', Option.any_some, decide_eq_true outdated] at unmarked
  cases unmarked

end Brf
