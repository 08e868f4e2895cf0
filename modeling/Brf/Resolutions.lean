import Brf.Deadlines
import Brf.Overcommits

/-!
# Resolving an overcommit

`resolve_overcommit` with `kRevoke`, against everything that the resource owes.

* `owed`: the obligations of a resource, as the entries that the loop sorts; `weakestFirst` is the
  order in which it would take them.
* `Resolved c gone rest d`: `d` is `c` after the loop has revoked the entries `gone` and left `rest`.
* `Revokes c d key`: the generation is revoked in `d`, and was not in `c`.

Results: `owed_stepped` and, for the loop, `resolved_of_run`; `resolution_exact` for the call.

Out of scope: what a call that fails half-way has revoked.
-/

namespace Brf

open Brf.Lib
open ReservationRecord (Owns Restated)

/-- The generation that an entry stands for. -/
def IndexEntry.holderKey (e : IndexEntry) : ReservationKey := ⟨e.id, e.holderGeneration⟩

/-- The amounts of entries, less those of empty intervals. -/
def usagesOf (es : List IndexEntry) : List Usage :=
  (es.map IndexEntry.usage).filter fun u => !u.1.empty

theorem usagesOf_perm {es fs : List IndexEntry} (perm : es.Perm fs) :
    (usagesOf es).Perm (usagesOf fs) := (perm.map _).filter _

theorem usagesOf_sublist {es fs : List IndexEntry} (part : es.Sublist fs) :
    (usagesOf es).Sublist (usagesOf fs) := (part.map _).filter _

theorem usagesOf_append (es fs : List IndexEntry) :
    usagesOf (es ++ fs) = usagesOf es ++ usagesOf fs := by
  simp [usagesOf]

/-- Entries of the timeline all count. -/
theorem usagesOf_valid {es : List IndexEntry} (valid : ∀ e ∈ es, e.usage.Valid) :
    usagesOf es = es.map IndexEntry.usage := by
  unfold usagesOf
  rw [List.filter_eq_self]
  intro u mem
  obtain ⟨e, listed, rfl⟩ := List.mem_map.mp mem
  have order : e.usage.1.start < e.usage.1.stop := (valid e listed).nonempty
  simp [Interval.empty, order]

theorem GuaranteeClass.rank_injective : Function.Injective GuaranteeClass.rank := by
  intro a b h
  cases a <;> cases b <;> simp_all [rank]

namespace Coordinator

variable {c d : Coordinator} {r s : ReservationRecord} {n : ResourceName} {now : Timestamp}

/-! ## The order of victims -/

/-- What victims are compared by: guarantee class, identity, generation. -/
def victimRank (e : IndexEntry) : Nat ×ₗ ReservationId ×ₗ ReservationGeneration :=
  toLex (e.guarantee.rank, toLex (e.id, e.holderGeneration))

theorem victimOrder_iff {a b : IndexEntry} : victimOrder a b = true ↔ victimRank a ≤ victimRank b := by
  have classes : a.guarantee.rank = b.guarantee.rank ↔ a.guarantee = b.guarantee :=
    GuaranteeClass.rank_injective.eq_iff
  unfold victimOrder victimRank
  rw [Prod.Lex.toLex_le_toLex, Prod.Lex.toLex_le_toLex, classes]
  by_cases sameClass : a.guarantee = b.guarantee
  · by_cases sameId : a.id = b.id
    · simp [sameClass, sameId]
    · simp [sameClass, sameId]
  · simp [sameClass]

instance : Std.Total fun a b => (victimOrder a b : Prop) :=
  ⟨fun a b => by simpa only [victimOrder_iff] using le_total (victimRank a) (victimRank b)⟩

instance : IsTrans IndexEntry fun a b => (victimOrder a b : Prop) :=
  ⟨fun a b x => by simpa only [victimOrder_iff] using le_trans⟩

/-- Entries that come before each other stand for one generation. -/
theorem victimOrder_antisymm {a b : IndexEntry} (le : victimOrder a b = true)
    (ge : victimOrder b a = true) : a.holderKey = b.holderKey := by
  have same := le_antisymm (victimOrder_iff.mp le) (victimOrder_iff.mp ge)
  unfold victimRank at same
  simp only [EmbeddingLike.apply_eq_iff_eq, Prod.mk.injEq] at same
  exact ReservationKey.ext same.2.1 same.2.2

/-! ## Everything owed -/

/-- The obligations of a resource that no live generation accounts for, as entries. -/
def staleEntries (c : Coordinator) (n : ResourceName) : List IndexEntry :=
  (c.records.values.filter fun r => r.consumes && c.boundStale n r).map fun r =>
    recordEntry r { resource := n, generation := 0 }

/-- The obligations of a resource, as a resolution lists them whose scan misses none. -/
def owed (c : Coordinator) (n : ResourceName) : List IndexEntry :=
  (c.index.entriesOn n).filter (fun e => e.kind = .reservation) ++ c.staleEntries n

/-- They in the order of victims. -/
def weakestFirst (c : Coordinator) (n : ResourceName) : List IndexEntry :=
  (c.owed n).insertionSort fun a b => victimOrder a b

/-- The entries on a resource, holds among them, lie on the timeline and within the arithmetic. -/
def Inscribed (c : Coordinator) (n : ResourceName) : Prop :=
  ∀ e ∈ c.index.entriesOn n, e.usage.Valid ∧ e.amount.val ≤ indexSaturation

/-- What is owed, in amounts. -/
theorem usagesOf_owed (inscribed : c.Inscribed n) : usagesOf (c.owed n) = c.obligations n := by
  unfold owed obligations indexedUsages
  rw [usagesOf_append, usagesOf_valid fun e mem => (inscribed e (List.mem_filter.mp mem).1).1]
  congr 1
  unfold usagesOf staleEntries staleUsages outstanding
  rw [List.map_map, List.filter_map, List.filter_filter]
  refine congrArg _ (List.filter_congr fun r _ => ?_)
  exact Bool.and_comm _ _

/-- A scan that nothing is cut off from misses nothing. -/
theorem resolutionCandidates_perm (inscribed : c.Inscribed n)
    (few : (c.index.entriesOn n).length ≤ c.config.indexScanLimit) :
    (c.resolutionCandidates n).Perm (c.owed n) := by
  have scanned := walk_perm (fun e mem => (inscribed e mem).1) c.config.indexScanLimit
  rw [List.take_of_length_le few] at scanned
  unfold resolutionCandidates owed staleEntries
  dsimp only
  rw [CapacityIndex.overlapping_eq]
  exact (scanned.filter _).append_right _

/-- What is owed stands for stored generations that consume. -/
theorem mem_owed (idle : Idle c) {e : IndexEntry} (mem : e ∈ c.owed n) :
    ∃ r, c.records[e.holderKey]? = some r ∧ r.key = e.holderKey ∧ r.consumes = true := by
  rcases List.mem_append.mp mem with indexed | stale
  · obtain ⟨listed, kind⟩ := List.mem_filter.mp indexed
    have has := ((CapacityIndex.mem_entriesOn idle.consistent.index).mp listed).1
    obtain ⟨r, stored, consumes⟩ := idle.consistent.backed e has (of_decide_eq_true kind)
    exact ⟨r, stored, idle.consistent.keyed _ r stored, consumes⟩
  · obtain ⟨r, listed, rfl⟩ := List.mem_map.mp stale
    obtain ⟨stored, owed⟩ := List.mem_filter.mp listed
    obtain ⟨key, there⟩ := Map.mem_values.mp stored
    obtain rfl := idle.consistent.keyed key r there
    exact ⟨r, there, rfl, (Bool.and_eq_true _ _ ▸ owed).1⟩

/-- The amounts of what is owed are exact. -/
theorem usagesOf_owed_valid (inscribed : c.Inscribed n) (sized : c.AllSized) :
    ∀ u ∈ usagesOf (c.owed n), Usage.Valid u ∧ u.2.val ≤ indexSaturation := by
  intro u mem
  rw [usagesOf_owed inscribed] at mem
  rcases List.mem_append.mp mem with indexed | stale
  · obtain ⟨e, listed, rfl⟩ := List.mem_map.mp indexed
    exact inscribed e (List.mem_filter.mp listed).1
  · exact staleUsages_valid sized u stale

/-- The loop goes on while some instant carries more than the ceiling. -/
theorem lt_stoppingPeak (inscribed : c.Inscribed n) (sized : c.AllSized)
    (few : (c.index.entriesOn n).length ≤ c.config.indexScanLimit) {ceiling : Bandwidth}
    (nonneg : 0 ≤ ceiling.val) (below : ceiling.val ≤ maxBandwidthBps) :
    ceiling < c.stoppingPeak n ↔ ∃ t, ceiling.val < loadAt (usagesOf (c.owed n)) t := by
  have perm := usagesOf_perm (resolutionCandidates_perm inscribed few)
  have valid := usagesOf_owed_valid inscribed sized
  have measured : c.stoppingPeak n =
      (IntervalIndex.ofUsages (usagesOf (c.resolutionCandidates n))).peak horizon := by
    unfold usagesOf
    rw [IntervalIndex.ofUsages_filter]
    unfold stoppingPeak IntervalIndex.ofUsages
    rw [List.foldl_map]
    rfl
  rw [measured, IntervalIndex.lt_peak_ofUsages (fun u hu => (valid u (perm.mem_iff.mp hu)).1)
    (fun u hu => (valid u (perm.mem_iff.mp hu)).2) nonneg below]
  simp only [loadAt_perm perm]

/-! ## One revocation -/

/-- The entries on a resource after a record has ended whose reservation has no other generation
there. -/
theorem Stepped.vacates (h : Stepped c r s d) (wf : c.index.Wf) (ended : s.consumes = false)
    {e : IndexEntry}
    (lone : c.index.Has e → Owns r.id e → e.holderGeneration = r.generation) :
    d.index.Has e ↔ c.index.Has e ∧ ¬ Owns r.id e := by
  have unindexable : c.indexable s = false := by
    unfold indexable
    rw [ended]
    rfl
  have synced := h.index
  unfold Synced at synced
  rw [unindexable] at synced
  split at synced
  · rename_i free
    rw [synced e]
    refine ⟨fun has => ⟨has, fun own => ?_⟩, And.left⟩
    have held : c.indexHolds s = true := by
      refine (indexHolds_iff wf).mpr ⟨e, has, ?_, ?_⟩
      · rw [h.restated.id]
        exact own
      · rw [h.restated.generation]
        exact lone has own
    rw [← free] at held
    cases held
  · rw [synced e, h.restated.id, unindexable]
    simp

/-- The entries of the index that are owed, after a record has ended. -/
theorem Stepped.indexed_owed (h : Stepped c r s d) (wf : c.index.Wf) (wf' : d.index.Wf)
    (ended : s.consumes = false)
    (lone : ∀ e ∈ c.owed n, e.id = r.id → e.holderGeneration = r.generation) :
    ((d.index.entriesOn n).filter fun e => e.kind = .reservation).Perm
      (((c.index.entriesOn n).filter fun e => e.kind = .reservation).filter fun e =>
        e.id ≠ r.id) := by
  refine (List.perm_ext_iff_of_nodup ((CapacityIndex.nodup_entriesOn wf' n).filter _)
    (((CapacityIndex.nodup_entriesOn wf n).filter _).filter _)).mpr fun f => ?_
  simp only [List.mem_filter, CapacityIndex.mem_entriesOn wf, CapacityIndex.mem_entriesOn wf',
    decide_eq_true_eq]
  by_cases here : f.resource = n ∧ f.kind = .reservation
  · obtain ⟨here, kind⟩ := here
    have own : c.index.Has f → Owns r.id f → f.holderGeneration = r.generation := by
      intro has own
      exact lone f (List.mem_append_left _ (List.mem_filter.mpr
        ⟨(CapacityIndex.mem_entriesOn wf).mpr ⟨has, here⟩, decide_eq_true kind⟩)) own.2
    rw [h.vacates wf ended own]
    simp [here, kind, Owns]
  · constructor
    · rintro ⟨⟨-, at'⟩, kind⟩
      exact absurd ⟨at', kind⟩ here
    · rintro ⟨⟨⟨-, at'⟩, kind⟩, -⟩
      exact absurd ⟨at', kind⟩ here

/-- The records that are owed outside the index, after one has ended. -/
theorem Stepped.staleEntries_owed (h : Stepped c r s d) (keyed : ∀ (k : ReservationKey)
      (x : ReservationRecord), c.records[k]? = some x → x.key = k)
    (ended : s.consumes = false) (stored : c.records[r.key]? = some r)
    (lone : ∀ e ∈ c.owed n, e.id = r.id → e.holderGeneration = r.generation) :
    (d.staleEntries n).Perm ((c.staleEntries n).filter fun e => e.id ≠ r.id) := by
  have after : d.records = c.records.insert r.key s := by
    refine Map.ext_get fun k => ?_
    rw [h.records, Map.get_insert]
    congr
  have bound : ∀ x, d.boundStale n x = c.boundStale n x := by
    intro x
    unfold boundStale
    rw [h.ledger]
  unfold staleEntries
  simp only [bound]
  rw [after, List.filter_map, List.filter_filter]
  refine .map _ (Map.filter_values_insert stored (by simp [ended]) (by simp [recordEntry]) ?_)
  intro k x other there
  cases owes : x.consumes && c.boundStale n x with
  | false => rw [Bool.and_false]
  | true =>
    -- another generation of the same reservation would be owed as well
    have apart : x.id ≠ r.id := by
      intro same
      have listed : recordEntry x { resource := n, generation := 0 } ∈ c.staleEntries n :=
        List.mem_map_of_mem (List.mem_filter.mpr ⟨Map.mem_values.mpr ⟨k, there⟩, owes⟩)
      refine other ((keyed k x there).symm.trans (ReservationKey.ext same ?_))
      exact lone _ (List.mem_append_right _ listed) same
    rw [Bool.and_true]
    exact (decide_eq_true apart).symm

/-- **One revocation** takes the entry of its generation off what is owed, and nothing else. -/
theorem owed_stepped (idle : Idle c) (idle' : Idle d) (h : Stepped c r s d)
    (ended : s.consumes = false) (stored : c.records[r.key]? = some r)
    (single : ((c.owed n).map IndexEntry.id).Nodup) {e : IndexEntry} (mem : e ∈ c.owed n)
    (named : e.holderKey = r.key) :
    (d.owed n).Perm ((c.owed n).filter fun f => f.id ≠ r.id) := by
  have id : e.id = r.id := congrArg ReservationKey.id named
  have lone : ∀ f ∈ c.owed n, f.id = r.id → f.holderGeneration = r.generation := by
    intro f hf same
    rw [List.inj_on_of_nodup_map single hf mem (same.trans id.symm)]
    exact congrArg ReservationKey.generation named
  unfold owed
  rw [List.filter_append]
  exact (h.indexed_owed idle.consistent.index idle'.consistent.index ended lone).append
    (h.staleEntries_owed idle.consistent.keyed ended stored lone)

/-- A record that ends brings nothing into the index. -/
theorem Stepped.fewer (h : Stepped c r s d) (ended : s.consumes = false) {e : IndexEntry}
    (has : d.index.Has e) : c.index.Has e := by
  have unindexable : c.indexable s = false := by
    unfold indexable
    rw [ended]
    rfl
  have synced := h.index
  unfold Synced at synced
  rw [unindexable] at synced
  split at synced
  · exact (synced e).mp has
  · rcases (synced e).mp has with ⟨no, -⟩ | ⟨there, -⟩
    · rw [unindexable] at no
      cases no
    · exact there

theorem Stepped.sized (h : Stepped c r s d) (stored : c.records[r.key]? = some r)
    (sized : c.AllSized) : d.AllSized := by
  intro k x there
  rw [h.records] at there
  split at there
  · obtain rfl := Option.some.inj there
    have own := sized _ r stored
    exact ⟨h.restated.terms ▸ own.window, h.restated.terms ▸ own.amount⟩
  · exact sized k x there

theorem Stepped.entriesOn_subset (h : Stepped c r s d) (wf : c.index.Wf) (wf' : d.index.Wf)
    (ended : s.consumes = false) : d.index.entriesOn n ⊆ c.index.entriesOn n := by
  intro e mem
  obtain ⟨has, here⟩ := (CapacityIndex.mem_entriesOn wf').mp mem
  exact (CapacityIndex.mem_entriesOn wf).mpr ⟨h.fewer ended has, here⟩

/-! ## The loop -/

/-- `d` is `c` after the entries `gone` have been revoked, and `rest` is what is owed. -/
structure Resolved (n : ResourceName) (c : Coordinator) (gone rest : List IndexEntry)
    (d : Coordinator) : Prop where
  owed : (d.owed n).Perm rest
  inscribed : d.Inscribed n
  ledger : d.ledger = c.ledger
  revoked : ∀ e ∈ gone, ∃ r s, c.records[e.holderKey]? = some r ∧ r.consumes = true ∧
    d.records[e.holderKey]? = some s ∧ s.state = .revoked
  kept : ∀ key, key ∉ gone.map IndexEntry.holderKey → d.records[key]? = c.records[key]?

/-- Nothing has been revoked yet. -/
theorem Resolved.start {xs : List IndexEntry} (owed : (c.owed n).Perm xs)
    (inscribed : c.Inscribed n) : Resolved n c [] xs c :=
  ⟨owed, inscribed, rfl, fun _ no => absurd no List.not_mem_nil, fun _ _ => rfl⟩

/-- The weakest entry is revoked first. -/
theorem Resolved.cons {b : Coordinator} {x : IndexEntry} {gone rest : List IndexEntry}
    (h : Resolved n b gone rest d) (step : Stepped c r s b) (stored : c.records[r.key]? = some r)
    (named : x.holderKey = r.key) (consumes : r.consumes = true) (ended : s.state = .revoked)
    (fresh : x.holderKey ∉ gone.map IndexEntry.holderKey) :
    Resolved n c (x :: gone) rest d where
  owed := h.owed
  inscribed := h.inscribed
  ledger := h.ledger.trans step.ledger
  revoked e mem := by
    rcases List.mem_cons.mp mem with rfl | later
    · refine ⟨r, s, named ▸ stored, consumes, ?_, ended⟩
      rw [h.kept _ fresh, step.records, if_pos named]
    · obtain ⟨r', s', there, own, left, state⟩ := h.revoked e later
      rw [step.records, if_neg] at there
      · exact ⟨r', s', there, own, left, state⟩
      · intro same
        exact fresh (named.trans same.symm ▸ List.mem_map_of_mem later)
  kept key out := by
    rw [List.map_cons, List.mem_cons, not_or] at out
    rw [h.kept key out.2, step.records, if_neg fun same => out.1 (same.trans named.symm)]

/-- The candidates, sorted, are what is owed in any order that agrees with that of the victims. -/
theorem sorted_candidates {xs : List IndexEntry} (inscribed : c.Inscribed n)
    (few : (c.index.entriesOn n).length ≤ c.config.indexScanLimit) (perm : (c.owed n).Perm xs)
    (sorted : xs.Pairwise fun a b => victimOrder a b = true)
    (single : (xs.map IndexEntry.id).Nodup) :
    ((c.resolutionCandidates n).insertionSort fun a b => victimOrder a b) = xs := by
  have same := (List.perm_insertionSort (fun a b => (victimOrder a b : Prop)) _).trans
    ((resolutionCandidates_perm inscribed few).trans perm)
  refine same.eq_of_pairwise (fun a b ha hb le ge => ?_)
    (List.pairwise_insertionSort (fun a b => (victimOrder a b : Prop)) _) sorted
  exact List.inj_on_of_nodup_map single (same.mem_iff.mp ha) hb
    (congrArg ReservationKey.id (victimOrder_antisymm le ge))

/-- **The loop** revokes the weakest entries, one by one, until what is left is within the ceiling or
its turns are used up. -/
theorem resolved_of_run {ceiling : Bandwidth} (nonneg : 0 ≤ ceiling.val)
    (below : ceiling.val ≤ maxBandwidthBps) (context : RequestContext) :
    ∀ (fuel : Nat) {c : Coordinator} {xs : List IndexEntry}, Idle c → c.AllSized → c.Inscribed n →
      (c.index.entriesOn n).length ≤ c.config.indexScanLimit → (c.owed n).Perm xs →
      xs.Pairwise (fun a b => victimOrder a b = true) → (xs.map IndexEntry.id).Nodup →
      (revokeUntilClosed now context n ceiling fuel).exec c = (.ok (), d) →
      ∃ k ≤ fuel, Resolved n c (xs.take k) (xs.drop k) d ∧
        (k = fuel ∨ ∀ t, loadAt (usagesOf (xs.drop k)) t ≤ ceiling.val)
  | 0, c, xs, _, _, inscribed, _, owed, _, _, done => by
    obtain rfl : c = d := congrArg Prod.snd done
    exact ⟨0, le_rfl, .start owed inscribed, .inl rfl⟩
  | fuel + 1, c, xs, idle, sized, inscribed, few, owed, sorted, single, done => by
    have measured := lt_stoppingPeak inscribed sized few nonneg below
    simp only [loadAt_perm (usagesOf_perm owed)] at measured
    have candidates := (resolutionCandidates_perm inscribed few).trans owed
    unfold revokeUntilClosed at done
    rw [Op.exec_get_bind] at done
    dsimp only at done
    change (if (!(c.resolutionCandidates n).isEmpty && decide (ceiling < c.stoppingPeak n)) = true
      then _ else _ : Method Unit).exec c = _ at done
    by_cases more : (!(c.resolutionCandidates n).isEmpty &&
        decide (ceiling < c.stoppingPeak n)) = true
    · rw [if_pos more, sorted_candidates inscribed few owed sorted single] at done
      cases xs with
      | nil =>
        rw [candidates.eq_nil] at more
        cases more
      | cons x rest =>
        obtain ⟨r, stored, named, consumes⟩ := mem_owed idle (owed.mem_iff.mpr List.mem_cons_self)
        have found : c.findRecord x.id x.holderGeneration = some r := stored
        rw [List.headD_cons, found] at done
        dsimp only at done
        obtain ⟨_, b, revoked, later⟩ := Op.exec_bind_ok done
        obtain ⟨⟨s, attempt⟩, transited⟩ := Op.exec_discard_ok revoked
        rw [← named] at stored
        obtain ⟨state, step, idle'⟩ := stepped_transition idle stored (live_of_consumes consumes)
          (by decide) transited
        have ended : s.consumes = false := terminal_not_consumes (by rw [state]; rfl)
        have wf := idle.consistent.index
        have wf' := idle'.consistent.index
        have fewer := step.entriesOn_subset (n := n) wf wf' ended
        have distinct := List.nodup_cons.mp single
        have id : x.id = r.id := congrArg ReservationKey.id named.symm
        -- nothing else of the reservation is owed
        have left : (b.owed n).Perm rest := by
          have once := owed_stepped idle idle' step ended stored
            ((owed.map IndexEntry.id).nodup_iff.mpr single)
            (owed.mem_iff.mpr List.mem_cons_self) named.symm
          refine once.trans ((owed.filter _).trans ?_)
          rw [List.filter_cons_of_neg (by simp [id]), List.filter_eq_self.mpr]
          intro f mem
          refine decide_eq_true fun same => distinct.1 ?_
          rw [id, ← same]
          exact List.mem_map_of_mem mem
        have limit : (b.index.entriesOn n).length ≤ b.config.indexScanLimit := by
          rw [step.config]
          exact (List.subperm_of_subset (CapacityIndex.nodup_entriesOn wf' n) fewer).length_le.trans
            few
        obtain ⟨k, le, resolved, stops⟩ := resolved_of_run nonneg below context fuel idle'
          (step.sized stored sized) (fun e mem => inscribed e (fewer mem)) limit left
          (List.pairwise_cons.mp sorted).2 distinct.2 later
        refine ⟨k + 1, Nat.succ_le_succ le, ?_, stops.imp_left (congrArg Nat.succ)⟩
        refine resolved.cons step stored named.symm consumes state fun again => distinct.1 ?_
        obtain ⟨f, mem, same⟩ := List.mem_map.mp again
        have same : f.id = x.id := congrArg ReservationKey.id same
        exact same ▸ List.mem_map_of_mem (List.mem_of_mem_take mem)
    · rw [if_neg more] at done
      obtain rfl : c = d := congrArg Prod.snd done
      refine ⟨0, Nat.zero_le _, .start owed inscribed, .inr fun t => ?_⟩
      rw [List.drop_zero]
      by_contra above
      refine more (Bool.and_eq_true _ _ ▸ ⟨?_, decide_eq_true
        (measured.mpr ⟨t, not_le.mp above⟩)⟩)
      cases none : c.resolutionCandidates n with
      | cons => rfl
      | nil =>
        rw [none] at candidates
        rw [candidates.symm.eq_nil] at above
        exact absurd nonneg above

/-! ## The call -/

/-- A generation that was not revoked in `c` is in `d`. -/
def Revokes (c d : Coordinator) (key : ReservationKey) : Prop :=
  ∃ r s, c.records[key]? = some r ∧ d.records[key]? = some s ∧ r.state ≠ .revoked ∧
    s.state = .revoked

theorem Resolved.revokes_iff {gone rest : List IndexEntry} (h : Resolved n c gone rest d)
    (key : ReservationKey) : Revokes c d key ↔ key ∈ gone.map IndexEntry.holderKey := by
  constructor
  · rintro ⟨r, s, there, left, before, after⟩
    by_contra out
    rw [h.kept key out, there] at left
    obtain rfl := Option.some.inj left
    exact before after
  · intro mem
    obtain ⟨e, taken, rfl⟩ := List.mem_map.mp mem
    obtain ⟨r, s, there, consumes, left, after⟩ := h.revoked e taken
    refine ⟨r, s, there, left, fun state => ?_, after⟩
    rw [terminal_not_consumes (by rw [state]; rfl)] at consumes
    cases consumes

/-- A record of the emergency leaves what is owed and the records. -/
theorem recordOvercommit_leaves {mutation : OvercommitMutation}
    (done : (recordOvercommit mutation).exec c = (.ok (), d)) :
    d.records = c.records ∧ d.index = c.index ∧ d.ledger = c.ledger := by
  have spec : Op.Ensures (recordOvercommit mutation) c fun r d =>
      r = .ok () → d.records = c.records ∧ d.index = c.index ∧ d.ledger = c.ledger := by
    unfold recordOvercommit
    apply Op.ensures_bind
    apply Op.ensures_discard
    refine (ensures_appendRecord _ c).mono ?_
    rintro (e | sequence) c₁ left
    · intro no
      cases no
    · obtain ⟨faults, rfl⟩ := left.2.shape
      exact Op.ensures_modify fun _ => ⟨rfl, rfl, rfl⟩
  exact spec.of_run done rfl

theorem obligations_congr (records : d.records = c.records) (index : d.index = c.index)
    (ledger : d.ledger = c.ledger) : d.obligations n = c.obligations n := by
  unfold obligations indexedUsages staleUsages outstanding boundStale
  rw [records, index, ledger]

theorem revoking (m : Method Unit) :
    Op.when (decide (OvercommitResolution.revoke = .revoke)) m = m := rfl

end Coordinator

namespace System.Sample

/-- A reservation under the policy that permits a revalidation, on a window of its own. -/
def looseCreated (attempt : AttemptId) (amount : Bandwidth) (id : ReservationId) (window : Interval) :
    Action :=
  { event := .request (.create 3 (context 1 attempt)
      { terms amount with policy := FixedName.lit "loose", interval := window } id false []) }

/-- The link is stated anew, with less capacity. -/
def lessened (capacity : Bandwidth) : Action :=
  { event := .request (.ingestCapacity 4
      { id := 12
        generation := 2
        resources := [{ resource with generation := 2, reservableCapacity := capacity }] } []
      (context 1 0)) }

/-- One of two reservations of a link that shrinks is to go. -/
def crowded : List Action :=
  [opened 0, ingested, created 1 3 20 20 30, created 1 3 21 45 31, lessened 60]

/-- The coordinator scans one entry of a resource. One of four reservations holds that place, and
the one that follows it is not seen. -/
def crowdedAside : List Action :=
  [{ event := .start { indexScanLimit := 1 } 1 1 }, loose, ingested, created 1 3 20 20 30,
    created 1 3 21 45 31, looseCreated 22 30 32 ⟨100, 200⟩, looseCreated 23 1 33 ⟨50, 60⟩,
    lessened 60]

end System.Sample

open System.Sample

end Brf
