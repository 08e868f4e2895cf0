import Brf.IndexLaws
import Brf.Records

/-!
# What the bookkeeping does to the index

The index operations of `Records`, as equations on the set of entries.

* `ReservationRecord.Sound` is what makes the entries of a record acceptable to the index: a positive
  amount, and bound resources that are named and named once.
* `Synced`, `Updated` and `Erased` are the three ways in which the index follows a record; none of
  the operations fails on a consistent index.
* `Restored` is the end of an evaluation: what was suspended is back.

Results: `ensures_syncIndex`, `ensures_updateIndex`, `ensures_indexErase`, `ensures_suspend`,
`ensures_suspendHold` and `ensures_restore`.
-/

namespace Brf

open Brf.Lib

namespace ReservationRecord

/-- The entries of a record can be indexed. -/
structure Sound (r : ReservationRecord) : Prop where
  amount : 0 < r.terms.amount.val
  named : ∀ ref ∈ r.authority.resources, ref.resource.empty = false
  distinct : r.authority.resources.Pairwise fun a b => a.resource ≠ b.resource

/-- The entries of a record on its bound resources. -/
def entries (r : ReservationRecord) : List IndexEntry :=
  r.authority.resources.map (Coordinator.recordEntry r)

/-- An entry belongs to some generation of a reservation. -/
def Owns (id : ReservationId) (e : IndexEntry) : Prop := e.kind = .reservation ∧ e.id = id

instance (id : ReservationId) (e : IndexEntry) : Decidable (Owns id e) :=
  inferInstanceAs (Decidable (_ ∧ _))

theorem mem_entries {r : ReservationRecord} {e : IndexEntry} :
    e ∈ r.entries ↔ ∃ ref ∈ r.authority.resources, Coordinator.recordEntry r ref = e :=
  List.mem_map

theorem owns_of_mem_entries {r : ReservationRecord} {e : IndexEntry} (h : e ∈ r.entries) :
    Owns r.id e := by
  obtain ⟨ref, -, rfl⟩ := mem_entries.mp h
  exact ⟨rfl, rfl⟩

theorem Sound.entries_valid {r : ReservationRecord} (h : r.Sound)
    (nonempty : r.consumingInterval.empty = false) : ∀ e ∈ r.entries, e.Valid := by
  intro e he
  obtain ⟨ref, hmem, rfl⟩ := mem_entries.mp he
  exact ⟨nonempty, h.amount, h.named ref hmem⟩

theorem Sound.entries_single {r : ReservationRecord} (h : r.Sound) :
    r.entries.Pairwise fun a b => a.identity ≠ b.identity :=
  List.pairwise_map.mpr <| h.distinct.imp fun {_ _} ne same =>
    ne (congrArg EntryIdentity.resource same)

end ReservationRecord

open ReservationRecord (Owns)

namespace Coordinator

/-- A call on the index changes nothing but the index. -/
theorem ensures_onIndex {α : Type} {m : CapacityIndex.Method α} {c : Coordinator}
    {Q : Except Error α → CapacityIndex → Prop} (h : Op.Ensures m c.index Q) :
    Op.Ensures (onIndex m) c (fun r c' => ∃ y, c' = c.withIndex y ∧ Q r y) :=
  Op.ensures_zoom ⟨_, rfl, h⟩

/-! ## One record -/

/-- The index holds an entry of this generation of the record. -/
theorem indexHolds_iff {c : Coordinator} (h : c.index.Wf) {r : ReservationRecord} :
    c.indexHolds r = true ↔ ∃ e, c.index.Has e ∧ Owns r.id e ∧ e.holderGeneration = r.generation := by
  unfold indexHolds
  rw [List.any_eq_true]
  simp only [decide_eq_true_eq]
  constructor
  · rintro ⟨e, he, generation⟩
    obtain ⟨has, owns⟩ := h.mem_findAll.mp he
    exact ⟨e, has, owns, generation⟩
  · rintro ⟨e, has, owns, generation⟩
    exact ⟨e, h.mem_findAll.mpr ⟨has, owns⟩, generation⟩

/-- `y` is the index after every entry of the reservation has left. -/
def Erased (c : Coordinator) (r : ReservationRecord) (y : CapacityIndex) : Prop :=
  ∀ e, y.Has e ↔ c.index.Has e ∧ ¬ Owns r.id e

/-- `y` is the index after the entries of a record have taken the place of those of its reservation,
if it is indexable. -/
def Replaced (c : Coordinator) (r : ReservationRecord) (y : CapacityIndex) : Prop :=
  ∀ e, y.Has e ↔ (c.indexable r = true ∧ e ∈ r.entries) ∨ c.index.Has e ∧ ¬ Owns r.id e

/-- `y` is the index after `sync_index_locked`: it changes only if it disagrees with the record. -/
def Synced (c : Coordinator) (r : ReservationRecord) (y : CapacityIndex) : Prop :=
  if c.indexable r = c.indexHolds r then ∀ e, y.Has e ↔ c.index.Has e else Replaced c r y

/-- `y` is the index after `update_index_locked`: the entries of the record are made anew. -/
def Updated (c : Coordinator) (r : ReservationRecord) (y : CapacityIndex) : Prop :=
  if c.indexable r || c.indexHolds r then Replaced c r y else ∀ e, y.Has e ↔ c.index.Has e

theorem ensures_indexInsert {c : Coordinator} (h : c.index.Wf) {r : ReservationRecord}
    (sound : r.Sound) (nonempty : r.consumingInterval.empty = false) :
    Op.Ensures (indexInsert r) c (fun res c' => res = .ok () ∧ ∃ y, c' = c.withIndex y ∧
      y.Wf ∧ ∀ e, y.Has e ↔ e ∈ r.entries ∨ c.index.Has e ∧ ¬ Owns r.id e) := by
  unfold indexInsert
  rw [if_neg (by simp [nonempty])]
  refine (ensures_onIndex (CapacityIndex.ensures_replaceAll h (sound.entries_valid nonempty)
    sound.entries_single fun e he => ReservationRecord.owns_of_mem_entries he)).mono ?_
  rintro res c' ⟨y, rfl, rfl, wf, has⟩
  exact ⟨rfl, y, rfl, wf, has⟩

theorem ensures_indexErase {c : Coordinator} (h : c.index.Wf) (r : ReservationRecord) :
    Op.Ensures (indexErase r) c (fun res c' => res = .ok () ∧ ∃ y, c' = c.withIndex y ∧
      y.Wf ∧ Erased c r y) := by
  unfold indexErase
  apply Op.ensures_get_bind
  refine Op.ensures_ite (fun held => ?_) fun free => ?_
  · obtain ⟨e, he, owned⟩ := h.contains_iff.mp held
    refine (ensures_onIndex (CapacityIndex.ensures_eraseAll h .reservation r.id)).mono ?_
    rintro (err | ⟨⟩) c' ⟨y, rfl, wf, has, result⟩
    · exact absurd owned (result.2.2 e he)
    · exact ⟨rfl, y, rfl, wf, has⟩
  · refine ⟨rfl, c.index, rfl, h, fun e => ⟨fun he => ⟨he, fun owned => free ?_⟩, And.left⟩⟩
    exact h.contains_iff.mpr ⟨e, he, owned⟩

theorem indexable_nonempty {c : Coordinator} {r : ReservationRecord} (h : c.indexable r = true) :
    r.consumingInterval.empty = false := by
  simp only [indexable, Bool.and_eq_true, Bool.not_eq_true'] at h
  exact h.1.2

theorem indexable_consumes {c : Coordinator} {r : ReservationRecord} (h : c.indexable r = true) :
    r.consumes = true := by
  simp only [indexable, Bool.and_eq_true] at h
  exact h.1.1.1

/-- `sync_index_locked` does not fail on a consistent index. -/
theorem ensures_syncIndex {c : Coordinator} (h : c.index.Wf) {r : ReservationRecord}
    (sound : r.Sound) :
    Op.Ensures (syncIndex r) c (fun res c' => res = .ok () ∧ ∃ y, c' = c.withIndex y ∧
      y.Wf ∧ Synced c r y) := by
  unfold syncIndex
  apply Op.ensures_get_bind
  cases indexable : c.indexable r <;> cases held : c.indexHolds r
  · exact ⟨rfl, c.index, rfl, h, by simp [Synced, indexable, held]⟩
  · refine (ensures_indexErase h r).mono ?_
    rintro res c' ⟨rfl, y, rfl, wf, has⟩
    refine ⟨rfl, y, rfl, wf, ?_⟩
    simpa [Synced, Replaced, Erased, indexable, held] using has
  · refine (ensures_indexInsert h sound (indexable_nonempty indexable)).mono ?_
    rintro res c' ⟨rfl, y, rfl, wf, has⟩
    refine ⟨rfl, y, rfl, wf, ?_⟩
    simpa [Synced, Replaced, indexable, held] using has
  · exact ⟨rfl, c.index, rfl, h, by simp [Synced, indexable, held]⟩

/-- `update_index_locked` does not fail on a consistent index. -/
theorem ensures_updateIndex {c : Coordinator} (h : c.index.Wf) {r : ReservationRecord}
    (sound : r.Sound) :
    Op.Ensures (updateIndex r) c (fun res c' => res = .ok () ∧ ∃ y, c' = c.withIndex y ∧
      y.Wf ∧ Updated c r y) := by
  unfold updateIndex
  apply Op.ensures_get_bind
  apply Op.ensures_bind
  refine Op.ensures_when (fun held => ?_) fun free => ?_
  · -- the erased entries make room, so that a record that is indexable is inserted afresh
    refine (ensures_indexErase h r).mono ?_
    rintro res c' ⟨rfl, y, rfl, wf, erased⟩
    refine (ensures_syncIndex (c := c.withIndex y) wf sound).mono ?_
    rintro res c' ⟨rfl, z, rfl, wf', synced⟩
    have none : (c.withIndex y).indexHolds r = false := by
      by_contra some
      obtain ⟨e, he, owned, -⟩ := (indexHolds_iff wf).mp (by simpa using some)
      exact ((erased e).mp he).2 owned
    refine ⟨rfl, z, rfl, wf', ?_⟩
    simp only [Updated, held, Bool.or_true, if_true]
    intro e
    have same : (c.withIndex y).indexable r = c.indexable r := rfl
    simp only [Synced, none, same, Replaced] at synced
    cases indexable : c.indexable r with
    | false =>
      simp only [indexable, if_true, withIndex_index] at synced
      rw [synced, erased]
      simp
    | true =>
      simp only [indexable, Bool.true_eq_false, if_false, true_and, withIndex_index] at synced
      rw [synced, erased]
      simp only [true_and]
      tauto
  · refine (ensures_syncIndex h sound).mono ?_
    rintro res c' ⟨rfl, y, rfl, wf, synced⟩
    refine ⟨rfl, y, rfl, wf, ?_⟩
    cases indexable : c.indexable r with
    | false =>
      simp only [Synced, free, indexable, if_true] at synced
      simpa [Updated, free, indexable] using synced
    | true =>
      simp only [Synced, free, indexable, Bool.true_eq_false, if_false] at synced
      simpa [Updated, free, indexable] using synced

/-! ## Suspension -/

/-- The entries `held` have been moved from the index to the suspended ones. -/
structure Suspended (c : Coordinator) (held : List IndexEntry) (c' : Coordinator)
    (y : CapacityIndex) : Prop where
  state : c' = { c with index := y, suspended := c.suspended ++ held }
  wf : y.Wf
  has : ∀ e, y.Has e ↔ c.index.Has e ∧ e ∉ held

theorem ensures_suspendAll : ∀ {held : List IndexEntry} {c : Coordinator}, c.index.Wf →
    (∀ e ∈ held, c.index.Has e) → held.Pairwise (fun a b => a.identity ≠ b.identity) →
    Op.Ensures (Op.each (fun e => do
      modify fun c => { c with suspended := c.suspended ++ [e] }
      onIndex (CapacityIndex.erase e.kind e.id e.holderGeneration e.resource)) held) c
      (fun res c' => res = .ok () ∧ ∃ y, Suspended c held c' y)
  | [], c, h, _, _ => Op.ensures_pure ⟨rfl, c.index, by simp, h, by simp⟩
  | e :: rest, c, h, has, apart => by
    obtain ⟨head, tail⟩ := List.pairwise_cons.mp apart
    apply Op.ensures_bind
    apply Op.ensures_modify_bind
    refine (ensures_onIndex (c := { c with suspended := c.suspended ++ [e] })
      (CapacityIndex.ensures_erase h (has e List.mem_cons_self))).mono ?_
    rintro res c' ⟨y, rfl, rfl, wf, erased⟩
    refine (@ensures_suspendAll rest ({ c with suspended := c.suspended ++ [e] }.withIndex y)
      wf ?_ tail).mono ?_
    · intro f hf
      refine (erased f).mpr ⟨has f (List.mem_cons_of_mem _ hf), ?_⟩
      rintro rfl
      exact head f hf rfl
    · rintro res c' ⟨rfl, z, state, wf', has'⟩
      refine ⟨rfl, z, ?_, wf', fun f => ?_⟩
      · rw [state]
        simp [withIndex]
      · rw [has', withIndex_index, erased, List.mem_cons, not_or, and_assoc]

/-- `Suspension::suspend` takes the entries of one generation out of the index. -/
theorem ensures_suspend {c : Coordinator} (h : c.index.Wf) (r : ReservationRecord) :
    Op.Ensures (suspend r) c (fun res c' => res = .ok () ∧ ∃ held y, Suspended c held c' y ∧
      held.Pairwise (fun a b => a.identity ≠ b.identity) ∧
      ∀ e, e ∈ held ↔ c.index.Has e ∧ Owns r.id e ∧ e.holderGeneration = r.generation) := by
  have mem : ∀ e, e ∈ ((c.index.findAll .reservation r.id).filter fun e =>
      e.holderGeneration = r.generation) ↔
      c.index.Has e ∧ Owns r.id e ∧ e.holderGeneration = r.generation := by
    intro e
    rw [List.mem_filter, h.mem_findAll, decide_eq_true_eq]
    exact and_assoc
  have single := (h.findAll_single .reservation r.id).filter
    fun e => e.holderGeneration = r.generation
  unfold suspend
  apply Op.ensures_get_bind
  have loop := ensures_suspendAll h (fun e he => ((mem e).mp he).1) single
  have same : Op.each (fun e : IndexEntry => (do
        modify fun c : Coordinator => { c with suspended := c.suspended ++ [e] }
        onIndex (CapacityIndex.erase .reservation e.id e.holderGeneration e.resource) :
          Method Unit)) ((c.index.findAll .reservation r.id).filter fun e =>
            e.holderGeneration = r.generation) =
      Op.each (fun e : IndexEntry => (do
        modify fun c : Coordinator => { c with suspended := c.suspended ++ [e] }
        onIndex (CapacityIndex.erase e.kind e.id e.holderGeneration e.resource) :
          Method Unit)) ((c.index.findAll .reservation r.id).filter fun e =>
            e.holderGeneration = r.generation) :=
    Op.each_congr fun e he => by rw [((mem e).mp he).2.1.1]
  simp only [same]
  refine loop.mono ?_
  rintro res c' ⟨rfl, y, suspended⟩
  exact ⟨rfl, _, y, suspended, single, mem⟩

/-- `Suspension::suspend_hold` takes the entries of one hold out of the index. -/
theorem ensures_suspendHold {c : Coordinator} (h : c.index.Wf) (id : HoldId) :
    Op.Ensures (suspendHold id) c (fun res c' => res = .ok () ∧ ∃ held y, Suspended c held c' y ∧
      held.Pairwise (fun a b => a.identity ≠ b.identity) ∧
      ∀ e, e ∈ held ↔ c.index.Has e ∧ e.kind = .hold ∧ e.id = id) := by
  have mem : ∀ e, e ∈ c.index.findAll .hold id ↔ c.index.Has e ∧ e.kind = .hold ∧ e.id = id :=
    fun e => h.mem_findAll
  have single := h.findAll_single .hold id
  unfold suspendHold
  apply Op.ensures_get_bind
  have loop := ensures_suspendAll h (fun e he => ((mem e).mp he).1) single
  have same : Op.each (fun e : IndexEntry => (do
        modify fun c : Coordinator => { c with suspended := c.suspended ++ [e] }
        onIndex (CapacityIndex.erase .hold e.id e.holderGeneration e.resource) : Method Unit))
          (c.index.findAll .hold id) =
      Op.each (fun e : IndexEntry => (do
        modify fun c : Coordinator => { c with suspended := c.suspended ++ [e] }
        onIndex (CapacityIndex.erase e.kind e.id e.holderGeneration e.resource) : Method Unit))
          (c.index.findAll .hold id) :=
    Op.each_congr fun e he => by rw [((mem e).mp he).2.1]
  simp only [same]
  refine loop.mono ?_
  rintro res c' ⟨rfl, y, suspended⟩
  exact ⟨rfl, _, y, suspended, single, mem⟩

/-- The suspended entries can be put back. -/
structure Restorable (c : Coordinator) : Prop where
  valid : ∀ e ∈ c.suspended, e.Valid
  single : c.suspended.Pairwise fun a b => a.identity ≠ b.identity
  absent : ∀ e ∈ c.suspended, ∀ f, c.index.Has f → f.identity ≠ e.identity

theorem Restorable.suspended {c c' : Coordinator} (h : Restorable c) (wf : c.index.Wf)
    {held : List IndexEntry} {y : CapacityIndex} (moved : Suspended c held c' y)
    (has : ∀ e ∈ held, c.index.Has e) (single : held.Pairwise fun a b => a.identity ≠ b.identity) :
    Restorable c' := by
  obtain ⟨rfl, -, out⟩ := moved
  refine ⟨fun e he => ?_, ?_, fun e he f hf => ?_⟩
  · rcases List.mem_append.mp he with he | he
    · exact h.valid e he
    · exact wf.valid e (has e he)
  · refine List.pairwise_append.mpr ⟨h.single, single, fun a ha b hb => ?_⟩
    exact (h.absent a ha b (has b hb)).symm
  · obtain ⟨hf, kept⟩ := (out f).mp hf
    rcases List.mem_append.mp he with he | he
    · exact h.absent e he f hf
    · intro same
      rw [wf.unique hf (has e he) same] at kept
      exact kept he

theorem ensures_restoreAll : ∀ {entries : List IndexEntry} {c : Coordinator}, c.index.Wf →
    (∀ e ∈ entries, e.Valid) → entries.Pairwise (fun a b => a.identity ≠ b.identity) →
    (∀ e ∈ entries, ∀ f, c.index.Has f → f.identity ≠ e.identity) →
    Op.Ensures (Op.each (fun e => do
      discard <| Op.attempt <| onIndex (CapacityIndex.insert e)) entries) c (fun res c' =>
        res = .ok () ∧ ∃ y, c' = c.withIndex y ∧ y.Wf ∧
          ∀ f, y.Has f ↔ c.index.Has f ∨ f ∈ entries)
  | [], c, h, _, _, _ => Op.ensures_pure ⟨rfl, c.index, rfl, h, by simp⟩
  | e :: rest, c, h, valid, apart, fresh => by
    obtain ⟨head, tail⟩ := List.pairwise_cons.mp apart
    apply Op.ensures_bind
    apply Op.ensures_discard
    apply Op.ensures_attempt
    refine (ensures_onIndex (CapacityIndex.ensures_insert h e)).mono ?_
    rintro (err | ⟨⟩) c' ⟨y, rfl, wf, result⟩
    · obtain ⟨f, hf, same⟩ := result.2 (valid e List.mem_cons_self)
      exact absurd same (fresh e List.mem_cons_self f hf)
    · refine (ensures_restoreAll (c := c.withIndex y) wf
        (fun f hf => valid f (List.mem_cons_of_mem _ hf)) tail ?_).mono ?_
      · intro g hg f hf
        rcases (result.2.2 f).mp hf with rfl | hf
        · exact head g hg
        · exact fresh g (List.mem_cons_of_mem _ hg) f hf
      · rintro res c' ⟨rfl, z, rfl, wf', has⟩
        refine ⟨rfl, z, rfl, wf', fun f => ?_⟩
        rw [has, withIndex_index, result.2.2, List.mem_cons]
        tauto

/-- `Suspension::restore` puts back what can be put back: all of it. -/
theorem ensures_restore {c : Coordinator} (h : c.index.Wf) (able : Restorable c) :
    Op.Ensures restore c (fun res c' => res = .ok () ∧
      ∃ y, c' = { c with index := y, suspended := [] } ∧ y.Wf ∧
        ∀ f, y.Has f ↔ c.index.Has f ∨ f ∈ c.suspended) := by
  unfold restore
  apply Op.ensures_get_bind
  apply Op.ensures_modify_bind
  exact ensures_restoreAll (c := { c with suspended := [] }) h able.valid able.single able.absent

end Coordinator

end Brf
