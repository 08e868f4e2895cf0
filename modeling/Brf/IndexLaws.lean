import Brf.Index
import Brf.Lib.Op
import Mathlib.Data.List.Pairwise

/-!
# What the capacity index holds

The index as a set of entries: `x.Has e` says that `e` is filed under its resource, and every
operation is specified by what it does to that set.

* `ResourceState.Filed` and `Wf` are the consistency of the index: entries are filed under their own
  resource, once for each key, and the bookkeeping keys are those of the entries.
* An entry that meets `IndexEntry.Valid` passes the checks of `insert`.

Results: `ensures_insert`, `ensures_erase`, `ensures_eraseAll` and `ensures_replaceAll` (they keep
`Wf`, fail only as stated, and change the set of entries as stated); `mem_findAll`, `contains_iff`
and `mem_overlapping` for the queries.
-/

namespace Brf

open Brf.Lib

/-- Erasing the first match of a predicate that at most one element meets. -/
theorem eraseP_eq_filter {α : Type} {p : α → Bool} : ∀ {xs : List α},
    xs.Pairwise (fun a b => ¬ (p a = true ∧ p b = true)) →
      xs.eraseP p = xs.filter fun a => !p a
  | [], _ => rfl
  | x :: xs, h => by
    obtain ⟨head, tail⟩ := List.pairwise_cons.mp h
    cases hx : p x with
    | true =>
      rw [List.eraseP_cons_of_pos hx, List.filter_cons_of_neg (by simp [hx])]
      refine (List.filter_eq_self.mpr fun a ha => ?_).symm
      have := head a ha
      simp_all
    | false =>
      rw [List.eraseP_cons_of_neg (by simp [hx]), List.filter_cons_of_pos (by simp [hx]),
        eraseP_eq_filter tail]

/-- An entry that `CapacityIndex::insert` accepts. -/
structure IndexEntry.Valid (e : IndexEntry) : Prop where
  nonempty : e.interval.empty = false
  positive : 0 < e.amount.val
  named : e.resource.empty = false

/-! ## One resource -/

namespace ResourceState

/-- The entries of a resource are filed under its name, once for each key, and counted. -/
structure Filed (n : ResourceName) (s : ResourceState) : Prop where
  here : ∀ e ∈ s.byStart, e.resource = n
  single : s.byStart.Pairwise fun a b => a.identity ≠ b.identity
  counted : s.entryCount = s.byStart.length

theorem filed_empty (n : ResourceName) : Filed n {} :=
  ⟨fun _ h => absurd h List.not_mem_nil, List.Pairwise.nil, rfl⟩

@[simp] theorem addTrees_byStart (s : ResourceState) (e : IndexEntry) :
    (s.addTrees e).byStart = s.byStart ∧ (s.addTrees e).entryCount = s.entryCount := by
  unfold addTrees
  split <;> exact ⟨rfl, rfl⟩

@[simp] theorem removeTrees_byStart (s : ResourceState) (e : IndexEntry) :
    (s.removeTrees e).byStart = s.byStart ∧ (s.removeTrees e).entryCount = s.entryCount := by
  unfold removeTrees
  split <;> exact ⟨rfl, rfl⟩

theorem emplace_perm (e : IndexEntry) : ∀ xs : List IndexEntry, (emplace e xs).Perm (e :: xs)
  | [] => List.Perm.refl _
  | x :: xs => by
    unfold emplace
    split
    · exact List.Perm.refl _
    · exact ((emplace_perm e xs).cons x).trans (List.Perm.swap e x xs)

theorem insert_perm (s : ResourceState) (e : IndexEntry) :
    (s.insert e).byStart.Perm (e :: s.byStart) := by
  have h := emplace_perm e s.byStart
  rw [← (addTrees_byStart s e).1] at h
  exact h.trans (by rw [(addTrees_byStart s e).1])

theorem Filed.insert {n : ResourceName} {s : ResourceState} (h : s.Filed n) {e : IndexEntry}
    (here : e.resource = n) (fresh : ∀ f ∈ s.byStart, f.identity ≠ e.identity) :
    (s.insert e).Filed n := by
  have perm := insert_perm s e
  refine ⟨fun f hf => ?_, ?_, ?_⟩
  · rcases List.mem_cons.mp (perm.mem_iff.mp hf) with rfl | hf
    · exact here
    · exact h.here f hf
  · refine (perm.pairwise_iff fun {a b} hab => Ne.symm hab).mpr ?_
    exact List.pairwise_cons.mpr ⟨fun f hf => (fresh f hf).symm, h.single⟩
  · change (s.addTrees e).entryCount + 1 = _
    rw [(addTrees_byStart s e).2, h.counted, perm.length_eq, List.length_cons]

/-- Two entries of one resource and one holder are the same entry. -/
theorem Filed.unique {n : ResourceName} {s : ResourceState} (h : s.Filed n) {a b : IndexEntry}
    (ha : a ∈ s.byStart) (hb : b ∈ s.byStart) (kind : a.kind = b.kind) (id : a.id = b.id) :
    a = b := by
  by_contra ne
  have : Std.Symm fun a b : IndexEntry => a.identity ≠ b.identity := ⟨fun _ _ => Ne.symm⟩
  exact h.single.forall ha hb ne
    (EntryIdentity.ext kind id ((h.here a ha).trans (h.here b hb).symm))

/-- The state without the entries that `p` picks. -/
theorem Filed.filter {n : ResourceName} {s t : ResourceState} (h : s.Filed n)
    (p : IndexEntry → Bool) (entries : t.byStart = s.byStart.filter p)
    (count : t.entryCount = (s.byStart.filter p).length) : t.Filed n := by
  refine ⟨fun f hf => ?_, ?_, ?_⟩
  · rw [entries] at hf
    exact h.here f (List.mem_filter.mp hf).1
  · rw [entries]
    exact h.single.filter p
  · rw [count, entries]

/-- Removing the only entry that `p` picks. -/
theorem Filed.removeFirst {n : ResourceName} {s : ResourceState} (h : s.Filed n)
    {p : IndexEntry → Bool} {e : IndexEntry} (he : e ∈ s.byStart) (hp : p e = true)
    (only : ∀ f ∈ s.byStart, p f = true → f = e) :
    ∃ t, s.removeFirst p = some t ∧ t.Filed n ∧ ∀ f, f ∈ t.byStart ↔ f ∈ s.byStart ∧ f ≠ e := by
  have found : s.byStart.find? p = some e := by
    cases hfind : s.byStart.find? p with
    | none => exact absurd hp (List.find?_eq_none.mp hfind e he)
    | some f => rw [only f (List.mem_of_find?_eq_some hfind) (List.find?_some hfind)]
  have apart : s.byStart.Pairwise fun a b => ¬ (p a = true ∧ p b = true) := by
    refine (List.Pairwise.and_mem.mp h.single).imp fun {a b} hab both => ?_
    exact hab.2.2 (by rw [only a hab.1 both.1, only b hab.2.1 both.2])
  have entries : (s.byStart.eraseP p) = s.byStart.filter fun a => !p a := eraseP_eq_filter apart
  have count : s.entryCount - 1 = (s.byStart.filter fun a => !p a).length := by
    rw [← entries, List.length_eraseP_of_mem he hp, h.counted]
  unfold ResourceState.removeFirst
  rw [found]
  refine ⟨_, rfl, h.filter (fun a => !p a) ?_ ?_, fun f => ?_⟩
  · simp only [(removeTrees_byStart s e).1, entries]
  · simp only [(removeTrees_byStart s e).2, count]
  · simp only [(removeTrees_byStart s e).1, entries, List.mem_filter]
    refine and_congr_right fun hf => ?_
    constructor
    · rintro hpf rfl
      simp [hp] at hpf
    · intro ne
      by_contra hpf
      exact ne (only f hf (by simpa using hpf))

/-- Removing every entry that `p` picks, when there is none. -/
theorem removeEvery_none {s : ResourceState} {p : IndexEntry → Bool}
    (none : ∀ e ∈ s.byStart, p e = false) : s.removeEvery p = s := by
  have empty : s.byStart.filter p = [] := List.filter_eq_nil_iff.mpr fun e he => by simp [none e he]
  have all : (s.byStart.filter fun e => !p e) = s.byStart :=
    List.filter_eq_self.mpr fun e he => by simp [none e he]
  unfold removeEvery
  rw [empty, all]
  rfl

end ResourceState

/-! ## The resources -/

/-- An entry is filed under its resource. -/
def HasIn (m : Map ResourceName ResourceState) (e : IndexEntry) : Prop :=
  ∃ s, m[e.resource]? = some s ∧ e ∈ s.byStart

/-- Every resource is filed under its name. -/
def FiledIn (m : Map ResourceName ResourceState) : Prop :=
  ∀ (n : ResourceName) (s : ResourceState), m[n]? = some s → s.Filed n

theorem FiledIn.insert {m : Map ResourceName ResourceState} (h : FiledIn m) {n : ResourceName}
    {t : ResourceState} (ht : t.Filed n) : FiledIn (m.insert n t) := by
  intro k s hk
  rw [Map.get_insert] at hk
  split at hk
  · obtain rfl := Option.some.inj hk
    subst k
    exact ht
  · exact h k s hk

/-- Two entries of one key are the same entry. -/
theorem FiledIn.unique {m : Map ResourceName ResourceState} (h : FiledIn m) {a b : IndexEntry}
    (ha : HasIn m a) (hb : HasIn m b) (same : a.identity = b.identity) : a = b := by
  obtain ⟨s, hs, ha⟩ := ha
  obtain ⟨t, ht, hb⟩ := hb
  have resource : a.resource = b.resource := congrArg EntryIdentity.resource same
  rw [resource, ht] at hs
  obtain rfl := Option.some.inj hs
  exact (h _ _ ht).unique ha hb (congrArg EntryIdentity.kind same) (congrArg EntryIdentity.id same)

/-- Changing one resource changes the entries filed under it. -/
theorem hasIn_insert {m : Map ResourceName ResourceState} {n : ResourceName} {t : ResourceState}
    {e : IndexEntry} : HasIn (m.insert n t) e ↔
      if e.resource = n then e ∈ t.byStart else HasIn m e := by
  unfold HasIn
  rw [Map.get_insert]
  split
  · simp
  · rfl

theorem hasIn_dropIfEmpty {m : Map ResourceName ResourceState} (h : FiledIn m) (n : ResourceName)
    {e : IndexEntry} : HasIn (CapacityIndex.dropIfEmpty m n) e ↔ HasIn m e := by
  unfold CapacityIndex.dropIfEmpty
  split
  · rename_i s hs
    split
    · rename_i empty
      have none : s.byStart = [] := by
        rw [(h n s hs).counted] at empty
        exact List.length_eq_zero_iff.mp empty
      unfold HasIn
      rw [Map.get_erase]
      split
      · rename_i here
        rw [here, hs]
        simp [none]
      · rfl
    · rfl
  · rfl

theorem filedIn_dropIfEmpty {m : Map ResourceName ResourceState} (h : FiledIn m)
    (n : ResourceName) : FiledIn (CapacityIndex.dropIfEmpty m n) := by
  unfold CapacityIndex.dropIfEmpty
  split
  · split
    · intro k s hk
      rw [Map.get_erase] at hk
      split at hk
      · exact absurd hk (by simp)
      · exact h k s hk
    · exact h
  · exact h

namespace CapacityIndex

/-! ## The index -/

/-- An entry is in the index. -/
def Has (x : CapacityIndex) (e : IndexEntry) : Prop := HasIn x.resources e

/-- The index is consistent. -/
structure Wf (x : CapacityIndex) : Prop where
  filed : FiledIn x.resources
  keyed : ∀ e, x.Has e → x.entries[e.identity]? = some e.interval.start
  placed : ∀ (i : EntryIdentity) (t : Timestamp), x.entries[i]? = some t →
    ∃ e, x.Has e ∧ e.identity = i
  valid : ∀ e, x.Has e → e.Valid

theorem wf_empty : Wf {} where
  filed _ _ h := absurd h (by simp)
  keyed _ h := by
    obtain ⟨s, hs, -⟩ := h
    exact absurd hs (by simp)
  placed _ _ h := absurd h (by simp)
  valid _ h := by
    obtain ⟨s, hs, -⟩ := h
    exact absurd hs (by simp)

theorem not_has_empty (e : IndexEntry) : ¬ Has {} e := by
  rintro ⟨s, hs, -⟩
  exact absurd hs (by simp)

theorem Wf.unique {x : CapacityIndex} (h : x.Wf) {a b : IndexEntry} (ha : x.Has a) (hb : x.Has b)
    (same : a.identity = b.identity) : a = b := h.filed.unique ha hb same

/-- The holder of an entry. -/
theorem heldBy_iff {kind : HolderKind} {id : Identity128} {e : IndexEntry} :
    heldBy kind id e = true ↔ e.kind = kind ∧ e.id = id := by
  simp [heldBy]

/-- The first entry of a key, as `erase_all` and `find_all` look it up. -/
theorem Wf.find {x : CapacityIndex} (h : x.Wf) {e : IndexEntry} (he : x.Has e) :
    ∃ s, x.resources[e.resource]? = some s ∧ s.byStart.find? (fun f =>
      f.interval.start = e.interval.start && heldBy e.kind e.id f) = some e := by
  obtain ⟨s, hs, he⟩ := he
  refine ⟨s, hs, ?_⟩
  cases hfind : s.byStart.find? _ with
  | none =>
    have := List.find?_eq_none.mp hfind e he
    simp [heldBy] at this
  | some f =>
    have hf := List.mem_of_find?_eq_some hfind
    have hp := List.find?_some hfind
    simp only [Bool.and_eq_true, decide_eq_true_eq, heldBy_iff] at hp
    rw [(h.filed _ _ hs).unique hf he hp.2.1 hp.2.2]

/-! ## Queries -/

theorem mem_keysOf {x : CapacityIndex} {kind : HolderKind} {id : Identity128}
    {p : EntryIdentity × Timestamp} :
    p ∈ x.keysOf kind id ↔ x.entries[p.1]? = some p.2 ∧ p.1.kind = kind ∧ p.1.id = id := by
  unfold keysOf
  rw [List.mem_filter]
  simp only [Bool.and_eq_true, decide_eq_true_eq]
  exact and_congr_left fun _ => Map.mem_toList

theorem Wf.mem_keysOf {x : CapacityIndex} (h : x.Wf) {kind : HolderKind} {id : Identity128}
    {p : EntryIdentity × Timestamp} :
    p ∈ x.keysOf kind id ↔ ∃ e, x.Has e ∧ heldBy kind id e ∧ p = (e.identity, e.interval.start) := by
  rw [CapacityIndex.mem_keysOf]
  constructor
  · rintro ⟨hp, hkind, hid⟩
    obtain ⟨e, he, same⟩ := h.placed _ _ hp
    have start := h.keyed e he
    rw [same, hp] at start
    refine ⟨e, he, heldBy_iff.mpr ⟨?_, ?_⟩, Prod.ext same.symm (Option.some.inj start)⟩
    · rw [← hkind, ← same]
      rfl
    · rw [← hid, ← same]
      rfl
  · rintro ⟨e, he, held, rfl⟩
    obtain ⟨hkind, hid⟩ := heldBy_iff.mp held
    exact ⟨h.keyed e he, hkind, hid⟩

/-- `contains` asks for an entry of the holder. -/
theorem Wf.contains_iff {x : CapacityIndex} (h : x.Wf) {kind : HolderKind} {id : Identity128} :
    x.contains kind id = true ↔ ∃ e, x.Has e ∧ e.kind = kind ∧ e.id = id := by
  unfold contains
  rw [Bool.not_eq_true', List.isEmpty_eq_false_iff]
  constructor
  · intro ne
    obtain ⟨p, hp⟩ := List.exists_mem_of_ne_nil _ ne
    obtain ⟨e, he, held, -⟩ := h.mem_keysOf.mp hp
    exact ⟨e, he, heldBy_iff.mp held⟩
  · rintro ⟨e, he, held⟩
    exact List.ne_nil_of_mem (h.mem_keysOf.mpr ⟨e, he, heldBy_iff.mpr held, rfl⟩)

/-- `find_all` returns the entries of the holder. -/
theorem Wf.mem_findAll {x : CapacityIndex} (h : x.Wf) {kind : HolderKind} {id : Identity128}
    {e : IndexEntry} : e ∈ x.findAll kind id ↔ x.Has e ∧ e.kind = kind ∧ e.id = id := by
  unfold findAll
  rw [(List.perm_insertionSort _ _).mem_iff, List.mem_filterMap]
  constructor
  · rintro ⟨p, hp, hfind⟩
    obtain ⟨f, hf, held, rfl⟩ := h.mem_keysOf.mp hp
    obtain ⟨s, hs, found⟩ := h.find hf
    obtain ⟨rfl, rfl⟩ := heldBy_iff.mp held
    have : x.resources[f.identity.resource]? = some s := hs
    rw [this] at hfind
    change s.byStart.find? _ = some e at hfind
    rw [found] at hfind
    obtain rfl := Option.some.inj hfind
    exact ⟨hf, rfl, rfl⟩
  · rintro ⟨he, rfl, rfl⟩
    obtain ⟨s, hs, found⟩ := h.find he
    refine ⟨(e.identity, e.interval.start), h.mem_keysOf.mpr ⟨e, he, heldBy_iff.mpr ⟨rfl, rfl⟩, rfl⟩,
      ?_⟩
    have : x.resources[e.identity.resource]? = some s := hs
    rw [this]
    exact found

/-- `find_all` returns an entry once. -/
theorem Wf.findAll_single {x : CapacityIndex} (h : x.Wf) (kind : HolderKind) (id : Identity128) :
    (x.findAll kind id).Pairwise fun a b => a.identity ≠ b.identity := by
  unfold findAll
  refine ((List.perm_insertionSort _ _).pairwise_iff fun {a b} hab => Ne.symm hab).mpr ?_
  refine List.pairwise_filterMap.mpr ?_
  have keys : (x.keysOf kind id).Pairwise fun a b => a.1 ≠ b.1 :=
    (Map.pairwise_toList x.entries).filter _
  refine (List.Pairwise.and_mem.mp keys).imp fun {p q} hpq a ha b hb same => ?_
  obtain ⟨f, hf, fheld, rfl⟩ := h.mem_keysOf.mp hpq.1
  obtain ⟨g, hg, gheld, rfl⟩ := h.mem_keysOf.mp hpq.2.1
  have hit : ∀ {f a : IndexEntry}, x.Has f → heldBy kind id f = true → (do
      let state ← x.resources[f.identity.resource]?
      state.byStart.find? fun e => e.interval.start = f.interval.start && heldBy kind id e) =
        some a → a = f := by
    intro f a hf held ha
    obtain ⟨s, hs, found⟩ := h.find hf
    obtain ⟨rfl, rfl⟩ := heldBy_iff.mp held
    have : x.resources[f.identity.resource]? = some s := hs
    rw [this] at ha
    change s.byStart.find? _ = some a at ha
    rw [found] at ha
    exact (Option.some.inj ha).symm
  rw [hit hf fheld ha, hit hg gheld hb] at same
  exact hpq.2.2 same

/-- `overlapping` reports entries of the resource. -/
theorem mem_overlapping {x : CapacityIndex} (h : x.Wf) {resource : ResourceName}
    {window : Interval} {outputLimit scanLimit : Nat} {e : IndexEntry}
    (he : e ∈ (x.overlapping resource window outputLimit scanLimit).entries) :
    x.Has e ∧ e.resource = resource := by
  unfold overlapping at he
  split at he
  · exact absurd he List.not_mem_nil
  · rename_i s hs
    split at he
    · exact absurd he List.not_mem_nil
    · have he := (List.perm_insertionSort _ _).mem_iff.mp he
      have he := List.mem_of_mem_take he
      have he := List.mem_of_mem_take (List.mem_filter.mp he).1
      have he := (List.takeWhile_prefix _).subset he
      have here := (h.filed _ _ hs).here e he
      exact ⟨⟨s, by rw [here]; exact hs, he⟩, here⟩

/-! ## Operations -/

/-- `insert` adds one entry, or changes nothing. -/
theorem ensures_insert {x : CapacityIndex} (h : x.Wf) (e : IndexEntry) :
    Op.Ensures (insert e) x (fun r y => y.Wf ∧ match r with
      | .ok _ => e.Valid ∧ (∀ f, x.Has f → f.identity ≠ e.identity) ∧
          ∀ f, y.Has f ↔ f = e ∨ x.Has f
      | .error _ => y = x ∧ (e.Valid → ∃ f, x.Has f ∧ f.identity = e.identity)) := by
  unfold insert
  refine Op.ensures_refuseIf_bind (fun nonempty => ?_) fun empty => ⟨h, rfl, fun v => ?_⟩
  rotate_left
  · exact absurd empty (by simp [v.nonempty])
  refine Op.ensures_refuseIf_bind (fun positive => ?_) fun low => ⟨h, rfl, fun v => ?_⟩
  rotate_left
  · exact absurd (of_decide_eq_true low) (not_le.mpr v.positive)
  refine Op.ensures_refuseIf_bind (fun named => ?_) fun unnamed => ⟨h, rfl, fun v => ?_⟩
  rotate_left
  · exact absurd unnamed (by simp [v.named])
  apply Op.ensures_get_bind
  refine Op.ensures_refuseIf_bind (fun fresh => ?_) fun taken => ⟨h, rfl, fun _ => ?_⟩
  rotate_left
  · obtain ⟨t, ht⟩ := Option.isSome_iff_exists.mp taken
    exact h.placed _ t ht
  have valid : e.Valid := ⟨nonempty, by simpa using positive, named⟩
  have apart : ∀ f, x.Has f → f.identity ≠ e.identity := by
    intro f hf same
    rw [← same, h.keyed f hf] at fresh
    exact absurd fresh (by simp)
  have filed : ResourceState.Filed e.resource (x.resources[e.resource]?.getD {}) := by
    cases hs : x.resources[e.resource]? with
    | none => exact ResourceState.filed_empty _
    | some s => exact h.filed _ _ hs
  have absent : ∀ f ∈ (x.resources[e.resource]?.getD {}).byStart, f.identity ≠ e.identity := by
    intro f hf
    cases hs : x.resources[e.resource]? with
    | none =>
      rw [hs] at hf
      exact absurd hf List.not_mem_nil
    | some s =>
      rw [hs] at hf
      exact apart f ⟨s, by rw [(h.filed _ _ hs).here f hf]; exact hs, hf⟩
  have has : ∀ f, HasIn (x.resources.insert e.resource
      ((x.resources[e.resource]?.getD {}).insert e)) f ↔ f = e ∨ x.Has f := by
    intro f
    rw [hasIn_insert]
    split
    · rename_i here
      rw [(ResourceState.insert_perm _ e).mem_iff, List.mem_cons]
      refine or_congr_right ?_
      unfold Has HasIn
      rw [here]
      cases hs : x.resources[e.resource]? with
      | none => simp
      | some s => simp
    · rename_i elsewhere
      refine ⟨.inr, fun hf => hf.resolve_left ?_⟩
      rintro rfl
      exact elsewhere rfl
  refine ⟨⟨h.filed.insert (filed.insert rfl absent), fun f hf => ?_, fun i t hi => ?_,
    fun f hf => ?_⟩, valid, apart, has⟩
  · change (x.entries.insert e.identity e.interval.start)[f.identity]? = _
    rw [Map.get_insert]
    rcases (has f).mp hf with rfl | hf
    · simp
    · rw [if_neg (apart f hf), h.keyed f hf]
  · change (x.entries.insert e.identity e.interval.start)[i]? = _ at hi
    rw [Map.get_insert] at hi
    split at hi
    · rename_i same
      exact ⟨e, (has e).mpr (.inl rfl), same.symm⟩
    · obtain ⟨f, hf, same⟩ := h.placed i t hi
      exact ⟨f, (has f).mpr (.inr hf), same⟩
  · rcases (has f).mp hf with rfl | hf
    · exact valid
    · exact h.valid f hf

/-- The index without one of its entries. -/
theorem Wf.without {x y : CapacityIndex} (h : x.Wf) {e : IndexEntry} (he : x.Has e)
    (filed : FiledIn y.resources) (has : ∀ f, y.Has f ↔ x.Has f ∧ f ≠ e)
    (entries : y.entries = x.entries.erase e.identity) : y.Wf := by
  refine ⟨filed, fun f hf => ?_, fun i t hi => ?_, fun f hf => h.valid f ((has f).mp hf).1⟩
  · obtain ⟨hf, ne⟩ := (has f).mp hf
    rw [entries, Map.get_erase, if_neg fun same => ne (h.unique hf he same), h.keyed f hf]
  · rw [entries, Map.get_erase] at hi
    split at hi
    · exact absurd hi (by simp)
    · rename_i ne
      obtain ⟨f, hf, same⟩ := h.placed i t hi
      refine ⟨f, (has f).mpr ⟨hf, ?_⟩, same⟩
      rintro rfl
      exact ne same.symm

/-- `erase` removes the entry it names. -/
theorem ensures_erase {x : CapacityIndex} (h : x.Wf) {e : IndexEntry} (he : x.Has e) :
    Op.Ensures (erase e.kind e.id e.holderGeneration e.resource) x (fun r y =>
      r = .ok () ∧ y.Wf ∧ ∀ f, y.Has f ↔ x.Has f ∧ f ≠ e) := by
  have key := h.keyed e he
  obtain ⟨s, hs, mem⟩ := he
  have filed := h.filed _ _ hs
  obtain ⟨t, ht, tfiled, tmem⟩ := filed.removeFirst (p := fun f =>
      f.interval.start = e.interval.start && f.id = e.id &&
        f.holderGeneration = e.holderGeneration && f.kind = e.kind) mem (by simp) (by
    intro f hf hp
    simp only [Bool.and_eq_true, decide_eq_true_eq] at hp
    exact filed.unique hf mem hp.2 hp.1.1.2)
  have filed' : FiledIn (x.resources.insert e.resource t) := h.filed.insert tfiled
  have has : ∀ f, HasIn (dropIfEmpty (x.resources.insert e.resource t) e.resource) f ↔
      x.Has f ∧ f ≠ e := by
    intro f
    rw [hasIn_dropIfEmpty filed', hasIn_insert]
    split
    · rename_i here
      rw [tmem]
      unfold Has HasIn
      rw [here, hs]
      simp
    · rename_i elsewhere
      refine ⟨fun hf => ⟨hf, ?_⟩, And.left⟩
      rintro rfl
      exact elsewhere rfl
  unfold erase
  apply Op.ensures_get_bind
  have key' : x.entries[(⟨e.kind, e.id, e.resource⟩ : EntryIdentity)]? =
      some e.interval.start := key
  simp only [key', hs, ht]
  exact ⟨rfl, h.without ⟨s, hs, mem⟩ (filedIn_dropIfEmpty filed' _) has rfl, has⟩

/-! ## Removing a holder -/

/-- One turn of the first loop of `erase_all` removes the entry its key stands for. -/
theorem eraseKeyed_spec {m : Map ResourceName ResourceState} (h : FiledIn m) (n : Nat)
    {kind : HolderKind} {id : Identity128} {e : IndexEntry} (he : HasIn m e)
    (held : heldBy kind id e = true) :
    FiledIn (eraseKeyed kind id (m, n) (e.identity, e.interval.start)).1 ∧
      (eraseKeyed kind id (m, n) (e.identity, e.interval.start)).2 = n + 1 ∧
      ∀ f, HasIn (eraseKeyed kind id (m, n) (e.identity, e.interval.start)).1 f ↔
        HasIn m f ∧ f.identity ≠ e.identity := by
  have unique : ∀ f, HasIn m f → f.identity = e.identity → f = e := fun f hf same =>
    h.unique hf he same
  obtain ⟨s, hs, mem⟩ := he
  have filed := h _ _ hs
  obtain ⟨hkind, hid⟩ := heldBy_iff.mp held
  obtain ⟨t, ht, tfiled, tmem⟩ := filed.removeFirst (p := fun f =>
      f.interval.start = e.interval.start && heldBy kind id f) mem (by simp [held]) (by
    intro f hf hp
    simp only [Bool.and_eq_true, decide_eq_true_eq, heldBy_iff] at hp
    exact filed.unique hf mem (hp.2.1.trans hkind.symm) (hp.2.2.trans hid.symm))
  have turn : eraseKeyed kind id (m, n) (e.identity, e.interval.start) =
      (m.insert e.resource t, n + 1) := by
    have hs' : m[e.identity.resource]? = some s := hs
    unfold eraseKeyed
    simp only [hs', ht]
    rfl
  rw [turn]
  refine ⟨h.insert tfiled, rfl, fun f => ?_⟩
  rw [hasIn_insert]
  have ne_iff : HasIn m f → (f ≠ e ↔ f.identity ≠ e.identity) := fun hf =>
    not_congr ⟨fun same => by rw [same], unique f hf⟩
  split
  · rename_i here
    rw [tmem]
    have same : HasIn m f ↔ f ∈ s.byStart := by
      unfold HasIn
      rw [here, hs]
      simp
    rw [← same]
    exact and_congr_right ne_iff
  · rename_i elsewhere
    refine ⟨fun hf => ⟨hf, fun same => elsewhere ?_⟩, And.left⟩
    exact congrArg EntryIdentity.resource same

/-- The first loop of `erase_all` removes the entries its keys stand for. -/
theorem foldl_eraseKeyed {kind : HolderKind} {id : Identity128} :
    ∀ {keys : List (EntryIdentity × Timestamp)} {m : Map ResourceName ResourceState} (n : Nat),
      FiledIn m → keys.Pairwise (fun a b => a.1 ≠ b.1) →
      (∀ k ∈ keys, ∃ e, HasIn m e ∧ heldBy kind id e = true ∧ k = (e.identity, e.interval.start)) →
      FiledIn (keys.foldl (eraseKeyed kind id) (m, n)).1 ∧
        (keys.foldl (eraseKeyed kind id) (m, n)).2 = n + keys.length ∧
        ∀ f, HasIn (keys.foldl (eraseKeyed kind id) (m, n)).1 f ↔
          HasIn m f ∧ f.identity ∉ keys.map (·.1)
  | [], m, n, h, _, _ => ⟨h, rfl, fun f => by simp⟩
  | k :: keys, m, n, h, apart, stands => by
    obtain ⟨head, tail⟩ := List.pairwise_cons.mp apart
    obtain ⟨e, he, held, rfl⟩ := stands k List.mem_cons_self
    obtain ⟨filed, count, has⟩ := eraseKeyed_spec h n he held
    obtain ⟨filed', count', has'⟩ := foldl_eraseKeyed
      (m := (eraseKeyed kind id (m, n) (e.identity, e.interval.start)).1) (n + 1) filed tail (by
        intro k hk
        obtain ⟨f, hf, fheld, rfl⟩ := stands k (List.mem_cons_of_mem _ hk)
        exact ⟨f, (has f).mpr ⟨hf, (head _ hk).symm⟩, fheld, rfl⟩)
    rw [List.foldl_cons, ← Prod.mk.eta (p := eraseKeyed kind id (m, n) _), count]
    refine ⟨filed', ?_, fun f => ?_⟩
    · rw [count', List.length_cons]
      omega
    · rw [has', has, List.map_cons, List.mem_cons, not_or, and_assoc]

theorem sweep_none {kind : HolderKind} {id : Identity128} {m : Map ResourceName ResourceState}
    (h : FiledIn m) (n : Nat) (none : ∀ f, HasIn m f → heldBy kind id f = false)
    (resource : ResourceName) : sweep kind id (m, n) resource = (m, n) := by
  unfold sweep
  cases hs : m[resource]? with
  | none => rfl
  | some s =>
    have free : ∀ f ∈ s.byStart, heldBy kind id f = false := fun f hf =>
      none f ⟨s, by rw [(h _ _ hs).here f hf]; exact hs, hf⟩
    have empty : s.byStart.filter (heldBy kind id) = [] :=
      List.filter_eq_nil_iff.mpr fun f hf => by simp [free f hf]
    simp only [ResourceState.removeEvery_none free, empty, List.length_nil, Nat.add_zero,
      Map.insert_get hs]

theorem foldl_sweep_none {kind : HolderKind} {id : Identity128}
    {m : Map ResourceName ResourceState} (h : FiledIn m) (n : Nat)
    (none : ∀ f, HasIn m f → heldBy kind id f = false) (touched : List ResourceName) :
    touched.foldl (sweep kind id) (m, n) = (m, n) := by
  induction touched with
  | nil => rfl
  | cons r rest ih => rw [List.foldl_cons, sweep_none h n none, ih]

theorem foldl_dropIfEmpty : ∀ {touched : List ResourceName} {m : Map ResourceName ResourceState},
    FiledIn m → FiledIn (touched.foldl dropIfEmpty m) ∧
      ∀ f, HasIn (touched.foldl dropIfEmpty m) f ↔ HasIn m f
  | [], _, h => ⟨h, fun _ => Iff.rfl⟩
  | r :: rest, m, h => by
    obtain ⟨filed, has⟩ := @foldl_dropIfEmpty rest _ (filedIn_dropIfEmpty h r)
    exact ⟨filed, fun f => (has f).trans (hasIn_dropIfEmpty h r)⟩

theorem get_foldl_erase : ∀ {keys : List (EntryIdentity × Timestamp)}
    {m : Map EntryIdentity Timestamp} (i : EntryIdentity),
    (keys.foldl (fun m k => m.erase k.1) m)[i]? = if i ∈ keys.map (·.1) then none else m[i]?
  | [], m, i => by simp
  | k :: keys, m, i => by
    rw [List.foldl_cons, @get_foldl_erase keys, Map.get_erase]
    simp only [List.map_cons, List.mem_cons]
    by_cases hk : i = k.1 <;> by_cases hrest : i ∈ keys.map (·.1) <;> simp [hk, hrest]

section EraseAll

variable {x : CapacityIndex} (h : x.Wf) (kind : HolderKind) (id : Identity128)

/-- The resources after the first loop of `erase_all`. -/
def withoutKeyed (x : CapacityIndex) (kind : HolderKind) (id : Identity128) :
    Map ResourceName ResourceState :=
  ((x.keysOf kind id).foldl (eraseKeyed kind id) (x.resources, 0)).1

/-- The resources of a holder. -/
def resourcesOf (x : CapacityIndex) (kind : HolderKind) (id : Identity128) : List ResourceName :=
  ((x.keysOf kind id).filter fun k => x.resources[k.1.resource]?.isSome).map (·.1.resource)

theorem keysOf_apart (x : CapacityIndex) (kind : HolderKind) (id : Identity128) :
    (x.keysOf kind id).Pairwise fun a b => a.1 ≠ b.1 :=
  (Map.pairwise_toList x.entries).filter _

include h

/-- The keys of a holder are those of its entries. -/
theorem Wf.mem_keysOf_iff {f : IndexEntry} (hf : x.Has f) :
    f.identity ∈ (x.keysOf kind id).map (·.1) ↔ f.kind = kind ∧ f.id = id := by
  rw [List.mem_map]
  constructor
  · rintro ⟨p, hp, same⟩
    obtain ⟨-, hkind, hid⟩ := CapacityIndex.mem_keysOf.mp hp
    rw [same] at hkind hid
    exact ⟨hkind, hid⟩
  · intro held
    exact ⟨_, h.mem_keysOf.mpr ⟨f, hf, heldBy_iff.mpr held, rfl⟩, rfl⟩

theorem Wf.keysOf_eq_nil :
    x.keysOf kind id = [] ↔ ∀ e, x.Has e → ¬ (e.kind = kind ∧ e.id = id) := by
  constructor
  · intro empty e he held
    have mem := h.mem_keysOf.mpr ⟨e, he, heldBy_iff.mpr held, rfl⟩
    rw [empty] at mem
    exact absurd mem List.not_mem_nil
  · intro none
    refine List.eq_nil_iff_forall_not_mem.mpr fun p hp => ?_
    obtain ⟨e, he, held, -⟩ := h.mem_keysOf.mp hp
    exact none e he (heldBy_iff.mp held)

/-- The first loop removes the entries of the holder, one for each key. -/
theorem Wf.withoutKeyed : FiledIn (withoutKeyed x kind id) ∧
    (x.keysOf kind id).foldl (eraseKeyed kind id) (x.resources, 0) =
      (CapacityIndex.withoutKeyed x kind id, (x.keysOf kind id).length) ∧
    ∀ f, HasIn (CapacityIndex.withoutKeyed x kind id) f ↔
      x.Has f ∧ ¬ (f.kind = kind ∧ f.id = id) := by
  obtain ⟨filed, count, has⟩ := @foldl_eraseKeyed kind id _ _ 0 h.filed (keysOf_apart x kind id)
    fun k hk => h.mem_keysOf.mp hk
  refine ⟨filed, Prod.ext rfl (by rw [count, Nat.zero_add]), fun f => ?_⟩
  exact (has f).trans (and_congr_right fun hf => not_congr (h.mem_keysOf_iff kind id hf))

/-- What `erase_all` does to a consistent index: the sweep finds nothing. -/
theorem Wf.exec_eraseAll : (eraseAll kind id).exec x =
    if x.keysOf kind id = [] then (.error (makeError .notFound "index entry does not exist"), x)
    else (.ok (), {
      resources := (resourcesOf x kind id).foldl dropIfEmpty (CapacityIndex.withoutKeyed x kind id)
      entries := (x.keysOf kind id).foldl (fun m k => m.erase k.1) x.entries
      entryCount := x.entryCount - (x.keysOf kind id).length }) := by
  obtain ⟨filed, keyed, has⟩ := h.withoutKeyed kind id
  have swept := @foldl_sweep_none kind id _ filed (x.keysOf kind id).length
    (fun f hf => by
      have free := ((has f).mp hf).2
      rw [← heldBy_iff] at free
      simpa using free) (resourcesOf x kind id)
  have touched : (((x.keysOf kind id).filter fun k => x.resources[k.1.resource]?.isSome).map
      (·.1.resource)) = resourcesOf x kind id := rfl
  unfold eraseAll
  rw [Op.exec_get_bind]
  simp only [touched, keyed, swept]
  by_cases empty : x.keysOf kind id = []
  · rw [if_pos empty]
    unfold CapacityIndex.withoutKeyed
    rw [empty]
    rfl
  · have some : (decide ((x.keysOf kind id).length = 0)) = false := by simpa using empty
    rw [if_neg empty, some]
    rfl

/-- `erase_all` removes the entries of a holder, and fails when there are none. -/
theorem ensures_eraseAll :
    Op.Ensures (eraseAll kind id) x (fun r y => y.Wf ∧
      (∀ f, y.Has f ↔ x.Has f ∧ ¬ (f.kind = kind ∧ f.id = id)) ∧
      match r with
      | .ok _ => ∃ e, x.Has e ∧ e.kind = kind ∧ e.id = id
      | .error e => e.code = .notFound ∧ y = x ∧ ∀ e, x.Has e → ¬ (e.kind = kind ∧ e.id = id)) := by
  obtain ⟨filed, -, has⟩ := h.withoutKeyed kind id
  obtain ⟨dropFiled, dropHas⟩ := @foldl_dropIfEmpty (resourcesOf x kind id) _ filed
  have run := h.exec_eraseAll kind id
  by_cases empty : x.keysOf kind id = []
  · rw [if_pos empty] at run
    have none := (h.keysOf_eq_nil kind id).mp empty
    exact Op.Ensures.of_exec run
      ⟨h, fun f => ⟨fun hf => ⟨hf, none f hf⟩, And.left⟩, rfl, rfl, none⟩
  · rw [if_neg empty] at run
    refine Op.Ensures.of_exec run ⟨⟨dropFiled, fun f hf => ?_, fun i t hi => ?_, fun f hf => ?_⟩,
      fun f => (dropHas f).trans (has f), ?_⟩
    · obtain ⟨hf, free⟩ := (has f).mp ((dropHas f).mp hf)
      refine (get_foldl_erase _).trans ?_
      rw [if_neg (mt (h.mem_keysOf_iff kind id hf).mp free), h.keyed f hf]
    · rw [get_foldl_erase] at hi
      split at hi
      · exact absurd hi (by simp)
      · rename_i kept
        obtain ⟨f, hf, rfl⟩ := h.placed i t hi
        have free := mt (h.mem_keysOf_iff kind id hf).mpr kept
        exact ⟨f, (dropHas f).mpr ((has f).mpr ⟨hf, free⟩), rfl⟩
    · exact h.valid f ((has f).mp ((dropHas f).mp hf)).1
    · obtain ⟨p, hp⟩ := List.exists_mem_of_ne_nil _ empty
      obtain ⟨e, he, held, -⟩ := h.mem_keysOf.mp hp
      exact ⟨e, he, heldBy_iff.mp held⟩

end EraseAll

/-- A loop of insertions adds its entries, when each of them can be added. -/
theorem ensures_insertAll : ∀ {entries : List IndexEntry} {x : CapacityIndex}, x.Wf →
    (∀ e ∈ entries, e.Valid) → entries.Pairwise (fun a b => a.identity ≠ b.identity) →
    (∀ e ∈ entries, ∀ f, x.Has f → f.identity ≠ e.identity) →
    Op.Ensures (Op.each insert entries) x (fun r y =>
      r = .ok () ∧ y.Wf ∧ ∀ f, y.Has f ↔ f ∈ entries ∨ x.Has f)
  | [], x, h, _, _, _ => Op.ensures_pure ⟨rfl, h, fun f => by simp⟩
  | e :: rest, x, h, valid, apart, fresh => by
    obtain ⟨head, tail⟩ := List.pairwise_cons.mp apart
    apply Op.ensures_bind
    refine (ensures_insert h e).mono ?_
    rintro (err | ⟨⟩) y ⟨wf, hy⟩
    · obtain ⟨f, hf, same⟩ := hy.2 (valid e List.mem_cons_self)
      exact absurd same (fresh e List.mem_cons_self f hf)
    · refine (ensures_insertAll wf (fun e he => valid e (List.mem_cons_of_mem _ he)) tail ?_).mono ?_
      · intro g hg f hf
        rcases (hy.2.2 f).mp hf with rfl | hf
        · exact head g hg
        · exact fresh g (List.mem_cons_of_mem _ hg) f hf
      · rintro r z ⟨rfl, wf', has⟩
        refine ⟨rfl, wf', fun f => ?_⟩
        rw [has, hy.2.2, List.mem_cons]
        tauto

/-- `replace_all` puts entries of a holder in the place of the ones it has. -/
theorem ensures_replaceAll {x : CapacityIndex} (h : x.Wf) {kind : HolderKind} {id : Identity128}
    {entries : List IndexEntry} (valid : ∀ e ∈ entries, e.Valid)
    (apart : entries.Pairwise fun a b => a.identity ≠ b.identity)
    (own : ∀ e ∈ entries, e.kind = kind ∧ e.id = id) :
    Op.Ensures (replaceAll kind id entries) x (fun r y => r = .ok () ∧ y.Wf ∧
      ∀ f, y.Has f ↔ f ∈ entries ∨ x.Has f ∧ ¬ (f.kind = kind ∧ f.id = id)) := by
  have fill : ∀ y : CapacityIndex, y.Wf →
      (∀ f, y.Has f ↔ x.Has f ∧ ¬ (f.kind = kind ∧ f.id = id)) →
      Op.Ensures (Op.each insert entries) y (fun r z => r = .ok () ∧ z.Wf ∧
        ∀ f, z.Has f ↔ f ∈ entries ∨ x.Has f ∧ ¬ (f.kind = kind ∧ f.id = id)) := by
    intro y wf has
    refine (ensures_insertAll wf valid apart ?_).mono ?_
    · intro e he f hf same
      refine ((has f).mp hf).2 ⟨?_, ?_⟩
      · exact (congrArg EntryIdentity.kind same).trans (own e he).1
      · exact (congrArg EntryIdentity.id same).trans (own e he).2
    · rintro r z ⟨rfl, wf', has'⟩
      exact ⟨rfl, wf', fun f => by rw [has', has]⟩
  unfold replaceAll
  apply Op.ensures_bind
  apply Op.ensures_attempt
  refine (ensures_eraseAll h kind id).mono ?_
  rintro (e | ⟨⟩) y ⟨wf, has, result⟩
  · refine Op.ensures_refuseIf_bind (fun _ => fill y wf has) fun other => ?_
    exact absurd result.1 (of_decide_eq_true other)
  · exact fill y wf has

end CapacityIndex

end Brf
