import Mathlib.Data.List.Perm.Basic
import Mathlib.Order.Compare
import Mathlib.Order.Lattice
import Std.Data.ExtTreeMap

/-!
# Ordered maps over a linear order

`std::map<K, V>`: the extensional tree map of the standard library, whose keys come out in
ascending order and whose equality is equality of contents. The lemmas restate its lookup equations
with `=` in place of `compare … = .eq`, so that a proof about a map never mentions comparison.
-/

namespace Brf.Lib

/-- `std::map<K, V>`. -/
abbrev Map (κ ν : Type) [LinearOrder κ] := Std.ExtTreeMap κ ν compare

namespace Map

variable {κ ν μ : Type} [LinearOrder κ]

instance lawfulEqCmp : Std.LawfulEqCmp (compare : κ → κ → Ordering) where
  eq_of_compare h := compare_eq_iff_eq.mp h

instance transCmp : Std.TransCmp (compare : κ → κ → Ordering) := inferInstance

@[simp] theorem get_empty (b : κ) : (∅ : Map κ ν)[b]? = none := Std.ExtTreeMap.getElem?_empty

theorem get_insert (m : Map κ ν) (a b : κ) (v : ν) :
    (m.insert a v)[b]? = if b = a then some v else m[b]? := by
  rw [Std.ExtTreeMap.getElem?_insert]
  by_cases h : b = a
  · simp [h]
  · simp [h, Ne.symm h]

@[simp] theorem get_insert_ne {m : Map κ ν} {a b : κ} {v : ν} (h : b ≠ a) :
    (m.insert a v)[b]? = m[b]? := by
  simp [get_insert, h]

theorem get_erase (m : Map κ ν) (a b : κ) :
    (m.erase a)[b]? = if b = a then none else m[b]? := by
  rw [Std.ExtTreeMap.getElem?_erase]
  by_cases h : b = a
  · simp [h]
  · simp [h, Ne.symm h]

@[simp] theorem get_erase_ne {m : Map κ ν} {a b : κ} (h : b ≠ a) :
    (m.erase a)[b]? = m[b]? := by
  simp [get_erase, h]

/-- Maps with the same contents are equal. -/
theorem ext_get {m n : Map κ ν} (h : ∀ a : κ, m[a]? = n[a]?) : m = n :=
  Std.ExtTreeMap.ext_getElem? fun a => h a

/-- The entries in ascending key order. -/
theorem mem_toList {m : Map κ ν} {a : κ} {v : ν} : (a, v) ∈ m.toList ↔ m[a]? = some v :=
  Std.ExtTreeMap.mem_toList_iff_getElem?_eq_some

/-- The values in ascending key order. -/
def values (m : Map κ ν) : List ν := m.toList.map (·.2)

theorem values_empty : values (∅ : Map κ ν) = [] := by
  refine List.eq_nil_iff_forall_not_mem.mpr fun v mem => ?_
  obtain ⟨⟨a, w⟩, there, -⟩ := List.mem_map.mp mem
  exact absurd (mem_toList.mp there) (by simp)

theorem mem_values {m : Map κ ν} {v : ν} : v ∈ m.values ↔ ∃ a : κ, m[a]? = some v := by
  constructor
  · intro h
    obtain ⟨⟨a, w⟩, hmem, rfl⟩ := List.mem_map.mp h
    exact ⟨a, mem_toList.mp hmem⟩
  · rintro ⟨a, ha⟩
    exact List.mem_map.mpr ⟨(a, v), mem_toList.mpr ha, rfl⟩

/-- Rewriting an entry with the value it has changes nothing. -/
theorem insert_get {m : Map κ ν} {a : κ} {v : ν} (h : m[a]? = some v) : m.insert a v = m := by
  apply ext_get
  intro b
  by_cases hb : b = a
  · subst hb
    simp [h]
  · simp [hb]

theorem insert_insert (m : Map κ ν) (a : κ) (v w : ν) :
    (m.insert a v).insert a w = m.insert a w := by
  apply ext_get
  intro b
  by_cases hb : b = a <;> simp [hb]

/-- No key comes out twice. -/
theorem pairwise_toList (m : Map κ ν) : m.toList.Pairwise fun a b => a.1 ≠ b.1 := by
  refine Std.ExtTreeMap.distinct_keys_toList.imp fun {a b} h same => h ?_
  rw [same]
  exact compare_eq_iff_eq.mpr rfl

theorem pairwise_values {m : Map κ ν} {R : ν → ν → Prop}
    (h : ∀ {a b : κ} {v w : ν}, m[a]? = some v → m[b]? = some w → a ≠ b → R v w) :
    m.values.Pairwise R := by
  refine List.pairwise_map.mpr ?_
  refine (List.Pairwise.and_mem.mp m.pairwise_toList).imp fun {p q} hpq => ?_
  exact h (mem_toList.mp hpq.1) (mem_toList.mp hpq.2.1) hpq.2.2

/-- Forgetting a key that is absent changes nothing. -/
theorem erase_absent {m : Map κ ν} {a : κ} (h : m[a]? = none) : m.erase a = m := by
  apply ext_get
  intro b
  by_cases hb : b = a
  · subst hb
    simp [h]
  · simp [hb]

theorem toList_insert (m : Map κ ν) (a : κ) (v : ν) :
    (m.insert a v).toList.Perm ((a, v) :: (m.erase a).toList) := by
  have nodup : ∀ n : Map κ ν, n.toList.Nodup := fun n =>
    n.pairwise_toList.imp fun apart same => apart (congrArg Prod.fst same)
  have fresh : (a, v) ∉ (m.erase a).toList := by
    rw [mem_toList, get_erase]
    simp
  refine (List.perm_ext_iff_of_nodup (nodup _) (List.nodup_cons.mpr ⟨fresh, nodup _⟩)).mpr ?_
  rintro ⟨b, w⟩
  rw [List.mem_cons, mem_toList, mem_toList, get_insert, get_erase]
  by_cases hb : b = a
  · subst hb
    simp [eq_comm]
  · simp [hb]

theorem length_toList_insert {m : Map κ ν} {a : κ} (absent : m[a]? = none) (v : ν) :
    (m.insert a v).toList.length = m.toList.length + 1 := by
  rw [(m.toList_insert a v).length_eq, erase_absent absent, List.length_cons]

theorem length_toList_erase {m : Map κ ν} {a : κ} {v : ν} (there : m[a]? = some v) :
    (m.erase a).toList.length + 1 = m.toList.length := by
  have perm := m.toList_insert a v
  rw [insert_get there] at perm
  rw [perm.length_eq, List.length_cons]

/-- Erasing entries one by one. -/
theorem length_toList_foldl_erase {ks : List (κ × ν)} {m : Map κ ν}
    (apart : ks.Pairwise fun a b => a.1 ≠ b.1) (there : ∀ k ∈ ks, m[k.1]? = some k.2) :
    (ks.foldl (fun m k => m.erase k.1) m).toList.length + ks.length = m.toList.length := by
  induction ks generalizing m with
  | nil => rfl
  | cons k ks ih =>
    obtain ⟨head, tail⟩ := List.pairwise_cons.mp apart
    have rest := ih (m := m.erase k.1) tail fun l mem => by
      rw [get_erase_ne (head l mem).symm]
      exact there l (List.mem_cons_of_mem _ mem)
    have first := length_toList_erase (there k List.mem_cons_self)
    rw [List.foldl_cons, List.length_cons]
    omega

/-- The values behind an entry: the new one, and those under other keys. -/
theorem values_insert (m : Map κ ν) (a : κ) (v : ν) :
    (values (m.insert a v)).Perm (v :: values (m.erase a)) :=
  (m.toList_insert a v).map Prod.snd

theorem values_get {m : Map κ ν} {a : κ} {v : ν} (h : m[a]? = some v) :
    (values m).Perm (v :: values (m.erase a)) := by
  have perm := values_insert m a v
  rwa [insert_get h] at perm

/-- A new value that a test rejects leaves the accepted ones under other keys. -/
theorem filter_values_insert {m : Map κ ν} {a : κ} {v w : ν} {p q : ν → Bool} (there : m[a]? = some v)
    (new : p w = false) (old : q v = false)
    (rest : ∀ (b : κ) (u : ν), b ≠ a → m[b]? = some u → p u = q u) :
    ((values (m.insert a w)).filter p).Perm ((values m).filter q) := by
  have inserted := (m.values_insert a w).filter p
  have stored := (values_get there).filter q
  rw [List.filter_cons_of_neg (by simp [new])] at inserted
  rw [List.filter_cons_of_neg (by simp [old])] at stored
  have others : (values (m.erase a)).filter p = (values (m.erase a)).filter q := by
    refine List.filter_congr fun u mem => ?_
    obtain ⟨b, at'⟩ := mem_values.mp mem
    by_cases same : b = a
    · simp [same] at at'
    · rw [get_erase_ne same] at at'
      exact rest b u same at'
  rw [others] at inserted
  exact inserted.trans stored.symm

/-- Maps whose values a test tells apart under no key have equally many that it accepts. -/
theorem countP_values_congr {m n : Map κ ν} {p : ν → Bool}
    (same : ∀ a : κ, (m[a]?).map p = (n[a]?).map p) : (values m).countP p = (values n).countP p := by
  have counted : ∀ o : Map κ ν,
      (values o).countP p = (o.toList.map fun e => (e.1, p e.2)).countP Prod.snd := by
    intro o
    rw [values, List.countP_map, List.countP_map]
    rfl
  have nodup : ∀ o : Map κ ν, (o.toList.map fun e => (e.1, p e.2)).Nodup := fun o =>
    List.pairwise_map.mpr (o.pairwise_toList.imp fun {_ _} apart same =>
      apart (Prod.mk.inj same).1)
  have mem : ∀ (o : Map κ ν) (a : κ) (b : Bool),
      (a, b) ∈ (o.toList.map fun e => (e.1, p e.2)) ↔ (o[a]?).map p = some b := by
    intro o a b
    rw [List.mem_map, Option.map_eq_some_iff]
    constructor
    · rintro ⟨⟨c, v⟩, there, same⟩
      obtain ⟨rfl, rfl⟩ := Prod.mk.inj same
      exact ⟨v, mem_toList.mp there, rfl⟩
    · rintro ⟨v, there, rfl⟩
      exact ⟨(a, v), mem_toList.mpr there, rfl⟩
  rw [counted, counted]
  refine List.Perm.countP_eq _ ((List.perm_ext_iff_of_nodup (nodup m) (nodup n)).mpr ?_)
  rintro ⟨a, b⟩
  rw [mem, mem, same]

/-- The entries come out in ascending key order. -/
theorem rising_toList (m : Map κ ν) : m.toList.Pairwise fun a b => a.1 < b.1 :=
  Std.ExtTreeMap.ordered_keys_toList.imp fun {_ _} h => compare_lt_iff_lt.mp h

/-- The first value in key order that a test accepts. -/
theorem find_values {m : Map κ ν} {p : ν → Bool} {v : ν} : (values m).find? p = some v ↔
    ∃ a : κ, m[a]? = some v ∧ p v = true ∧
      ∀ (b : κ) (w : ν), b < a → m[b]? = some w → p w = false := by
  have found : (values m).find? p = (m.toList.find? fun e => p e.2).map Prod.snd :=
    List.find?_map
  rw [found]
  constructor
  · intro h
    obtain ⟨⟨a, w⟩, first, rfl⟩ := Option.map_eq_some_iff.mp h
    obtain ⟨accepted, front, back, split, passed⟩ := List.find?_eq_some_iff_append.mp first
    have there : (a, w) ∈ m.toList := by simp [split]
    refine ⟨a, mem_toList.mp there, accepted, fun b u less other => ?_⟩
    have listed := mem_toList.mpr other
    have rising := m.rising_toList
    rw [split] at listed rising
    rcases List.mem_append.mp listed with ahead | behind
    · simpa using passed _ ahead
    · rcases List.mem_cons.mp behind with same | behind
      · exact absurd (congrArg Prod.fst same) (ne_of_lt less)
      · have after := (List.pairwise_cons.mp (List.pairwise_append.mp rising).2.1).1 _ behind
        exact absurd after (not_lt_of_gt less)
  · rintro ⟨a, there, accepted, ahead⟩
    obtain ⟨front, back, split⟩ := List.append_of_mem (mem_toList.mpr there)
    have rising := m.rising_toList
    rw [split] at rising
    refine Option.map_eq_some_iff.mpr ⟨(a, v), ?_, rfl⟩
    refine List.find?_eq_some_iff_append.mpr ⟨accepted, front, back, split, fun e mem => ?_⟩
    have less := (List.pairwise_append.mp rising).2.2 e mem (a, v) List.mem_cons_self
    have listed : e ∈ m.toList := by
      rw [split]
      exact List.mem_append_left _ mem
    simpa using ahead e.1 e.2 less (mem_toList.mp listed)

end Map

end Brf.Lib
