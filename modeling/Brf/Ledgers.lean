import Brf.Capacity
import Brf.Lib.Generations
import Brf.Lib.Run
import Brf.Policy

/-!
# The three ledgers never equivocate

`CapacityLedger`, `PathAuthorityTable` and `PolicyRegistry` under any sequence of their calls.

* `Statement` is what one `apply` declares: capacity of a resource, a path, or a policy; its `same` is
  the `operator==` of the source.
* `Ledgers` are the three tables, `LedgerCall` a call of one of them. The flag of `perform` tells
  whether the tables changed; the source reports it for `apply` only.
* `Ledgers.slot` is what a table keeps under a name, seen as a generation-stamped slot.

Results: `step_becomes` (a call replaces a statement by a later one or not at all), `redeclare` (what
a declaration of the generation in force does), and `ledgers_never_equivocate`.
-/

namespace Brf

open Brf.Lib

/-! ## Statements -/

/-- What one declaration states. -/
inductive Statement where
  | capacity (capacity : ResourceCapacity)
  | path (path : PathAuthority)
  | policy (policy : PolicyRecord)
  deriving DecidableEq

/-- The name a statement is about. -/
inductive LedgerName where
  | resource (name : ResourceName)
  | path (name : PathName)
  | policy (name : PolicyName)
  deriving DecidableEq

namespace Statement

def name : Statement → LedgerName
  | capacity c => .resource c.resource
  | path p => .path p.path
  | policy r => .policy r.name

def generation : Statement → Counter
  | capacity c => c.generation
  | path p => p.generation
  | policy r => r.generation

/-- `operator==` of the source. -/
def same : Statement → Statement → Bool
  | capacity a, capacity b => a = b
  | path a, path b => a.same b
  | policy a, policy b => a.same b
  | _, _ => false

/-- The structural checks of the statement. -/
def validate : Statement → Result Unit
  | capacity c => validateCapacity c
  | path p => validatePath p
  | policy r => validatePolicy r

end Statement

theorem PathAuthority.same_iff {a b : PathAuthority} :
    a.same b = true ↔ { a with issuedAt := 0 } = { b with issuedAt := 0 } := by
  obtain ⟨p, g, cs, i, r⟩ := a
  obtain ⟨p', g', cs', i', r'⟩ := b
  simp [PathAuthority.same]

theorem PolicyRecord.same_iff {a b : PolicyRecord} :
    a.same b = true ↔ { a with ingestedAt := 0 } = { b with ingestedAt := 0 } := by
  unfold PolicyRecord.same
  rw [decide_eq_true_iff]
  constructor
  · intro h
    rw [h]
  · intro h
    have whole := congrArg (fun r : PolicyRecord => { r with ingestedAt := a.ingestedAt }) h
    exact whole

namespace Statement

/-- The statement without the instants the comparison leaves out. -/
def core : Statement → Statement
  | capacity c => .capacity c
  | path p => .path { p with issuedAt := 0 }
  | policy r => .policy { r with ingestedAt := 0 }

theorem same_iff {a b : Statement} : a.same b = true ↔ a.core = b.core := by
  cases a <;> cases b <;> simp [same, core, PathAuthority.same_iff, PolicyRecord.same_iff]

/-- The checks do not look at those instants. -/
theorem validate_core (a : Statement) : a.core.validate = a.validate := by
  cases a <;> rfl

theorem validate_same {a b : Statement} (h : a.same b = true) : a.validate = b.validate := by
  rw [← validate_core a, same_iff.mp h, validate_core]

end Statement

/-! ## The tables and their calls -/

/-- The three tables. -/
structure Ledgers where
  capacity : CapacityLedger := ∅
  paths : PathTable := ∅
  policies : PolicyRegistry := ∅

/-- The slot of an entry. -/
def CapacityEntry.slot (e : CapacityEntry) : Slot Counter Statement :=
  ⟨e.capacity.generation, .capacity e.capacity, e.priorGenerations⟩

def PathEntry.slot (e : PathEntry) : Slot Counter Statement :=
  ⟨e.path.generation, .path e.path, e.priorGenerations⟩

def PolicyEntry.slot (e : PolicyEntry) : Slot Counter Statement :=
  ⟨e.record.generation, .policy e.record, e.priorGenerations⟩

/-- The path is not as retired as its statement says. -/
def PathEntry.withdrawn (e : PathEntry) : Bool := e.retired != e.path.retired

/-- A call of one of the tables. -/
inductive LedgerCall where
  | declare (statement : Statement) (snapshot : CapacitySnapshotId) (now : Timestamp)
  | withdraw (resource : ResourceName) (now : Timestamp)
  | retire (path : PathName) (now : Timestamp)
  deriving DecidableEq

namespace Ledgers

/-- What a table keeps under a name. -/
def slot (l : Ledgers) : LedgerName → Option (Slot Counter Statement)
  | .resource n => l.capacity[n]?.map CapacityEntry.slot
  | .path n => l.paths[n]?.map PathEntry.slot
  | .policy n => l.policies[n]?.map PolicyEntry.slot

/-- The statement under the name has been withdrawn, or the path retired, since it was made. -/
def withdrawn (l : Ledgers) : LedgerName → Bool
  | .resource n => l.capacity[n]?.any CapacityEntry.withdrawn
  | .path n => l.paths[n]?.any PathEntry.withdrawn
  | .policy _ => false

end Ledgers

namespace LedgerCall

/-- A call: whether the tables changed, and the tables it leaves. -/
def perform : LedgerCall → Ledgers → Result (Bool × Ledgers)
  | declare (.capacity c) snapshot now, l => do
    let (changed, capacity) ← l.capacity.apply c snapshot now
    pure (changed, { l with capacity })
  | declare (.path p) snapshot now, l => do
    let (changed, paths) ← l.paths.apply p snapshot now
    pure (changed, { l with paths })
  | declare (.policy r) _ _, l => do
    let (changed, policies) ← l.policies.apply r
    pure (changed, { l with policies })
  | withdraw resource now, l => do
    let capacity ← l.capacity.withdraw resource now
    pure (!l.withdrawn (.resource resource), { l with capacity })
  | retire path now, l => do
    let paths ← l.paths.retire path now
    pure (!l.paths[path]?.any PathEntry.retired, { l with paths })

end LedgerCall

/-- The tables after a call; a refused call leaves them as they are. -/
def Ledgers.step (l : Ledgers) (call : LedgerCall) : Ledgers :=
  match call.perform l with
  | .ok (_, l') => l'
  | .error _ => l

/-- The tables after a sequence of calls. -/
abbrev Ledgers.run (calls : List LedgerCall) : Ledgers := after Ledgers.step {} calls

/-! ## What a call does -/

namespace Ledgers

variable {l l' : Ledgers} {changed : Bool} {snapshot : CapacitySnapshotId} {now : Timestamp}

/-- Nothing but the slot of a statement follows from its declaration. -/
structure Declared (l : Ledgers) (a : Statement) (changed : Bool) (l' : Ledgers) : Prop where
  valid : a.validate = .ok ()
  slot : Slot.Declares (fun a b => Statement.same a b = true) a.generation a (l.withdrawn a.name)
    (l.slot a.name) changed (l'.slot a.name)
  elsewhere : ∀ n ≠ a.name, l'.slot n = l.slot n
  restored : l'.withdrawn a.name = false
  idle : changed = false → l' = l

@[simp] theorem slot_insertCapacity (n : ResourceName) (e : CapacityEntry) (name : LedgerName) :
    slot { l with capacity := l.capacity.insert n e } name =
      if name = .resource n then some e.slot else l.slot name := by
  cases name with
  | resource m =>
    by_cases same : m = n
    · subst same
      simp [slot]
    · simp [slot, same]
  | path m => simp [slot]
  | policy m => simp [slot]

@[simp] theorem slot_insertPath (n : PathName) (e : PathEntry) (name : LedgerName) :
    slot { l with paths := l.paths.insert n e } name =
      if name = .path n then some e.slot else l.slot name := by
  cases name with
  | resource m => simp [slot]
  | path m =>
    by_cases same : m = n
    · subst same
      simp [slot]
    · simp [slot, same]
  | policy m => simp [slot]

@[simp] theorem slot_insertPolicy (n : PolicyName) (e : PolicyEntry) (name : LedgerName) :
    slot { l with policies := l.policies.insert n e } name =
      if name = .policy n then some e.slot else l.slot name := by
  cases name with
  | resource m => simp [slot]
  | path m => simp [slot]
  | policy m =>
    by_cases same : m = n
    · subst same
      simp [slot]
    · simp [slot, same]

/-- A declaration that writes the entry of its name. -/
theorem Declared.insert {a : Statement} {s : Slot Counter Statement} (valid : a.validate = .ok ())
    (slots : ∀ n, l'.slot n = if n = a.name then some s else l.slot n)
    (restored : l'.withdrawn a.name = false)
    (h : Slot.Declares (fun a b => Statement.same a b = true) a.generation a (l.withdrawn a.name)
      (l.slot a.name) true (some s)) : l.Declared a true l' :=
  ⟨valid, by rwa [slots, if_pos rfl], fun n other => by rw [slots, if_neg other], restored,
    fun no => absurd no (by simp)⟩

/-- A declaration that finds itself in force. -/
theorem Declared.repeated {a : Statement} {s : Slot Counter Statement} (valid : a.validate = .ok ())
    (stood : l.slot a.name = some s) (there : l.withdrawn a.name = false)
    (current : a.generation = s.generation) (equal : a.same s.stated = true) :
    l.Declared a false l := by
  refine ⟨valid, ?_, fun _ _ => rfl, there, fun _ => rfl⟩
  rw [stood, there]
  exact .again s current equal

theorem declared_capacity {c : ResourceCapacity} {t : CapacityLedger}
    (ok : l.capacity.apply c snapshot now = .ok (changed, t)) :
    l.Declared (.capacity c) changed { l with capacity := t } := by
  obtain ⟨⟨⟩, valid, ok⟩ := Result.bind_eq_ok.mp ok
  have stood : l.slot (.resource c.resource) = l.capacity[c.resource]?.map CapacityEntry.slot := rfl
  have was : l.withdrawn (.resource c.resource) =
    l.capacity[c.resource]?.any CapacityEntry.withdrawn := rfl
  cases at' : l.capacity[c.resource]? with
  | none =>
    rw [at'] at ok stood
    obtain ⟨rfl, rfl⟩ := Prod.mk.inj (Except.ok.inj ok)
    refine .insert valid (slot_insertCapacity _ _) (by simp [withdrawn, Statement.name]) ?_
    simp only [Statement.name, stood, Option.map_none]
    exact .first
  | some e =>
    rw [at'] at ok stood was
    dsimp only at ok
    split at ok
    · rename_i current
      split at ok
      · rename_i equal
        split at ok
        · rename_i gone
          obtain ⟨rfl, rfl⟩ := Prod.mk.inj (Except.ok.inj ok)
          refine .insert valid (slot_insertCapacity _ _) (by simp [withdrawn, Statement.name]) ?_
          have gone' : l.withdrawn (.resource c.resource) = true := was.trans gone
          simp only [Statement.name, stood, gone', Option.map_some]
          exact .again e.slot current (decide_eq_true equal)
        · rename_i there
          obtain ⟨rfl, rfl⟩ := Prod.mk.inj (Except.ok.inj ok)
          exact .repeated valid stood (was.trans (Bool.eq_false_iff.mpr there)) current
            (decide_eq_true equal)
      · cases ok
    · split at ok
      · cases ok
      · rename_i unequal notEarlier
        obtain ⟨rfl, rfl⟩ := Prod.mk.inj (Except.ok.inj ok)
        refine .insert valid (slot_insertCapacity _ _) (by simp [withdrawn, Statement.name]) ?_
        simp only [Statement.name, stood, Option.map_some]
        exact .later e.slot (lt_of_le_of_ne (le_of_not_gt notEarlier) (Ne.symm unequal))

theorem declared_path {p : PathAuthority} {t : PathTable}
    (ok : l.paths.apply p snapshot now = .ok (changed, t)) :
    l.Declared (.path p) changed { l with paths := t } := by
  obtain ⟨⟨⟩, valid, ok⟩ := Result.bind_eq_ok.mp ok
  have stood : l.slot (.path p.path) = l.paths[p.path]?.map PathEntry.slot := rfl
  have was : l.withdrawn (.path p.path) = l.paths[p.path]?.any PathEntry.withdrawn := rfl
  cases at' : l.paths[p.path]? with
  | none =>
    rw [at'] at ok stood
    obtain ⟨rfl, rfl⟩ := Prod.mk.inj (Except.ok.inj ok)
    refine .insert valid (slot_insertPath _ _)
      (by simp [withdrawn, PathEntry.withdrawn, Statement.name]) ?_
    simp only [Statement.name, stood, Option.map_none]
    exact .first
  | some e =>
    rw [at'] at ok stood was
    dsimp only at ok
    split at ok
    · rename_i current
      split at ok
      · rename_i equal
        -- The comparison reads `retired`, so the entry is as the statement in force says or as
        -- the repeated one says.
        have retired : p.retired = e.path.retired := by
          have core := congrArg PathAuthority.retired (PathAuthority.same_iff.mp equal)
          exact core
        split at ok
        · rename_i there
          obtain ⟨rfl, rfl⟩ := Prod.mk.inj (Except.ok.inj ok)
          refine .repeated valid stood (was.trans ?_) current equal
          simp [PathEntry.withdrawn, there, retired]
        · rename_i gone
          obtain ⟨rfl, rfl⟩ := Prod.mk.inj (Except.ok.inj ok)
          refine .insert valid (slot_insertPath _ _)
            (by simp [withdrawn, PathEntry.withdrawn, Statement.name, retired]) ?_
          have gone' : l.withdrawn (.path p.path) = true := by
            rw [was, Option.any_some]
            simpa [PathEntry.withdrawn, retired] using gone
          simp only [Statement.name, stood, gone', Option.map_some]
          exact .again e.slot current equal
      · cases ok
    · split at ok
      · cases ok
      · rename_i unequal notEarlier
        obtain ⟨rfl, rfl⟩ := Prod.mk.inj (Except.ok.inj ok)
        refine .insert valid (slot_insertPath _ _)
          (by simp [withdrawn, PathEntry.withdrawn, Statement.name]) ?_
        simp only [Statement.name, stood, Option.map_some]
        exact .later e.slot (lt_of_le_of_ne (le_of_not_gt notEarlier) (Ne.symm unequal))

theorem declared_policy {r : PolicyRecord} {t : PolicyRegistry}
    (ok : l.policies.apply r = .ok (changed, t)) :
    l.Declared (.policy r) changed { l with policies := t } := by
  obtain ⟨⟨⟩, valid, ok⟩ := Result.bind_eq_ok.mp ok
  have stood : l.slot (.policy r.name) = l.policies[r.name]?.map PolicyEntry.slot := rfl
  cases at' : l.policies[r.name]? with
  | none =>
    rw [at'] at ok stood
    obtain ⟨rfl, rfl⟩ := Prod.mk.inj (Except.ok.inj ok)
    refine .insert valid (slot_insertPolicy _ _) rfl ?_
    simp only [Statement.name, stood, Option.map_none]
    exact .first
  | some e =>
    rw [at'] at ok stood
    dsimp only at ok
    split at ok
    · rename_i current
      split at ok
      · rename_i equal
        obtain ⟨rfl, rfl⟩ := Prod.mk.inj (Except.ok.inj ok)
        exact .repeated valid stood rfl current equal
      · cases ok
    · split at ok
      · cases ok
      · rename_i unequal notEarlier
        obtain ⟨rfl, rfl⟩ := Prod.mk.inj (Except.ok.inj ok)
        refine .insert valid (slot_insertPolicy _ _) rfl ?_
        simp only [Statement.name, stood, Option.map_some]
        exact .later e.slot (lt_of_le_of_ne (le_of_not_gt notEarlier) (Ne.symm unequal))

/-- **What an accepted declaration does.** -/
theorem declared {a : Statement}
    (ok : (LedgerCall.declare a snapshot now).perform l = .ok (changed, l')) :
    l.Declared a changed l' := by
  cases a with
  | capacity c =>
    obtain ⟨⟨changed', t⟩, applied, ok⟩ := Result.bind_eq_ok.mp ok
    obtain ⟨rfl, rfl⟩ := Prod.mk.inj (Except.ok.inj ok)
    exact declared_capacity applied
  | path p =>
    obtain ⟨⟨changed', t⟩, applied, ok⟩ := Result.bind_eq_ok.mp ok
    obtain ⟨rfl, rfl⟩ := Prod.mk.inj (Except.ok.inj ok)
    exact declared_path applied
  | policy r =>
    obtain ⟨⟨changed', t⟩, applied, ok⟩ := Result.bind_eq_ok.mp ok
    obtain ⟨rfl, rfl⟩ := Prod.mk.inj (Except.ok.inj ok)
    exact declared_policy applied

/-- The statement in force, declared again, is accepted. -/
theorem repeated_accepted {a : Statement} {s : Slot Counter Statement}
    (stood : l.slot a.name = some s) (current : a.generation = s.generation)
    (equal : a.same s.stated = true) (valid : a.validate = .ok ()) :
    ∃ r, (LedgerCall.declare a snapshot now).perform l = .ok r := by
  cases a with
  | capacity c =>
    obtain ⟨e, at', rfl⟩ := Option.map_eq_some_iff.mp stood
    have same : c = e.capacity := of_decide_eq_true equal
    have applied : ∃ r, l.capacity.apply c snapshot now = .ok r := by
      unfold CapacityLedger.apply
      rw [show validateCapacity c = .ok () from valid, at']
      simp only [bind, Except.bind, if_pos (show c.generation = e.capacity.generation from current),
        if_pos same]
      split <;> exact ⟨_, rfl⟩
    obtain ⟨r, applied⟩ := applied
    exact ⟨(r.1, { l with capacity := r.2 }), Result.bind_eq_ok.mpr ⟨r, applied, rfl⟩⟩
  | path p =>
    obtain ⟨e, at', rfl⟩ := Option.map_eq_some_iff.mp stood
    have applied : ∃ r, l.paths.apply p snapshot now = .ok r := by
      unfold PathTable.apply
      rw [show validatePath p = .ok () from valid, at']
      simp only [bind, Except.bind, if_pos (show p.generation = e.path.generation from current),
        if_pos (show p.same e.path = true from equal)]
      split <;> exact ⟨_, rfl⟩
    obtain ⟨r, applied⟩ := applied
    exact ⟨(r.1, { l with paths := r.2 }), Result.bind_eq_ok.mpr ⟨r, applied, rfl⟩⟩
  | policy r =>
    obtain ⟨e, at', rfl⟩ := Option.map_eq_some_iff.mp stood
    have applied : ∃ r', l.policies.apply r = .ok r' := by
      unfold PolicyRegistry.apply
      rw [show validatePolicy r = .ok () from valid, at']
      simp only [bind, Except.bind, if_pos (show r.generation = e.record.generation from current),
        if_pos (show r.same e.record = true from equal)]
      exact ⟨_, rfl⟩
    obtain ⟨r', applied⟩ := applied
    exact ⟨(r'.1, { l with policies := r'.2 }), Result.bind_eq_ok.mpr ⟨r', applied, rfl⟩⟩

/-- A withdrawal keeps every statement. -/
theorem withdraw_slot {resource : ResourceName}
    (ok : (LedgerCall.withdraw resource now).perform l = .ok (changed, l')) (n : LedgerName) :
    l'.slot n = l.slot n ∧ (changed = false → l' = l) := by
  obtain ⟨t, applied, ok⟩ := Result.bind_eq_ok.mp ok
  obtain ⟨rfl, rfl⟩ := Prod.mk.inj (Except.ok.inj ok)
  unfold CapacityLedger.withdraw at applied
  cases at' : l.capacity[resource]? with
  | none =>
    rw [at'] at applied
    cases applied
  | some e =>
    rw [at'] at applied
    dsimp only at applied
    split at applied
    · obtain rfl := Except.ok.inj applied
      exact ⟨rfl, fun _ => rfl⟩
    · rename_i there
      obtain rfl := Except.ok.inj applied
      constructor
      · rw [slot_insertCapacity]
        split
        · rename_i same
          rw [same]
          exact (congrArg (Option.map CapacityEntry.slot) at').symm
        · rfl
      · intro no
        have gone : l.withdrawn (.resource resource) = e.withdrawn := by
          simp [withdrawn, at']
        simp [gone, there] at no

/-- A retirement keeps every statement. -/
theorem retire_slot {path : PathName}
    (ok : (LedgerCall.retire path now).perform l = .ok (changed, l')) (n : LedgerName) :
    l'.slot n = l.slot n ∧ (changed = false → l' = l) := by
  obtain ⟨t, applied, ok⟩ := Result.bind_eq_ok.mp ok
  obtain ⟨rfl, rfl⟩ := Prod.mk.inj (Except.ok.inj ok)
  unfold PathTable.retire at applied
  cases at' : l.paths[path]? with
  | none =>
    rw [at'] at applied
    cases applied
  | some e =>
    rw [at'] at applied
    dsimp only at applied
    split at applied
    · obtain rfl := Except.ok.inj applied
      exact ⟨rfl, fun _ => rfl⟩
    · rename_i there
      obtain rfl := Except.ok.inj applied
      constructor
      · rw [slot_insertPath]
        split
        · rename_i same
          rw [same]
          exact (congrArg (Option.map PathEntry.slot) at').symm
        · rfl
      · intro no
        simp [there] at no

/-! ## Runs -/

/-- **Step lemma**: a call replaces the statement under a name by a later one, or not at all. -/
theorem step_becomes (l : Ledgers) (call : LedgerCall) (n : LedgerName) :
    Slot.Becomes (l.slot n) ((l.step call).slot n) := by
  unfold step
  cases performed : call.perform l with
  | error e => exact .same _
  | ok r =>
    obtain ⟨changed, l'⟩ := r
    cases call with
    | declare a snapshot now =>
      have done := declared performed
      by_cases same : n = a.name
      · rw [same]
        exact done.slot.becomes
      · dsimp only
        rw [done.elsewhere n same]
        exact .same _
    | withdraw resource now =>
      dsimp only
      rw [(withdraw_slot performed n).1]
      exact .same _
    | retire path now =>
      dsimp only
      rw [(retire_slot performed n).1]
      exact .same _

/-- A call that is refused, or that changes nothing, leaves the tables as they are. -/
theorem step_idle (l : Ledgers) (call : LedgerCall)
    (idle : ∀ l', call.perform l ≠ .ok (true, l')) : l.step call = l := by
  unfold step
  cases performed : call.perform l with
  | error e => rfl
  | ok r =>
    obtain ⟨changed, l'⟩ := r
    have unchanged : changed = false := by
      cases changed with
      | false => rfl
      | true => exact absurd performed (idle l')
    cases call with
    | declare a snapshot now => exact (declared performed).idle unchanged
    | withdraw resource now => exact (withdraw_slot performed (.resource resource)).2 unchanged
    | retire path now => exact (retire_slot performed (.path path)).2 unchanged

/-- Every slot is in order, and its statement passes its checks. -/
def Sound (l : Ledgers) : Prop :=
  ∀ n, ∀ s ∈ l.slot n, s.Ordered ∧ s.stated.validate = .ok ()

theorem sound_step {l : Ledgers} (h : l.Sound) (call : LedgerCall) : (l.step call).Sound := by
  intro n s mem
  refine ⟨(step_becomes l call n).ordered (fun t ht => (h n t ht).1) s mem, ?_⟩
  unfold step at mem
  cases performed : call.perform l with
  | error e =>
    rw [performed] at mem
    exact (h n s mem).2
  | ok r =>
    obtain ⟨changed, l'⟩ := r
    rw [performed] at mem
    cases call with
    | declare a snapshot now =>
      have done := declared performed
      by_cases same : n = a.name
      · obtain ⟨t, at', -, equal⟩ := done.slot.stated (Statement.same_iff.mpr rfl)
        rw [same, Option.mem_def, at'] at mem
        obtain rfl := Option.some.inj mem
        rw [← Statement.validate_same equal]
        exact done.valid
      · rw [Option.mem_def, done.elsewhere n same] at mem
        exact (h n s mem).2
    | withdraw resource now =>
      rw [Option.mem_def, (withdraw_slot performed n).1] at mem
      exact (h n s mem).2
    | retire path now =>
      rw [Option.mem_def, (retire_slot performed n).1] at mem
      exact (h n s mem).2

theorem sound_run (calls : List LedgerCall) : (run calls).Sound := by
  refine invariant_along step (P := fun _ _ => True) (I := Sound) (fun l call h _ => sound_step h call)
    ?_ (along_of_forall step fun _ _ => trivial)
  intro n s mem
  cases n <;> simp [slot] at mem

/-- **Run lemma**: what stands under a name outlasts what stood there. -/
theorem outlasts_after {l : Ledgers} {n : LedgerName} {s : Slot Counter Statement}
    (stood : l.slot n = some s) (calls : List LedgerCall) :
    ∃ t, (after step l calls).slot n = some t ∧ t.Outlasts s := by
  induction calls generalizing l s with
  | nil => exact ⟨s, stood, .refl s⟩
  | cons call calls ih =>
    have one := step_becomes l call n
    rw [stood] at one
    obtain ⟨t, at', lasts⟩ := one.outlasts
    obtain ⟨u, at'', lasts'⟩ := ih at'
    exact ⟨u, at'', lasts'.trans lasts⟩

/-- What a declaration of the generation in force does. -/
theorem redeclare {a : Statement} {s : Slot Counter Statement} (sound : l.Sound)
    (stood : l.slot a.name = some s) (current : a.generation = s.generation) :
    (a.same s.stated = false →
      ∃ e, (LedgerCall.declare a snapshot now).perform l = .error e) ∧
    (a.same s.stated = true → ∃ l',
      (LedgerCall.declare a snapshot now).perform l = .ok (l.withdrawn a.name, l') ∧
        l'.slot = l.slot ∧ l'.withdrawn a.name = false) := by
  constructor
  · intro differs
    cases performed : (LedgerCall.declare a snapshot now).perform l with
    | error e => exact ⟨e, rfl⟩
    | ok r =>
      have done := (declared performed).slot
      rw [stood] at done
      exact absurd ((done.current current).1.symm.trans differs) (by decide)
  · intro equal
    have valid : a.validate = .ok () :=
      (Statement.validate_same equal).trans (sound _ s stood).2
    obtain ⟨⟨changed, l'⟩, performed⟩ := repeated_accepted stood current equal valid
    have done := declared performed
    have kept := done.slot
    rw [stood] at kept
    obtain ⟨-, reported, there⟩ := kept.current current
    refine ⟨l', reported ▸ performed, funext fun n => ?_, done.restored⟩
    by_cases same : n = a.name
    · rw [same, there, stood]
    · exact done.elsewhere n same

/-- The tables accept the call. -/
def Accepts (l : Ledgers) (call : LedgerCall) : Prop := ∃ r, call.perform l = .ok r

end Ledgers

open Ledgers (run Accepts)

/-- **The ledgers never equivocate**, under any sequence of calls. -/
theorem ledgers_never_equivocate (calls : List LedgerCall) :
    -- The replaced generations are in order and below the one in force,
    (∀ n s, (run calls).slot n = some s →
      s.prior.Pairwise (· < ·) ∧ ∀ g ∈ s.prior, g < s.generation) ∧
    -- which never decreases,
    (∀ n s call, (run calls).slot n = some s →
      ∃ t, ((run calls).step call).slot n = some t ∧ s.generation ≤ t.generation) ∧
    -- and of which no two contents are ever accepted.
    (∀ a snapshot now later b snapshot' now', (run calls).Accepts (.declare a snapshot now) →
      (after Ledgers.step (run calls) (.declare a snapshot now :: later)).Accepts
        (.declare b snapshot' now') →
      a.name = b.name → a.generation = b.generation → a.same b = true) ∧
    -- Declaring the generation in force with other content is refused,
    (∀ a s snapshot now, (run calls).slot a.name = some s → a.generation = s.generation →
      a.same s.stated = false →
        ∃ e, (LedgerCall.declare a snapshot now).perform (run calls) = .error e) ∧
    -- and with the same content changes nothing, unless it has been withdrawn: then it is in force
    -- again.
    (∀ a s snapshot now, (run calls).slot a.name = some s → a.generation = s.generation →
      a.same s.stated = true → ∃ l', (LedgerCall.declare a snapshot now).perform (run calls) =
        .ok ((run calls).withdrawn a.name, l') ∧ l'.slot = (run calls).slot ∧
          l'.withdrawn a.name = false) ∧
    -- A call that is refused, or reports no change, leaves the tables as they are.
    ∀ call, (∀ l', call.perform (run calls) ≠ .ok (true, l')) → (run calls).step call = run calls := by
  have sound := Ledgers.sound_run calls
  refine ⟨fun n s stood => (sound n s stood).1, fun n s call stood => ?_, ?_,
    fun a s snapshot now stood current => (Ledgers.redeclare sound stood current).1,
    fun a s snapshot now stood current => (Ledgers.redeclare sound stood current).2,
    fun call => Ledgers.step_idle _ call⟩
  · obtain ⟨t, there, lasts⟩ := Ledgers.outlasts_after stood [call]
    exact ⟨t, there, lasts.1⟩
  · rintro a snapshot now later b snapshot' now' ⟨⟨changed, l'⟩, first⟩ ⟨⟨changed', l''⟩, second⟩
      name generation
    -- What the first declaration put in force is what the second one meets.
    obtain ⟨s, stood, current, equal⟩ :=
      (Ledgers.declared first).slot.stated (Statement.same_iff.mpr rfl)
    have stepped : (run calls).step (.declare a snapshot now) = l' := by
      unfold Ledgers.step
      rw [first]
    rw [after_cons, stepped] at second
    obtain ⟨t, meets, lasts⟩ := Ledgers.outlasts_after stood later
    have done := (Ledgers.declared second).slot
    rw [← name, meets] at done
    generalize l''.slot a.name = met at done
    cases done with
    | again _ current' equal' =>
      have still : t.generation = s.generation := by rw [← current', ← generation, current]
      rw [lasts.2 still] at equal'
      rw [Statement.same_iff] at equal equal' ⊢
      exact equal.trans equal'.symm
    | later _ later' =>
      rw [← generation, ← current] at later'
      exact absurd later' (not_lt.mpr lasts.1)

/-- Declaring a withdrawn resource again, with the same content, is a change. -/
theorem withdrawn_redeclared :
    ¬ ∀ (calls : List LedgerCall) (a : Statement) (s : Slot Counter Statement)
        (snapshot : CapacitySnapshotId) (now : Timestamp), (run calls).slot a.name = some s →
      a.generation = s.generation → a.same s.stated = true →
        ∃ l', (LedgerCall.declare a snapshot now).perform (run calls) = .ok (false, l') := by
  intro claim
  let link : Statement := .capacity
    { resource := FixedName.lit "link", generation := 1, reservableCapacity := 100 }
  obtain ⟨l', unchanged⟩ := claim [.declare link 1 2, .withdraw (FixedName.lit "link") 3] link
    ⟨1, link, []⟩ 1 4 (by decide +kernel) (by decide) (by decide)
  have changed : ((LedgerCall.declare link 1 4).perform
      (run [.declare link 1 2, .withdraw (FixedName.lit "link") 3])).toOption.map (·.1) =
        some true := by decide +kernel
  rw [unchanged] at changed
  exact Bool.noConfusion (Option.some.inj changed)

end Brf
