import Brf.Domains
import Brf.Durability
import Brf.Lib.Batch

/-!
# Ingestions that fail

The three ingestions change the tables in memory statement by statement and append the durable
record behind them, so a statement that is refused, or an append that fails, comes after others have
been applied.

* `CapacityLedger.declare` and `PathTable.declare` apply one statement; both are `Pointwise`, so the
  loops of the ingestions are batches.
* `Coordinator.AuthoritySame`: the tables, the records and the index are those from before.
* `Request.Harmless` and its siblings: the statements that are applied in front of the failure
  say what is in force already.

Results: `ingestion_atomic` (exactly when an ingestion that fails before its append leaves memory as
it was) and `refused_ingestion_applies`.
-/

namespace Brf

open Brf.Lib

/-! ## Statements as batches -/

/-- A resource is withdrawn. -/
def CapacityEntry.close (now : Timestamp) (e : CapacityEntry) : CapacityEntry :=
  if e.withdrawn then e else { e with withdrawn := true, withdrawnAt := now }

theorem CapacityEntry.close_close (now : Timestamp) (e : CapacityEntry) :
    (e.close now).close now = e.close now := by
  unfold close
  by_cases closed : e.withdrawn = true <;> simp [closed]

/-- An entry is as it was when it is opened and closed again at the time it was closed. -/
theorem CapacityEntry.close_reopened {e : CapacityEntry} (closed : e.withdrawn = true)
    (closedAt : e.withdrawnAt = e.ingestedAt) :
    ({ e with withdrawn := false } : CapacityEntry).close e.ingestedAt = e := by
  cases e
  simp_all [close]

namespace CapacityLedger

variable {ledger : CapacityLedger} {snapshot : CapacitySnapshotId} {now : Timestamp}

/-- One statement of a capacity snapshot. -/
def declare (snapshot : CapacitySnapshotId) (now : Timestamp) (ledger : CapacityLedger)
    (capacity : ResourceCapacity) : Result CapacityLedger :=
  (ledger.apply capacity snapshot now).map Prod.snd

theorem declare_ok {ledger' : CapacityLedger} {capacity : ResourceCapacity} :
    declare snapshot now ledger capacity = .ok ledger' ↔
      ∃ changed, ledger.apply capacity snapshot now = .ok (changed, ledger') := by
  unfold declare
  cases ledger.apply capacity snapshot now with
  | error e => simp [Except.map]
  | ok out =>
    obtain ⟨changed, t⟩ := out
    simp [Except.map]

theorem pointwise_declare (snapshot : CapacitySnapshotId) (now : Timestamp) :
    Pointwise ResourceCapacity.resource (declare snapshot now) where
  elsewhere ok n other := by
    obtain ⟨changed, applied⟩ := declare_ok.mp ok
    exact (apply_inForce applied).1 n other
  here {t t' u a} same ok := by
    obtain ⟨changed, applied⟩ := declare_ok.mp ok
    have inserted : ∀ {e : CapacityEntry},
        (true, t.insert a.resource e) = (changed, t') →
        ∃ u', (Except.ok (true, u.insert a.resource e) : Result (Bool × CapacityLedger)) =
          .ok (changed, u') ∧ u'[a.resource]? = t'[a.resource]? := by
      intro e made
      obtain ⟨rfl, rfl⟩ := Prod.mk.inj made
      exact ⟨_, rfl, by rw [Map.get_insert, Map.get_insert, if_pos rfl, if_pos rfl]⟩
    suffices applied' : ∃ u', CapacityLedger.apply u a snapshot now = .ok (changed, u') ∧
        u'[a.resource]? = t'[a.resource]? by
      obtain ⟨u', ok', entry⟩ := applied'
      exact ⟨u', declare_ok.mpr ⟨changed, ok'⟩, entry⟩
    unfold CapacityLedger.apply at applied ⊢
    rw [same]
    obtain ⟨⟨⟩, valid, applied⟩ := Result.bind_eq_ok.mp applied
    rw [valid]
    cases there : t[a.resource]? with
    | none =>
      rw [there] at applied
      exact inserted (Except.ok.inj applied)
    | some entry =>
      rw [there] at applied
      dsimp only [Bind.bind, Except.bind] at applied ⊢
      split at applied
      · rename_i current
        rw [if_pos current]
        split at applied
        · rename_i equal
          rw [if_pos equal]
          split at applied
          · rename_i closed
            rw [if_pos closed]
            exact inserted (Except.ok.inj applied)
          · rename_i closed
            rw [if_neg closed]
            obtain ⟨rfl, rfl⟩ := Prod.mk.inj (Except.ok.inj applied)
            exact ⟨u, rfl, by rw [same]⟩
        · cases applied
      · rename_i other
        rw [if_neg other]
        split at applied
        · cases applied
        · rename_i newer
          rw [if_neg newer]
          exact inserted (Except.ok.inj applied)

/-- A statement is sound, and repeats or outdates what is known of its resource. -/
def accepts (ledger : CapacityLedger) (capacity : ResourceCapacity) : Bool :=
  (validateCapacity capacity).toBool && (ledger[capacity.resource]?).all fun e =>
    capacity = e.capacity || e.capacity.generation < capacity.generation

theorem declare_toBool (snapshot : CapacitySnapshotId) (now : Timestamp) (ledger : CapacityLedger)
    (capacity : ResourceCapacity) :
    (declare snapshot now ledger capacity).toBool = ledger.accepts capacity := by
  unfold declare CapacityLedger.apply accepts
  cases validateCapacity capacity with
  | error e => rfl
  | ok =>
    cases there : ledger[capacity.resource]? with
    | none => rfl
    | some entry =>
      dsimp only [Bind.bind, Except.bind]
      by_cases equal : capacity = entry.capacity
      · by_cases closed : entry.withdrawn = true <;>
          simp [equal, closed, Except.map, Except.toBool, pure, Except.pure]
      · by_cases current : capacity.generation = entry.capacity.generation
        · simp [equal, current, Except.map, Except.toBool, throw, throwThe, MonadExceptOf.throw]
        · by_cases older : capacity.generation < entry.capacity.generation
          · simp [equal, current, older, not_lt.mpr older.le, Except.map, Except.toBool, throw,
              throwThe, MonadExceptOf.throw]
          · have newer := lt_of_le_of_ne (not_lt.mp older) (Ne.symm current)
            simp [equal, current, older, newer, Except.map, Except.toBool, pure, Except.pure]

/-- A statement that is taken is in force; a repeated one opens the entry it finds. -/
theorem declare_entry {ledger' : CapacityLedger} {capacity : ResourceCapacity}
    (ok : declare snapshot now ledger capacity = .ok ledger') :
    ∃ e', ledger'[capacity.resource]? = some e' ∧ e'.withdrawn = false ∧ e'.capacity = capacity ∧
      ∀ e, ledger[capacity.resource]? = some e → e.capacity = capacity →
        e' = if e.withdrawn then { e with withdrawn := false, snapshot, ingestedAt := now } else e := by
  obtain ⟨changed, applied⟩ := declare_ok.mp ok
  unfold CapacityLedger.apply at applied
  obtain ⟨⟨⟩, -, applied⟩ := Result.bind_eq_ok.mp applied
  cases there : ledger[capacity.resource]? with
  | none =>
    rw [there] at applied
    obtain ⟨-, rfl⟩ := Prod.mk.inj (Except.ok.inj applied)
    exact ⟨_, by rw [Map.get_insert, if_pos rfl], rfl, rfl, fun _ no => (nomatch no)⟩
  | some entry =>
    rw [there] at applied
    dsimp only at applied
    split at applied
    · split at applied
      · rename_i equal
        split at applied
        · rename_i closed
          obtain ⟨-, rfl⟩ := Prod.mk.inj (Except.ok.inj applied)
          let opened : CapacityEntry :=
            { entry with withdrawn := false, snapshot, ingestedAt := now }
          refine ⟨opened, by rw [Map.get_insert, if_pos rfl], rfl, equal.symm, fun e same _ => ?_⟩
          obtain rfl := Option.some.inj same
          rw [if_pos closed]
        · rename_i closed
          obtain ⟨-, rfl⟩ := Prod.mk.inj (Except.ok.inj applied)
          refine ⟨entry, there, by simpa using closed, equal.symm, fun e same _ => ?_⟩
          obtain rfl := Option.some.inj same
          rw [if_neg closed]
      · cases applied
    · rename_i other
      split at applied
      · cases applied
      · obtain ⟨-, rfl⟩ := Prod.mk.inj (Except.ok.inj applied)
        refine ⟨_, by rw [Map.get_insert, if_pos rfl], rfl, rfl, fun e same equal => ?_⟩
        obtain rfl := Option.some.inj same
        exact absurd (congrArg ResourceCapacity.generation equal).symm other

theorem withdraw_ok {name : ResourceName} :
    (∀ ledger', ledger.withdraw name now = .ok ledger' →
      ∀ n, ledger'[n]? = if n = name then ledger[n]?.map (CapacityEntry.close now) else ledger[n]?) ∧
    ∀ e, ledger.withdraw name now = .error e → e.code = .notFound ∧ ledger[name]? = none := by
  unfold CapacityLedger.withdraw
  cases there : ledger[name]? with
  | none =>
    refine ⟨fun _ no => (nomatch no), fun e refused => ?_⟩
    rw [← Except.error.inj refused]
    exact ⟨rfl, rfl⟩
  | some entry =>
    dsimp only
    by_cases closed : entry.withdrawn = true
    · rw [if_pos closed]
      refine ⟨fun ledger' ok n => ?_, fun _ no => (nomatch no)⟩
      obtain rfl := Except.ok.inj ok
      by_cases own : n = name
      · rw [if_pos own, own, there, Option.map_some]
        simp [CapacityEntry.close, closed]
      · rw [if_neg own]
    · rw [if_neg closed]
      refine ⟨fun ledger' ok n => ?_, fun _ no => (nomatch no)⟩
      obtain rfl := Except.ok.inj ok
      rw [Map.get_insert]
      by_cases own : n = name
      · rw [if_pos own, if_pos own, own, there, Option.map_some]
        simp [CapacityEntry.close, closed]
      · rw [if_neg own, if_neg own]

/-- The statements in front of the first that is refused are in force, and every resource that is
withdrawn with them is withdrawn. An entry that is withdrawn already is opened by a statement of it
and closed by a withdrawal: it is the same if it was closed by this snapshot at this time. -/
def Unmoved (ledger : CapacityLedger) (snapshot : CapacitySnapshotId) (now : Timestamp)
    (stated : List ResourceCapacity) (withdrawals : List ResourceName) : Prop :=
  let taken := stated.takeWhile ledger.accepts
  let closing := if taken = stated then withdrawals else []
  (∀ a ∈ taken, ∃ e, ledger[a.resource]? = some e ∧ e.capacity = a ∧
      (e.withdrawn = false ∨ a.resource ∈ closing ∧ e.snapshot = snapshot ∧ e.ingestedAt = now ∧
        e.withdrawnAt = now)) ∧
    ∀ n ∈ closing, ∀ e, ledger[n]? = some e → e.withdrawn = true

theorem taken_eq (snapshot : CapacitySnapshotId) (now : Timestamp) (ledger : CapacityLedger)
    (stated : List ResourceCapacity) :
    taken (declare snapshot now) ledger stated = stated.takeWhile ledger.accepts :=
  congrArg (List.takeWhile · stated) (funext fun a => declare_toBool snapshot now ledger a)

/-- **The loops leave the ledger as it was** exactly if it is `Unmoved`. -/
theorem loops_same {ledger' : CapacityLedger} {stated : List ResourceCapacity}
    {withdrawals closing : List ResourceName}
    (distinct : (stated.map ResourceCapacity.resource).Nodup)
    (closes : closing = if stated.takeWhile ledger.accepts = stated then withdrawals else [])
    (tells : ∀ n, ledger'[n]? =
      if n ∈ closing then (batch (declare snapshot now) stated ledger).2[n]?.map
        (CapacityEntry.close now)
      else (batch (declare snapshot now) stated ledger).2[n]?) :
    ledger' = ledger ↔ ledger.Unmoved snapshot now stated withdrawals := by
  have pointwise := pointwise_declare snapshot now
  unfold Unmoved
  dsimp only
  rw [← closes, ← taken_eq snapshot now]
  constructor
  · rintro rfl
    constructor
    · intro a mem
      obtain ⟨t', ok, left⟩ := batch_taken pointwise distinct a mem
      obtain ⟨e', made, opened, equal, repeats⟩ := declare_entry ok
      have own := tells a.resource
      rw [left, made] at own
      by_cases closed : a.resource ∈ closing
      · rw [if_pos closed, Option.map_some] at own
        have stamped : e'.close now = { e' with withdrawn := true, withdrawnAt := now } := by
          unfold CapacityEntry.close
          rw [if_neg (by simp [opened])]
        rw [stamped] at own
        refine ⟨_, own, equal, .inr ⟨closed, ?_⟩⟩
        have again := repeats _ own equal
        rw [if_pos rfl] at again
        have := congrArg CapacityEntry.snapshot again
        have := congrArg CapacityEntry.ingestedAt again
        exact ⟨‹_›, ‹_›, rfl⟩
      · rw [if_neg closed] at own
        exact ⟨e', own, equal, .inl opened⟩
    · intro n closed e there
      have own := tells n
      rw [if_pos closed, there] at own
      obtain ⟨b, -, rfl⟩ := Option.map_eq_some_iff.mp own.symm
      unfold CapacityEntry.close
      split
      · assumption
      · rfl
  · rintro ⟨inForce, ends⟩
    refine Map.ext_get fun n => ?_
    rw [tells n]
    by_cases own : n ∈ (taken (declare snapshot now) ledger stated).map ResourceCapacity.resource
    · obtain ⟨a, mem, rfl⟩ := List.mem_map.mp own
      obtain ⟨t', ok, left⟩ := batch_taken pointwise distinct a mem
      obtain ⟨e', made, opened, -, repeats⟩ := declare_entry ok
      obtain ⟨e, there, equal, state⟩ := inForce a mem
      have again := repeats e there equal
      rw [left, made, there]
      by_cases closed : a.resource ∈ closing
      · have shut := ends _ closed e there
        rw [if_pos shut] at again
        rcases state with no | ⟨-, rfl, rfl, closedAt⟩
        · simp [shut] at no
        · rw [if_pos closed, again, Option.map_some, CapacityEntry.close_reopened shut closedAt]
      · rcases state with standing | ⟨no, -⟩
        · rw [if_neg (by simp [standing])] at again
          rw [if_neg closed, again]
        · exact absurd no closed
    · rw [batch_elsewhere pointwise distinct own]
      by_cases closed : n ∈ closing
      · rw [if_pos closed]
        cases there : ledger[n]? with
        | none => rfl
        | some e => simp [CapacityEntry.close, ends n closed e there]
      · rw [if_neg closed]

end CapacityLedger

namespace PathTable

/-- One statement of a path snapshot. -/
def declare (snapshot : CapacitySnapshotId) (now : Timestamp) (table : PathTable)
    (path : PathAuthority) : Result PathTable :=
  (table.apply path snapshot now).map Prod.snd

theorem declare_ok {snapshot : CapacitySnapshotId} {now : Timestamp} {table table' : PathTable}
    {path : PathAuthority} : declare snapshot now table path = .ok table' ↔
      ∃ changed, table.apply path snapshot now = .ok (changed, table') := by
  unfold declare
  cases table.apply path snapshot now with
  | error e => simp [Except.map]
  | ok out =>
    obtain ⟨changed, t⟩ := out
    simp [Except.map]

theorem pointwise_declare (snapshot : CapacitySnapshotId) (now : Timestamp) :
    Pointwise PathAuthority.path (declare snapshot now) where
  elsewhere ok n other := by
    obtain ⟨changed, applied⟩ := declare_ok.mp ok
    exact Coordinator.apply_other applied other
  here {t t' u a} same ok := by
    obtain ⟨changed, applied⟩ := declare_ok.mp ok
    have inserted : ∀ {e : PathEntry}, (true, t.insert a.path e) = (changed, t') →
        ∃ u', (Except.ok (true, u.insert a.path e) : Result (Bool × PathTable)) =
          .ok (changed, u') ∧ u'[a.path]? = t'[a.path]? := by
      intro e made
      obtain ⟨rfl, rfl⟩ := Prod.mk.inj made
      exact ⟨_, rfl, by rw [Map.get_insert, Map.get_insert, if_pos rfl, if_pos rfl]⟩
    suffices applied' : ∃ u', PathTable.apply u a snapshot now = .ok (changed, u') ∧
        u'[a.path]? = t'[a.path]? by
      obtain ⟨u', ok', entry⟩ := applied'
      exact ⟨u', declare_ok.mpr ⟨changed, ok'⟩, entry⟩
    unfold PathTable.apply at applied ⊢
    rw [same]
    obtain ⟨⟨⟩, valid, applied⟩ := Result.bind_eq_ok.mp applied
    rw [valid]
    cases there : t[a.path]? with
    | none =>
      rw [there] at applied
      exact inserted (Except.ok.inj applied)
    | some entry =>
      rw [there] at applied
      dsimp only [Bind.bind, Except.bind] at applied ⊢
      split at applied
      · rename_i current
        rw [if_pos current]
        split at applied
        · rename_i equal
          rw [if_pos equal]
          split at applied
          · rename_i standing
            rw [if_pos standing]
            obtain ⟨rfl, rfl⟩ := Prod.mk.inj (Except.ok.inj applied)
            exact ⟨u, rfl, by rw [same]⟩
          · rename_i standing
            rw [if_neg standing]
            exact inserted (Except.ok.inj applied)
        · cases applied
      · rename_i other
        rw [if_neg other]
        split at applied
        · cases applied
        · rename_i newer
          rw [if_neg newer]
          exact inserted (Except.ok.inj applied)

/-- A statement is sound, and repeats or outdates what is known of its path. -/
def accepts (table : PathTable) (path : PathAuthority) : Bool :=
  (validatePath path).toBool && (table[path.path]?).all fun e =>
    path.same e.path || e.path.generation < path.generation

/-- The statement of a path is in force. -/
def states (table : PathTable) (path : PathAuthority) : Bool :=
  (table[path.path]?).any fun e => path.same e.path && e.retired = path.retired

theorem same_generation {a b : PathAuthority} (same : a.same b = true) :
    a.generation = b.generation := by
  have whole : a = { b with issuedAt := a.issuedAt } := of_decide_eq_true same
  have generation := congrArg PathAuthority.generation whole
  exact generation

theorem declare_toBool (snapshot : CapacitySnapshotId) (now : Timestamp) (table : PathTable)
    (path : PathAuthority) : (declare snapshot now table path).toBool = table.accepts path := by
  unfold declare PathTable.apply accepts
  cases validatePath path with
  | error e => rfl
  | ok =>
    cases there : table[path.path]? with
    | none => rfl
    | some entry =>
      dsimp only [Bind.bind, Except.bind]
      by_cases equal : path.same entry.path = true
      · by_cases standing : entry.retired = path.retired <;>
          simp [equal, same_generation equal, standing, Except.map, Except.toBool, pure, Except.pure]
      · by_cases current : path.generation = entry.path.generation
        · simp [equal, current, Except.map, Except.toBool, throw, throwThe, MonadExceptOf.throw]
        · by_cases older : path.generation < entry.path.generation
          · simp [equal, current, older, not_lt.mpr older.le, Except.map, Except.toBool, throw,
              throwThe, MonadExceptOf.throw]
          · have newer := lt_of_le_of_ne (not_lt.mp older) (Ne.symm current)
            simp [equal, current, older, newer, Except.map, Except.toBool, pure, Except.pure]

/-- A statement that is taken leaves the table as it was exactly if it is in force. -/
theorem declare_same {snapshot : CapacitySnapshotId} {now : Timestamp} {table table' : PathTable}
    {path : PathAuthority} (ok : declare snapshot now table path = .ok table') :
    table' = table ↔ table.states path = true := by
  have written : ∀ {e : PathEntry}, table.insert path.path e = table → table[path.path]? = some e :=
    fun same => by rw [← same, Map.get_insert, if_pos rfl]
  obtain ⟨changed, applied⟩ := declare_ok.mp ok
  unfold PathTable.apply at applied
  obtain ⟨⟨⟩, -, applied⟩ := Result.bind_eq_ok.mp applied
  unfold states
  cases there : table[path.path]? with
  | none =>
    rw [there] at applied
    obtain ⟨-, rfl⟩ := Prod.mk.inj (Except.ok.inj applied)
    simpa using fun same => by simpa [there] using written same
  | some entry =>
    rw [there] at applied
    dsimp only at applied
    split at applied
    · split at applied
      · rename_i equal
        split at applied
        · rename_i standing
          obtain ⟨-, rfl⟩ := Prod.mk.inj (Except.ok.inj applied)
          simp [equal, standing]
        · rename_i moved
          obtain ⟨-, rfl⟩ := Prod.mk.inj (Except.ok.inj applied)
          refine ⟨fun same => absurd ?_ moved, fun no => absurd no (by simp [moved])⟩
          have own := written same
          rw [there] at own
          exact congrArg PathEntry.retired (Option.some.inj own)
      · cases applied
    · rename_i other
      split at applied
      · cases applied
      · obtain ⟨-, rfl⟩ := Prod.mk.inj (Except.ok.inj applied)
        constructor
        · intro same
          have own := written same
          rw [there] at own
          exact absurd (congrArg (·.path.generation) (Option.some.inj own)).symm other
        · intro states
          simp only [Option.any_some, Bool.and_eq_true] at states
          exact absurd (same_generation states.1) other

theorem taken_eq (snapshot : CapacitySnapshotId) (now : Timestamp) (table : PathTable)
    (stated : List PathAuthority) :
    taken (declare snapshot now) table stated = stated.takeWhile table.accepts :=
  congrArg (List.takeWhile · stated) (funext fun p => declare_toBool snapshot now table p)

/-- **The loop leaves the table as it was** exactly if the statements in front of the first that is
refused are in force. -/
theorem loop_same (snapshot : CapacitySnapshotId) (now : Timestamp) {table : PathTable}
    {stated : List PathAuthority} (distinct : (stated.map PathAuthority.path).Nodup) :
    (batch (declare snapshot now) stated table).2 = table ↔
      ∀ p ∈ stated.takeWhile table.accepts, table.states p = true := by
  rw [batch_same (pointwise_declare snapshot now) distinct, taken_eq]
  refine forall₂_congr fun p mem => ?_
  have accepted := List.all_eq_true.mp List.all_takeWhile p mem
  rw [← declare_toBool snapshot now] at accepted
  cases ok : declare snapshot now table p with
  | error e =>
    rw [ok] at accepted
    cases accepted
  | ok table' =>
    rw [← declare_same ok]
    exact ⟨Except.ok.inj, congrArg Except.ok⟩

end PathTable

namespace PolicyRegistry

/-- A policy is sound, and repeats or outdates what is known under its name. -/
def accepts (registry : PolicyRegistry) (record : PolicyRecord) : Bool :=
  (validatePolicy record).toBool && (registry[record.name]?).all fun e =>
    record.same e.record || e.record.generation < record.generation

/-- A policy that is accepted either is in force or changes the registry. -/
theorem apply_changes {registry registry' : PolicyRegistry} {record : PolicyRecord}
    (ok : registry.apply record = .ok (true, registry')) : registry' ≠ registry := by
  intro same
  have written : ∀ {e : PolicyEntry}, registry.insert record.name e = registry →
      registry[record.name]? = some e :=
    fun same => by rw [← same, Map.get_insert, if_pos rfl]
  unfold PolicyRegistry.apply at ok
  obtain ⟨⟨⟩, -, ok⟩ := Result.bind_eq_ok.mp ok
  cases there : registry[record.name]? with
  | none =>
    rw [there] at ok
    obtain ⟨-, rfl⟩ := Prod.mk.inj (Except.ok.inj ok)
    simpa [there] using written same
  | some entry =>
    rw [there] at ok
    dsimp only at ok
    split at ok
    · split at ok <;> cases ok
    · rename_i other
      split at ok
      · cases ok
      · obtain ⟨-, rfl⟩ := Prod.mk.inj (Except.ok.inj ok)
        have own := written same
        rw [there] at own
        exact other (congrArg (·.record.generation) (Option.some.inj own)).symm

theorem apply_toBool (registry : PolicyRegistry) (record : PolicyRecord) :
    (registry.apply record).toBool = registry.accepts record := by
  unfold PolicyRegistry.apply accepts
  cases validatePolicy record with
  | error e => rfl
  | ok =>
    cases there : registry[record.name]? with
    | none => rfl
    | some entry =>
      dsimp only [Bind.bind, Except.bind]
      by_cases equal : record.same entry.record = true
      · have whole : record = { entry.record with ingestedAt := record.ingestedAt } :=
          of_decide_eq_true equal
        have generation := congrArg PolicyRecord.generation whole
        have current : record.generation = entry.record.generation := generation
        simp [equal, current, Except.toBool, pure, Except.pure]
      · by_cases current : record.generation = entry.record.generation
        · simp [equal, current, Except.toBool, throw, throwThe, MonadExceptOf.throw]
        · by_cases older : record.generation < entry.record.generation
          · simp [equal, current, older, not_lt.mpr older.le, Except.toBool, throw, throwThe,
              MonadExceptOf.throw]
          · have newer := lt_of_le_of_ne (not_lt.mp older) (Ne.symm current)
            simp [equal, current, older, newer, Except.toBool, pure, Except.pure]

end PolicyRegistry

namespace Coordinator

/-! ## The loops -/

/-- The loop over the statements of a capacity snapshot is a batch. -/
theorem applyCapacities_batch (snapshot : CapacitySnapshotId) (now : Timestamp) :
    ∀ {items : List ResourceCapacity} {c : Coordinator},
      Op.Ensures (applyCapacities snapshot now items) c fun res c' =>
        c' = { c with ledger := (batch (CapacityLedger.declare snapshot now) items c.ledger).2 } ∧
        (res.toBool = true ↔ (batch (CapacityLedger.declare snapshot now) items c.ledger).1 = none)
  | [], c => ⟨rfl, fun _ => rfl, fun _ => rfl⟩
  | a :: items, c => by
    unfold applyCapacities batch
    apply Op.ensures_get_bind
    refine Op.ensures_lift_bind (fun out ok => ?_) fun e refused => ?_
    · obtain ⟨changed, ledger⟩ := out
      rw [CapacityLedger.declare_ok.mpr ⟨changed, ok⟩]
      apply Op.ensures_modify_bind
      apply Op.ensures_bind
      refine (applyCapacities_batch snapshot now (c := { c with ledger })).mono ?_
      rintro (e | applied) c' ⟨rfl, fails⟩
      · exact ⟨rfl, fails⟩
      · exact ⟨rfl, fails⟩
    · have declined : CapacityLedger.declare snapshot now c.ledger a = .error e := by
        unfold CapacityLedger.declare
        rw [refused]
        rfl
      rw [declined]
      exact ⟨rfl, by simp [Except.toBool]⟩

/-- The loop over the paths of a snapshot is a batch. -/
theorem applyPaths_batch (snapshot : CapacitySnapshotId) (now : Timestamp) :
    ∀ {items : List PathAuthority} {c : Coordinator},
      Op.Ensures (applyPaths snapshot now items) c fun res c' =>
        c' = { c with paths := (batch (PathTable.declare snapshot now) items c.paths).2 } ∧
        (res.toBool = true ↔ (batch (PathTable.declare snapshot now) items c.paths).1 = none)
  | [], c => ⟨rfl, fun _ => rfl, fun _ => rfl⟩
  | a :: items, c => by
    unfold applyPaths batch
    apply Op.ensures_get_bind
    refine Op.ensures_lift_bind (fun out ok => ?_) fun e refused => ?_
    · obtain ⟨changed, paths⟩ := out
      rw [PathTable.declare_ok.mpr ⟨changed, ok⟩]
      apply Op.ensures_modify_bind
      apply Op.ensures_bind
      refine (applyPaths_batch snapshot now (c := { c with paths })).mono ?_
      rintro (e | applied) c' ⟨rfl, fails⟩
      · exact ⟨rfl, fails⟩
      · exact ⟨rfl, fails⟩
    · have declined : PathTable.declare snapshot now c.paths a = .error e := by
        unfold PathTable.declare
        rw [refused]
        rfl
      rw [declined]
      exact ⟨rfl, by simp [Except.toBool]⟩

/-- The loop over the withdrawals closes the entries they name, and does not fail. -/
theorem withdrawAll_closes (now : Timestamp) : ∀ {names : List ResourceName} {c : Coordinator},
    Op.Ensures (withdrawAll now names) c fun res c' => ∃ withdrawn ledger, res = .ok withdrawn ∧
      c' = { c with ledger } ∧ ∀ n, ledger[n]? =
        if n ∈ names then c.ledger[n]?.map (CapacityEntry.close now) else c.ledger[n]?
  | [], c => ⟨[], c.ledger, rfl, rfl, fun _ => by simp⟩
  | name :: names, c => by
    obtain ⟨closes, missing⟩ := @CapacityLedger.withdraw_ok c.ledger now name
    unfold withdrawAll
    apply Op.ensures_get_bind
    cases withdrawn : c.ledger.withdraw name now with
    | error e =>
      obtain ⟨code, absent⟩ := missing e withdrawn
      dsimp only
      refine Op.ensures_refuseIf_bind (fun _ => ?_) fun refused => ?_
      · refine (withdrawAll_closes now (c := c)).mono ?_
        rintro _ _ ⟨ws, ledger, rfl, rfl, tells⟩
        refine ⟨ws, ledger, rfl, rfl, fun n => ?_⟩
        rw [tells n]
        by_cases own : n = name
        · subst own
          simp [absent]
        · simp [own]
      · simp [code] at refused
    | ok ledger₁ =>
      have first := closes ledger₁ withdrawn
      dsimp only
      apply Op.ensures_modify_bind
      apply Op.ensures_bind
      refine (withdrawAll_closes now (c := { c with ledger := ledger₁ })).mono ?_
      rintro _ _ ⟨ws, ledger, rfl, rfl, tells⟩
      refine ⟨name :: ws, ledger, rfl, rfl, fun n => ?_⟩
      rw [tells n]
      dsimp only
      rw [first n]
      by_cases own : n = name
      · subst own
        by_cases again : n ∈ names
        · simp [again, Option.map_map, Function.comp_def, CapacityEntry.close_close]
        · simp [again]
      · simp [own]

/-! ## Failures -/

/-- The tables, the records and the index are those from before. -/
structure AuthoritySame (c c' : Coordinator) : Prop where
  ledger : c'.ledger = c.ledger
  paths : c'.paths = c.paths
  policies : c'.policies = c.policies
  records : c'.records = c.records
  index : c'.index = c.index

theorem AuthoritySame.refl (c : Coordinator) : AuthoritySame c c := ⟨rfl, rfl, rfl, rfl, rfl⟩

/-- The checks in front of the loops of a capacity ingestion pass. -/
structure ChecksCapacity (c : Coordinator) (stated : CapacitySnapshot) (context : RequestContext) :
    Prop where
  context : c.validateContext context false = .ok ()
  snapshot : c.checkCapacitySnapshot stated = .ok ()
  fresh : c.oldCapacitySnapshot stated = false
  distinct : hasAdjacentEqual (sorted (stated.resources.map ResourceCapacity.resource)) = false

theorem ChecksCapacity.nodup {c : Coordinator} {stated : CapacitySnapshot}
    {context : RequestContext} (h : c.ChecksCapacity stated context) :
    (stated.resources.map ResourceCapacity.resource).Nodup :=
  (sorted_perm _).nodup_iff.mp (nodup_of_sorted (List.pairwise_insertionSort _ _) h.distinct)

variable {c c' : Coordinator}

theorem Appended.later {d : DurableRecord} (h : Appended d c c') :
    c.store.lastSequence < c'.store.lastSequence := by
  obtain ⟨writable, faults, rfl⟩ := h
  exact (Store.lt_add_one writable.room).1

/-- What follows an append, if it is housekeeping, does not go back behind the append. -/
theorem Appended.not_early {d : DurableRecord} {c₁ c₂ c₃ : Coordinator} (h : Appended d c₁ c₂)
    (base : c₁.store = c.store) (idle : Idle c₃) (settled : Runs Housekeeping c₃ c')
    (saw : c₃.store = c₂.store) : c'.store.lastSequence ≠ c.store.lastSequence := by
  have later := h.later
  rw [base, ← saw] at later
  exact (later.trans_le (settled.sequence idle)).ne'

/-- A capacity ingestion that fails early leaves the ledger of its loops, and all else as it was. -/
theorem ensures_ingestCapacity_early (idle : Idle c) (now : Timestamp) (stated : CapacitySnapshot)
    (withdrawals : List ResourceName) (context : RequestContext) :
    Op.Ensures (ingestCapacity now stated withdrawals context) c fun res c' =>
      ∀ e, res = .error e → c'.store.lastSequence = c.store.lastSequence →
        (AuthoritySame c c' ↔ (c.ChecksCapacity stated context →
          c.ledger.Unmoved stated.id now stated.resources withdrawals)) := by
  have refused : ¬ c.ChecksCapacity stated context → ∀ {res : Except Error Unit}, ∀ e,
      res = .error e → c.store.lastSequence = c.store.lastSequence →
        (AuthoritySame c c ↔ (c.ChecksCapacity stated context →
          c.ledger.Unmoved stated.id now stated.resources withdrawals)) :=
    fun no _ _ _ _ => ⟨fun _ checks => absurd checks no, fun _ => .refl c⟩
  unfold ingestCapacity
  apply Op.ensures_get_bind
  refine Op.ensures_lift_bind (fun _ valid => ?_) fun e failed => refused fun checks => ?_
  swap
  · rw [checks.context] at failed
    cases failed
  refine Op.ensures_lift_bind (fun _ checked => ?_) fun e failed => refused fun checks => ?_
  swap
  · rw [checks.snapshot] at failed
    cases failed
  refine Op.ensures_ite (fun old => ?_) fun fresh => ?_
  · refine (Op.within_refuseIf (R := Eq) _ _ c).mono ?_
    rintro res _ rfl
    exact refused fun checks => by simp [checks.fresh] at old
  refine Op.ensures_refuseIf_bind (fun distinct => ?_) fun twice => refused fun checks => ?_
  swap
  · simp [checks.distinct] at twice
  have checks : c.ChecksCapacity stated context := ⟨valid, checked, by simpa using fresh, distinct⟩
  have pointwise := CapacityLedger.pointwise_declare stated.id now
  -- the ledger the loops leave decides; an append that fails leaves it, too
  have decides : ∀ {closing : List ResourceName} {ledger : CapacityLedger} {d : Coordinator},
      closing = (if stated.resources.takeWhile c.ledger.accepts = stated.resources
        then withdrawals else []) →
      (∀ n, ledger[n]? = if n ∈ closing then
          (batch (CapacityLedger.declare stated.id now) stated.resources c.ledger).2[n]?.map
            (CapacityEntry.close now)
        else (batch (CapacityLedger.declare stated.id now) stated.resources c.ledger).2[n]?) →
      FaultsOnly { c with ledger } d →
      (AuthoritySame c d ↔ (c.ChecksCapacity stated context →
        c.ledger.Unmoved stated.id now stated.resources withdrawals)) := by
    rintro closing ledger d closes tells ⟨faults, rfl⟩
    rw [forall_prop_of_true checks, ← CapacityLedger.loops_same checks.nodup closes tells]
    exact ⟨AuthoritySame.ledger, fun same => ⟨same, rfl, rfl, rfl, rfl⟩⟩
  refine Op.ensures_bind_run fun r c₁ first => ?_
  obtain ⟨rfl, complete⟩ := (applyCapacities_batch stated.id now (c := c)).of_run first
  rw [batch_error pointwise checks.nodup, CapacityLedger.taken_eq] at complete
  rcases r with e | applied
  · rintro _ - -
    have partly : stated.resources.takeWhile c.ledger.accepts ≠ stated.resources :=
      fun whole => absurd (complete.mpr whole) Bool.false_ne_true
    have none : ∀ n, n ∉ ([] : List ResourceName) := fun _ => List.not_mem_nil
    exact decides (by rw [if_neg partly]) (fun n => (if_neg (none n)).symm) ⟨c.store.faults, rfl⟩
  have whole := complete.mp rfl
  refine Op.ensures_bind_run fun r c₂ second => ?_
  obtain ⟨withdrawn, ledger, rfl, rfl, tells⟩ := (withdrawAll_closes now).of_run second
  dsimp only at tells ⊢
  refine Op.ensures_ite (fun _ => ?_) fun _ => ?_
  · rintro e no
    cases no
  apply Op.ensures_bind
  apply Op.ensures_discard
  refine (ensures_appendRecord _ _).mono ?_
  rintro (e | sequence) c₃ spec
  · rintro _ - -
    exact decides (by rw [if_pos whole]) tells spec
  · apply Op.ensures_modify_bind
    have takes : (Move.capacity now stated withdrawals applied withdrawn).Takes c
        (c₃.sawCapacity stated) :=
      ⟨checked, checks.fresh, distinct, _, _, c₃, first, second, spec.2, rfl⟩
    refine (ensures_settleCapacity (P := Housekeeping) (fun _ h _ => h) now _ _
      (fun _ made => made.housekeeping)).mono ?_
    intro res c' settled e failed early
    exact absurd early (spec.2.not_early rfl (idle_takes idle takes) settled rfl)

/-- An ingestion of paths that fails early leaves the table of its loop, and all else as it was. -/
theorem ensures_ingestPaths_early (idle : Idle c) (now : Timestamp)
    (stated : PathAuthoritySnapshot) (context : RequestContext) :
    Op.Ensures (ingestPaths now stated context) c fun res c' =>
      ∀ e, res = .error e → c'.store.lastSequence = c.store.lastSequence →
        (AuthoritySame c c' ↔ (c.validateContext context false = .ok () →
          c.checkPathSnapshot stated = .ok () →
          ∀ p ∈ stated.paths.takeWhile c.paths.accepts, c.paths.states p = true)) := by
  unfold ingestPaths
  apply Op.ensures_get_bind
  refine Op.ensures_lift_bind (fun _ valid => ?_) fun e failed _ _ _ =>
    ⟨fun _ valid => by simp [valid] at failed, fun _ => .refl c⟩
  refine Op.ensures_lift_bind (fun _ checked => ?_) fun e failed _ _ _ =>
    ⟨fun _ _ checked => by simp [checked] at failed, fun _ => .refl c⟩
  have decides : ∀ {d : Coordinator},
      FaultsOnly { c with
        paths := (batch (PathTable.declare stated.id now) stated.paths c.paths).2 } d →
      (AuthoritySame c d ↔ (c.validateContext context false = .ok () →
        c.checkPathSnapshot stated = .ok () →
        ∀ p ∈ stated.paths.takeWhile c.paths.accepts, c.paths.states p = true)) := by
    rintro d ⟨faults, rfl⟩
    rw [forall_prop_of_true valid, forall_prop_of_true checked,
      ← PathTable.loop_same stated.id now (nodup_of_checked checked)]
    exact ⟨AuthoritySame.paths, fun same => ⟨rfl, same, rfl, rfl, rfl⟩⟩
  refine Op.ensures_bind_run fun r c₁ first => ?_
  obtain ⟨rfl, -⟩ := (applyPaths_batch stated.id now (c := c)).of_run first
  rcases r with e | changed
  · rintro _ - -
    exact decides ⟨c.store.faults, rfl⟩
  refine Op.ensures_ite (fun _ => ?_) fun _ => fun e no => nomatch no
  apply Op.ensures_bind
  apply Op.ensures_discard
  refine (ensures_appendRecord _ _).mono ?_
  rintro (e | sequence) c₂ spec
  · rintro _ - -
    exact decides spec
  · apply Op.ensures_modify_bind
    have takes : (Move.paths now stated changed).Takes c (c₂.sawPaths stated) :=
      ⟨checked, _, c₂, first, spec.2, rfl⟩
    unfold settlePaths
    refine (Op.within_bind (R := Runs Housekeeping)
      (within_refreshApplicability (fun _ h => h) now true) (fun _ => ?_) _).mono ?_
    · exact within_fenceHolds (fun m h => h.housekeeping) now _ _
    · intro res c' settled e failed early
      exact absurd early (spec.2.not_early rfl (idle_takes idle takes) settled rfl)

/-- An ingestion of a policy that fails early leaves the registry it made, and all else as it was. -/
theorem ensures_ingestPolicy_early (idle : Idle c) (now : Timestamp) (record : PolicyRecord)
    (context : RequestContext) :
    Op.Ensures (ingestPolicy now record context) c fun res c' =>
      ∀ e, res = .error e → c'.store.lastSequence = c.store.lastSequence →
        (AuthoritySame c c' ↔ (c.validateContext context false = .ok () →
          c.policies.accepts record = false)) := by
  unfold ingestPolicy
  apply Op.ensures_get_bind
  refine Op.ensures_lift_bind (fun _ valid => ?_) fun e failed _ _ _ =>
    ⟨fun _ valid => by simp [valid] at failed, fun _ => .refl c⟩
  dsimp only
  rw [← PolicyRegistry.apply_toBool]
  refine Op.ensures_lift_bind (fun ⟨changed, policies⟩ applied => ?_) fun e failed _ _ _ =>
    ⟨fun _ _ => by rw [failed]; rfl, fun _ => .refl c⟩
  apply Op.ensures_modify_bind
  refine Op.ensures_ite (fun changes => ?_) fun _ => fun e no => nomatch no
  obtain rfl : changed = true := changes
  apply Op.ensures_bind
  apply Op.ensures_discard
  refine (ensures_appendRecord _ _).mono ?_
  rintro (e | sequence) c₁ spec
  · rintro _ - -
    obtain ⟨faults, rfl⟩ := spec
    constructor
    · exact fun same => absurd same.policies (PolicyRegistry.apply_changes applied)
    · intro refused
      rw [applied] at refused
      exact absurd (refused valid) (by simp [Except.toBool])
  · have takes : (Move.policy now record).Takes c c₁ := ⟨policies, c₁, applied, spec.2, rfl⟩
    have idle₁ := idle_takes idle takes
    have late : ∀ {d}, Runs Housekeeping c₁ d → d.store.lastSequence ≠ c.store.lastSequence :=
      fun settled => spec.2.not_early rfl idle₁ settled rfl
    refine Op.ensures_ite (fun _ => ?_) fun _ => fun e _ early => absurd early (late (.refl c₁))
    apply Op.ensures_get_bind
    refine (Op.within_each (R := Runs Housekeeping)
      (fun key => within_markPolicyChange trivial (fun _ => trivial) key) _ c₁).mono ?_
    exact fun res d settled e _ early => absurd early (late settled)

end Coordinator

namespace Request

/-- The request ingests capacity, paths or a policy. -/
def ingests : Request → Bool
  | ingestCapacity .. | ingestPaths .. | ingestPolicy .. => true
  | _ => false

/-- What the request applies in front of its append is in force already. -/
def Harmless (c : Coordinator) : Request → Prop
  | ingestCapacity now stated withdrawals context => c.ChecksCapacity stated context →
      c.ledger.Unmoved stated.id now stated.resources withdrawals
  | ingestPaths _ stated context => c.validateContext context false = .ok () →
      c.checkPathSnapshot stated = .ok () →
      ∀ p ∈ stated.paths.takeWhile c.paths.accepts, c.paths.states p = true
  | ingestPolicy _ record context => c.validateContext context false = .ok () →
      c.policies.accepts record = false
  | _ => True

end Request

/-- **An ingestion that fails before its append** leaves the tables, the records and the index as
they were exactly if what it had applied by then was in force already. -/
theorem ingestion_atomic {as : List Action} {c c' : Coordinator} {request : Request}
    {faults : List Bool} {e : Error} (h : System.run as = .up c) (ingests : request.ingests = true)
    (failed : System.serve c request faults = (.error e, c'))
    (early : c'.store.lastSequence = c.store.lastSequence) :
    Coordinator.AuthoritySame c c' ↔ request.Harmless c := by
  have idle : Coordinator.Idle (c.withFaults faults) :=
    System.idle_withFaults (System.reachable_idle h).1 faults
  have same : Coordinator.AuthoritySame (c.withFaults faults) c' ↔ Coordinator.AuthoritySame c c' :=
    ⟨fun s => ⟨s.ledger, s.paths, s.policies, s.records, s.index⟩,
      fun s => ⟨s.ledger, s.paths, s.policies, s.records, s.index⟩⟩
  have outcome : Coordinator.AuthoritySame (c.withFaults faults) c' ↔
      request.Harmless (c.withFaults faults) := by
    cases request with
    | ingestCapacity now stated withdrawals context =>
      exact (Coordinator.ensures_ingestCapacity_early idle now stated withdrawals context).of_run
        failed e rfl early
    | ingestPaths now stated context =>
      exact (Coordinator.ensures_ingestPaths_early idle now stated context).of_run failed e rfl early
    | ingestPolicy now record context =>
      exact (Coordinator.ensures_ingestPolicy_early idle now record context).of_run
        failed e rfl early
    | _ => cases ingests
  rw [← same, outcome]
  cases request with
  | ingestCapacity now stated withdrawals context =>
    have checks : (c.withFaults faults).ChecksCapacity stated context ↔
        c.ChecksCapacity stated context :=
      ⟨fun h => ⟨h.1, h.2, h.3, h.4⟩, fun h => ⟨h.1, h.2, h.3, h.4⟩⟩
    exact imp_congr_left checks
  | _ => exact Iff.rfl

namespace System.Sample

/-- The second statement of the snapshot is invalid. -/
def halfValid : Request :=
  .ingestCapacity 2
    { id := 11
      generation := 1
      resources := [resource,
        { resource with resource := FixedName.lit "other", reservableCapacity := 0 }] } []
    (context 1 0)

end System.Sample

open System.Sample in
theorem ingestion_atomic_halfValid :
    let c := (System.run [opened 0]).coordinator
    Coordinator.AuthoritySame c (System.serve c halfValid []).2 ↔ halfValid.Harmless c := by
  intro c
  have facts : (System.run [opened 0]).isUp = true ∧
      (System.serve c halfValid []).1.toBool = false ∧
      (System.serve c halfValid []).2.store.lastSequence = c.store.lastSequence := by
    decide +kernel
  obtain ⟨up, refused, early⟩ := facts
  rcases served : System.serve c halfValid [] with ⟨_ | answer, c'⟩
  · rw [served] at early
    exact ingestion_atomic (System.eq_up up) rfl served early
  · rw [served] at refused
    cases refused

open System.Sample in
/-- The refused snapshot leaves its first statement in the ledger. -/
theorem refused_ingestion_applies :
    ¬ ∀ (as : List Action) (c c' : Coordinator) (request : Request) (faults : List Bool) (e : Error),
      System.run as = .up c → request.ingests = true →
      System.serve c request faults = (.error e, c') →
      c'.store.lastSequence = c.store.lastSequence → Coordinator.AuthoritySame c c' := by
  intro claimed
  let c := (System.run [opened 0]).coordinator
  have facts : (System.run [opened 0]).isUp = true ∧
      (System.serve c halfValid []).1.toBool = false ∧
      (System.serve c halfValid []).2.store.lastSequence = c.store.lastSequence ∧
      c.ledger[resource.resource]? = none ∧
      ((System.serve c halfValid []).2.ledger[resource.resource]?).isSome = true := by
    decide +kernel
  obtain ⟨up, refused, early, unknown, known⟩ := facts
  rcases served : System.serve c halfValid [] with ⟨e | answer, c'⟩
  · rw [served] at early known
    have same := claimed _ c c' halfValid [] e (System.eq_up up) rfl served early
    rw [same.ledger, unknown] at known
    cases known
  · rw [served] at refused
    cases refused

end Brf
