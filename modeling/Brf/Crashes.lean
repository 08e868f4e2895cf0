import Brf.Epochs
import Brf.Restarts

/-!
# Crashes

What a crash leaves of the directory is the snapshot and a beginning of the journal file. What `open`
makes of it is a state that the run went through.

* `Disk.upTo disk k`: the directory with the first `k` records behind its snapshot, which is what is
  read of a journal that was cut at some byte (`recovered_cut`).
* `During s a e`: `e` stands between two moves of the step, so between two durable records.
  `Passes s as e`: the run passes through `e`.
* `Recoverable L V disk x`: each beginning of the journal that reaches the sequence `L` rebuilds a
  state of `V`.

Results: `recoverable_moves` (the step lemma), `visited_run` (the run lemma) and `crash_restores`.

Out of scope: a crash within the replacement of the snapshot file or the rotation of the journal, and
damage to what was written (`bursts_refused`).
-/

namespace Brf

open Brf.Lib

/-- The directory with the first records behind its snapshot. -/
def Disk.upTo (disk : Disk) (k : Nat) : Disk := { disk with journal := disk.tail.take k }

/-- What it holds then. -/
def Contents.upTo (x : Contents) (k : Nat) : Contents := { x with tail := x.tail.take k }

section

variable {disk : Disk} {x : Contents} {k : Nat}

theorem Disk.tail_upTo (disk : Disk) (k : Nat) : (disk.upTo k).tail = disk.tail.take k := by
  refine List.filter_eq_self.mpr fun r mem => ?_
  exact (List.mem_filter.mp (List.mem_of_mem_take mem)).2

theorem Written.upTo (w : Written disk x) (k : Nat) : Written (disk.upTo k) (x.upTo k) where
  base := w.base
  small := w.small
  tail := by
    rw [Disk.tail_upTo, List.map_take, w.tail]
    exact (List.map_take).symm
  fits d mem := w.fits d (List.mem_of_mem_take mem)

theorem Coordinator.SoundContents.upTo (sound : SoundContents x) (k : Nat) :
    SoundContents (x.upTo k) :=
  ⟨sound.base, fun d mem => sound.tail d (List.mem_of_mem_take mem)⟩

theorem Contents.upTo_length (x : Contents) : x.upTo x.tail.length = x := by
  unfold Contents.upTo
  rw [List.take_length]

theorem Written.length (w : Written disk x) : disk.tail.length = x.tail.length := by
  have same := congrArg List.length w.tail
  rwa [List.length_map, List.length_map] at same

/-- A journal that has lost a record does not reach the last sequence. -/
theorem Store.InOrder.upTo_last {s : Store} (h : s.InOrder) (short : k < s.disk.tail.length) :
    (s.disk.upTo k).last < s.lastSequence := by
  have rising : s.disk.tail.Pairwise fun a b => a.sequence < b.sequence := h.rising.filter _
  have lost := List.getElem_mem short
  have there := List.mem_filter.mp lost
  have reached : s.disk.tail[k].sequence ≤ s.lastSequence := h.below _ there.1
  refine lt_of_lt_of_le ?_ reached
  unfold Disk.last
  rw [Disk.tail_upTo]
  cases last : (s.disk.tail.take k).getLast? with
  | none => exact of_decide_eq_true there.2
  | some r =>
    have mem := List.mem_of_getLast? last
    rw [← List.take_append_drop k s.disk.tail] at rising
    refine (List.pairwise_append.mp rising).2.2 r mem _ ?_
    rw [List.drop_eq_getElem_cons short]
    exact List.mem_cons_self

end

namespace Coordinator

variable {c c' : Coordinator} {m : Move} {x : Contents}

/-- A move writes one record at most, and changes no beginning of the journal, or else writes a
snapshot. -/
theorem upTo_takes (idle : Idle c) (takes : m.Takes c c') (w : Written c.store.disk x) :
    (m.leaves c x).tail = [] ∨
      ((m.leaves c x).tail.length ≤ x.tail.length + 1 ∧
        ∀ k ≤ x.tail.length, c'.store.disk.upTo k = c.store.disk.upTo k ∧
          (m.leaves c x).upTo k = x.upTo k) := by
  have order := idle.consistent.store
  have stores := stores_takes idle takes x
  generalize c'.store = t, m.leaves c x = x' at stores ⊢
  cases stores with
  | same t disk lastSequence =>
    refine .inr ⟨?_, fun k _ => ⟨by rw [disk], ?_⟩⟩
    · simp
    · unfold Contents.upTo
      rw [List.append_nil]
  | logged d faults writable =>
    refine .inr ⟨by simp, fun k inside => ⟨?_, ?_⟩⟩
    · unfold Disk.upTo
      rw [Store.tail_logged order writable d.kind faults,
        List.take_append_of_le_length (w.length ▸ inside)]
      rfl
    · unfold Contents.upTo
      rw [List.take_append_of_le_length inside]
  | snapshot faults small => exact .inl rfl
  | rotated journalOpen journalBytes faults taken =>
    refine .inr ⟨by simp, fun k _ => ⟨?_, ?_⟩⟩
    · unfold Disk.upTo
      rw [Store.tail_rotated, Store.tail_taken order taken]
      rfl
    · unfold Contents.upTo
      rw [List.append_nil]

/-- Each beginning of the journal that reaches a sequence rebuilds one of the states. -/
def Recoverable (last : DurableSequence) (V : Coordinator → Prop) (disk : Disk) (x : Contents) :
    Prop :=
  ∀ k ≤ x.tail.length, last ≤ (disk.upTo k).last → ∃ e, V e ∧ Idle e ∧ Rebuildable e (x.upTo k)

section

variable {last : DurableSequence} {V W : Coordinator → Prop} {disk : Disk}

theorem Recoverable.mono (h : Recoverable last V disk x) (imp : ∀ e, V e → W e) :
    Recoverable last W disk x := fun k inside reaches =>
  have ⟨e, own, idle, rebuildable⟩ := h k inside reaches
  ⟨e, imp e own, idle, rebuildable⟩

/-- **Step lemma**: after a move, the states it leads to are enough. -/
theorem recoverable_takes (idle : Idle c) (takes : m.Takes c c') (continues : c.Continues m)
    (w : Written c.store.disk x) (rebuildable : Rebuildable c x)
    (h : Recoverable last V c.store.disk x) :
    Recoverable last (fun e => V e ∨ e = c') c'.store.disk (m.leaves c x) := by
  have next := rebuildable_leaves idle takes continues rebuildable
  have whole : ∃ e, (V e ∨ e = c') ∧ Idle e ∧
      Rebuildable e ((m.leaves c x).upTo (m.leaves c x).tail.length) := by
    refine ⟨c', .inr rfl, idle_takes idle takes, ?_⟩
    rw [Contents.upTo_length]
    exact next
  intro k inside reaches
  rcases upTo_takes idle takes w with empty | ⟨one, same⟩
  · have none : k = (m.leaves c x).tail.length := by
      rw [empty] at inside ⊢
      exact Nat.le_zero.mp inside
    rw [none]
    exact whole
  · rcases Nat.lt_or_ge x.tail.length k with beyond | before
    · have all : k = (m.leaves c x).tail.length := by omega
      rw [all]
      exact whole
    · obtain ⟨disks, contents⟩ := same k before
      rw [disks] at reaches
      obtain ⟨e, own, there⟩ := h k before reaches
      exact ⟨e, .inl own, contents ▸ there⟩

/-- What a crash can find of a running coordinator. -/
def Visited (last : DurableSequence) (V : Coordinator → Prop) (c : Coordinator) : Prop :=
  ∃ x, Written c.store.disk x ∧ SoundContents x ∧ Rebuildable c x ∧
    Recoverable last V c.store.disk x

/-- The moves of a path lead through the states between them. -/
theorem recoverable_moves {P : Coordinator → Move → Prop} (continues : ∀ d m, P d m → d.Continues m)
    {a b : Coordinator} (path : Moves P a b) (idle : Idle a) (h : Visited last V a) :
    Idle b ∧ Visited last (fun e => V e ∨ Moves P a e ∧ Moves P e b) b := by
  have both := path.invariant_idle idle (I := fun b => Moves P a b ∧
    Visited last (fun e => V e ∨ Moves P a e ∧ Moves P e b) b) ?_ ⟨.refl a, ?_⟩
  · exact ⟨both.1, both.2.2⟩
  · rintro c c' m cIdle ⟨before, x, written, sound, rebuildable, recoverable⟩ made takes
    have turn : Moves P c c' := .one m made takes
    refine ⟨before.trans turn, m.leaves c x, written_takes cIdle takes written,
      sound_leaves cIdle takes sound,
      rebuildable_leaves cIdle takes (continues c m made) rebuildable, ?_⟩
    refine (recoverable_takes cIdle takes (continues c m made) written rebuildable
      recoverable).mono ?_
    rintro e ((there | ⟨first, rest⟩) | rfl)
    · exact .inl there
    · exact .inr ⟨first, rest.trans turn⟩
    · exact .inr ⟨before.trans turn, .refl _⟩
  · obtain ⟨x, written, sound, rebuildable, recoverable⟩ := h
    exact ⟨x, written, sound, rebuildable, recoverable.mono fun e there => .inl there⟩

end

end Coordinator

namespace System

open Coordinator (Move Moves Continues Idle SoundContents Visited Recoverable Rebuildable Registers
  Restores)

/-- The coordinator stands at the beginning, at the end or between two moves of the step. -/
def During (s : System) (a : Action) (e : Coordinator) : Prop :=
  match s, a.event with
  | .up c, .request request =>
    Moves (fun _ => a.Makes) (c.withFaults a.faults) e ∧
      Moves (fun _ => a.Makes) e (serve c request a.faults).2
  | .down disk, .start config boot now => ∃ c, Coordinator.recover config disk a.faults = .ok c ∧
    Moves (fun _ => a.Makes) c e ∧
      Moves (fun _ => a.Makes) e ((Coordinator.bootUp boot now).exec c).2
  | _, _ => False

/-- The run passes through the coordinator. -/
def Passes : System → List Action → Coordinator → Prop
  | s, [], e => s = .up e
  | s, a :: as, e => s = .up e ∨ During s a e ∨ Passes (step s a) as e

/-- What a crash can find of a system; nothing at all of an empty directory. -/
def Visits (last : DurableSequence) (V : Coordinator → Prop) : System → Prop
  | .up c => Idle c ∧ Visited last V c
  | .down disk => ∃ x, Written disk x ∧ SoundContents x ∧ (Registers x ∧ x.Accords) ∧
    (x = {} ∨ Recoverable last V disk x)

section

variable {last : DurableSequence} {V W : Coordinator → Prop} {s : System} {a : Action}

theorem Visits.mono (h : Visits last V s) (imp : ∀ e, V e → W e) : Visits last W s := by
  cases s with
  | up c =>
    obtain ⟨idle, x, written, sound, rebuildable, recoverable⟩ := h
    exact ⟨idle, x, written, sound, rebuildable, recoverable.mono imp⟩
  | down disk =>
    obtain ⟨x, written, sound, registers, recoverable⟩ := h
    exact ⟨x, written, sound, registers, recoverable.imp_right fun held => held.mono imp⟩

/-- The moves of a step are moves of its own. -/
theorem own_moves {c d : Coordinator} (h : Moves (Own Continues s a) c d) :
    Moves (fun _ => a.Makes) c d := h.mono fun _ _ own => own.1

/-- A process that ends leaves what it could be found with. -/
theorem Coordinator.Visited.close {c : Coordinator} (h : Visited last V c) :
    Visits last V (.down c.store.disk) := by
  obtain ⟨x, written, sound, rebuildable, recoverable⟩ := h
  exact ⟨x, written, sound,
    ⟨⟨rebuildable.proper, rebuildable.shadow.kept⟩, rebuildable.accords⟩, .inr recoverable⟩

/-- **Step lemma.** -/
theorem visits_step (proceeds : Proceeds Continues s a) (h : Visits last V s) :
    Visits last (fun e => V e ∨ During s a e) (step s a) := by
  have along : ∀ {b d : Coordinator}, (∀ e, Moves (Own Continues s a) b e →
      Moves (Own Continues s a) e d → During s a e) → Moves (Own Continues s a) b d → Idle b →
        Visited last (fun e => V e ∨ During s a e) b →
          Idle d ∧ Visited last (fun e => V e ∨ During s a e) d := by
    intro b d between path idle visited
    obtain ⟨dIdle, x, written, sound, rebuildable, recoverable⟩ :=
      Coordinator.recoverable_moves (fun _ _ own => own.2.2) path idle visited
    refine ⟨dIdle, x, written, sound, rebuildable, recoverable.mono ?_⟩
    rintro e (there | ⟨first, rest⟩)
    · exact there
    · exact .inr (between e first rest)
  obtain ⟨event, faults⟩ := a
  cases s with
  | up c =>
    obtain ⟨idle, x, written, sound, rebuildable, recoverable⟩ := h
    cases event with
    | start config boot now =>
      exact Visits.mono (s := .up c) ⟨idle, x, written, sound, rebuildable, recoverable⟩
        fun _ own => .inl own
    | stop =>
      exact Visits.mono (s := .down c.store.disk)
        (Coordinator.Visited.close ⟨x, written, sound, rebuildable, recoverable⟩) fun _ own => .inl own
    | request request =>
      have quiet : Move.quiet.Takes c (c.withFaults faults) := ⟨faults, c.stats, rfl⟩
      have same : Rebuildable (c.withFaults faults) x := by
        have kept := Coordinator.rebuildable_leaves idle quiet trivial rebuildable
        change Rebuildable _ { x with tail := x.tail ++ [] } at kept
        rwa [List.append_nil] at kept
      refine along (b := c.withFaults faults) (fun e first rest => ?_) proceeds
        (idle_withFaults idle faults)
        ⟨x, written, sound, same, recoverable.mono fun _ own => .inl own⟩
      exact ⟨own_moves first, own_moves rest⟩
  | down disk =>
    have asleep := h
    obtain ⟨x, written, sound, ⟨registers, accords⟩, recoverable⟩ := h
    cases event with
    | request request => exact Visits.mono (s := .down disk) asleep fun _ own => .inl own
    | stop => exact Visits.mono (s := .down disk) asleep fun _ own => .inl own
    | start config boot now =>
      have closed := Visits.mono (W := fun e => V e ∨ During (.down disk)
        ⟨.start config boot now, faults⟩ e) asleep fun _ own => .inl own
      change Visits last _ (start config boot now faults disk)
      unfold start
      cases Coordinator.checkConfig config with
      | error e => exact closed
      | ok _ =>
        cases recovered : Coordinator.recover config disk faults with
        | error e => exact closed
        | ok c =>
          have idle := Coordinator.idle_recover written sound recovered
          have there := (Coordinator.recover_holds written sound recovered).1
          have rebuildable := Coordinator.rebuildable_recover written sound recovered registers
            accords
          have path := proceeds c recovered
          have opened : Visited last (fun e => V e ∨ During (.down disk)
              ⟨.start config boot now, faults⟩ e) c := by
            refine ⟨x, there ▸ written, sound, rebuildable, ?_⟩
            rcases recoverable with rfl | recoverable
            · intro k inside _
              obtain rfl := Nat.le_zero.mp inside
              exact ⟨c, .inr ⟨c, recovered, .refl c, own_moves path⟩, idle, rebuildable⟩
            · rw [there]
              exact recoverable.mono fun _ own => .inl own
          have booted := along (fun e first rest =>
            ⟨c, recovered, own_moves first, own_moves rest⟩) path idle opened
          dsimp only
          rcases run : (Coordinator.bootUp boot now).exec c with ⟨e | ⟨⟩, c'⟩
          · rw [run] at booted
            exact Coordinator.Visited.close booted.2
          · rw [run] at booted
            exact booted

/-- **Run lemma.** -/
theorem visits_run : ∀ {as : List Action} {s : System} {V : Coordinator → Prop},
    Visits last V s → Along step (Proceeds Continues) s as →
      Visits last (fun e => V e ∨ Passes s as e) (after step s as)
  | [], s, V, h, _ => h.mono fun _ own => .inl own
  | a :: as, s, V, h, along => by
    refine (visits_run (visits_step along.1 h) along.2).mono ?_
    rintro e ((own | here) | later)
    · exact .inl own
    · exact .inr (.inr (.inl here))
    · exact .inr (.inr (.inr later))

end

/-- The run from a state on passes through what the run from an earlier state passes through. -/
theorem visits_up {c : Coordinator} {as : List Action} (idle : Idle c) {x : Contents}
    (written : Written c.store.disk x) (sound : SoundContents x) (rebuildable : Rebuildable c x)
    (along : Along step (Proceeds Continues) (.up c) as) :
    Visits c.store.lastSequence (Passes (.up c) as) (after step (.up c) as) := by
  have here : Visits c.store.lastSequence (fun e => c = e) (.up c) := by
    refine ⟨idle, x, written, sound, rebuildable, fun k inside reaches => ?_⟩
    rcases Nat.lt_or_ge k c.store.disk.tail.length with short | long
    · exact absurd reaches (not_le.mpr (idle.consistent.store.upTo_last short))
    · have whole : k = x.tail.length := by
        rw [written.length] at long
        omega
      refine ⟨c, rfl, idle, ?_⟩
      rw [whole, Contents.upTo_length]
      exact rebuildable
  refine (visits_run here along).mono ?_
  rintro e (rfl | later)
  · cases as with
    | nil => rfl
    | cons a as => exact .inl rfl
  · exact later

end System

/-! ## The file -/

/-- The bytes of a journal file: its records in whole frames. -/
def Disk.Spelled (digest : Text → Word 32) (disk : Disk) (file : Text) : Prop :=
  ∃ records : List FiledRecord, file = frames (frameOf digest) records ∧
    Chain (frameOf digest) Fits 0 none records ∧
      records.map FiledRecord.toJournalRecord = disk.journal

/-- The records of a journal at their places in the file. -/
def placed : Nat → List JournalRecord → List FiledRecord
  | _, [] => []
  | offset, r :: rs => { r with fileOffset := offset } :: placed (offset + r.frameBytes) rs

section

variable {digest : Text → Word 32}

theorem placed_records : ∀ (offset : Nat) (rs : List JournalRecord),
    (placed offset rs).map FiledRecord.toJournalRecord = rs
  | _, [] => rfl
  | offset, r :: rs => congrArg (r :: ·) (placed_records (offset + r.frameBytes) rs)

theorem chain_placed : ∀ {offset : Nat} {last : Option FiledRecord} {rs : List JournalRecord},
    (∀ r ∈ rs, r.payload.length ≤ maxRecordPayload) →
      rs.Pairwise (fun a b => a.sequence < b.sequence) →
        (∀ l ∈ last, ∀ r ∈ rs, l.sequence < r.sequence) →
          Chain (frameOf digest) Fits offset last (placed offset rs)
  | _, _, [], _, _, _ => trivial
  | offset, last, r :: rs, small, rising, above => by
    obtain ⟨first, rest⟩ := List.pairwise_cons.mp rising
    refine ⟨⟨small r List.mem_cons_self, rfl, fun l mem => above l mem r List.mem_cons_self⟩, ?_⟩
    rw [journalFrame_length]
    refine chain_placed (fun s mem => small s (List.mem_cons_of_mem r mem)) rest ?_
    rintro l ⟨⟩ s mem
    exact first s mem

/-- The journal file of a directory. -/
def Disk.journalFile (digest : Text → Word 32) (disk : Disk) : Text :=
  frames (frameOf digest) (placed 0 disk.journal)

theorem Store.InOrder.spelled {s : Store} (h : s.InOrder) (digest : Text → Word 32)
    (small : ∀ r ∈ s.disk.journal, r.payload.length ≤ maxRecordPayload) :
    s.disk.Spelled digest (s.disk.journalFile digest) :=
  ⟨placed 0 s.disk.journal, rfl, chain_placed small h.rising fun _ no => absurd no (by simp),
    placed_records 0 s.disk.journal⟩

end

/-- **A journal cut at any byte** is read as a beginning of the journal. -/
theorem recovered_cut {digest : Text → Word 32} {disk : Disk} {file : Text} {n : Nat}
    {store : FileStore} (spelled : disk.Spelled digest file)
    (opens : FileStore.openStore digest
      { snapshot := disk.snapshot, journal := some (file.take n) } = .ok store) :
    ∃ k ≤ disk.tail.length, History.recovered store = disk.upTo k := by
  obtain ⟨records, rfl, chain, listed⟩ := spelled
  obtain ⟨all, torn, found, -, kept, -, snapshot, -⟩ := FileStore.openStore_ok opens
  obtain ⟨ws, us, tail, torn', rfl, -, cut, -⟩ := (readFrame_framing digest).spells_cut chain n
  obtain ⟨rfl, -⟩ := Spells.unique found cut
  have tail : disk.tail = (all.map FiledRecord.toJournalRecord).filter
      (fun r => disk.floor < r.sequence) ++ (us.map FiledRecord.toJournalRecord).filter
        fun r => disk.floor < r.sequence := by
    unfold Disk.tail
    rw [← listed, List.map_append, List.filter_append]
  refine ⟨((all.map FiledRecord.toJournalRecord).filter fun r => disk.floor < r.sequence).length,
    ?_, ?_⟩
  · rw [tail, List.length_append]
    exact Nat.le_add_right _ _
  · unfold History.recovered Disk.upTo
    rw [tail, List.take_left, kept, snapshot, List.filter_map]
    rfl

/-- A recovered coordinator is at the last sequence of its directory. -/
theorem Coordinator.recover_last {config : Config} {disk : Disk} {faults : List Bool}
    {d : Coordinator} {x : Contents} (w : Written disk x) (sound : SoundContents x)
    (h : recover config disk faults = .ok d) : d.store.lastSequence = disk.last := by
  obtain ⟨store, c₁, same, ⟨-, level⟩, steps, indexed⟩ :=
    playback_recover (R := fun fs => Recalls (fs.flatMap Footprint.recollections)) w sound h
  obtain ⟨held, -⟩ := recalls_steady steps
  obtain ⟨y, rfl⟩ := (ensures_rebuildIndex_shape c₁.rebuildQueues).of_run indexed
  change c₁.rebuildQueues.store.lastSequence = _
  rw [(steady_rebuildQueues c₁).store, held, ← same]
  exact level

/-- **Crashes are atomic and lose nothing that was acknowledged.** In a run whose commits continue the
generations that they find, let the journal file be cut at any byte. What `open` recovers from it
restores a coordinator that the run passes through between two of its durable records, and one that
is not before the state of any call whose last sequence the recovered store reaches. -/
theorem crash_restores {as : List Action} {c d : Coordinator} {config : Config} {faults : List Bool}
    {digest : Text → Word 32} {file : Text} {n : Nat} {store : FileStore}
    (continuing : System.Continuing as) (up : System.run as = .up c)
    (spelled : c.store.disk.Spelled digest file)
    (opens : FileStore.openStore digest
      { snapshot := c.store.disk.snapshot, journal := some (file.take n) } = .ok store)
    (recovered : Coordinator.recover config (History.recovered store) faults = .ok d) :
    (∃ e, System.Passes System.initial as e ∧ Coordinator.Restores e d) ∧
      ∀ (before behind : List Action) (c₀ : Coordinator), as = before ++ behind →
        System.run before = .up c₀ → c₀.store.lastSequence ≤ d.store.lastSequence →
          ∃ e, System.Passes (.up c₀) behind e ∧ Coordinator.Restores e d := by
  obtain ⟨k, inside, cut⟩ := recovered_cut spelled opens
  rw [cut] at recovered
  have restores : ∀ {last : DurableSequence} {V : Coordinator → Prop},
      System.Visits last V (.up c) → last ≤ d.store.lastSequence →
        ∃ e, V e ∧ Coordinator.Restores e d := by
    rintro last V ⟨-, x, written, sound, -, recoverable⟩ reaches
    rw [Coordinator.recover_last (written.upTo k) (sound.upTo k) recovered] at reaches
    obtain ⟨e, own, idle, rebuildable⟩ := recoverable k (written.length ▸ inside) reaches
    exact ⟨e, own, Coordinator.restores_recover idle rebuildable (written.upTo k) (sound.upTo k)
      recovered⟩
  constructor
  · have blank : System.Visits 0 (fun _ => False) System.initial :=
      ⟨{}, ⟨rfl, fun _ no => absurd no (by simp), rfl, fun _ no => absurd no List.not_mem_nil⟩,
        ⟨fun _ no => absurd no (by simp), fun _ no => absurd no List.not_mem_nil⟩,
        System.registers_empty, .inl rfl⟩
    have visits := System.visits_run blank continuing
    rw [show after System.step System.initial as = .up c from up] at visits
    obtain ⟨e, own | there, restored⟩ := restores visits (Fin.zero_le _)
    · exact own.elim
    · exact ⟨e, there, restored⟩
  · rintro before behind c₀ rfl first reaches
    obtain ⟨start, rest⟩ := (along_append System.step System.initial before behind).mp continuing
    obtain ⟨idle, x, written, sound, rebuildable⟩ := System.holds_rebuildable start first
    rw [show after System.step System.initial before = .up c₀ from first] at rest
    have visits := System.visits_up idle written sound rebuildable rest
    have whole : after System.step (.up c₀) behind = .up c := by
      rw [← first, ← System.run_append, up]
    rw [whole] at visits
    exact restores visits reaches

open System.Sample in
/-- The last byte of the file is lost, and with it the last record. -/
theorem crash_restores_cut : ∃ (c d : Coordinator) (file : Text) (store : FileStore),
    System.run amendedOnce = .up c ∧ c.store.disk.Spelled (fun _ => 0) file ∧
      FileStore.openStore (fun _ => 0) { journal := some (file.take (file.length - 1)) } = .ok store ∧
        store.records.length < c.store.disk.journal.length ∧
          Coordinator.recover { maxHistoryRecords := 100 } (History.recovered store) [] = .ok d ∧
            ∃ e, System.Passes System.initial amendedOnce e ∧ Coordinator.Restores e d := by
  let c := (System.run amendedOnce).coordinator
  let file := c.store.disk.journalFile fun _ => 0
  have facts : (System.run amendedOnce).isUp = true ∧ c.store.disk.snapshot = none ∧
      (∀ r ∈ c.store.disk.journal, r.payload.length ≤ maxRecordPayload) ∧
      ((FileStore.openStore (fun _ => 0)
        { journal := some (file.take (file.length - 1)) }).toOption.map fun store =>
          (decide (store.records.length < c.store.disk.journal.length),
            (Coordinator.recover { maxHistoryRecords := 100 }
              (History.recovered store) []).toOption.isSome)) = some (true, true) := by
    decide +kernel
  obtain ⟨isUp, unsaved, small, both⟩ := facts
  have up : System.run amendedOnce = .up c := System.eq_up isUp
  have continuing : System.Continuing amendedOnce :=
    ⟨continues_opened, continues_ingested, continues_created, continues_amended, trivial⟩
  have spelled := (System.holds_rebuildable continuing up).1.consistent.store.spelled
    (fun _ => 0) small
  cases opens : FileStore.openStore (fun _ => 0)
      { journal := some (file.take (file.length - 1)) } with
  | error e =>
    rw [opens] at both
    cases both
  | ok store =>
    rw [opens, Except.toOption, Option.map_some, Option.some.injEq, Prod.mk.injEq,
      decide_eq_true_eq] at both
    cases recovered : Coordinator.recover { maxHistoryRecords := 100 }
        (History.recovered store) [] with
    | error e =>
      rw [recovered] at both
      cases both.2
    | ok d =>
      rw [← unsaved] at opens
      exact ⟨c, d, file, store, up, spelled, unsaved ▸ opens, both.1, recovered,
        (crash_restores continuing up spelled opens recovered).1⟩

end Brf
