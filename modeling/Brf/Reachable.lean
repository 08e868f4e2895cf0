import Brf.Memory

/-!
# Reachable states

Runs of the system as runs of moves: a request makes the moves it may make, a start recovers the
directory and then makes those of `bootUp`, and a stop leaves the directory.

* `Action.Makes`: the moves of an action.
* `System.Holds J K`: a running coordinator is idle and satisfies `J` together with what it has
  written; the directory of a system that is down satisfies `K`.
* `From a s d m`: the state `d` in which the action `a`, taken in the system `s`, makes its own move.
* `System.Proceeds Q s a`: the step is made of moves that satisfy `Q` where they are made.
* `System.Sustains P J K` are the obligations of an invariant along runs whose actions satisfy `P`;
  `System.Keeps P J K` those of one to which it does not matter in which state a move is made.

Results: `holds_proceeding` (the step lemma), `Sustains.after` (the invariant rule for runs), and
`reachable_idle`.
-/

namespace Brf

open Brf.Lib
open Coordinator (Move Idle SoundContents)

/-- The moves of an action. -/
def Action.Makes (a : Action) (m : Move) : Prop :=
  match a.event with
  | .request request => request.Makes m
  | .start _ boot now => Coordinator.Boots boot now m
  | .stop => False

namespace System

/-- What a request starts from. -/
theorem idle_withFaults {c : Coordinator} (idle : Idle c) (faults : List Bool) :
    Idle (c.withFaults faults) :=
  Coordinator.idle_takes (m := .quiet) idle ⟨faults, c.stats, rfl⟩

/-- An invariant of running coordinators with their directories, and of directories. -/
def Holds (J : Coordinator → Contents → Prop) (K : Disk → Contents → Prop) : System → Prop
  | .up c => Idle c ∧ ∃ x, Written c.store.disk x ∧ SoundContents x ∧ J c x
  | .down disk => ∃ x, Written disk x ∧ SoundContents x ∧ K disk x

/-- The state in which an action makes a move of its own: see `Request.From`. -/
def From (a : Action) (s : System) (d : Coordinator) (m : Move) : Prop :=
  match s, a.event with
  | .up c, .request request => request.From (c.withFaults a.faults) d m
  | .down disk, .start config boot now => m.Reviews → ∃ c,
      Coordinator.recover config disk a.faults = .ok c ∧ Coordinator.BootReviews boot now c m
  | _, _ => False

/-- The moves of an action that satisfy `Q` where they are made. -/
def Own (Q : Coordinator → Move → Prop) (s : System) (a : Action) (d : Coordinator) (m : Move) :
    Prop :=
  a.Makes m ∧ From a s d m ∧ Q d m

/-- The step is made of moves that satisfy `Q` where they are made. -/
def Proceeds (Q : Coordinator → Move → Prop) (s : System) (a : Action) : Prop :=
  match s, a.event with
  | .up c, .request request =>
    Coordinator.Moves (Own Q s a) (c.withFaults a.faults) (serve c request a.faults).2
  | .down disk, .start config boot now => ∀ c, Coordinator.recover config disk a.faults = .ok c →
    Coordinator.Moves (Own Q s a) c ((Coordinator.bootUp boot now).exec c).2
  | _, _ => True

theorem Proceeds.mono {Q R : Coordinator → Move → Prop} {s : System} {a : Action}
    (imp : ∀ d m, a.Makes m → From a s d m → Q d m → R d m) (h : Proceeds Q s a) :
    Proceeds R s a := by
  have own : ∀ d m, Own Q s a d m → Own R s a d m := fun d m own =>
    ⟨own.1, own.2.1, imp d m own.1 own.2.1 own.2.2⟩
  obtain ⟨event, faults⟩ := a
  cases s with
  | up c =>
    cases event with
    | request request => exact Coordinator.Moves.mono own h
    | _ => trivial
  | down disk =>
    cases event with
    | start config boot now =>
      exact fun c recovered => Coordinator.Moves.mono own (h c recovered)
    | _ => trivial

/-- What `Holds J K` takes to be an invariant of the runs whose actions satisfy `P`. -/
structure Sustains (P : System → Action → Prop) (J : Coordinator → Contents → Prop)
    (K : Disk → Contents → Prop) : Prop where
  move : ∀ {s a c c' x m}, P s a → a.Makes m → From a s c m → Idle c → SoundContents x → J c x →
    m.Takes c c' → J c' (m.leaves c x)
  recover : ∀ {config disk faults c x a}, P (.down disk) a → Written disk x → SoundContents x →
    K disk x → Coordinator.recover config disk faults = .ok c → J c x
  close : ∀ {c x}, Idle c → J c x → K c.store.disk x

/-- The obligations where it does not matter in which state a move is made. -/
structure Keeps (P : System → Action → Prop) (J : Coordinator → Contents → Prop)
    (K : Disk → Contents → Prop) : Prop where
  move : ∀ {s a c c' x m}, P s a → a.Makes m → Idle c → SoundContents x → J c x →
    m.Takes c c' → J c' (m.leaves c x)
  recover : ∀ {config disk faults c x a}, P (.down disk) a → Written disk x → SoundContents x →
    K disk x → Coordinator.recover config disk faults = .ok c → J c x
  close : ∀ {c x}, Idle c → J c x → K c.store.disk x

/-- The obligations where every move of the run satisfies `Q`, and every action `P`. -/
structure Maintains (Q : Coordinator → Move → Prop) (P : System → Action → Prop)
    (J : Coordinator → Contents → Prop) (K : Disk → Contents → Prop) : Prop where
  quiet : ∀ {c c' x}, Idle c → SoundContents x → J c x → Move.quiet.Takes c c' →
    J c' (Move.quiet.leaves c x)
  move : ∀ {s a c c' x m}, P s a → Own Q s a c m → Idle c → SoundContents x → J c x →
    m.Takes c c' → J c' (m.leaves c x)
  recover : ∀ {config boot now faults disk c x}, P (.down disk) ⟨.start config boot now, faults⟩ →
    Written disk x → SoundContents x → K disk x →
      Coordinator.recover config disk faults = .ok c → J c x
  close : ∀ {c x}, Idle c → J c x → K c.store.disk x

section

variable {P : System → Action → Prop} {J : Coordinator → Contents → Prop}
  {K : Disk → Contents → Prop}

theorem Keeps.sustains (keeps : Keeps P J K) : Sustains P J K :=
  ⟨fun allowed own _ => keeps.move allowed own, keeps.recover, keeps.close⟩

/-- Moves that keep the invariant. -/
theorem holds_moves {Q : Coordinator → Move → Prop} (move : ∀ {c c' x m}, Q c m → Idle c →
      SoundContents x → J c x → m.Takes c c' → J c' (m.leaves c x)) {c c' : Coordinator}
    (moves : Coordinator.Moves Q c c') (h : Holds J K (.up c)) : Holds J K (.up c') := by
  have both := moves.invariant_idle h.1
    (I := fun c => ∃ x, Written c.store.disk x ∧ SoundContents x ∧ J c x) ?_ h.2
  · exact both
  · rintro c c' m idle ⟨x, written, sound, holds⟩ own takes
    exact ⟨m.leaves c x, Coordinator.written_takes idle takes written,
      Coordinator.sound_leaves idle takes sound, move own idle sound holds takes⟩

/-- **Step lemma**: a step that is made of moves which keep the invariant keeps it. -/
theorem holds_proceeding {Q : Coordinator → Move → Prop} {s : System} {a : Action}
    (quiet : ∀ {request c c' x}, s = .up c → a.event = .request request → Idle c →
      SoundContents x → J c x → Move.quiet.Takes c c' → J c' (Move.quiet.leaves c x))
    (move : ∀ {c c' x m}, Own Q s a c m → Idle c → SoundContents x → J c x → m.Takes c c' →
      J c' (m.leaves c x))
    (recover : ∀ {config boot now disk c x}, s = .down disk → a.event = .start config boot now →
      Written disk x → SoundContents x → K disk x →
        Coordinator.recover config disk a.faults = .ok c → J c x)
    (close : ∀ {c x}, Idle c → J c x → K c.store.disk x) (proceeds : Proceeds Q s a)
    (h : Holds J K s) : Holds J K (System.step s a) := by
  obtain ⟨event, faults⟩ := a
  cases s with
  | up c =>
    cases event with
    | request request =>
      have prepared : Holds J K (.up (c.withFaults faults)) := by
        obtain ⟨idle, x, written, sound, holds⟩ := h
        have takes : Move.quiet.Takes c (c.withFaults faults) := ⟨faults, c.stats, rfl⟩
        exact ⟨idle_withFaults idle faults, _, Coordinator.written_takes idle takes written,
          Coordinator.sound_leaves idle takes sound, quiet rfl rfl idle sound holds takes⟩
      exact holds_moves move proceeds prepared
    | start config boot now => exact h
    | stop =>
      obtain ⟨idle, x, written, sound, holds⟩ := h
      exact ⟨x, written, sound, close idle holds⟩
  | down disk =>
    cases event with
    | request request => exact h
    | stop => exact h
    | start config boot now =>
      change Holds J K (start config boot now faults disk)
      unfold start
      cases Coordinator.checkConfig config with
      | error e => exact h
      | ok _ =>
        cases recovered : Coordinator.recover config disk faults with
        | error e => exact h
        | ok c =>
          obtain ⟨x, written, sound, holds⟩ := h
          have idle := Coordinator.idle_recover written sound recovered
          have there := (Coordinator.recover_holds written sound recovered).1
          have opened : Holds J K (.up c) :=
            ⟨idle, x, there ▸ written, sound, recover rfl rfl written sound holds recovered⟩
          have booted : Holds J K (.up ((Coordinator.bootUp boot now).exec c).2) :=
            holds_moves move (proceeds c recovered) opened
          dsimp only
          rcases run : (Coordinator.bootUp boot now).exec c with ⟨e | ⟨⟩, c'⟩
          · rw [run] at booted
            obtain ⟨idle', x', written', sound', holds'⟩ := booted
            exact ⟨x', written', sound', close idle' holds'⟩
          · rw [run] at booted
            exact booted

/-- Every step is made of moves of its own. -/
theorem proceeds_own {s : System} {a : Action} (h : Holds J K s) :
    Proceeds (fun _ _ => True) s a := by
  obtain ⟨event, faults⟩ := a
  cases s with
  | up c =>
    cases event with
    | request request =>
      have run := (Coordinator.ensures_perform request (c.withFaults faults)).of_run rfl
        (idle_withFaults h.1 faults)
      exact run.2.mono fun _ _ own => ⟨own.1, own.2, trivial⟩
    | _ => trivial
  | down disk =>
    cases event with
    | start config boot now =>
      intro c recovered
      obtain ⟨x, written, sound, -⟩ := h
      have run := (Coordinator.ensures_bootUp boot now c).of_run rfl
        (Coordinator.idle_recover written sound recovered)
      exact run.2.mono fun _ _ own =>
        ⟨own.1, fun reviews => ⟨c, recovered, own.2 reviews⟩, trivial⟩
    | _ => trivial

/-- **Step lemma.** -/
theorem Sustains.step (sustains : Sustains P J K) {s : System} {a : Action} (h : Holds J K s)
    (allowed : P s a) : Holds J K (System.step s a) := by
  obtain ⟨event, faults⟩ := a
  refine holds_proceeding (fun up asked idle sound holds takes => ?_)
    (fun own idle sound holds takes => sustains.move allowed own.1 own.2.1 idle sound holds takes)
    (fun down _ => ?_) sustains.close (proceeds_own h) h
  · subst up
    dsimp only at asked
    subst asked
    obtain ⟨own, from'⟩ := @Coordinator.Settling.makesFrom _ _ _ Move.quiet trivial
    exact sustains.move (m := .quiet) allowed own from' idle sound holds takes
  · subst down
    exact sustains.recover allowed

/-- **Invariant rule for runs.** -/
theorem Sustains.after (sustains : Sustains P J K) {s : System} {as : List Action}
    (h : Holds J K s) (allowed : Along System.step P s as) :
    Holds J K (Lib.after System.step s as) :=
  invariant_along System.step (fun _ _ held own => sustains.step held own) h allowed

theorem holds_step (keeps : Keeps P J K) {s : System} {a : Action} (h : Holds J K s)
    (allowed : P s a) : Holds J K (step s a) :=
  keeps.sustains.step h allowed

theorem holds_after (keeps : Keeps P J K) {s : System} {as : List Action} (h : Holds J K s)
    (allowed : Along step P s as) : Holds J K (after step s as) :=
  keeps.sustains.after h allowed

/-- The invariant holds of an empty directory. -/
theorem holds_initial (start : K {} {}) : Holds J K initial :=
  ⟨{}, ⟨rfl, fun _ no => absurd no (by simp), rfl, fun _ no => absurd no List.not_mem_nil⟩,
    ⟨fun _ no => absurd no (by simp), fun _ no => absurd no List.not_mem_nil⟩, start⟩

/-- **Invariant rule for runs** whose steps are made of moves that satisfy `Q`. -/
theorem Maintains.run {Q : Coordinator → Move → Prop} (maintains : Maintains Q P J K)
    (start : K {} {}) {as : List Action} (lawful : Along step (fun s a => P s a ∧ Proceeds Q s a) initial as) :
    Holds J K (run as) := by
  refine invariant_along step (fun s a held own => ?_) (holds_initial start) lawful
  obtain ⟨allowed, proceeds⟩ := own
  refine holds_proceeding (fun _ _ => maintains.quiet) (maintains.move allowed)
    (fun down starts => ?_) maintains.close proceeds held
  subst down
  obtain ⟨event, faults⟩ := a
  dsimp only at starts
  subst starts
  exact maintains.recover allowed

/-- What the moves of a step satisfy where the invariant holds, the step is made of. -/
theorem Maintains.proceeds {Q R : Coordinator → Move → Prop} (maintains : Maintains Q P J K)
    (imp : ∀ {s a c c' x m}, P s a → Own Q s a c m → Idle c → SoundContents x → J c x →
      m.Takes c c' → R c m) {s : System} {a : Action} (h : Holds J K s) (allowed : P s a)
    (proceeds : Proceeds Q s a) : Proceeds R s a := by
  have strengthen : ∀ {c c' : Coordinator}, Holds J K (.up c) → Coordinator.Moves (Own Q s a) c c' →
      Coordinator.Moves (Own R s a) c c' := by
    rintro c c' ⟨idle, held⟩ moves
    refine moves.strengthen_idle idle
      (I := fun c => ∃ x, Written c.store.disk x ∧ SoundContents x ∧ J c x) ?_ held ?_
    · rintro d d' m idle ⟨x, written, sound, holds⟩ own takes
      exact ⟨m.leaves d x, Coordinator.written_takes idle takes written,
        Coordinator.sound_leaves idle takes sound,
        maintains.move allowed own idle sound holds takes⟩
    · rintro d d' m idle ⟨x, written, sound, holds⟩ own takes
      exact ⟨own.1, own.2.1, imp allowed own idle sound holds takes⟩
  obtain ⟨event, faults⟩ := a
  cases s with
  | up c =>
    cases event with
    | request request =>
      obtain ⟨idle, x, written, sound, holds⟩ := h
      have takes : Move.quiet.Takes c (c.withFaults faults) := ⟨faults, c.stats, rfl⟩
      exact strengthen ⟨idle_withFaults idle faults, _, Coordinator.written_takes idle takes written,
        Coordinator.sound_leaves idle takes sound, maintains.quiet idle sound holds takes⟩ proceeds
    | _ => trivial
  | down disk =>
    cases event with
    | start config boot now =>
      intro c recovered
      obtain ⟨x, written, sound, holds⟩ := h
      have there := (Coordinator.recover_holds written sound recovered).1
      exact strengthen ⟨Coordinator.idle_recover written sound recovered, x, there ▸ written, sound,
        maintains.recover allowed written sound holds recovered⟩ (proceeds c recovered)
    | _ => trivial

/-- The invariant rule where every action is allowed. -/
theorem holds_always (keeps : Keeps (fun _ _ => True) J K) {s : System} (h : Holds J K s)
    (as : List Action) : Holds J K (after step s as) :=
  holds_after keeps h (along_of_forall step fun _ _ => trivial)

end

/-- What every move of an action after a run satisfies, its step is made of. -/
theorem proceeds_run {Q : Coordinator → Move → Prop} (as : List Action) (a : Action)
    (own : ∀ d d' m, Idle d → a.Makes m → From a (run as) d m → m.Takes d d' → Q d m) :
    Proceeds Q (run as) a := by
  have maintains : Maintains (fun _ _ => True) (fun s b => s = run as ∧ b = a) (fun _ _ => True)
      fun _ _ => True :=
    ⟨fun _ _ _ _ => trivial, fun _ _ _ _ _ _ => trivial, fun _ _ _ _ _ => trivial,
      fun _ _ => trivial⟩
  have keeps : Keeps (fun _ _ => True) (fun _ _ => True) (fun _ _ => True) :=
    ⟨fun _ _ _ _ _ _ => trivial, fun _ _ _ _ _ => trivial, fun _ _ => trivial⟩
  have held : Holds (fun _ _ => True) (fun _ _ => True) (run as) :=
    holds_always keeps (holds_initial trivial) as
  refine maintains.proceeds ?_ held ⟨rfl, rfl⟩ (proceeds_own held)
  rintro s b d d' x m ⟨rfl, rfl⟩ ⟨made, there, -⟩ idle - - takes
  exact own d d' m idle made there takes

/-- **Every reachable coordinator is idle**, and its directory spells what its moves have left. -/
theorem reachable_idle {as : List Action} {c : Coordinator} (h : run as = .up c) :
    Idle c ∧ ∃ x, Written c.store.disk x ∧ SoundContents x := by
  have keeps : Keeps (fun _ _ => True) (fun _ _ => True) (fun _ _ => True) :=
    ⟨fun _ _ _ _ _ _ => trivial, fun _ _ _ _ _ => trivial, fun _ _ => trivial⟩
  have held : Holds (fun _ _ => True) (fun _ _ => True) (run as) :=
    holds_always keeps (holds_initial trivial) as
  rw [h] at held
  obtain ⟨idle, x, written, sound, -⟩ := held
  exact ⟨idle, x, written, sound⟩

/-- What a reachable directory is recovered to is idle. -/
theorem idle_recovered {as : List Action} {disk : Disk} (h : run as = .down disk) {config : Config}
    {faults : List Bool} {c : Coordinator} (recovered : Coordinator.recover config disk faults = .ok c) :
    Idle c := by
  have keeps : Keeps (fun _ _ => True) (fun _ _ => True) (fun _ _ => True) :=
    ⟨fun _ _ _ _ _ _ => trivial, fun _ _ _ _ _ => trivial, fun _ _ => trivial⟩
  have held : Holds (fun _ _ => True) (fun _ _ => True) (run as) :=
    holds_always keeps (holds_initial trivial) as
  rw [h] at held
  obtain ⟨x, written, sound, -⟩ := held
  exact Coordinator.idle_recover written sound recovered

theorem run_append (as bs : List Action) : run (as ++ bs) = after step (run as) bs :=
  after_append step initial as bs

theorem run_snoc (as : List Action) (a : Action) : run (as ++ [a]) = step (run as) a :=
  after_append step initial as [a]

/-- The running coordinator, if there is one. -/
def coordinator : System → Coordinator
  | up c => c
  | down _ => {}

/-- The system is up. -/
def isUp : System → Bool
  | up _ => true
  | down _ => false

theorem eq_up {s : System} (h : s.isUp = true) : s = up s.coordinator := by
  cases s with
  | up c => rfl
  | down disk => cases h

/-! ## A small fabric -/

namespace Sample

/-- A publisher that has seen the given epoch. -/
def context (epoch : FabricEpoch) (attempt : AttemptId) : RequestContext :=
  { publisher := 7, publisherBoot := 8, session := 9, attempt, assertedEpoch := epoch }

/-- One resource of 100 bits per second. -/
def resource : ResourceCapacity :=
  { resource := FixedName.lit "link", generation := 1, reservableCapacity := 100 }

/-- A claim on the resource. -/
def terms (amount : Bandwidth) : ReservationTerms :=
  { claimant := 5
    claimantGeneration := 1
    resources := [FixedName.lit "link"]
    interval := ⟨100, 200⟩
    amount
    policy := FixedName.lit "default"
    recallPermitted := true }

/-- The process starts, under a configuration that keeps `history` terminal records. -/
def opened (history : Nat) : Action :=
  { event := .start { maxHistoryRecords := history } 1 1 }

/-- The resource is ingested. -/
def ingested : Action :=
  { event := .request (.ingestCapacity 2 { id := 11, generation := 1, resources := [resource] } []
      (context 1 0)) }

/-- A reservation is asked for. -/
def created (epoch : FabricEpoch) (now : Timestamp) (attempt : AttemptId) (amount : Bandwidth)
    (id : ReservationId) : Action :=
  { event := .request (.create now (context epoch attempt) (terms amount) id false []) }

/-- A reservation is amended. -/
def amended (epoch : FabricEpoch) (now : Timestamp) (attempt : AttemptId) (id : ReservationId)
    (generation : ReservationGeneration) (amount : Bandwidth) : Action :=
  { event := .request (.amend now (context epoch attempt) id generation (terms amount) false) }

/-- A reservation is released. -/
def released (epoch : FabricEpoch) (now : Timestamp) (attempt : AttemptId) (id : ReservationId)
    (generation : ReservationGeneration) : Action :=
  { event := .request (.release now (context epoch attempt) id generation) }

/-- A claim on the resource in `count` windows. -/
def recurrent (amount : Bandwidth) (count : Word 32) : ReservationTerms :=
  { terms amount with recurrence := { enabled := true, period := 1000, count } }

/-- Member `i` of the series that the attempt 100 creates. -/
def member (i : Nat) : ReservationId := deriveMemberId (deriveSeriesId 5 100 2) (Word.cast 64 i)

/-- A series is asked for, under the attempt 100. -/
def createdSeries (now : Timestamp) (amount : Bandwidth) (count : Word 32) : Action :=
  { event := .request (.create now (context 1 100) (recurrent amount count) 0 false []) }

/-- The series is amended at one of its members. -/
def amendedSeries (now : Timestamp) (attempt : AttemptId) (i : Nat)
    (generation : ReservationGeneration) (amount : Bandwidth) (count : Word 32) : Action :=
  { event := .request (.amend now (context 1 attempt) (member i) generation (recurrent amount count)
      false) }

/-- The lifecycle is reconciled. -/
def reconciled (epoch : FabricEpoch) (now : Timestamp) : Action :=
  { event := .request (.reconcileLifecycle now (context epoch 0)) }

end Sample

end System

end Brf
