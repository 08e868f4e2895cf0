import Brf.Lib.Machine

/-!
# Logs of frames

A log is a byte string of frames, one after the other. A scanner reads it from the front: each turn
looks at what is left and takes one record, stops at a torn tail, or refuses.

* `Front` is the verdict of one turn, and `scan` the loop. A turn sees the offset it stands at and
  the record before it. `fuel` bounds the number of turns; the length of the log is enough.
* `Spells` is the loop as a relation: what the bytes say, without the bound.
* `Framing` is the contract between a turn and the writer of the frames: a whole frame is taken
  whatever follows it, a proper beginning of one is a torn tail, and nothing else is taken.

Results: `scan_eq_ok_iff` (the loop computes `Spells`), `Framing.spells_append` (whole frames in
front of anything are read), `Framing.spells_sound` (what is read are whole frames), `cut_frames` (where
a cut falls), and `Framing.spells_cut`, the torn-tail law: a cut log spells exactly the records the cut
contains.
-/

namespace Brf.Lib

/-- What one turn of a scanner finds at the front of a byte string. -/
inductive Front (ε ρ τ : Type) where
  | record (r : ρ) (size : Nat)
  | torn (tail : τ)
  | refused (e : ε)
  deriving DecidableEq, Repr

variable {ε ρ τ : Type} (front : Nat → Option ρ → List Byte → Front ε ρ τ)

/-- The loop of a scanner: the records of the log, and its torn tail if it has one. -/
def scan : Nat → Nat → Option ρ → List Byte → Except ε (List ρ × Option τ)
  | 0, _, _, _ => .ok ([], none)
  | fuel + 1, offset, last, bytes =>
    if bytes.isEmpty then .ok ([], none)
    else match front offset last bytes with
      | .refused e => .error e
      | .torn tail => .ok ([], some tail)
      | .record r size => do
        let (rs, tail) ← scan fuel (offset + size) (some r) (bytes.drop size)
        .ok (r :: rs, tail)

/-- From `offset` on, after `last`, the bytes are the records `rs` and perhaps a torn tail. -/
inductive Spells : Nat → Option ρ → List Byte → List ρ → Option τ → Prop
  | done (offset : Nat) (last : Option ρ) : Spells offset last [] [] none
  | torn {offset : Nat} {last : Option ρ} {bytes : List Byte} {tail : τ} (some_left : bytes ≠ [])
      (turn : front offset last bytes = .torn tail) : Spells offset last bytes [] (some tail)
  | record {offset size : Nat} {last : Option ρ} {bytes : List Byte} {r : ρ} {rs : List ρ}
      {tail : Option τ} (some_left : bytes ≠ []) (turn : front offset last bytes = .record r size)
      (rest : Spells (offset + size) (some r) (bytes.drop size) rs tail) :
      Spells offset last bytes (r :: rs) tail

variable {front}

/-- A turn that takes a record takes at least one byte. -/
def Consuming (front : Nat → Option ρ → List Byte → Front ε ρ τ) : Prop :=
  ∀ (offset : Nat) (last : Option ρ) (bytes : List Byte) (r : ρ) (size : Nat),
    front offset last bytes = .record r size → 0 < size

/-- **The loop computes the relation**, when its fuel is at least the length of the log. -/
theorem scan_eq_ok_iff (consuming : Consuming front) :
    ∀ (fuel offset : Nat) (last : Option ρ) (bytes : List Byte) (rs : List ρ) (tail : Option τ),
      bytes.length ≤ fuel →
        (scan front fuel offset last bytes = .ok (rs, tail) ↔
          Spells front offset last bytes rs tail)
  | 0, offset, last, bytes, rs, tail, enough => by
    obtain rfl : bytes = [] := List.length_eq_zero_iff.mp (Nat.le_zero.mp enough)
    constructor
    · intro h
      obtain ⟨rfl, rfl⟩ := Prod.mk.inj (Except.ok.inj h)
      exact .done offset last
    · intro h
      cases h with
      | done => rfl
      | torn some_left => exact absurd rfl some_left
      | record some_left => exact absurd rfl some_left
  | fuel + 1, offset, last, [], rs, tail, _ => by
    constructor
    · intro h
      obtain ⟨rfl, rfl⟩ := Prod.mk.inj (Except.ok.inj h)
      exact .done offset last
    · intro h
      cases h with
      | done => rfl
      | torn some_left => exact absurd rfl some_left
      | record some_left => exact absurd rfl some_left
  | fuel + 1, offset, last, b :: bs, rs, tail, enough => by
    have some_left : b :: bs ≠ [] := List.cons_ne_nil b bs
    unfold scan
    rw [if_neg (by simp)]
    cases turn : front offset last (b :: bs) with
    | refused e =>
      refine ⟨fun h => absurd h (by simp), fun h => ?_⟩
      cases h with
      | torn _ found => rw [turn] at found; exact absurd found (by simp)
      | record _ found => rw [turn] at found; exact absurd found (by simp)
    | torn t =>
      constructor
      · intro h
        obtain ⟨rfl, rfl⟩ := Prod.mk.inj (Except.ok.inj h)
        exact .torn some_left turn
      · intro h
        cases h with
        | torn _ found =>
          rw [turn] at found
          rw [Front.torn.inj found]
        | record _ found => rw [turn] at found; exact absurd found (by simp)
    | record r size =>
      have shorter : ((b :: bs).drop size).length ≤ fuel := by
        have taken := consuming _ _ _ _ _ turn
        rw [List.length_drop]
        omega
      have ih := fun rs tail => scan_eq_ok_iff consuming fuel (offset + size) (some r)
        ((b :: bs).drop size) rs tail shorter
      constructor
      · intro h
        cases later : scan front fuel (offset + size) (some r) ((b :: bs).drop size) with
        | error e =>
          simp only [later] at h
          exact absurd h (by simp [bind, Except.bind])
        | ok found =>
          simp only [later] at h
          obtain ⟨rfl, rfl⟩ := Prod.mk.inj (Except.ok.inj h)
          exact .record some_left turn ((ih _ _).mp later)
      · intro h
        cases h with
        | torn _ found => rw [turn] at found; exact absurd found (by simp)
        | record _ found rest =>
          rw [turn] at found
          obtain ⟨rfl, rfl⟩ := Front.record.inj found
          simp only [(ih _ _).mpr rest]
          rfl

/-- Bytes say one thing only. -/
theorem Spells.unique {offset : Nat} {last : Option ρ} {bytes : List Byte} {rs ss : List ρ}
    {t u : Option τ} (h : Spells front offset last bytes rs t)
    (g : Spells front offset last bytes ss u) : rs = ss ∧ t = u := by
  induction h generalizing ss u with
  | done offset last =>
    cases g with
    | done => exact ⟨rfl, rfl⟩
    | torn some_left => exact absurd rfl some_left
    | record some_left => exact absurd rfl some_left
  | torn some_left turn =>
    cases g with
    | done => exact absurd rfl some_left
    | torn _ found =>
      rw [turn] at found
      exact ⟨rfl, congrArg some (Front.torn.inj found)⟩
    | record _ found => rw [turn] at found; exact absurd found (by simp)
  | record some_left turn rest ih =>
    cases g with
    | done => exact absurd rfl some_left
    | torn _ found => rw [turn] at found; exact absurd found (by simp)
    | record _ found rest' =>
      rw [turn] at found
      obtain ⟨rfl, rfl⟩ := Front.record.inj found
      obtain ⟨rfl, rfl⟩ := ih rest'
      exact ⟨rfl, rfl⟩

/-- The loop fails only where a turn refuses. -/
theorem scan_error : ∀ {fuel offset : Nat} {last : Option ρ} {bytes : List Byte} {e : ε},
    scan front fuel offset last bytes = .error e →
      ∃ offset last bytes, front offset last bytes = .refused e
  | 0, _, _, _, _, h => absurd h (by simp [scan])
  | fuel + 1, offset, last, bytes, e, h => by
    unfold scan at h
    split at h
    · exact absurd h (by simp)
    · split at h
      · rename_i turn
        exact ⟨offset, last, bytes, turn.trans (congrArg _ (Except.error.inj h))⟩
      · exact absurd h (by simp)
      · rename_i r size turn
        cases later : scan front fuel (offset + size) (some r) (bytes.drop size) with
        | error e' =>
          simp only [later] at h
          exact scan_error (later.trans (congrArg _ (Except.error.inj h)))
        | ok found =>
          simp only [later] at h
          exact absurd h (by simp [bind, Except.bind])

/-! ## Writers -/

/-- The bytes of a list of records. -/
def frames (frame : ρ → List Byte) (rs : List ρ) : List Byte := rs.flatMap frame

variable {frame : ρ → List Byte}

@[simp] theorem frames_nil : frames frame [] = [] := rfl

@[simp] theorem frames_cons (r : ρ) (rs : List ρ) :
    frames frame (r :: rs) = frame r ++ frames frame rs := rfl

theorem frames_append (rs ss : List ρ) :
    frames frame (rs ++ ss) = frames frame rs ++ frames frame ss := List.flatMap_append

/-- What a scanner does on the frames of a writer. `Fits` says which records may follow `last` at
an offset. -/
structure Framing (front : Nat → Option ρ → List Byte → Front ε ρ τ) (frame : ρ → List Byte)
    (Fits : Nat → Option ρ → ρ → Prop) : Prop where
  pos : ∀ r, 0 < (frame r).length
  whole : ∀ {offset last r} (rest : List Byte), Fits offset last r →
    front offset last (frame r ++ rest) = .record r (frame r).length
  cut : ∀ {offset last r} {n : Nat}, Fits offset last r → 0 < n → n < (frame r).length →
    ∃ tail, front offset last ((frame r).take n) = .torn tail
  sound : ∀ {offset last bytes r size}, front offset last bytes = .record r size →
    Fits offset last r ∧ size = (frame r).length ∧ bytes = frame r ++ bytes.drop size

/-- Records that fit one after the other. -/
def Chain (frame : ρ → List Byte) (Fits : Nat → Option ρ → ρ → Prop) :
    Nat → Option ρ → List ρ → Prop
  | _, _, [] => True
  | offset, last, r :: rs =>
    Fits offset last r ∧ Chain frame Fits (offset + (frame r).length) (some r) rs

/-- The record that stands before the end of a list. -/
def lastOf (last : Option ρ) : List ρ → Option ρ
  | [] => last
  | r :: rs => lastOf (some r) rs

theorem lastOf_append (last : Option ρ) (rs ss : List ρ) :
    lastOf last (rs ++ ss) = lastOf (lastOf last rs) ss := by
  induction rs generalizing last with
  | nil => rfl
  | cons r rs ih => exact ih (some r)

variable {Fits : Nat → Option ρ → ρ → Prop}

theorem chain_append (offset : Nat) (last : Option ρ) (rs ss : List ρ) :
    Chain frame Fits offset last (rs ++ ss) ↔ Chain frame Fits offset last rs ∧
      Chain frame Fits (offset + (frames frame rs).length) (lastOf last rs) ss := by
  induction rs generalizing offset last with
  | nil => simp [Chain, lastOf]
  | cons r rs ih => simp [Chain, lastOf, ih, and_assoc, Nat.add_assoc]

/-- Whole frames in front of anything are read. -/
theorem Framing.spells_append (framing : Framing front frame Fits) {rest : List Byte}
    {ss : List ρ} {tail : Option τ} :
    ∀ {rs : List ρ} {offset : Nat} {last : Option ρ}, Chain frame Fits offset last rs →
      Spells front (offset + (frames frame rs).length) (lastOf last rs) rest ss tail →
        Spells front offset last (frames frame rs ++ rest) (rs ++ ss) tail
  | [], _, _, _, h => h
  | r :: rs, offset, last, chain, h => by
    obtain ⟨fits, chain⟩ := chain
    have some_left : frames frame (r :: rs) ++ rest ≠ [] := by
      have pos := framing.pos r
      intro empty
      simp only [frames_cons, List.append_eq_nil_iff] at empty
      simp [empty.1.1] at pos
    have later : Spells front (offset + (frame r).length) (some r) (frames frame rs ++ rest)
        (rs ++ ss) tail := by
      apply framing.spells_append chain
      rw [Nat.add_assoc, ← List.length_append]
      exact h
    rw [frames_cons, List.append_assoc] at some_left ⊢
    refine .record some_left (framing.whole _ fits) ?_
    rw [List.drop_left]
    exact later

/-- What follows whole frames is read behind them. -/
theorem Framing.spells_behind (framing : Framing front frame Fits) {rest : List Byte}
    {tail : Option τ} :
    ∀ {rs all : List ρ} {offset : Nat} {last : Option ρ}, Chain frame Fits offset last rs →
      Spells front offset last (frames frame rs ++ rest) all tail →
        ∃ ss, Spells front (offset + (frames frame rs).length) (lastOf last rs) rest ss tail
  | [], all, _, _, _, h => ⟨all, h⟩
  | r :: rs, all, offset, last, ⟨fits, chain⟩, h => by
    have turn := framing.whole (frames frame rs ++ rest) fits
    have some_left := framing.pos r
    rw [frames_cons, List.append_assoc] at h
    generalize whole : frame r ++ (frames frame rs ++ rest) = bytes at h turn
    cases h with
    | done => simp [List.append_eq_nil_iff.mp whole] at some_left
    | torn _ found => exact absurd (turn.symm.trans found) (by simp)
    | record _ found later =>
      obtain ⟨rfl, rfl⟩ := Front.record.inj (turn.symm.trans found)
      rw [← whole, List.drop_left] at later
      have behind := framing.spells_behind chain later
      rwa [Nat.add_assoc, ← List.length_append] at behind

/-- A log of whole frames is read back. -/
theorem Framing.spells_frames (framing : Framing front frame Fits) {rs : List ρ} {offset : Nat}
    {last : Option ρ} (chain : Chain frame Fits offset last rs) :
    Spells front offset last (frames frame rs) rs none := by
  have h : Spells front offset last (frames frame rs ++ []) (rs ++ []) none :=
    framing.spells_append chain (.done _ _)
  rwa [List.append_nil, List.append_nil] at h

theorem Framing.consuming (framing : Framing front frame Fits) : Consuming front := by
  intro offset last bytes r size turn
  obtain ⟨-, rfl, -⟩ := framing.sound turn
  exact framing.pos r

/-- What is read are whole frames, and a torn tail behind them. -/
theorem Framing.spells_sound (framing : Framing front frame Fits) {offset : Nat} {last : Option ρ}
    {bytes : List Byte} {rs : List ρ} {torn : Option τ}
    (h : Spells front offset last bytes rs torn) : Chain frame Fits offset last rs ∧
      ∃ tail, bytes = frames frame rs ++ tail ∧ (torn.isSome ↔ tail ≠ []) := by
  induction h with
  | done offset last => exact ⟨trivial, [], rfl, by simp⟩
  | @torn offset last bytes tail some_left turn => exact ⟨trivial, bytes, rfl, by simp [some_left]⟩
  | @record offset size last bytes r rs torn some_left turn rest ih =>
    obtain ⟨fits, rfl, split⟩ := framing.sound turn
    obtain ⟨chain, tail, later, ends⟩ := ih
    refine ⟨⟨fits, chain⟩, tail, ?_, ends⟩
    rw [split, later, frames_cons, List.append_assoc]

/-! ## Cuts -/

/-- A cut falls behind whole frames, or inside the frame that follows them. -/
theorem cut_frames (frame : ρ → List Byte) (rs : List ρ) (n : Nat) : ∃ ws us tail, rs = ws ++ us ∧
    (frames frame rs).take n = frames frame ws ++ tail ∧
      (tail = [] ∨ ∃ r later, us = r :: later ∧ 0 < tail.length ∧
        tail.length < (frame r).length ∧ tail = (frame r).take tail.length) := by
  induction rs generalizing n with
  | nil => exact ⟨[], [], [], rfl, by simp, .inl rfl⟩
  | cons r rs ih =>
    by_cases whole : (frame r).length ≤ n
    · obtain ⟨ws, us, tail, rfl, bytes, rest⟩ := ih (n - (frame r).length)
      refine ⟨r :: ws, us, tail, rfl, ?_, rest⟩
      rw [frames_cons, frames_cons, List.take_append, List.take_of_length_le whole, bytes,
        List.append_assoc]
    · have short : n < (frame r).length := Nat.lt_of_not_le whole
      have bytes : (frames frame (r :: rs)).take n = (frame r).take n := by
        rw [frames_cons, List.take_append_of_le_length (Nat.le_of_lt short)]
      rcases Nat.eq_zero_or_pos n with rfl | pos
      · exact ⟨[], r :: rs, [], rfl, by simp, .inl rfl⟩
      · have len : ((frame r).take n).length = n := by
          rw [List.length_take, Nat.min_eq_left (Nat.le_of_lt short)]
        refine ⟨[], r :: rs, (frame r).take n, rfl, bytes, .inr ⟨r, rs, rfl, ?_, ?_, ?_⟩⟩
        · rwa [len]
        · rwa [len]
        · rw [len]

/-- A log that ends in the first bytes of one more frame spells that record when they are the whole
frame, and leaves it out when they are not. -/
theorem Framing.spells_beginning (framing : Framing front frame Fits) {offset : Nat}
    {last : Option ρ} {rs : List ρ} {r : ρ} (chain : Chain frame Fits offset last rs)
    (fits : Fits (offset + (frames frame rs).length) (lastOf last rs) r) (n : Nat) :
    ∃ more torn, Spells front offset last (frames frame rs ++ (frame r).take n) (rs ++ more) torn ∧
      (more = [r] ∧ (frame r).length ≤ n ∨ more = [] ∧ n < (frame r).length) := by
  by_cases whole : (frame r).length ≤ n
  · have chain' : Chain frame Fits offset last (rs ++ [r]) :=
      (chain_append offset last rs [r]).mpr ⟨chain, fits, trivial⟩
    have spelled := framing.spells_frames chain'
    rw [frames_append, frames_cons, frames_nil, List.append_nil] at spelled
    rw [List.take_of_length_le whole]
    exact ⟨[r], none, spelled, .inl ⟨rfl, whole⟩⟩
  · have short : n < (frame r).length := Nat.lt_of_not_le whole
    rcases Nat.eq_zero_or_pos n with rfl | pos
    · rw [List.take_zero, List.append_nil]
      refine ⟨[], none, ?_, .inr ⟨rfl, short⟩⟩
      rw [List.append_nil]
      exact framing.spells_frames chain
    · obtain ⟨torn, turn⟩ := framing.cut fits pos short
      have some_left : (frame r).take n ≠ [] := by
        apply List.ne_nil_of_length_pos
        rw [List.length_take]
        omega
      exact ⟨[], some torn, framing.spells_append chain (.torn some_left turn),
        .inr ⟨rfl, short⟩⟩

/-- **Torn-tail law**: the cut of a log spells the records it contains whole, and it has a torn tail
exactly when it ends inside a frame. -/
theorem Framing.spells_cut (framing : Framing front frame Fits) {offset : Nat} {last : Option ρ}
    {rs : List ρ} (chain : Chain frame Fits offset last rs) (n : Nat) :
    ∃ ws us tail torn, rs = ws ++ us ∧
      (frames frame rs).take n = frames frame ws ++ tail ∧
      Spells front offset last ((frames frame rs).take n) ws torn ∧
      (torn.isSome ↔ tail ≠ []) ∧ (∀ r ∈ us.head?, tail.length < (frame r).length) ∧
      (us = [] → tail = []) := by
  obtain ⟨ws, us, tail, rfl, bytes, rest⟩ := cut_frames frame rs n
  obtain ⟨before, here⟩ := (chain_append offset last ws us).mp chain
  rcases rest with rfl | ⟨r, later, rfl, pos, short, cut⟩
  · refine ⟨ws, us, [], none, rfl, bytes, ?_, by simp, fun r _ => framing.pos r, fun _ => rfl⟩
    rw [bytes, List.append_nil]
    exact framing.spells_frames before
  · obtain ⟨fits, -⟩ := here
    obtain ⟨t, turn⟩ := framing.cut fits pos short
    rw [← cut] at turn
    have some_left : tail ≠ [] := List.ne_nil_of_length_pos pos
    refine ⟨ws, r :: later, tail, some t, rfl, bytes, ?_, by simp [some_left], ?_, ?_⟩
    · rw [bytes]
      have spelled := framing.spells_append before (.torn some_left turn)
      rwa [List.append_nil] at spelled
    · rintro _ ⟨⟩
      exact short
    · intro none_left
      exact absurd none_left (List.cons_ne_nil r later)

end Brf.Lib
