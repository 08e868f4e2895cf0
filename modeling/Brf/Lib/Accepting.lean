import Brf.Lib.Reader

/-!
# Readers that accept exactly the encodings

`Reads` of `Brf.Lib.Reader` says what a reader does on the output of an encoder. `Accepts m enc ok` is
about every byte string: `m` returns a value and a rest exactly if the string is the encoding of that
value, the value is within the bounds `ok`, and the rest follows. No other spelling of a value is
read, and there is no condition on lengths.

* A record is read field by field. Behind some of its fields the reader only returns records that
  have the values read so far, so the rules carry a part `read` of `ok` that collects them:
  `accepts_done` closes it at the end.

Results: the rules `accepts_field`, `accepts_check`, `accepts_done`, the primitive readers
(`accepts_take`, `accepts_word`, `accepts_readN`), and what a law of this kind says about a whole string:
`Accepts.injective`, `Accepts.run'_eq_ok` and `Accepts.prefix_free`.
-/

namespace Brf.Lib

variable {ε α β ρ : Type}

/-- The strings that `m` reads are the encodings of the values within `ok`. -/
def Accepts (m : Reader ε α) (enc : α → List Byte) (ok : α → Prop) : Prop :=
  ∀ (bytes : List Byte) (a : α) (rest : List Byte),
    m.run bytes = .ok (a, rest) ↔ ok a ∧ bytes = enc a ++ rest

theorem Accepts.congr {m : Reader ε α} {enc enc' : α → List Byte} {p q : α → Prop}
    (h : Accepts m enc p) (ok : ∀ a, p a ↔ q a) (same : ∀ a, q a → enc a = enc' a) :
    Accepts m enc' q := by
  intro bytes a rest
  rw [h bytes a rest, ok a]
  refine and_congr_right fun hq => ?_
  rw [same a hq]

/-- An encoding denotes one value. -/
theorem Accepts.injective {m : Reader ε α} {enc : α → List Byte} {ok : α → Prop}
    (h : Accepts m enc ok) {a b : α} {s t : List Byte} (ha : ok a) (hb : ok b)
    (same : enc a ++ s = enc b ++ t) : a = b ∧ s = t := by
  have left := (h (enc a ++ s) a s).mpr ⟨ha, rfl⟩
  have right := (h (enc a ++ s) b t).mpr ⟨hb, same⟩
  rw [left] at right
  exact Prod.mk.inj (Except.ok.inj right)

/-- A reader at the front of a string. -/
theorem Accepts.run'_eq_ok {m : Reader ε α} {enc : α → List Byte} {ok : α → Prop}
    (h : Accepts m enc ok) {bytes : List Byte} {a : α} :
    m.run' bytes = .ok a ↔ ok a ∧ enc a <+: bytes := by
  have first : m.run' bytes = Prod.fst <$> m.run bytes := rfl
  rw [first]
  constructor
  · intro ran
    cases read : m.run bytes with
    | error e =>
      rw [read] at ran
      cases ran
    | ok found =>
      obtain ⟨a', rest⟩ := found
      rw [read] at ran
      obtain rfl := Except.ok.inj ran
      obtain ⟨inside, rfl⟩ := (h _ _ _).mp read
      exact ⟨inside, List.prefix_append _ _⟩
  · rintro ⟨inside, rest, rfl⟩
    rw [(h _ a rest).mpr ⟨inside, rfl⟩]
    rfl

/-- No encoding begins with another one. -/
theorem Accepts.prefix_free {m : Reader ε α} {enc : α → List Byte} {ok : α → Prop}
    (h : Accepts m enc ok) {a b : α} (ha : ok a) (hb : ok b) (begins : enc a <+: enc b) : a = b := by
  obtain ⟨rest, whole⟩ := begins
  exact (h.injective (t := []) ha hb (by rw [whole, List.append_nil])).1

/-! ## Sequencing -/

theorem run_bind_eq_ok {m : Reader ε α} {f : α → Reader ε β} {bytes rest : List Byte} {b : β} :
    (m >>= f).run bytes = .ok (b, rest) ↔
      ∃ a left, m.run bytes = .ok (a, left) ∧ (f a).run left = .ok (b, rest) := by
  have run : (m >>= f).run bytes = (m.run bytes >>= fun x => (f x.1).run x.2) := rfl
  rw [run]
  cases m.run bytes with
  | error e => simp [bind, Except.bind]
  | ok x =>
    obtain ⟨a, left⟩ := x
    simp [bind, Except.bind]

theorem run_pure_eq_ok {a b : α} {bytes rest : List Byte} :
    (pure a : Reader ε α).run bytes = .ok (b, rest) ↔ b = a ∧ bytes = rest := by
  have run : (pure a : Reader ε α).run bytes = .ok (a, bytes) := rfl
  simp [run, eq_comm]

/-- **Sequencing**: `first` is the part of a value that the first reader returns. -/
theorem accepts_bind {d : Reader ε α} {enc : α → List Byte} {ok : α → Prop} {f : α → Reader ε β}
    {t : β → List Byte} {q : β → Prop} (first : β → α) (hd : Accepts d enc ok)
    (hf : ∀ a, ok a → Accepts (f a) t fun b => first b = a ∧ q b) :
    Accepts (d >>= f) (fun b => enc (first b) ++ t b) fun b => ok (first b) ∧ q b := by
  intro bytes b rest
  rw [run_bind_eq_ok]
  constructor
  · rintro ⟨a, left, front, run⟩
    obtain ⟨ha, rfl⟩ := (hd _ _ _).mp front
    obtain ⟨⟨rfl, hb⟩, rfl⟩ := (hf a ha _ _ _).mp run
    exact ⟨⟨ha, hb⟩, by rw [List.append_assoc]⟩
  · rintro ⟨⟨ha, hb⟩, rfl⟩
    refine ⟨first b, t b ++ rest, (hd _ _ _).mpr ⟨ha, by rw [List.append_assoc]⟩, ?_⟩
    exact (hf _ ha _ _ _).mpr ⟨⟨rfl, hb⟩, rfl⟩

/-- **A field**: behind it, only records with the value just read are returned. -/
theorem accepts_field {d : Reader ε α} {enc : α → List Byte} {ok : α → Prop} {f : α → Reader ε ρ}
    {later : ρ → List Byte} {read bounds : ρ → Prop} (get : ρ → α) (hd : Accepts d enc ok)
    (hf : ∀ x, Accepts (f x) later fun r => (read r ∧ get r = x) ∧ bounds r) :
    Accepts (d >>= f) (fun r => enc (get r) ++ later r)
      fun r => read r ∧ ok (get r) ∧ bounds r := by
  have whole := accepts_bind (q := fun r => read r ∧ bounds r) get hd fun x _ =>
    (hf x).congr (fun r => by rw [and_comm (a := read r), and_assoc]) fun _ _ => rfl
  exact whole.congr (fun r => and_left_comm) fun _ _ => rfl

/-- A reader that only fails. -/
theorem accepts_throw (e : ε) (enc : α → List Byte) : Accepts (throw e : Reader ε α) enc fun _ => False := by
  intro bytes a rest
  have run : (throw e : Reader ε α).run bytes = .error e := rfl
  simp [run]

theorem accepts_failIf {c : Bool} {e : ε} {m : Reader ε α} {enc : α → List Byte} {ok : α → Prop}
    (hm : Accepts m enc ok) : Accepts (failIf c e >>= fun _ => m) enc fun a => c = false ∧ ok a := by
  cases c with
  | false => exact hm.congr (fun a => by simp) fun _ _ => rfl
  | true => exact (accepts_throw e enc).congr (fun a => by simp) fun _ _ => rfl

/-- **A check** of what has been read. -/
theorem accepts_check {c : Bool} {e : ε} {m : Reader ε ρ} {later : ρ → List Byte}
    {read bounds : ρ → Prop} (fine : ρ → Prop) (hc : ∀ r, read r → (c = false ↔ fine r))
    (hm : Accepts m later fun r => read r ∧ bounds r) :
    Accepts (failIf c e >>= fun _ => m) later fun r => read r ∧ fine r ∧ bounds r := by
  refine (accepts_failIf hm).congr (fun r => ?_) fun _ _ => rfl
  rw [and_left_comm]
  exact and_congr_right fun hr => and_congr_left fun _ => hc r hr

theorem accepts_pure (a : α) : Accepts (pure a : Reader ε α) (fun _ => []) fun b => b = a := by
  intro bytes b rest
  simp only [run_pure_eq_ok, List.nil_append]

/-- **The end**: the values that have been read make up one record. -/
theorem accepts_done {a : ρ} {read : ρ → Prop} (one : ∀ r, read r ↔ r = a) :
    Accepts (pure a : Reader ε ρ) (fun _ => []) fun r => read r ∧ True :=
  (accepts_pure a).congr (fun r => by rw [and_true, one r]) fun _ _ => rfl

/-- At the front of a record nothing has been read. -/
theorem accepts_record {m : Reader ε ρ} {enc : ρ → List Byte} {bounds : ρ → Prop}
    (h : Accepts m enc fun r => True ∧ bounds r) : Accepts m enc bounds :=
  h.congr (fun _ => by rw [true_and]) fun _ _ => rfl

/-- A value that is only rebuilt from the one that is read. -/
theorem accepts_map {d : Reader ε α} {enc : α → List Byte} {ok : α → Prop} {g : α → β}
    {enc' : β → List Byte} {ok' : β → Prop} (hd : Accepts d enc ok)
    (values : ∀ b, ok' b ↔ ∃ a, ok a ∧ b = g a) (same : ∀ a, ok a → enc' (g a) = enc a) :
    Accepts (d >>= fun a => pure (g a)) enc' ok' := by
  intro bytes b rest
  rw [run_bind_eq_ok, values b]
  simp only [run_pure_eq_ok, hd bytes]
  constructor
  · rintro ⟨a, left, ⟨ha, rfl⟩, rfl, rfl⟩
    exact ⟨⟨a, ha, rfl⟩, by rw [same a ha]⟩
  · rintro ⟨⟨a, ha, rfl⟩, rfl⟩
    exact ⟨a, rest, ⟨ha, by rw [same a ha]⟩, rfl, rfl⟩

/-! ## Fields -/

theorem accepts_take (n : Nat) (e : ε) :
    Accepts (takeBytes n e) (fun bs => bs) fun bs => bs.length = n := by
  intro bytes a rest
  change (if bytes.length < n then Except.error e else .ok (bytes.take n, bytes.drop n)) =
    .ok (a, rest) ↔ _
  by_cases short : bytes.length < n
  · rw [if_pos short]
    refine ⟨fun h => absurd h (by simp), ?_⟩
    rintro ⟨rfl, rfl⟩
    simp at short
  · rw [if_neg short]
    constructor
    · intro h
      obtain ⟨rfl, rfl⟩ := Prod.mk.inj (Except.ok.inj h)
      exact ⟨List.length_take_of_le (not_lt.mp short), (List.take_append_drop n bytes).symm⟩
    · rintro ⟨rfl, rfl⟩
      rw [List.take_left, List.drop_left]

/-- A field of `n` bytes: every value below `256 ^ n` denotes one number. -/
theorem accepts_word {n : Nat} {e : ε} {of : Nat → α} (num : α → Nat) (small : ∀ a, num a < 256 ^ n)
    (of_num : ∀ a, of (num a) = a) (num_of : ∀ v, v < 256 ^ n → num (of v) = v) :
    Accepts (readWord n e of) (fun a => leBytes n (num a)) fun _ => True := by
  refine accepts_map (accepts_take n e) (fun a => ?_) fun bs len => ?_
  · refine iff_of_true trivial ⟨leBytes n (num a), leBytes_length n (num a), ?_⟩
    rw [leValue_leBytes, Nat.mod_eq_of_lt (small a), of_num]
  · have bound := leValue_lt bs
    rw [len] at bound
    rw [num_of _ bound, ← len, leBytes_leValue]

/-- A number of items in a row. -/
theorem accepts_readN {d : Reader ε α} {enc : α → List Byte} {ok : α → Prop}
    (hd : Accepts d enc ok) :
    ∀ n, Accepts (readN d n) (fun xs => xs.flatMap enc) fun xs => xs.length = n ∧ ∀ x ∈ xs, ok x
  | 0 => by
    intro bytes xs rest
    simp only [readN, run_pure_eq_ok, List.length_eq_zero_iff]
    constructor
    · rintro ⟨rfl, rfl⟩
      simp
    · rintro ⟨⟨rfl, -⟩, rfl⟩
      simp
  | n + 1 => by
    intro bytes xs rest
    have ih := accepts_readN hd n
    rw [readN]
    simp only [run_bind_eq_ok, run_pure_eq_ok, hd bytes]
    constructor
    · rintro ⟨x, left, ⟨hx, rfl⟩, ys, left', run, rfl, rfl⟩
      obtain ⟨⟨rfl, hys⟩, rfl⟩ := (ih _ _ _).mp run
      simpa using ⟨hx, hys⟩
    · rintro ⟨⟨len, inside⟩, rfl⟩
      obtain ⟨x, ys, rfl⟩ := List.exists_cons_of_length_eq_add_one len
      rw [List.forall_mem_cons] at inside
      refine ⟨x, ys.flatMap enc ++ rest, ⟨inside.1, by simp⟩, ys, rest, ?_, rfl, rfl⟩
      exact (ih _ _ _).mpr ⟨⟨by simpa using len, inside.2⟩, rfl⟩

end Brf.Lib
