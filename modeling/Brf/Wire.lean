import Brf.Error
import Brf.Identity
import Brf.Time
import Brf.Lib.Reader

/-!
# The wire encoding

Model of `include/brf/wire.hpp`, `src/wire.cpp` and the generic codecs of `include/brf/codec.hpp`:
little-endian integers, length-prefixed bytes, and lists with a 32-bit count.

* `Codec α` is the pair of overloads `encode(Writer&, const α&)` / `decode(Reader&, α&)`.
* `LawfulCodec α` says what the decoder does on every encoded value: it reads back the value when
  `Bounded` holds, and fails when it does not. The encoder checks nothing, so `Bounded` is exactly
  the part of the decoder's bounds that a writer must have established.

Results: `reads_list`, `reads_text`, and `LawfulCodec` of the primitive types.
-/

namespace Brf

open Brf.Lib

/-- `kMaxTextBytes`. -/
def maxTextBytes : Nat := 65536

/-- `kMaxCollectionItems`. -/
def maxCollectionItems : Nat := 65536

/-- `truncated` (`wire.cpp`). -/
def truncated (what : String) : Error :=
  ⟨.corrupt, ascii "truncated encoding while reading " ++ ascii what⟩

/-- The overloads `encode(Writer&, const α&)` and `decode(Reader&, α&)`. -/
class Codec (α : Type) where
  encode : α → Text
  decode : Reader Error α

export Codec (encode decode)

/-- What a decoder does on the output of its encoder. -/
class LawfulCodec (α : Type) [Codec α] where
  /-- The bounds the decoder imposes. -/
  Bounded : α → Prop
  reads : ∀ a : α, Reads decode (encode a) a (Bounded a)
  encode_pos : ∀ a : α, 0 < (encode a).length

export LawfulCodec (Bounded reads encode_pos)

/-! ## Primitives -/

/-- `Writer::u8` and `Reader::u8`. -/
instance : Codec Byte where
  encode v := leBytes 1 v.val
  decode := readWord 1 (truncated "u8") (Word.cast 8)

/-- `Writer::u16` and `Reader::u16`. -/
instance : Codec (Word 16) where
  encode v := leBytes 2 v.val
  decode := readWord 2 (truncated "u8") (Word.cast 16)

/-- `Writer::u32` and `Reader::u32`. -/
instance : Codec (Word 32) where
  encode v := leBytes 4 v.val
  decode := readWord 4 (truncated "u8") (Word.cast 32)

/-- `Writer::u64` and `Reader::u64`, which also carry every `Counter`. -/
instance : Codec (Word 64) where
  encode v := leBytes 8 v.val
  decode := readWord 8 (truncated "u8") (Word.cast 64)

/-- `Writer::i64` and `Reader::i64`: the two's complement bytes. -/
instance : Codec I64 where
  encode v := encode v.toWord
  decode := do
    let raw ← decode
    pure (I64.ofWord raw)

/-- `Writer::boolean` and `Reader::boolean`. -/
instance : Codec Bool where
  encode v := encode (if v then 1 else 0 : Byte)
  decode := do
    let raw : Byte ← decode
    failIf (1 < raw.val) (makeError .corrupt "boolean field must be 0 or 1")
    pure (raw.val = 1)

/-- `Writer::fixed128` and `Reader::fixed128`: the sixteen bytes in order. -/
instance : Codec Identity128 where
  encode v := v.bytes
  decode := do
    let raw ← takeBytes 16 (truncated "byte range")
    pure (Identity128.fromBytes raw)

/-- `Writer::count`: the length, cut to 32 bits. -/
def encodeCount (n : Nat) : Text := encode (Word.cast 32 n)

/-- `Writer::text`. -/
def encodeText (text : Text) : Text := encodeCount text.length ++ text

/-- `Reader::text`. -/
def decodeText (maxSize : Nat) : Reader Error Text := do
  let length : Word 32 ← decode
  failIf (maxSize < length.val)
    (makeError .resourceExhausted "length-prefixed field exceeds its bound")
  takeBytes length.val (truncated "byte range")

/-- `FixedName::from_string` inside a decoder. -/
def parse {capacity : Nat} (raw : Text) : Reader Error (FixedName capacity) :=
  match FixedName.fromString raw with
  | .ok name => pure name
  | .error e => throw e

/-- A fixed-capacity name; the absent name is legal. -/
instance (capacity : Nat) : Codec (FixedName capacity) where
  encode v := encodeText v.text
  decode := do
    let raw ← decodeText capacity
    if raw.isEmpty then pure default else parse raw

/-- The `u8` encoding of an enumeration, with the message of its decoder. -/
def encodeEnum {α : Type} [DecidableEq α] [Enumeration α] (v : α) : Text :=
  encode (Word.cast 8 (Enumeration.index v))

/-- The member with a number, or the error of an unknown one. -/
def memberOf {α : Type} [DecidableEq α] [Enumeration α] (unknown : String) (n : Nat) :
    Reader Error α :=
  match Enumeration.ofIndex? n with
  | some v => pure v
  | none => throw (makeError .corrupt unknown)

/-- The `u8` decoding of an enumeration. -/
def decodeEnum {α : Type} [DecidableEq α] [Enumeration α] (unknown : String) : Reader Error α := do
  let raw : Byte ← decode
  memberOf unknown raw.val

/-- `encode(Writer&, const std::optional<Bandwidth>&)` and every `has_x` flag followed by `x`. -/
instance {α : Type} [Codec α] : Codec (Option α) where
  encode
    | none => encode false
    | some v => encode true ++ encode v
  decode := do
    let present : Bool ← decode
    if present then some <$> decode else pure none

/-! ## Lists -/

/-- `encode_list` over any item encoder. -/
def encodeListWith {α : Type} (item : α → Text) (items : List α) : Text :=
  encodeCount items.length ++ items.flatMap item

/-- `decode_list` over any item decoder: the bound is enforced before anything is read. -/
def decodeListWith {α : Type} (item : Reader Error α) : Reader Error (List α) := do
  let count : Word 32 ← decode
  failIf (maxCollectionItems < count.val)
    (makeError .resourceExhausted "encoded collection exceeds the item bound")
  readN item count.val

/-- `encode_list` and `decode_list`. -/
instance {α : Type} [Codec α] : Codec (List α) where
  encode := encodeListWith encode
  decode := decodeListWith decode

/-- The lists of labels: `encode_list(Writer&, const std::vector<std::string>&)`. -/
def encodeTexts (items : List Text) : Text := encodeListWith encodeText items

/-- `decode_list<std::string>`. -/
def decodeTexts : Reader Error (List Text) := decodeListWith (decodeText maxTextBytes)

/-! ## What the decoders accept -/

instance : LawfulCodec Byte where
  Bounded _ := True
  reads v := reads_word (by apply Fin.ext; have := v.isLt; simp only [Word.val_cast]; omega)
  encode_pos v := by simp [encode]

instance : LawfulCodec (Word 16) where
  Bounded _ := True
  reads v := reads_word (by apply Fin.ext; have := v.isLt; simp only [Word.val_cast]; omega)
  encode_pos v := by simp [encode]

instance : LawfulCodec (Word 32) where
  Bounded _ := True
  reads v := reads_word (by apply Fin.ext; have := v.isLt; simp only [Word.val_cast]; omega)
  encode_pos v := by simp [encode]

instance : LawfulCodec (Word 64) where
  Bounded _ := True
  reads v := reads_word (by apply Fin.ext; have := v.isLt; simp only [Word.val_cast]; omega)
  encode_pos v := by simp [encode]

instance : LawfulCodec I64 where
  Bounded _ := True
  reads v := by
    have h := reads_map (g := I64.ofWord) (reads v.toWord)
    rw [I64.ofWord_toWord] at h
    exact h
  encode_pos v := encode_pos v.toWord

instance : LawfulCodec Bool where
  Bounded _ := True
  reads v := by
    have h := reads_bind (f := fun raw : Byte => failIf (1 < raw.val)
      (makeError .corrupt "boolean field must be 0 or 1") >>= fun _ => pure (decide (raw.val = 1)))
      (reads (if v then 1 else 0 : Byte)) (reads_check (reads_pure _))
    rw [List.append_nil] at h
    cases v with
    | false => exact h.congr (by simp [Bounded])
    | true => exact h.congr (by simp [Bounded])
  encode_pos v := encode_pos (if v then 1 else 0 : Byte)

instance : LawfulCodec Identity128 where
  Bounded _ := True
  reads v := by
    have h := reads_map (g := Identity128.fromBytes)
      (reads_take (e := truncated "byte range") v.bytes_length)
    rw [Identity128.fromBytes_bytes] at h
    exact h
  encode_pos v := by simp [encode]

theorem encodeText_length (text : Text) : (encodeText text).length = 4 + text.length := by
  simp [encodeText, encodeCount, encode]

theorem reads_text (text : Text) (maxSize : Nat) :
    Reads (decodeText maxSize) (encodeText text) text (text.length ≤ maxSize) := by
  intro len
  rw [encodeText_length] at len
  have count : (Word.cast 32 text.length).val = text.length := Nat.mod_eq_of_lt (by omega)
  have body : Reads (takeBytes (Word.cast 32 text.length).val (truncated "byte range")) text text
      True := by
    rw [count]
    exact reads_take rfl
  have h := reads_bind (f := fun n : Word 32 => failIf (maxSize < n.val)
    (makeError .resourceExhausted "length-prefixed field exceeds its bound") >>= fun _ =>
      takeBytes n.val (truncated "byte range")) (reads (Word.cast 32 text.length))
    (reads_check body)
  refine h.congr ?_ (by rw [List.length_append, ← encodeCount, ← List.length_append,
    ← encodeText, encodeText_length]; exact len)
  simp [Bounded, count]

theorem reads_parse {capacity : Nat} (v : FixedName capacity) :
    Reads (if v.text.isEmpty then pure default else parse v.text) [] v True := by
  by_cases hv : v.text = []
  · have absent : v = default := FixedName.ext' hv
    rw [absent]
    exact reads_pure default
  · simp only [List.isEmpty_iff, hv, if_false, parse, FixedName.fromString_text hv]
    exact reads_pure v

instance (capacity : Nat) : LawfulCodec (FixedName capacity) where
  Bounded _ := True
  reads v := by
    have h := reads_bind (f := fun raw => if raw.isEmpty then pure default
        else (parse raw : Reader Error (FixedName capacity))) (reads_text v.text capacity) (reads_parse v)
    rw [List.append_nil] at h
    exact h.congr (by simp [v.length_le])
  encode_pos v := by simp [encode, encodeText_length]

theorem reads_memberOf {α : Type} [DecidableEq α] [Enumeration α] (v : α) (unknown : String) :
    Reads (memberOf unknown (Enumeration.index v)) [] v True := by
  simp only [memberOf, Enumeration.ofIndex?_index]
  exact reads_pure v

theorem reads_enum {α : Type} [DecidableEq α] [Enumeration α] (v : α) (unknown : String)
    (small : (Enumeration.all (α := α)).length ≤ 256) :
    Reads (decodeEnum unknown) (encodeEnum v) v True := by
  have index : (Word.cast 8 (Enumeration.index v)).val = Enumeration.index v :=
    Nat.mod_eq_of_lt (lt_of_lt_of_le (Enumeration.index_lt v) small)
  have member := reads_memberOf v unknown
  rw [← index] at member
  have h := reads_bind (f := fun raw : Byte => memberOf unknown raw.val)
    (reads (Word.cast 8 (Enumeration.index v))) member
  rw [List.append_nil] at h
  exact h.congr (by simp [Bounded])

instance {α : Type} [Codec α] [LawfulCodec α] : LawfulCodec (Option α) where
  Bounded v := ∀ a ∈ v, Bounded a
  reads v := by
    cases v with
    | none =>
      have h := reads_bind (reads false) (f := fun present : Bool => if present then
        some <$> (decode : Reader Error α) else pure none) (reads_pure none)
      rw [List.append_nil] at h
      exact h.congr (by simp [Bounded])
    | some a =>
      have h := reads_bind (reads true) (f := fun present : Bool => if present then
        some <$> (decode : Reader Error α) else pure none) (reads_map (g := some) (reads a))
      exact h.congr (by simp [Bounded])
  encode_pos v := by
    cases v with
    | none => exact encode_pos false
    | some a =>
      have h := encode_pos true
      simp only [encode, List.length_append] at h ⊢
      omega

theorem encodeListWith_pos {α : Type} (item : α → Text) (items : List α) :
    0 < (encodeListWith item items).length := by
  simp [encodeListWith, encodeCount, encode]

theorem reads_listWith {α : Type} {item : α → Text} {d : Reader Error α} {ok : α → Prop}
    (pos : ∀ a, 0 < (item a).length) (h : ∀ a, Reads d (item a) a (ok a)) (items : List α) :
    Reads (decodeListWith d) (encodeListWith item items) items
      (items.length ≤ maxCollectionItems ∧ ∀ a ∈ items, ok a) := by
  intro len
  have bound := length_le_flatMap pos items
  have count : (Word.cast 32 items.length).val = items.length := by
    apply Nat.mod_eq_of_lt
    simp only [encodeListWith, List.length_append] at len
    omega
  have body : Reads (readN d (Word.cast 32 items.length).val) (items.flatMap item) items
      (∀ a ∈ items, ok a) := by
    rw [count]
    exact reads_readN fun a _ => h a
  have whole := reads_bind (f := fun n : Word 32 => failIf (maxCollectionItems < n.val)
    (makeError .resourceExhausted "encoded collection exceeds the item bound") >>= fun _ =>
      readN d n.val) (reads (Word.cast 32 items.length)) (reads_check body)
  refine whole.congr ?_ len
  simp [Bounded, count]

instance {α : Type} [Codec α] [LawfulCodec α] : LawfulCodec (List α) where
  Bounded items := items.length ≤ maxCollectionItems ∧ ∀ a ∈ items, Bounded a
  reads items := reads_listWith encode_pos reads items
  encode_pos items := encodeListWith_pos encode items

theorem reads_texts (items : List Text) :
    Reads decodeTexts (encodeTexts items) items
      (items.length ≤ maxCollectionItems ∧ ∀ t ∈ items, t.length ≤ maxTextBytes) :=
  reads_listWith (fun t => by rw [encodeText_length]; omega) (fun t => reads_text t maxTextBytes)
    items

end Brf
