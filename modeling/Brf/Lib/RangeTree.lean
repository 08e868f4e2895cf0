import Mathlib.Order.Basic
import Mathlib.Order.MinMax
import Mathlib.Tactic.Linarith

/-!
# Range-add, range-max trees

A segment tree over an integer interval `[lo, hi)` that grows on demand: `add` puts a constant on a
sub-interval, `query` returns the largest value on one. Sums saturate at `sat`, and `bottom` is the
answer of a query that meets nothing.

`Represents B t lo hi f` says that `t` stores the function `f` on `[lo, hi)`, whose values lie in
`[0, B]`. A node keeps the maximum below it and a pending addition for its children, so its children
store `f` less the pending addition.

Results: while the stored values stay in `[0, B]` and `B ≤ sat`, nothing saturates:
* `represents_add`: adding on an interval stores the pointwise sum;
* `query_isPeak`: a query is the exact maximum on its interval;
* `exceeds_iff`: the search for a point above a limit is exact.

Sums that grow beyond the bound are cut off there: `cap_add` and `query_cap`.
-/

namespace Brf.Lib

/-- A node keeps the maximum of its range and an addition its children have not seen. -/
inductive RangeTree
  | untouched
  | node (max lazy : Int) (left right : RangeTree)
  deriving DecidableEq, Repr, Inhabited

namespace RangeTree

/-- Addition that stops at `sat` and `-sat`. -/
def saturatingAdd (sat a b : Int) : Int :=
  if 0 < b ∧ sat - b < a then sat
  else if b < 0 ∧ a < -sat - b then -sat
  else a + b

theorem saturatingAdd_eq {sat a b : Int} (hi : a + b ≤ sat) (lo : -sat ≤ a + b) :
    saturatingAdd sat a b = a + b := by
  unfold saturatingAdd
  split_ifs <;> omega

/-- A node over a range nothing was added to. -/
def fresh : RangeTree := node 0 0 untouched untouched

/-- Allocates a missing node. -/
def touch : RangeTree → RangeTree
  | untouched => fresh
  | t => t

/-- The maximum a node keeps. -/
def top : RangeTree → Int
  | untouched => 0
  | node m _ _ _ => m

/-- Hands a pending addition to a node. -/
def push (sat carry : Int) : RangeTree → RangeTree
  | untouched => untouched
  | node m z l r => node (saturatingAdd sat m carry) (saturatingAdd sat z carry) l r

/-- Adds `delta` on `[ql, qr)` to the node over `[lo, hi)`; the fuel bounds the depth. -/
def add (sat : Int) : Nat → RangeTree → Int → Int → Int → Int → Int → RangeTree
  | 0, t, _, _, _, _, _ => t
  | fuel + 1, t, lo, hi, ql, qr, delta =>
    if qr ≤ lo ∨ hi ≤ ql then t
    else match t with
      | untouched => untouched
      | node m z l r =>
        if ql ≤ lo ∧ hi ≤ qr then
          node (saturatingAdd sat m delta) (saturatingAdd sat z delta) l r
        else
          let mid := lo + (hi - lo) / 2
          let left := add sat fuel (push sat z (touch l)) lo mid ql qr delta
          let right := add sat fuel (push sat z (touch r)) mid hi ql qr delta
          node (max left.top right.top) 0 left right

/-- The maximum on `[ql, qr)` of the node over `[lo, hi)`, with the additions pending above it. -/
def query (sat bottom : Int) : RangeTree → Int → Int → Int → Int → Int → Int
  | untouched, lo, hi, ql, qr, carry => if qr ≤ lo ∨ hi ≤ ql then bottom else carry
  | node m z l r, lo, hi, ql, qr, carry =>
    if qr ≤ lo ∨ hi ≤ ql then bottom
    else if ql ≤ lo ∧ hi ≤ qr then saturatingAdd sat carry m
    else
      let mid := lo + (hi - lo) / 2
      let next := saturatingAdd sat carry z
      max (query sat bottom l lo mid ql qr next) (query sat bottom r mid hi ql qr next)

/-- Some point of `[ql, qr)` holds more than `limit`; the search stops at the first such node. -/
def exceeds (sat limit : Int) : RangeTree → Int → Int → Int → Int → Int → Bool
  | untouched, lo, hi, ql, qr, carry => if qr ≤ lo ∨ hi ≤ ql then false else limit < carry
  | node m z l r, lo, hi, ql, qr, carry =>
    if qr ≤ lo ∨ hi ≤ ql then false
    else if ql ≤ lo ∧ hi ≤ qr then limit < saturatingAdd sat carry m
    else
      let mid := lo + (hi - lo) / 2
      let next := saturatingAdd sat carry z
      exceeds sat limit l lo mid ql qr next || exceeds sat limit r mid hi ql qr next

/-! ## The function a tree stores -/

/-- `t` stores `f` on `[lo, hi)`, and the values of `f` there lie in `[0, B]`. -/
def Represents (B : Int) : RangeTree → Int → Int → (Int → Int) → Prop
  | untouched, lo, hi, f => ∀ x, lo ≤ x → x < hi → f x = 0
  | node m z l r, lo, hi, f =>
    (∀ x, lo ≤ x → x < hi → 0 ≤ f x ∧ f x ≤ m) ∧
    (∃ x, lo ≤ x ∧ x < hi ∧ f x = m) ∧
    m ≤ B ∧ -B ≤ z ∧ z ≤ B ∧
    Represents B l lo (lo + (hi - lo) / 2) (fun x => f x - z) ∧
    Represents B r (lo + (hi - lo) / 2) hi (fun x => f x - z)

variable {B : Int}

theorem Represents.congr : ∀ {t : RangeTree} {lo hi : Int} {f g : Int → Int},
    Represents B t lo hi f → (∀ x, lo ≤ x → x < hi → f x = g x) → Represents B t lo hi g
  | untouched, _, _, _, _, h, hfg => fun x lo hi => (hfg x lo hi) ▸ h x lo hi
  | node m z l r, lo, hi, f, g, ⟨bound, ⟨x, hx, hx', hm⟩, hB, hz, hz', hl, hr⟩, hfg => by
    refine ⟨fun y h h' => hfg y h h' ▸ bound y h h', ⟨x, hx, hx', hfg x hx hx' ▸ hm⟩, hB, hz, hz',
      hl.congr fun y h h' => ?_, hr.congr fun y h h' => ?_⟩
    · have := hfg y h (by omega)
      omega
    · have := hfg y (by omega) h'
      omega

theorem represents_fresh {lo hi : Int} (h : lo < hi) (hB : 0 ≤ B) :
    Represents B fresh lo hi (fun _ => 0) := by
  refine ⟨fun x _ _ => ⟨le_rfl, le_rfl⟩, ⟨lo, le_rfl, h, rfl⟩, hB, by omega, by omega, ?_, ?_⟩
  · intro x _ _
    rfl
  · intro x _ _
    rfl

/-- The values a tree stores lie between 0 and the maximum it keeps. -/
theorem Represents.range {t : RangeTree} {lo hi : Int} {f : Int → Int}
    (h : Represents B t lo hi f) (hB : 0 ≤ B) {x : Int} (hx : lo ≤ x) (hx' : x < hi) :
    0 ≤ f x ∧ f x ≤ B := by
  cases t with
  | untouched =>
    have := h x hx hx'
    omega
  | node m z l r =>
    have := h.1 x hx hx'
    have := h.2.2.1
    omega

/-- A node that is given a pending addition stores the sum. -/
theorem represents_push {sat carry lo hi : Int} {t : RangeTree} {f : Int → Int}
    (h : Represents B t lo hi f) (hlt : lo < hi) (hB : 0 ≤ B) (hsat : B ≤ sat)
    (fit : ∀ x, lo ≤ x → x < hi → 0 ≤ f x + carry ∧ f x + carry ≤ B) :
    Represents B (push sat carry (touch t)) lo hi (fun x => f x + carry) := by
  have base : ∃ m z l r, touch t = node m z l r ∧ Represents B (node m z l r) lo hi f := by
    cases t with
    | untouched =>
      exact ⟨0, 0, untouched, untouched, rfl,
        (represents_fresh hlt hB).congr fun x lo hi => (h x lo hi).symm⟩
    | node m z l r => exact ⟨m, z, l, r, rfl, h⟩
  obtain ⟨m, z, l, r, ht, bound, ⟨x, hx, hx', hm⟩, hmB, hz, hz', hl, hr⟩ := base
  have hfit := fit x hx hx'
  have hbound := bound x hx hx'
  -- the child at `x` bounds the old pending addition, hence the new one
  have child : 0 ≤ f x - z ∧ f x - z ≤ B := by
    by_cases side : x < lo + (hi - lo) / 2
    · exact hl.range hB hx side
    · exact hr.range hB (by omega) hx'
  have eqm : saturatingAdd sat m carry = m + carry := saturatingAdd_eq (by omega) (by omega)
  have eqz : saturatingAdd sat z carry = z + carry := saturatingAdd_eq (by omega) (by omega)
  rw [ht]
  simp only [push, eqm, eqz]
  refine ⟨fun y h h' => ?_, ⟨x, hx, hx', by simp only [hm]⟩, by omega, by omega, by omega, ?_, ?_⟩
  · have := bound y h h'
    have := fit y h h'
    exact ⟨by dsimp only; omega, by dsimp only; omega⟩
  · exact hl.congr fun y _ _ => by dsimp only; omega
  · exact hr.congr fun y _ _ => by dsimp only; omega

theorem touched_push {sat carry : Int} (t : RangeTree) :
    push sat carry (touch t) ≠ untouched := by
  cases t <;> simp [touch, fresh, push]

theorem touched_add {sat : Int} : ∀ (fuel : Nat) {t : RangeTree} {lo hi ql qr delta : Int},
    t ≠ untouched → add sat fuel t lo hi ql qr delta ≠ untouched
  | 0, _, _, _, _, _, _, h => h
  | fuel + 1, t, lo, hi, ql, qr, delta, h => by
    cases t with
    | untouched => exact absurd rfl h
    | node m z l r =>
      simp only [add]
      split_ifs <;> simp

/-- A touched node keeps an attained maximum. -/
theorem Represents.top_spec {t : RangeTree} {lo hi : Int} {f : Int → Int}
    (h : Represents B t lo hi f) (ht : t ≠ untouched) :
    (∀ x, lo ≤ x → x < hi → 0 ≤ f x ∧ f x ≤ t.top) ∧ (∃ x, lo ≤ x ∧ x < hi ∧ f x = t.top) ∧
      t.top ≤ B := by
  cases t with
  | untouched => exact absurd rfl ht
  | node m z l r => exact ⟨h.1, h.2.1, h.2.2.1⟩

/-- Two touched children store their parent, with the larger maximum and nothing pending. -/
theorem represents_join {left right : RangeTree} {lo hi : Int} {f : Int → Int}
    (hl : Represents B left lo (lo + (hi - lo) / 2) f)
    (hr : Represents B right (lo + (hi - lo) / 2) hi f) (tl : left ≠ untouched)
    (tr : right ≠ untouched) (hB : 0 ≤ B) :
    Represents B (node (max left.top right.top) 0 left right) lo hi f := by
  obtain ⟨bl, ⟨x, hx, hx', ex⟩, ml⟩ := hl.top_spec tl
  obtain ⟨br, ⟨y, hy, hy', ey⟩, mr⟩ := hr.top_spec tr
  refine ⟨fun w h h' => ?_, ?_, max_le ml mr, by omega, by omega, ?_, ?_⟩
  · by_cases side : w < lo + (hi - lo) / 2
    · exact ⟨(bl w h side).1, (bl w h side).2.trans (le_max_left _ _)⟩
    · exact ⟨(br w (by omega) h').1, (br w (by omega) h').2.trans (le_max_right _ _)⟩
  · rcases max_choice left.top right.top with h | h
    · exact ⟨x, hx, by omega, by rw [h, ex]⟩
    · exact ⟨y, by omega, hy', by rw [h, ey]⟩
  · exact hl.congr fun w _ _ => by omega
  · exact hr.congr fun w _ _ => by omega

/-- The function after an addition on `[ql, qr)`. -/
def added (f : Int → Int) (ql qr delta : Int) : Int → Int :=
  fun x => if ql ≤ x ∧ x < qr then f x + delta else f x

theorem added_outside {f : Int → Int} {ql qr delta x : Int} (h : qr ≤ x ∨ x < ql) :
    added f ql qr delta x = f x := by
  unfold added
  rw [if_neg (by omega)]

theorem added_inside {f : Int → Int} {ql qr delta x : Int} (h : ql ≤ x) (h' : x < qr) :
    added f ql qr delta x = f x + delta := by
  unfold added
  rw [if_pos ⟨h, h'⟩]

/-- **Adding stores the sum**, as long as the stored values stay in `[0, B]`. -/
theorem represents_add {sat : Int} (hB : 0 ≤ B) (hsat : B ≤ sat) :
    ∀ (fuel : Nat) {t : RangeTree} {lo hi ql qr delta : Int} {f : Int → Int},
      Represents B t lo hi f → t ≠ untouched → lo < hi → hi - lo ≤ 2 ^ fuel →
      (∀ x, lo ≤ x → x < hi → 0 ≤ added f ql qr delta x ∧ added f ql qr delta x ≤ B) →
      Represents B (add sat (fuel + 1) t lo hi ql qr delta) lo hi (added f ql qr delta) := by
  intro fuel
  induction fuel with
  | zero =>
    intro t lo hi ql qr delta f h ht hlt depth fit
    -- a single point: the interval misses it or covers it
    have hhi : hi = lo + 1 := by omega
    by_cases miss : qr ≤ lo ∨ hi ≤ ql
    · simp only [add, if_pos miss]
      exact h.congr fun x hx hx' => (added_outside (by omega)).symm
    · have covers : ql ≤ lo ∧ hi ≤ qr := by omega
      cases t with
      | untouched => exact absurd rfl ht
      | node m z l r =>
        have pushed := @represents_push _ _ delta _ _ _ _ h hlt hB hsat fun x hx hx' => by
          rw [← added_inside (by omega : ql ≤ x) (by omega : x < qr)]
          exact fit x hx hx'
        simp only [add, if_neg miss, if_pos covers]
        exact pushed.congr fun x hx hx' => (added_inside (by omega) (by omega)).symm
  | succ fuel ih =>
    intro t lo hi ql qr delta f h ht hlt depth fit
    by_cases miss : qr ≤ lo ∨ hi ≤ ql
    · simp only [add, if_pos miss]
      exact h.congr fun x hx hx' => (added_outside (by omega)).symm
    · cases t with
      | untouched => exact absurd rfl ht
      | node m z l r =>
        by_cases covers : ql ≤ lo ∧ hi ≤ qr
        · have pushed := @represents_push _ _ delta _ _ _ _ h hlt hB hsat fun x hx hx' => by
            rw [← added_inside (by omega : ql ≤ x) (by omega : x < qr)]
            exact fit x hx hx'
          simp only [add, if_neg miss, if_pos covers]
          exact pushed.congr fun x hx hx' => (added_inside (by omega) (by omega)).symm
        · -- push the pending addition down, add in both halves, join
          have half : 2 ^ (fuel + 1) = 2 * 2 ^ fuel := by rw [pow_succ, mul_comm]
          have sub := h.2.2.2.2.2
          have range : ∀ x, lo ≤ x → x < hi → 0 ≤ f x - z + z ∧ f x - z + z ≤ B := by
            intro x hx hx'
            have := h.range hB hx hx'
            omega
          have left := ih
            ((represents_push sub.1 (by omega) hB hsat
                fun x hx hx' => range x hx (by omega)).congr (g := f) fun x _ _ => by omega)
            (touched_push l) (by omega) (by omega)
            fun x hx hx' => fit x hx (by omega)
          have right := ih
            ((represents_push sub.2 (by omega) hB hsat
                fun x hx hx' => range x (by omega) hx').congr (g := f) fun x _ _ => by omega)
            (touched_push r) (by omega) (by omega)
            fun x hx hx' => fit x (by omega) hx'
          rw [add]
          simp only [if_neg miss, if_neg covers]
          exact represents_join left right (touched_add _ (touched_push l))
            (touched_add _ (touched_push r)) hB

/-! ## Queries -/

/-- `v` is the maximum of `f x + carry` on `[lo, hi) ∩ [ql, qr)`, or `bottom` when that is empty. -/
def IsPeak (bottom : Int) (f : Int → Int) (carry lo hi ql qr v : Int) : Prop :=
  (∀ x, lo ≤ x → x < hi → ql ≤ x → x < qr → f x + carry ≤ v) ∧
  ((∃ x, lo ≤ x ∧ x < hi ∧ ql ≤ x ∧ x < qr ∧ f x + carry = v) ∨
    v = bottom ∧ ∀ x, lo ≤ x → x < hi → ql ≤ x → ¬ x < qr)

/-- A range that misses the query has the peak `bottom`. -/
theorem isPeak_miss {bottom carry lo hi ql qr : Int} {f : Int → Int} (h : qr ≤ lo ∨ hi ≤ ql) :
    IsPeak bottom f carry lo hi ql qr bottom :=
  ⟨fun x _ _ _ _ => by omega, .inr ⟨rfl, fun x _ _ _ => by omega⟩⟩

/-- The peaks of two halves make the peak of the whole. -/
theorem isPeak_max {bottom carry lo mid hi ql qr u v : Int} {f : Int → Int}
    (hl : IsPeak bottom f carry lo mid ql qr u) (hr : IsPeak bottom f carry mid hi ql qr v)
    (hmid : lo ≤ mid) (hmid' : mid ≤ hi) (meets : ∃ x, lo ≤ x ∧ x < hi ∧ ql ≤ x ∧ x < qr)
    (above : ∀ x, lo ≤ x → x < hi → bottom ≤ f x + carry) :
    IsPeak bottom f carry lo hi ql qr (max u v) := by
  obtain ⟨ul, al⟩ := hl
  obtain ⟨ur, ar⟩ := hr
  refine ⟨fun x hx hx' hxl hxr => ?_, .inl ?_⟩
  · by_cases side : x < mid
    · exact le_max_of_le_left (ul x hx side hxl hxr)
    · exact le_max_of_le_right (ur x (by omega) hx' hxl hxr)
  · rcases al with ⟨x, hx, hx', hxl, hxr, ex⟩ | ⟨el, nl⟩
    · rcases ar with ⟨y, hy, hy', hyl, hyr, ey⟩ | ⟨er, nr⟩
      · rcases max_choice u v with e | e
        · exact ⟨x, hx, by omega, hxl, hxr, by omega⟩
        · exact ⟨y, by omega, hy', hyl, hyr, by omega⟩
      · have := above x hx (by omega)
        exact ⟨x, hx, by omega, hxl, hxr, by omega⟩
    · rcases ar with ⟨y, hy, hy', hyl, hyr, ey⟩ | ⟨er, nr⟩
      · have := above y (by omega) hy'
        exact ⟨y, by omega, hy', hyl, hyr, by omega⟩
      · -- neither half is met, but the range is
        obtain ⟨x, hx, hx', hxl, hxr⟩ := meets
        by_cases side : x < mid
        · exact absurd hxr (nl x hx side hxl)
        · exact absurd hxr (nr x (by omega) hx' hxl)

/-- **A query is the exact maximum** on its interval, pending additions included. -/
theorem query_isPeak {sat bottom : Int} (hB : 0 ≤ B) (hsat : B ≤ sat) (hbot : bottom ≤ 0) :
    ∀ {t : RangeTree} {lo hi ql qr carry : Int} {f : Int → Int},
      Represents B t lo hi f → lo < hi → ql < qr →
      (∀ x, lo ≤ x → x < hi → 0 ≤ f x + carry ∧ f x + carry ≤ B) →
      IsPeak bottom f carry lo hi ql qr (query sat bottom t lo hi ql qr carry) := by
  intro t
  induction t with
  | untouched =>
    intro lo hi ql qr carry f h hlt hq fit
    simp only [query]
    split_ifs with miss
    · exact isPeak_miss miss
    · refine ⟨fun x hx hx' _ _ => ?_, .inl ⟨max lo ql, by omega, by omega, by omega, by omega, ?_⟩⟩
      · have := h x hx hx'
        omega
      · have := h (max lo ql) (by omega) (by omega)
        omega
  | node m z l r ihl ihr =>
    intro lo hi ql qr carry f h hlt hq fit
    obtain ⟨bound, ⟨w, hw, hw', hm⟩, hmB, hz, hz', hl, hr⟩ := h
    have fitw := fit w hw hw'
    have bw := bound w hw hw'
    rw [query]
    split_ifs with miss covers
    · exact isPeak_miss miss
    · rw [saturatingAdd_eq (by omega) (by omega)]
      refine ⟨fun x hx hx' _ _ => ?_, .inl ⟨w, hw, hw', by omega, by omega, by omega⟩⟩
      have := bound x hx hx'
      omega
    · have wide : lo + 2 ≤ hi := by omega
      -- what the children store bounds the pending addition against `f`
      have child : 0 ≤ f lo - z ∧ f lo - z ≤ B := hl.range hB (le_refl lo) (by omega)
      have fitl := fit lo (le_refl lo) hlt
      have next : saturatingAdd sat carry z = carry + z := saturatingAdd_eq (by omega) (by omega)
      have shift : ∀ {a b v : Int}, IsPeak bottom (fun x => f x - z) (carry + z) a b ql qr v →
          IsPeak bottom f carry a b ql qr v := by
        intro a b v ⟨u, at'⟩
        refine ⟨fun x hx hx' hxl hxr => ?_, at'.imp (fun ⟨x, hx, hx', hxl, hxr, ex⟩ => ?_) id⟩
        · have := u x hx hx' hxl hxr
          dsimp only at this
          omega
        · exact ⟨x, hx, hx', hxl, hxr, by dsimp only at ex; omega⟩
      simp only [next]
      refine isPeak_max (shift (ihl hl (by omega) hq fun x hx hx' => ?_))
        (shift (ihr hr (by omega) hq fun x hx hx' => ?_)) (by omega) (by omega)
        ⟨max lo ql, by omega, by omega, by omega, by omega⟩ fun x hx hx' => ?_
      · have := fit x hx (by omega)
        omega
      · have := fit x (by omega) hx'
        omega
      · have := fit x hx hx'
        omega

/-- **The search for a point above a limit is exact**, pending additions included. -/
theorem exceeds_iff {sat limit : Int} (hB : 0 ≤ B) (hsat : B ≤ sat) :
    ∀ {t : RangeTree} {lo hi ql qr carry : Int} {f : Int → Int},
      Represents B t lo hi f → lo < hi → ql < qr →
      (∀ x, lo ≤ x → x < hi → 0 ≤ f x + carry ∧ f x + carry ≤ B) →
      (exceeds sat limit t lo hi ql qr carry = true ↔
        ∃ x, lo ≤ x ∧ x < hi ∧ ql ≤ x ∧ x < qr ∧ limit < f x + carry) := by
  intro t
  induction t with
  | untouched =>
    intro lo hi ql qr carry f h hlt hq fit
    simp only [exceeds]
    split_ifs with miss
    · simp only [false_iff]
      rintro ⟨x, hx, hx', hxl, hxr, -⟩
      omega
    · rw [decide_eq_true_iff]
      constructor
      · intro more
        have zero := h (max lo ql) (by omega) (by omega)
        exact ⟨max lo ql, by omega, by omega, by omega, by omega, by omega⟩
      · rintro ⟨x, hx, hx', -, -, more⟩
        have zero := h x hx hx'
        omega
  | node m z l r ihl ihr =>
    intro lo hi ql qr carry f h hlt hq fit
    obtain ⟨bound, ⟨w, hw, hw', hm⟩, hmB, hz, hz', hl, hr⟩ := h
    have fitw := fit w hw hw'
    have bw := bound w hw hw'
    rw [exceeds]
    split_ifs with miss covers
    · simp only [false_iff]
      rintro ⟨x, hx, hx', hxl, hxr, -⟩
      omega
    · rw [saturatingAdd_eq (by omega) (by omega), decide_eq_true_iff]
      constructor
      · intro more
        exact ⟨w, hw, hw', by omega, by omega, by omega⟩
      · rintro ⟨x, hx, hx', -, -, more⟩
        have below := bound x hx hx'
        omega
    · have wide : lo + 2 ≤ hi := by omega
      have child : 0 ≤ f lo - z ∧ f lo - z ≤ B := hl.range hB (le_refl lo) (by omega)
      have fitl := fit lo (le_refl lo) hlt
      have next : saturatingAdd sat carry z = carry + z := saturatingAdd_eq (by omega) (by omega)
      have left := @ihl _ _ ql qr (carry + z) _ hl (by omega) hq fun x hx hx' => by
        have := fit x hx (by omega)
        omega
      have right := @ihr _ _ ql qr (carry + z) _ hr (by omega) hq fun x hx hx' => by
        have := fit x (by omega) hx'
        omega
      simp only [next, Bool.or_eq_true, left, right]
      constructor
      · rintro (⟨x, hx, hx', hxl, hxr, more⟩ | ⟨x, hx, hx', hxl, hxr, more⟩)
        · exact ⟨x, hx, by omega, hxl, hxr, by omega⟩
        · exact ⟨x, by omega, hx', hxl, hxr, by omega⟩
      · rintro ⟨x, hx, hx', hxl, hxr, more⟩
        by_cases side : x < lo + (hi - lo) / 2
        · exact .inl ⟨x, hx, side, hxl, hxr, by omega⟩
        · exact .inr ⟨x, by omega, hx', hxl, hxr, by omega⟩

/-! ## Sums above the bound -/

/-- Every value a tree keeps, cut off at `sat`. -/
def cap (sat : Int) : RangeTree → RangeTree
  | untouched => untouched
  | node m z l r => node (min sat m) (min sat z) (cap sat l) (cap sat r)

/-- No value that the tree keeps is negative. -/
def Grown : RangeTree → Prop
  | untouched => True
  | node m z l r => 0 ≤ m ∧ 0 ≤ z ∧ l.Grown ∧ r.Grown

variable {sat big : Int} {t : RangeTree}

theorem saturatingAdd_cap (hsat : 0 ≤ sat) (hbig : sat ≤ big) {a b : Int} (ha : 0 ≤ a)
    (hb : 0 ≤ b) :
    saturatingAdd sat (min sat a) (min sat b) = min sat (saturatingAdd big a b) := by
  unfold saturatingAdd
  split_ifs <;> omega

theorem saturatingAdd_nonneg (hbig : 0 ≤ big) {a b : Int} (ha : 0 ≤ a) (hb : 0 ≤ b) :
    0 ≤ saturatingAdd big a b := by
  unfold saturatingAdd
  split_ifs <;> omega

theorem top_cap (hsat : 0 ≤ sat) (t : RangeTree) : (cap sat t).top = min sat t.top := by
  cases t with
  | untouched => exact (min_eq_right hsat).symm
  | node m z l r => rfl

theorem cap_touch (hsat : 0 ≤ sat) (t : RangeTree) : cap sat (touch t) = touch (cap sat t) := by
  cases t with
  | untouched => simp [touch, fresh, cap, min_eq_right hsat]
  | node m z l r => rfl

theorem Grown.touch (h : t.Grown) : t.touch.Grown := by
  cases t with
  | untouched => exact ⟨le_rfl, le_rfl, trivial, trivial⟩
  | node m z l r => exact h

theorem Grown.top_nonneg (h : t.Grown) : 0 ≤ t.top := by
  cases t with
  | untouched => exact le_rfl
  | node m z l r => exact h.1

theorem cap_push (hsat : 0 ≤ sat) (hbig : sat ≤ big) {carry : Int} (hc : 0 ≤ carry)
    (h : t.Grown) : cap sat (push big carry t) = push sat (min sat carry) (cap sat t) := by
  cases t with
  | untouched => rfl
  | node m z l r =>
    obtain ⟨hm, hz, -, -⟩ := h
    simp only [push, cap, saturatingAdd_cap hsat hbig hm hc, saturatingAdd_cap hsat hbig hz hc]

theorem Grown.push (hbig : 0 ≤ big) {carry : Int} (hc : 0 ≤ carry) (h : t.Grown) :
    (push big carry t).Grown := by
  cases t with
  | untouched => trivial
  | node m z l r =>
    obtain ⟨hm, hz, hl, hr⟩ := h
    exact ⟨saturatingAdd_nonneg hbig hm hc, saturatingAdd_nonneg hbig hz hc, hl, hr⟩

theorem Grown.add (hbig : 0 ≤ big) {delta : Int} (hd : 0 ≤ delta) {ql qr : Int} :
    ∀ (fuel : Nat) {t : RangeTree} {lo hi : Int}, t.Grown →
      (RangeTree.add big fuel t lo hi ql qr delta).Grown
  | 0, _, _, _, h => h
  | fuel + 1, .untouched, lo, hi, _ => by
    simp only [RangeTree.add]
    split_ifs <;> trivial
  | fuel + 1, .node m z l r, lo, hi, h => by
    obtain ⟨hm, hz, hl, hr⟩ := h
    have left := hl.touch.push hbig hz
    have right := hr.touch.push hbig hz
    simp only [RangeTree.add]
    split_ifs with miss covers
    · exact ⟨hm, hz, hl, hr⟩
    · exact ⟨saturatingAdd_nonneg hbig hm hd, saturatingAdd_nonneg hbig hz hd, hl, hr⟩
    · exact ⟨le_max_of_le_left (Grown.add hbig hd fuel left).top_nonneg, le_rfl,
        Grown.add hbig hd fuel left, Grown.add hbig hd fuel right⟩

/-- **Saturating at a smaller bound cuts the sums off** there, as long as nothing negative is
added. -/
theorem cap_add (hsat : 0 ≤ sat) (hbig : sat ≤ big) {delta : Int} (hd : 0 ≤ delta)
    (small : delta ≤ sat) {ql qr : Int} :
    ∀ (fuel : Nat) {t : RangeTree} {lo hi : Int}, t.Grown →
      cap sat (RangeTree.add big fuel t lo hi ql qr delta) =
        RangeTree.add sat fuel (cap sat t) lo hi ql qr delta
  | 0, _, _, _, _ => rfl
  | fuel + 1, .untouched, lo, hi, _ => by
    simp only [RangeTree.add, cap]
    split_ifs <;> rfl
  | fuel + 1, .node m z l r, lo, hi, h => by
    have whole : 0 ≤ big := hsat.trans hbig
    obtain ⟨hm, hz, hl, hr⟩ := h
    simp only [RangeTree.add, cap]
    split_ifs with miss covers
    · rfl
    · have same := fun {a} (ha : 0 ≤ a) => saturatingAdd_cap hsat hbig ha hd
      simp only [min_eq_right small] at same
      simp only [cap, same hm, same hz]
    · -- each half is the cut-off half, and the larger maximum is cut off with them
      simp only [cap, min_max_distrib_left, ← top_cap hsat, min_eq_right hsat,
        cap_add hsat hbig hd small fuel (hl.touch.push whole hz),
        cap_add hsat hbig hd small fuel (hr.touch.push whole hz),
        cap_push hsat hbig hz hl.touch, cap_push hsat hbig hz hr.touch, cap_touch hsat]

/-- A query of the cut-off tree is the cut-off answer. -/
theorem query_cap (hsat : 0 ≤ sat) (hbig : sat ≤ big) {bottom : Int} (hbot : bottom ≤ sat)
    {ql qr : Int} : ∀ {t : RangeTree} {lo hi carry : Int}, t.Grown → 0 ≤ carry →
      query sat bottom (cap sat t) lo hi ql qr (min sat carry) =
        min sat (query big bottom t lo hi ql qr carry) := by
  intro t
  induction t with
  | untouched =>
    intro lo hi carry _ _
    simp only [cap, query]
    split_ifs
    · exact (min_eq_right hbot).symm
    · rfl
  | node m z l r ihl ihr =>
    intro lo hi carry h hc
    obtain ⟨hm, hz, hl, hr⟩ := h
    have next := saturatingAdd_nonneg (hsat.trans hbig) hc hz
    simp only [cap, query]
    split_ifs with miss covers
    · exact (min_eq_right hbot).symm
    · exact saturatingAdd_cap hsat hbig hc hm
    · rw [saturatingAdd_cap hsat hbig hc hz, ihl hl next, ihr hr next, min_max_distrib_left]

end RangeTree

end Brf.Lib
