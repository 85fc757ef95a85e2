import Mathlib.Tactic.Ring
import Mathlib.Tactic.Linarith

/-!
# `Book/Tick.lean` — mapping a price to a dense array index

`crates/book/src/tick.rs`. A window of `capacity` slots of one tick each, starting at an anchor
price; a price outside it forces the window to slide. The arithmetic is that of a 64-bit signed
integer and wraps as a release build has it; `Fits` marks where it does not, and `Exact` collects
that for one price, so that the facts below can be stated over the integers.

## Why the integers appear only under a hypothesis

Every quantity of `rebase_for` is an `i64` in the source: the distance of the price from the anchor,
the span in ticks, half of what is left over, the new anchor. Modelling them as integers would prove
that a window never loses a level, which is false in a release build. They stay machine words, and a
lemma that wants integer arithmetic says for which steps it needs it. `Exact` is that list for one
lookup, in the order of the computation, including the lookup after the move.

`Movable` asks for the same wherever the window stands, and is what a list of orders can promise in
advance; it implies `Exact`.

## What a move is

The window of a move is placed so that what it has to cover lies in the middle, with the odd slot in
front (`margin`). Completeness (it succeeds wherever the width allows) and safety (it moves by whole
ticks and everything covered stays inside) are separate theorems. A move for an empty book has
nothing to cover and is centred on the price.
-/

set_option autoImplicit false

namespace MarketData.Book

/-- A price window: `capacity` slots of `tick` size starting at `anchor`. -/
structure TickIndex where
  anchor : Int64
  tick : Int64
  capacity : Nat
  deriving DecidableEq, Repr

/-- What happened when a price was looked up. -/
inductive Slot where
  | at (i : Nat)
  | outside
  | offGrid
  deriving DecidableEq, Repr

namespace TickIndex

/-- The window runs `capacity / 2` ticks either side. -/
def centredOn (price tick : Int64) (capacity : Nat) : TickIndex :=
  let tick := max tick 1
  let capacity := max capacity 2
  let half := Int64.ofNat (capacity / 2)
  { anchor := price - half * tick, tick := tick, capacity := capacity }

/-- The price at `index`. -/
def priceAt (t : TickIndex) (index : Nat) : Int64 := t.anchor + Int64.ofNat index * t.tick

/-- Where `price` lives in the current window. -/
def slot (t : TickIndex) (price : Int64) : Slot :=
  let offset := price - t.anchor
  if offset % t.tick ≠ 0 then .offGrid
  else
    let index := offset / t.tick
    if index < 0 ∨ t.capacity ≤ index.toNatClampNeg then .outside else .at index.toNatClampNeg

/-- The lowest and the highest price a moved window has to cover. -/
def cover (price : Int64) : Option (Int64 × Int64) → Int64 × Int64
  | some (lo, hi) => (min lo price, max hi price)
  | none => (price, price)

/-- A window of the same shape, moved so it contains `price` and everything already occupied,
with the shift in slots. -/
def rebaseFor (t : TickIndex) (price : Int64) (keep : Option (Int64 × Int64)) :
    Option (TickIndex × Int64) :=
  if (price - t.anchor) % t.tick ≠ 0 then none
  else
    let low := (cover price keep).1
    let high := (cover price keep).2
    let span := (high - low) / t.tick + 1
    if Int64.ofNat t.capacity < span then none
    else
      let slack := Int64.ofNat t.capacity - span
      let anchor := low - ((slack + 1) / 2) * t.tick
      some ({ t with anchor := anchor }, (anchor - t.anchor) / t.tick)

end TickIndex

/-! ## Arithmetic that does not overflow -/

/-- The integer is one of the 64-bit signed ones. -/
def Fits (x : Int) : Prop := -2 ^ 63 ≤ x ∧ x < 2 ^ 63

instance (x : Int) : Decidable (Fits x) := inferInstanceAs (Decidable (_ ∧ _))

theorem fits_toInt (x : Int64) : Fits x.toInt := ⟨x.le_toInt, x.toInt_lt⟩

theorem bmod_of_fits {x : Int} (h : Fits x) : x.bmod (2 ^ 64) = x := by
  obtain ⟨hlo, hhi⟩ := h
  apply Int.bmod_eq_of_le <;> omega

theorem toInt_sub_of_fits {a b : Int64} (h : Fits (a.toInt - b.toInt)) :
    (a - b).toInt = a.toInt - b.toInt := by
  rw [Int64.toInt_sub, bmod_of_fits h]

theorem toInt_mul_of_fits {a b : Int64} (h : Fits (a.toInt * b.toInt)) :
    (a * b).toInt = a.toInt * b.toInt := by
  rw [Int64.toInt_mul, bmod_of_fits h]

theorem toInt_add_of_fits {a b : Int64} (h : Fits (a.toInt + b.toInt)) :
    (a + b).toInt = a.toInt + b.toInt := by
  rw [Int64.toInt_add, bmod_of_fits h]

/-- A division by a positive number stays in range. -/
theorem fits_tdiv {x y : Int} (h : Fits x) (hy : 0 < y) : Fits (x.tdiv y) := by
  obtain ⟨hlo, hhi⟩ := h
  have habs : (x.tdiv y).natAbs ≤ x.natAbs := by
    rw [Int.natAbs_tdiv]
    exact Nat.div_le_self _ _
  rcases Int.le_total 0 x with hx | hx
  · have hnonneg := Int.tdiv_nonneg hx (Int.le_of_lt hy)
    constructor <;> omega
  · have hnonpos : x.tdiv y ≤ 0 := by
      have hneg := Int.tdiv_nonneg (Int.neg_nonneg_of_nonpos hx) (Int.le_of_lt hy)
      rw [Int.neg_tdiv] at hneg
      omega
    constructor <;> omega

theorem toInt_div_of_pos {a b : Int64} (hb : 0 < b.toInt) :
    (a / b).toInt = a.toInt.tdiv b.toInt := by
  rw [Int64.toInt_div, bmod_of_fits (fits_tdiv (fits_toInt a) hb)]

namespace TickIndex

variable {t t' : TickIndex} {price : Int64}

/-- A window that can be looked into: a positive tick, and a size that is a number of slots. -/
structure Sane (t : TickIndex) : Prop where
  tick : 0 < t.tick.toInt
  capacity : t.capacity < 2 ^ 63

/-- The price sits on the grid, `k` ticks above the anchor. -/
def OnGrid (t : TickIndex) (price : Int64) (k : Int) : Prop :=
  price.toInt = t.anchor.toInt + k * t.tick.toInt

instance (t : TickIndex) (price : Int64) (k : Int) : Decidable (t.OnGrid price k) :=
  inferInstanceAs (Decidable (_ = _))

theorem OnGrid.inj (ht : t.Sane) {k k' : Int} (h : t.OnGrid price k) (h' : t.OnGrid price k') :
    k = k' := by
  unfold OnGrid at h h'
  have htick := ht.tick
  exact Int.eq_of_mul_eq_mul_right (Int.ne_of_gt htick) (by omega)

/-- The offset from the anchor, divided by the tick. -/
theorem offset_spec (ht : t.Sane) (hfit : Fits (price.toInt - t.anchor.toInt)) :
    ((price - t.anchor) % t.tick = 0 ↔ ∃ k, t.OnGrid price k) ∧
    ∀ k, t.OnGrid price k → ((price - t.anchor) / t.tick).toInt = k := by
  have htick := ht.tick
  have hoffset := toInt_sub_of_fits hfit
  constructor
  · rw [← Int64.toInt_inj, Int64.toInt_mod, hoffset, Int64.toInt_zero]
    constructor
    · intro hmod
      obtain ⟨k, hk⟩ := Int.dvd_of_tmod_eq_zero hmod
      refine ⟨k, ?_⟩
      unfold OnGrid
      rw [Int.mul_comm k]
      omega
    · rintro ⟨k, hk⟩
      unfold OnGrid at hk
      apply Int.tmod_eq_zero_of_dvd
      exact ⟨k, by rw [Int.mul_comm _ k]; omega⟩
  · intro k hk
    unfold OnGrid at hk
    rw [toInt_div_of_pos htick, hoffset]
    have hoff : price.toInt - t.anchor.toInt = k * t.tick.toInt := by omega
    rw [hoff]
    exact Int.mul_tdiv_cancel _ (Int.ne_of_gt htick)

/-- **Where a price lives.** -/
theorem slot_eq_at (ht : t.Sane) (hfit : Fits (price.toInt - t.anchor.toInt)) {i : Nat} :
    t.slot price = .at i ↔ i < t.capacity ∧ t.OnGrid price i := by
  obtain ⟨hgrid, hindex⟩ := offset_spec ht hfit
  unfold slot
  dsimp only
  by_cases hmod : (price - t.anchor) % t.tick = 0
  · rw [if_neg (not_not_intro hmod)]
    obtain ⟨k, hk⟩ := hgrid.mp hmod
    have hkindex := hindex k hk
    have hneg : (price - t.anchor) / t.tick < 0 ↔ k < 0 := by
      rw [Int64.lt_iff_toInt_lt, hkindex, Int64.toInt_zero]
    have hnat : ((price - t.anchor) / t.tick).toNatClampNeg = k.toNat := by
      rw [← Int64.toNat_toInt, hkindex]
    simp only [hneg, hnat]
    constructor
    · intro h
      split at h
      · cases h
      · rename_i hin
        push Not at hin
        cases h
        refine ⟨hin.2, ?_⟩
        rw [Int.toNat_of_nonneg hin.1]
        exact hk
    · rintro ⟨hi, hki⟩
      have heq : k = i := hk.inj ht hki
      rw [heq, Int.toNat_natCast, if_neg]
      omega
  · rw [if_pos hmod]
    constructor
    · intro h
      cases h
    · rintro ⟨-, hki⟩
      exact absurd (hgrid.mpr ⟨i, hki⟩) hmod

theorem slot_eq_outside (ht : t.Sane) (hfit : Fits (price.toInt - t.anchor.toInt))
    (h : t.slot price = .outside) : ∃ k, t.OnGrid price k := by
  obtain ⟨hgrid, -⟩ := offset_spec ht hfit
  rw [← hgrid]
  by_contra hmod
  unfold slot at h
  rw [if_pos hmod] at h
  cases h

/-- The price at a slot, where the arithmetic says so: additions and products wrap together. -/
theorem priceAt_eq {i : Nat} (h : t.OnGrid price i) : t.priceAt i = price := by
  unfold OnGrid at h
  rw [← Int64.toInt_inj, priceAt, Int64.toInt_add, Int64.toInt_mul, Int64.toInt_ofNat', h]
  have hcongr : (t.anchor.toInt + ((i : Int).bmod Int64.size * t.tick.toInt).bmod (2 ^ 64)).bmod
      (2 ^ 64) = (t.anchor.toInt + (i : Int) * t.tick.toInt).bmod (2 ^ 64) := by
    simp [Int64.size]
  rw [hcongr, ← h, bmod_of_fits (fits_toInt price)]

/-! ## Moving the window -/

/-- The anchor a move lands on, over the integers. -/
def movedAnchor (t : TickIndex) (low high : Int) : Int :=
  low - ((t.capacity - ((high - low) / t.tick.toInt + 1) + 1) / 2) * t.tick.toInt

/-- No step of looking `price` up, or of moving the window for it, overflows. -/
structure Exact (t : TickIndex) (price : Int64) (keep : Option (Int64 × Int64)) : Prop where
  offset : Fits (price.toInt - t.anchor.toInt)
  span : t.slot price = .outside →
    Fits ((cover price keep).2.toInt - (cover price keep).1.toInt) ∧
    Fits (((cover price keep).2.toInt - (cover price keep).1.toInt) / t.tick.toInt + 1)
  centre : t.slot price = .outside →
    ((cover price keep).2.toInt - (cover price keep).1.toInt) / t.tick.toInt + 1 ≤ t.capacity →
    Fits ((cover price keep).1.toInt -
      t.movedAnchor (cover price keep).1.toInt (cover price keep).2.toInt) ∧
    Fits (t.movedAnchor (cover price keep).1.toInt (cover price keep).2.toInt) ∧
    Fits (t.movedAnchor (cover price keep).1.toInt (cover price keep).2.toInt - t.anchor.toInt) ∧
    Fits (price.toInt - t.movedAnchor (cover price keep).1.toInt (cover price keep).2.toInt)

instance (t : TickIndex) (price : Int64) (keep : Option (Int64 × Int64)) :
    Decidable (t.Exact price keep) :=
  decidable_of_iff (_ ∧ _ ∧ _) ⟨fun h => ⟨h.1, h.2.1, h.2.2⟩, fun h => ⟨h.1, h.2, h.3⟩⟩

/-- No step of moving the window for `price` overflows, wherever the window stands. -/
structure Movable (t : TickIndex) (price : Int64) (keep : Option (Int64 × Int64)) : Prop where
  offset : Fits (price.toInt - t.anchor.toInt)
  span : Fits ((cover price keep).2.toInt - (cover price keep).1.toInt) ∧
    Fits (((cover price keep).2.toInt - (cover price keep).1.toInt) / t.tick.toInt + 1)
  centre : ((cover price keep).2.toInt - (cover price keep).1.toInt) / t.tick.toInt + 1 ≤
      t.capacity →
    Fits ((cover price keep).1.toInt -
      t.movedAnchor (cover price keep).1.toInt (cover price keep).2.toInt) ∧
    Fits (t.movedAnchor (cover price keep).1.toInt (cover price keep).2.toInt) ∧
    Fits (t.movedAnchor (cover price keep).1.toInt (cover price keep).2.toInt - t.anchor.toInt) ∧
    Fits (price.toInt - t.movedAnchor (cover price keep).1.toInt (cover price keep).2.toInt)

instance (t : TickIndex) (price : Int64) (keep : Option (Int64 × Int64)) :
    Decidable (t.Movable price keep) :=
  decidable_of_iff (_ ∧ _ ∧ _) ⟨fun h => ⟨h.1, h.2.1, h.2.2⟩, fun h => ⟨h.1, h.2, h.3⟩⟩

theorem Exact.movable {keep : Option (Int64 × Int64)} (h : t.Exact price keep)
    (hout : t.slot price = .outside) : t.Movable price keep :=
  ⟨h.offset, h.span hout, h.centre hout⟩

theorem toInt_min (a b : Int64) : (min a b).toInt = min a.toInt b.toInt := by
  show (if a ≤ b then a else b).toInt = _
  simp only [Int.min_def, ← Int64.le_iff_toInt_le]
  split <;> rfl

theorem toInt_max (a b : Int64) : (max a b).toInt = max a.toInt b.toInt := by
  show (if a ≤ b then b else a).toInt = _
  simp only [Int.max_def, ← Int64.le_iff_toInt_le]
  split <;> rfl

/-- Half the room a window has beside the span, rounded up, lies in front of it. -/
def margin (t : TickIndex) (low high : Int) : Int := (t.capacity - (high - low + 1) + 1) / 2

theorem movedAnchor_eq (ht : t.Sane) {lo hi : Int64} {low high : Int} (hlow : t.OnGrid lo low)
    (hhigh : t.OnGrid hi high) :
    (hi.toInt - lo.toInt) / t.tick.toInt = high - low ∧
    t.movedAnchor lo.toInt hi.toInt =
      t.anchor.toInt + (low - t.margin low high) * t.tick.toInt := by
  unfold OnGrid at hlow hhigh
  have hdiv : (hi.toInt - lo.toInt) / t.tick.toInt = high - low := by
    have hdiff : hi.toInt - lo.toInt = (high - low) * t.tick.toInt := by
      rw [hlow, hhigh]
      ring
    rw [hdiff]
    exact Int.mul_ediv_cancel _ (Int.ne_of_gt ht.tick)
  refine ⟨hdiv, ?_⟩
  rw [movedAnchor, hdiv, margin, hlow]
  ring

/-- The number of ticks a range spans, and of slots, as the source computes them. -/
theorem quotient_eq (ht : t.Sane) {lo hi : Int64} {low high : Int} (hlow : t.OnGrid lo low)
    (hhigh : t.OnGrid hi high) (hle : low ≤ high) (hfits : Fits (hi.toInt - lo.toInt)) :
    ((hi - lo) / t.tick).toInt = high - low := by
  have htick := ht.tick
  obtain ⟨hdiv, -⟩ := movedAnchor_eq ht hlow hhigh
  unfold OnGrid at hlow hhigh
  rw [toInt_div_of_pos htick, toInt_sub_of_fits hfits, ← hdiv]
  exact Int.tdiv_eq_ediv_of_nonneg (by rw [hlow, hhigh]; nlinarith)

theorem span_eq (ht : t.Sane) {lo hi : Int64} {low high : Int} (hlow : t.OnGrid lo low)
    (hhigh : t.OnGrid hi high) (hle : low ≤ high) (hfits : Fits (hi.toInt - lo.toInt))
    (hfits' : Fits ((hi.toInt - lo.toInt) / t.tick.toInt + 1)) :
    ((hi - lo) / t.tick + 1).toInt = high - low + 1 := by
  have hquotient := quotient_eq ht hlow hhigh hle hfits
  rw [(movedAnchor_eq ht hlow hhigh).1] at hfits'
  rw [toInt_add_of_fits (by rw [hquotient]; exact hfits'), hquotient, Int64.toInt_one]

/-- **The window can be moved** over any range it is wide enough for. -/
theorem rebaseFor_succeeds (ht : t.Sane) {keep : Option (Int64 × Int64)}
    (hmovable : t.Movable price keep) {low k high : Int} (hk : t.OnGrid price k)
    (hlow : t.OnGrid (cover price keep).1 low) (hhigh : t.OnGrid (cover price keep).2 high)
    (hle : low ≤ high) (hwide : high - low + 1 ≤ t.capacity) : t.rebaseFor price keep ≠ none := by
  obtain ⟨hfits, hfits'⟩ := hmovable.span
  have hgrid : (price - t.anchor) % t.tick = 0 := (offset_spec ht hmovable.offset).1.mpr ⟨k, hk⟩
  have hcap : (Int64.ofNat t.capacity).toInt = t.capacity := Int64.toInt_ofNat_of_lt ht.capacity
  unfold rebaseFor
  rw [if_neg (not_not_intro hgrid)]
  dsimp only
  rw [if_neg]
  · exact Option.some_ne_none _
  · rw [Int64.lt_iff_toInt_lt, hcap, span_eq ht hlow hhigh hle hfits hfits']
    omega

/-- The slack beside a span that the window is wide enough for, and half of it. -/
theorem half_eq (ht : t.Sane) {span : Int64} {n : Int} (hspan : span.toInt = n) (hn : 0 < n)
    (hwide : n ≤ t.capacity) :
    Fits ((Int64.ofNat t.capacity).toInt - span.toInt) ∧
      ((Int64.ofNat t.capacity - span + 1) / 2).toInt = (t.capacity - n + 1) / 2 := by
  have hcapNat := ht.capacity
  have hcap : (Int64.ofNat t.capacity).toInt = t.capacity := Int64.toInt_ofNat_of_lt hcapNat
  have hfits : Fits ((Int64.ofNat t.capacity).toInt - span.toInt) := by
    rw [hcap, hspan]
    constructor <;> omega
  have hslack : (Int64.ofNat t.capacity - span).toInt = t.capacity - n := by
    rw [toInt_sub_of_fits hfits, hcap, hspan]
  have hsum : (Int64.ofNat t.capacity - span + 1).toInt = t.capacity - n + 1 := by
    rw [toInt_add_of_fits (by rw [hslack, Int64.toInt_one]; constructor <;> omega), hslack,
      Int64.toInt_one]
  refine ⟨hfits, ?_⟩
  rw [toInt_div_of_pos (by decide), hsum]
  exact Int.tdiv_eq_ediv_of_nonneg (by omega)

/-- The shift and the anchor a move computes, over the integers. -/
theorem rebaseFor_exact (ht : t.Sane) {keep : Option (Int64 × Int64)}
    (hmovable : t.Movable price keep) {low high : Int}
    (hlow : t.OnGrid (cover price keep).1 low) (hhigh : t.OnGrid (cover price keep).2 high)
    (hle : low ≤ high) {shift : Int64} (h : t.rebaseFor price keep = some (t', shift)) :
    high - low + 1 ≤ t.capacity ∧ t'.tick = t.tick ∧ t'.capacity = t.capacity ∧
    shift.toInt = low - t.margin low high ∧
    t'.anchor.toInt = t.anchor.toInt + shift.toInt * t.tick.toInt ∧
    Fits (price.toInt - t'.anchor.toInt) := by
  have htick := ht.tick
  have hcapNat := ht.capacity
  obtain ⟨hdiv, hmoved⟩ := movedAnchor_eq ht hlow hhigh
  obtain ⟨hspanFits, hspanFits'⟩ := hmovable.span
  have hcentre := hmovable.centre
  unfold rebaseFor at h
  split at h
  · cases h
  · dsimp only at h
    have hspan := span_eq ht hlow hhigh hle hspanFits hspanFits'
    rw [hdiv] at hspanFits'
    rw [hdiv, hmoved] at hcentre
    generalize (cover price keep).1 = lo at *
    generalize (cover price keep).2 = hi at *
    unfold OnGrid at hlow hhigh
    -- each intermediate value of the source, over the integers
    have hcap : (Int64.ofNat t.capacity).toInt = t.capacity := Int64.toInt_ofNat_of_lt hcapNat
    split at h
    · cases h
    · rename_i hwide
      rw [Int64.lt_iff_toInt_lt, hcap, hspan, Int.not_lt] at hwide
      obtain ⟨hmargin, hanchorFits, hshiftFits, hpriceFits⟩ := hcentre hwide
      have hhalf : ((Int64.ofNat t.capacity - ((hi - lo) / t.tick + 1) + 1) / 2).toInt =
          t.margin low high := (half_eq ht hspan (by omega) hwide).2
      generalize (Int64.ofNat t.capacity - ((hi - lo) / t.tick + 1) + 1) / 2 = half at h hhalf
      have hproduct : (half * t.tick).toInt = t.margin low high * t.tick.toInt := by
        rw [← hhalf]
        apply toInt_mul_of_fits
        rw [hhalf]
        have heq : lo.toInt - (t.anchor.toInt + (low - t.margin low high) * t.tick.toInt) =
            t.margin low high * t.tick.toInt := by
          rw [hlow]
          ring
        rw [heq] at hmargin
        exact hmargin
      have hanchor : (lo - half * t.tick).toInt =
          t.anchor.toInt + (low - t.margin low high) * t.tick.toInt := by
        have heq : lo.toInt - t.margin low high * t.tick.toInt =
            t.anchor.toInt + (low - t.margin low high) * t.tick.toInt := by
          rw [hlow]
          ring
        rw [toInt_sub_of_fits (by rw [hproduct, heq]; exact hanchorFits), hproduct, heq]
      generalize lo - half * t.tick = anchor at h hanchor
      have hshift : ((anchor - t.anchor) / t.tick).toInt = low - t.margin low high := by
        rw [← hanchor] at hshiftFits
        rw [toInt_div_of_pos htick, toInt_sub_of_fits hshiftFits, hanchor]
        have heq : t.anchor.toInt + (low - t.margin low high) * t.tick.toInt - t.anchor.toInt =
            (low - t.margin low high) * t.tick.toInt := by
          ring
        rw [heq]
        exact Int.mul_tdiv_cancel _ (Int.ne_of_gt htick)
      cases h
      refine ⟨hwide, rfl, rfl, hshift, ?_, ?_⟩
      · rw [hshift]
        exact hanchor
      · rw [← hanchor] at hpriceFits
        exact hpriceFits

/-- **A move keeps what was in the window.** The window slides by whole ticks, and every slot of
the covered range stays inside. -/
theorem rebaseFor_spec (ht : t.Sane) {keep : Option (Int64 × Int64)}
    (hmovable : t.Movable price keep) {low high : Int}
    (hlow : t.OnGrid (cover price keep).1 low) (hhigh : t.OnGrid (cover price keep).2 high)
    (hle : low ≤ high) {shift : Int64} (h : t.rebaseFor price keep = some (t', shift)) :
    t'.Sane ∧ t'.capacity = t.capacity ∧ Fits (price.toInt - t'.anchor.toInt) ∧
    (∀ p k, t.OnGrid p k ↔ t'.OnGrid p (k - shift.toInt)) ∧
    ∀ k, low ≤ k → k ≤ high → 0 ≤ k - shift.toInt ∧ k - shift.toInt < t.capacity := by
  obtain ⟨hwide, htick', hcap', hshift, hanchor', hfits⟩ :=
    rebaseFor_exact ht hmovable hlow hhigh hle h
  refine ⟨⟨by rw [htick']; exact ht.tick, by rw [hcap']; exact ht.capacity⟩, hcap', hfits,
    fun p k => ?_, fun k hk hk' => ?_⟩
  · unfold OnGrid
    rw [hanchor', htick']
    have heq : t.anchor.toInt + shift.toInt * t.tick.toInt + (k - shift.toInt) * t.tick.toInt =
        t.anchor.toInt + k * t.tick.toInt := by
      ring
    rw [heq]
  · rw [hshift, margin]
    omega

end TickIndex

end MarketData.Book
