import MarketData.Book.MboRoom

/-!
# `Book/MboExtreme.lean` — prices at the ends of the 64-bit range

The tick arithmetic once more, with every subtraction and every product checked, as a debug build
has them: `none` where one wraps. What the checked arithmetic gets through is told by the distances
between the price, the anchor and the prices that rest (`InReach`), and wherever it gets through an
operation files its order at exactly its price or leaves the book as it was
(`files_or_refuses_iff`).

## Two versions of one function

`slotChecked`, `rebaseForChecked` and the rest are the functions of `Book/Tick.lean` with `Option`
at every operation that can wrap, in the order the source performs them. They say *whether*
something wraps; the unchecked ones say what the program computes if it does. A claim that nothing
wraps is a claim about the first, and that an order is filed at its price or not at all is one about
the second, and the theorem puts the two side by side.

`InReach` is the same condition without the steps: it speaks of the price, the anchor, the lowest
and the highest resting price, the tick and the width of the window, and can be read off a book.
That it is exactly what the checked arithmetic gets through is `Store.slotForChecked_iff`.

What the program does with a price out of reach is not described in general. One such book is enough
to see that it may lose a level (`farBelow`).
-/

set_option autoImplicit false

namespace MarketData.Book

open MarketData.Wire (Side)

/-! ## Checked arithmetic -/

def checkedSub (a b : Int64) : Option Int64 :=
  if Fits (a.toInt - b.toInt) then some (a - b) else none

def checkedMul (a b : Int64) : Option Int64 :=
  if Fits (a.toInt * b.toInt) then some (a * b) else none

theorem checkedSub_eq_some {a b c : Int64} :
    checkedSub a b = some c ↔ Fits (a.toInt - b.toInt) ∧ a - b = c := by
  unfold checkedSub
  split <;> simp_all

theorem checkedMul_eq_some {a b c : Int64} :
    checkedMul a b = some c ↔ Fits (a.toInt * b.toInt) ∧ a * b = c := by
  unfold checkedMul
  split <;> simp_all

namespace TickIndex

variable {t t' : TickIndex} {price : Int64}

def priceAtChecked (t : TickIndex) (index : Nat) : Option Int64 := do
  let offset ← checkedMul (Int64.ofNat index) t.tick
  return t.anchor + offset

def slotChecked (t : TickIndex) (price : Int64) : Option Slot := do
  let offset ← checkedSub price t.anchor
  if offset % t.tick ≠ 0 then return .offGrid
  let index := offset / t.tick
  if index < 0 ∨ t.capacity ≤ index.toNatClampNeg then return .outside
  return .at index.toNatClampNeg

def rebaseForChecked (t : TickIndex) (price : Int64) (keep : Option (Int64 × Int64)) :
    Option (Option (TickIndex × Int64)) := do
  let offset ← checkedSub price t.anchor
  if offset % t.tick ≠ 0 then return none
  let low := (cover price keep).1
  let high := (cover price keep).2
  let width ← checkedSub high low
  let span := width / t.tick + 1
  if Int64.ofNat t.capacity < span then return none
  let slack ← checkedSub (Int64.ofNat t.capacity) span
  let room ← checkedMul ((slack + 1) / 2) t.tick
  let anchor ← checkedSub low room
  let shift ← checkedSub anchor t.anchor
  return some ({ t with anchor := anchor }, shift / t.tick)

/-- What gets through is what the unchecked lookup finds. -/
theorem slotChecked_eq_some {found : Slot} :
    t.slotChecked price = some found ↔
      Fits (price.toInt - t.anchor.toInt) ∧ t.slot price = found := by
  unfold slotChecked slot
  simp only [bind, Option.bind_eq_some_iff, checkedSub_eq_some]
  constructor
  · rintro ⟨offset, ⟨hfits, rfl⟩, h⟩
    refine ⟨hfits, ?_⟩
    split at h
    · rename_i hmod
      rw [if_pos hmod]
      exact Option.some.inj h
    · rename_i hmod
      rw [if_neg hmod]
      split at h
      · rename_i hout
        rw [if_pos hout]
        exact Option.some.inj h
      · rename_i hin
        rw [if_neg hin]
        exact Option.some.inj h
  · rintro ⟨hfits, rfl⟩
    refine ⟨_, ⟨hfits, rfl⟩, ?_⟩
    split
    · rfl
    · split <;> rfl

theorem priceAtChecked_eq_some {i : Nat} {p : Int64} (hi : i < 2 ^ 63) :
    t.priceAtChecked i = some p ↔ Fits (i * t.tick.toInt) ∧ t.priceAt i = p := by
  have hcast : (Int64.ofNat i).toInt = i := Int64.toInt_ofNat_of_lt hi
  unfold priceAtChecked priceAt
  simp only [bind, Option.bind_eq_some_iff, checkedMul_eq_some, hcast]
  constructor
  · rintro ⟨offset, ⟨hfits, rfl⟩, h⟩
    exact ⟨hfits, Option.some.inj h⟩
  · rintro ⟨hfits, rfl⟩
    exact ⟨_, ⟨hfits, rfl⟩, rfl⟩

/-- **What a checked move gets through**: no distance it computes, or looks the price up by
afterwards, is out of range. -/
theorem rebaseForChecked_iff (ht : t.Sane) {keep : Option (Int64 × Int64)} {low k high : Int}
    (hk : t.OnGrid price k) (hlow : t.OnGrid (cover price keep).1 low)
    (hhigh : t.OnGrid (cover price keep).2 high) (hle : low ≤ high) :
    (∃ r, t.rebaseForChecked price keep = some r ∧ ∀ moved shift, r = some (moved, shift) →
      Fits (price.toInt - moved.anchor.toInt)) ↔ t.Movable price keep := by
  have hcap : (Int64.ofNat t.capacity).toInt = t.capacity := Int64.toInt_ofNat_of_lt ht.capacity
  obtain ⟨hdiv, hmoved⟩ := movedAnchor_eq ht hlow hhigh
  have hmovable : t.Movable price keep ↔ Fits (price.toInt - t.anchor.toInt) ∧
      (Fits ((cover price keep).2.toInt - (cover price keep).1.toInt) ∧
        Fits (high - low + 1)) ∧ (high - low + 1 ≤ t.capacity →
      Fits ((cover price keep).1.toInt -
        t.movedAnchor (cover price keep).1.toInt (cover price keep).2.toInt) ∧
      Fits (t.movedAnchor (cover price keep).1.toInt (cover price keep).2.toInt) ∧
      Fits (t.movedAnchor (cover price keep).1.toInt (cover price keep).2.toInt - t.anchor.toInt) ∧
      Fits (price.toInt - t.movedAnchor (cover price keep).1.toInt (cover price keep).2.toInt)) := by
    rw [← hdiv]
    exact ⟨fun h => ⟨h.offset, h.span, h.centre⟩, fun h => ⟨h.1, h.2.1, h.2.2⟩⟩
  have hmargin : t.movedAnchor (cover price keep).1.toInt (cover price keep).2.toInt =
      (cover price keep).1.toInt - t.margin low high * t.tick.toInt := by
    unfold OnGrid at hlow
    rw [hmoved, hlow]
    ring
  rw [hmovable, hmargin, Int.sub_sub_self]
  unfold rebaseForChecked
  generalize (cover price keep).1 = lo at *
  generalize (cover price keep).2 = hi at *
  simp only [bind, Option.bind_eq_some_iff, checkedSub_eq_some]
  constructor
  · rintro ⟨r, ⟨offset, ⟨hfit, rfl⟩, h⟩, hnext⟩
    refine ⟨hfit, ?_⟩
    rw [if_neg (not_not_intro ((offset_spec ht hfit).1.mpr ⟨k, hk⟩))] at h
    simp only [Option.bind_eq_some_iff, checkedSub_eq_some] at h
    obtain ⟨width, ⟨hwidth, rfl⟩, h⟩ := h
    have hquotient := quotient_eq ht hlow hhigh hle hwidth
    by_cases hspanFits : Fits (high - low + 1)
    · have hspan := span_eq ht hlow hhigh hle hwidth (by rw [hdiv]; exact hspanFits)
      refine ⟨⟨hwidth, hspanFits⟩, fun hwide => ?_⟩
      obtain ⟨-, hhalf⟩ := half_eq ht hspan (by omega) hwide
      rw [if_neg (by rw [Int64.lt_iff_toInt_lt, hcap, hspan]; omega)] at h
      simp only [Option.bind_eq_some_iff, checkedSub_eq_some, checkedMul_eq_some] at h
      obtain ⟨_, ⟨-, rfl⟩, _, ⟨hroom, rfl⟩, _, ⟨hanchor, rfl⟩, _, ⟨hshift, rfl⟩, h⟩ := h
      have hprice := hnext _ _ (Option.some.inj h).symm
      dsimp only at hprice
      rw [toInt_sub_of_fits hanchor, toInt_mul_of_fits hroom, hhalf] at hshift hprice
      rw [toInt_mul_of_fits hroom, hhalf] at hanchor
      rw [hhalf] at hroom
      exact ⟨hroom, hanchor, hshift, hprice⟩
    · -- The span wraps around to the least number, and the slack beside it wraps as well.
      have hmost := (fits_toInt ((hi - lo) / t.tick)).2
      have hspan : ((hi - lo) / t.tick + 1).toInt = -2 ^ 63 := by
        have hlast : high - low + 1 = 2 ^ 63 := by
          unfold Fits at hspanFits
          omega
        rw [Int64.toInt_add, hquotient, Int64.toInt_one, hlast]
        rfl
      rw [if_neg (by rw [Int64.lt_iff_toInt_lt, hcap, hspan]; omega)] at h
      simp only [Option.bind_eq_some_iff, checkedSub_eq_some] at h
      obtain ⟨_, ⟨hslack, -⟩, -⟩ := h
      rw [hcap, hspan] at hslack
      exact absurd hslack.2 (by omega)
  · rintro ⟨hfit, ⟨hwidth, hspanFits⟩, hcentre⟩
    have hgrid : (price - t.anchor) % t.tick = 0 := (offset_spec ht hfit).1.mpr ⟨k, hk⟩
    have hspan := span_eq ht hlow hhigh hle hwidth (by rw [hdiv]; exact hspanFits)
    by_cases hwide : high - low + 1 ≤ t.capacity
    · obtain ⟨hroom, hanchor, hshift, hprice⟩ := hcentre hwide
      obtain ⟨hslack, hhalf⟩ := half_eq ht hspan (by omega) hwide
      -- The three values the move goes through, over the integers.
      generalize hhalfEq : (Int64.ofNat t.capacity - ((hi - lo) / t.tick + 1) + 1) / 2 = half
      rw [hhalfEq] at hhalf
      have hroom' : Fits (half.toInt * t.tick.toInt) := by
        rw [hhalf]
        exact hroom
      have hanchor' : Fits (lo.toInt - (half * t.tick).toInt) := by
        rw [toInt_mul_of_fits hroom', hhalf]
        exact hanchor
      have hmovedTo : (lo - half * t.tick).toInt = lo.toInt - t.margin low high * t.tick.toInt := by
        rw [toInt_sub_of_fits hanchor', toInt_mul_of_fits hroom', hhalf]
        rfl
      have hshift' : Fits ((lo - half * t.tick).toInt - t.anchor.toInt) := by
        rw [hmovedTo]
        exact hshift
      refine ⟨some ({ t with anchor := lo - half * t.tick }, (lo - half * t.tick - t.anchor) / t.tick),
        ⟨_, ⟨hfit, rfl⟩, ?_⟩, ?_⟩
      · rw [if_neg (not_not_intro hgrid)]
        simp only [Option.bind_eq_some_iff, checkedSub_eq_some]
        refine ⟨_, ⟨hwidth, rfl⟩, ?_⟩
        rw [if_neg (by rw [Int64.lt_iff_toInt_lt, hcap, hspan]; omega)]
        simp only [Option.bind_eq_some_iff, checkedSub_eq_some, checkedMul_eq_some]
        refine ⟨_, ⟨hslack, rfl⟩, ?_⟩
        rw [hhalfEq]
        exact ⟨_, ⟨hroom', rfl⟩, _, ⟨hanchor', rfl⟩, _, ⟨hshift', rfl⟩, rfl⟩
      · rintro moved shift ⟨⟩
        dsimp only
        rw [hmovedTo]
        exact hprice
    · refine ⟨none, ⟨_, ⟨hfit, rfl⟩, ?_⟩, fun _ _ h => nomatch h⟩
      rw [if_neg (not_not_intro hgrid)]
      simp only [Option.bind_eq_some_iff, checkedSub_eq_some]
      refine ⟨_, ⟨hwidth, rfl⟩, ?_⟩
      rw [if_pos (by rw [Int64.lt_iff_toInt_lt, hcap, hspan]; omega)]
      rfl

end TickIndex

/-! ## The book's own arithmetic -/

namespace MboBook

open TickIndex

variable {b b' : MboBook} {os : List RestingOrder} {live free : List Nat} {price : Int64} {op : Op}

def keptPricesChecked (b : MboBook) : Option (Option (Int64 × Int64)) :=
  match b.occupiedExtent with
  | (some l, some h) => do
    let lo ← b.index.priceAtChecked l
    let hi ← b.index.priceAtChecked h
    return some (lo, hi)
  | _ => some none

/-- Looking for the slot of a price, as far as the arithmetic goes. -/
def slotForChecked (b : MboBook) (price : Int64) : Option Unit := do
  match ← b.index.slotChecked price with
  | .outside =>
    let keep ← b.keptPricesChecked
    match ← b.index.rebaseForChecked price keep with
    | none => return ()
    | some (moved, _) =>
      let _ ← moved.slotChecked price
      return ()
  | _ => return ()

/-- The price is not too far from the anchor, nor the prices that rest, and the window can be moved
within the 64-bit range. -/
structure InReach (b : MboBook) (price : Int64) : Prop where
  exact : b.index.Exact price b.keptPrices
  kept : b.index.slot price = .outside → ∀ lo hi, b.keptPrices = some (lo, hi) →
    Fits (lo.toInt - b.index.anchor.toInt) ∧ Fits (hi.toInt - b.index.anchor.toInt)

theorem Store.keptPricesChecked_iff (h : Store b live free) {keep : Option (Int64 × Int64)} :
    b.keptPricesChecked = some keep ↔ b.keptPrices = keep ∧ ∀ lo hi, keep = some (lo, hi) →
      Fits (lo.toInt - b.index.anchor.toInt) ∧ Fits (hi.toInt - b.index.anchor.toInt) := by
  have hextent := h.occupiedExtent_spec
  -- The product of a slot and the tick is the distance of the slot's price from the anchor.
  have hproduct : ∀ i ∈ live, ((b.nodes i).slot : Int) * b.index.tick.toInt =
      (b.index.priceAt (b.nodes i).slot).toInt - b.index.anchor.toInt := by
    intro i hi
    have hgrid := h.prices i hi
    unfold TickIndex.OnGrid at hgrid
    rw [h.priceAt_slot hi, hgrid]
    ring
  have hchecked : ∀ i ∈ live, ∀ p, b.index.priceAtChecked (b.nodes i).slot = some p ↔
      Fits ((b.index.priceAt (b.nodes i).slot).toInt - b.index.anchor.toInt) ∧
        b.index.priceAt (b.nodes i).slot = p := by
    intro i hi p
    have hslot := h.slots i hi
    have hcap := h.capacity
    rw [priceAtChecked_eq_some (by omega), hproduct i hi]
  have hnone : some none = some keep ↔ none = keep ∧ ∀ lo hi, keep = some (lo, hi) →
      Fits (lo.toInt - b.index.anchor.toInt) ∧ Fits (hi.toInt - b.index.anchor.toInt) := by
    constructor
    · intro heq
      obtain rfl := Option.some.inj heq
      exact ⟨rfl, fun _ _ hsome => nomatch hsome⟩
    · rintro ⟨rfl, -⟩
      rfl
  unfold keptPricesChecked keptPrices
  cases hspan : b.occupiedExtent with
  | mk lo hi =>
    rw [hspan] at hextent
    cases lo with
    | none => exact hnone
    | some l =>
      cases hi with
      | none => exact hnone
      | some u =>
        obtain ⟨hl, hu, -, -, ⟨i, hi, rfl⟩, j, hj, rfl⟩ := hextent
        simp only [bind, Option.bind_eq_some_iff, hchecked i hi, hchecked j hj]
        constructor
        · rintro ⟨_, ⟨hlow, rfl⟩, _, ⟨hhigh, rfl⟩, heq⟩
          obtain rfl := Option.some.inj heq
          refine ⟨rfl, ?_⟩
          rintro _ _ ⟨⟩
          exact ⟨hlow, hhigh⟩
        · rintro ⟨rfl, hfits⟩
          obtain ⟨hlow, hhigh⟩ := hfits _ _ rfl
          exact ⟨_, ⟨hlow, rfl⟩, _, ⟨hhigh, rfl⟩, rfl⟩

/-- **What the checked arithmetic gets through** is what is in reach. -/
theorem Store.slotForChecked_iff (h : Store b live free) :
    b.slotForChecked price = some () ↔ InReach b price := by
  unfold slotForChecked
  simp only [bind, Option.bind_eq_some_iff, slotChecked_eq_some]
  constructor
  · rintro ⟨found, ⟨hfit, hslot⟩, hrest⟩
    cases found with
    | offGrid =>
      refine ⟨⟨hfit, ?_, ?_⟩, ?_⟩
      all_goals
        intro hout
        rw [hslot] at hout
        cases hout
    | «at» i =>
      refine ⟨⟨hfit, ?_, ?_⟩, ?_⟩
      all_goals
        intro hout
        rw [hslot] at hout
        cases hout
    | outside =>
      obtain ⟨k, hk⟩ := slot_eq_outside h.sane hfit hslot
      obtain ⟨low, high, hlow, hhigh, hlowk, hkhigh, -⟩ := h.cover_spec hk
      simp only [Option.bind_eq_some_iff, h.keptPricesChecked_iff] at hrest
      obtain ⟨keep, ⟨rfl, hkept⟩, r, hmove, hrest⟩ := hrest
      have hmovable : b.index.Movable price b.keptPrices := by
        refine (rebaseForChecked_iff h.sane hk hlow hhigh (Int.le_trans hlowk hkhigh)).mp
          ⟨r, hmove, ?_⟩
        rintro moved shift rfl
        simp only [Option.bind_eq_some_iff, slotChecked_eq_some] at hrest
        obtain ⟨_, ⟨hprice, -⟩, -⟩ := hrest
        exact hprice
      exact ⟨⟨hfit, fun _ => hmovable.span, fun _ => hmovable.centre⟩, fun _ => hkept⟩
  · rintro ⟨hexact, hkept⟩
    refine ⟨_, ⟨hexact.offset, rfl⟩, ?_⟩
    cases hslot : b.index.slot price with
    | offGrid => rfl
    | «at» i => rfl
    | outside =>
      obtain ⟨k, hk⟩ := slot_eq_outside h.sane hexact.offset hslot
      obtain ⟨low, high, hlow, hhigh, hlowk, hkhigh, -⟩ := h.cover_spec hk
      obtain ⟨r, hmove, hnext⟩ := (rebaseForChecked_iff h.sane hk hlow hhigh
        (Int.le_trans hlowk hkhigh)).mpr (hexact.movable hslot)
      simp only [Option.bind_eq_some_iff, h.keptPricesChecked_iff]
      refine ⟨_, ⟨rfl, hkept hslot⟩, r, hmove, ?_⟩
      cases r with
      | none => rfl
      | some found =>
        obtain ⟨moved, shift⟩ := found
        simp only [Option.bind_eq_some_iff, slotChecked_eq_some]
        exact ⟨_, ⟨hnext moved shift rfl, rfl⟩, rfl⟩

/-! ## Filed or refused -/

/-- What an operation that puts an order on the book may come to: the order is filed at exactly its
price beside the others, or the price is refused and the book left alone; or the operation is
refused for its arguments, or for want of a node, and the orders stay. -/
inductive FiledOrRefused (b : MboBook) (os : List RestingOrder) (op : Op) :
    Except BookError (Option RestingOrder) → MboBook → Prop
  | filed {b' : MboBook} : (Arrivals.step os op).1 = .ok none → Holds b' (Arrivals.step os op).2 →
      FiledOrRefused b os op (.ok none) b'
  | outOfRange {orderId : UInt64} {price : Int64} : op.placed = some price →
      FiledOrRefused b os op (.error (.priceOutOfRange orderId price)) b
  | offGrid {orderId : UInt64} {price : Int64} : op.placed = some price →
      FiledOrRefused b os op (.error (.priceOffGrid orderId price)) b
  | argument {e : BookError} : refusal b.get op = some e → FiledOrRefused b os op (.error e) b
  | full {orderId : UInt64} {b' : MboBook} : os.length = b.slab → Holds b' os →
      FiledOrRefused b os op (.error (.slabFull orderId b.slab)) b'

theorem NoSlot.filedOrRefused {orderId : UInt64} {e : BookError} (h : NoSlot b orderId price e)
    (hop : op.placed = some price) : FiledOrRefused b os op (.error e) b := by
  rcases h with ⟨-, rfl⟩ | ⟨-, -, rfl⟩
  · exact .offGrid hop
  · exact .outOfRange hop

theorem Holds.filedOrRefused (h : Holds b os) (hargs : refusal b.get op = none)
    (hop : op.placed = some price) (hexact : b.index.Exact price b.keptPrices) :
    FiledOrRefused b os op (OrderBook.step b op).1 (OrderBook.step b op).2 := by
  rw [h.get_eq] at hargs
  obtain ⟨live, free, hwhole, rfl⟩ := h
  cases op with
  | add orderId side price' quantity =>
    obtain rfl := Option.some.inj hop
    have hadd := hwhole.add orderId side quantity hexact
    show FiledOrRefused _ _ _ ((b.add orderId side price' quantity).1.map fun _ => none)
      (b.add orderId side price' quantity).2
    rw [refusal] at hargs
    generalize (b.add orderId side price' quantity).1 = r at hadd ⊢
    generalize (b.add orderId side price' quantity).2 = b' at hadd ⊢
    cases hadd with
    | zero hq =>
      rw [if_pos hq] at hargs
      cases hargs
    | duplicate hq hdup =>
      rw [if_neg hq, if_pos hdup] at hargs
      cases hargs
    | noSlot hq hnew hno => exact hno.filedOrRefused rfl
    | full hq hnew hslots hnil hwhole' horders =>
      refine .full ?_ ⟨live, [], hwhole', horders⟩
      rw [← hwhole.length_eq, hnil, ordersOf, List.length_map, List.length_nil, Nat.add_zero]
    | added hq hnew hslots hfree hwhole' horders =>
      have hstep : Arrivals.step (b.ordersOf live) (.add orderId side price' quantity) =
          (.ok none, b.ordersOf live ++ [⟨orderId, price', quantity, side⟩]) := by
        rw [Arrivals.step, if_neg hq, hnew]
        rfl
      exact .filed (by rw [hstep]) (by rw [hstep]; exact ⟨_, _, hwhole', horders⟩)
  | replace orderId newPrice newQuantity =>
    obtain rfl := Option.some.inj hop
    rw [refusal] at hargs
    split at hargs
    · cases hargs
    rename_i hq
    have hreplace := hwhole.replace orderId hq hexact
    show FiledOrRefused _ _ _ ((b.replace orderId newPrice newQuantity).1.map fun _ => none)
      (b.replace orderId newPrice newQuantity).2
    cases hlookup : Arrivals.lookup (b.ordersOf live) orderId with
    | none =>
      rw [hlookup] at hargs
      cases hargs
    | some o =>
      rw [hlookup] at hreplace
      dsimp only at hreplace
      generalize (b.replace orderId newPrice newQuantity).1 = r at hreplace ⊢
      generalize (b.replace orderId newPrice newQuantity).2 = b' at hreplace ⊢
      cases hreplace with
      | noSlot hno => exact hno.filedOrRefused rfl
      | replaced hslots hn hwhole' horders =>
        have hstep : Arrivals.step (b.ordersOf live) (.replace orderId newPrice newQuantity) =
            (.ok none, Arrivals.without (b.ordersOf live) orderId ++
              [{ o with price := newPrice, quantity := newQuantity }]) := by
          rw [Arrivals.step, if_neg hq, hlookup]
        exact .filed (by rw [hstep]) (by rw [hstep]; exact ⟨_, _, hwhole', horders⟩)
  | delete orderId => cases hop
  | reduce orderId newQuantity => cases hop
  | clear => cases hop

/-- No subtraction or product on the way to the operation's slot wraps; one that is refused for its
arguments gets nowhere near it. -/
def NoWrap (b : MboBook) (op : Op) (price : Int64) : Prop :=
  refusal b.get op = none → b.slotForChecked price = some ()

/-- **A price is filed or refused just where it is in reach.** In every book that holds its orders,
for every operation that puts one at a price: nothing wraps, and the order is filed at exactly that
price or the book left as it was, if and only if the operation is refused for its arguments or the
price is in reach of the window and of the prices that rest. -/
theorem files_or_refuses_iff (h : Holds b os) (hop : op.placed = some price) :
    (NoWrap b op price ∧ FiledOrRefused b os op (OrderBook.step b op).1 (OrderBook.step b op).2) ↔
      (refusal b.get op = none → InReach b price) := by
  have hchecked : b.slotForChecked price = some () ↔ InReach b price := by
    obtain ⟨live, free, hwhole, -⟩ := h
    exact hwhole.store.slotForChecked_iff
  unfold NoWrap
  rw [hchecked]
  constructor
  · rintro ⟨hreach, -⟩
    exact hreach
  · intro hreach
    refine ⟨hreach, ?_⟩
    cases hargs : refusal b.get op with
    | none => exact h.filedOrRefused hargs hop (hreach hargs).exact
    | some e =>
      have hrefuses := step_refuses b op
      rw [hargs] at hrefuses
      rw [show OrderBook.step b op = (.error e, b) from hrefuses]
      exact .argument hargs

/-- The highest price there is, beside one bid. -/
theorem files_or_refuses_iff_highest :
    ∃ os, Holds oneBid os ∧ NoWrap oneBid (.add 2 .bid 9223372036854775807 1) 9223372036854775807 ∧
      FiledOrRefused oneBid os (.add 2 .bid 9223372036854775807 1)
        (OrderBook.step oneBid (.add 2 .bid 9223372036854775807 1)).1
        (OrderBook.step oneBid (.add 2 .bid 9223372036854775807 1)).2 := by
  obtain ⟨os, hos⟩ := reachable_oneBid.holds
  refine ⟨os, hos, (files_or_refuses_iff hos rfl).mpr fun _ => ⟨by decide +kernel, ?_⟩⟩
  have hkept : oneBid.keptPrices = some (100, 100) := by decide +kernel
  intro _ lo hi h
  rw [hkept] at h
  cases h
  decide +kernel

/-- An order near the lower end of the range: the distance to the bid wraps, and the window moves
off and leaves the bid behind. -/
def farBelow : Op := .add 2 .bid (-9223372036854775738) 1

theorem lost_far_below :
    ∃ os, Holds oneBid os ∧ ¬ NoWrap oneBid farBelow (-9223372036854775738) ∧
      ¬ FiledOrRefused oneBid os farBelow (OrderBook.step oneBid farBelow).1
        (OrderBook.step oneBid farBelow).2 := by
  have hargs : refusal oneBid.get farBelow = none := by decide +kernel
  obtain ⟨os, hos⟩ := reachable_oneBid.holds
  refine ⟨os, hos, fun hnowrap => ?_, fun houtcome => ?_⟩
  · have hwraps : oneBid.slotForChecked (-9223372036854775738) = none := by decide +kernel
    have hgoes := hnowrap hargs
    rw [hwraps] at hgoes
    cases hgoes
  · have hbefore : oneBid.forEachLevel .bid 0 = [⟨100, 10, 1⟩] := by decide +kernel
    have hafter : (OrderBook.step oneBid farBelow).2.forEachLevel .bid 0 = [] := by decide +kernel
    have hanswer : (OrderBook.step oneBid farBelow).1 =
        .error (.priceOutOfRange 2 (-9223372036854775738)) := by decide +kernel
    rw [hanswer] at houtcome
    generalize (OrderBook.step oneBid farBelow).2 = b' at houtcome hafter
    cases houtcome with
    | outOfRange _ =>
      rw [hbefore] at hafter
      cases hafter
    | argument _ =>
      rw [hbefore] at hafter
      cases hafter

end MboBook

end MarketData.Book
