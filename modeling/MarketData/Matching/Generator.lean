import MarketData.Matching.Reproduction
import MarketData.Matching.Rng

/-!
# `Matching/Generator.lean` — the synthetic order flow

`crates/matching-engine/src/generator.rs`. What the generator wants next depends on its random
numbers and on the symbol it looks at: the orders it may act on again, and the price the flow is
centred on. An index past the end of that list would be a panic of the source, and is `none` here.

A state in `engine.rs` has both of these; here the price and the tick size are kept apart as a
`Quote`, since the engine never reads them.

## What is exact and what is not

The draws are those of `Matching/Rng.lean`, in the source's order, so a seed gives the flow it gives
there. Prices are computed with saturating additions and are written as such (`saturate`).
Probabilities are rationals; the settings' decimal fractions are floats in the source, and any float
that is finite is one of these.

`next_fits` is what the rest of the development asks of the generator: **it decides on something
whatever is drawn**, an order it wants to act on is one of the symbol's list, and a quantity lies in
the configured band. That the list names orders that are still there is not the generator's doing
(`Matching/Recycled.lean`), and whether a flow looks like a market is nobody's claim.
-/

set_option autoImplicit false

namespace MarketData.Matching

open MarketData.Wire MarketData.Book

/-- What the generator wants to happen next. -/
inductive Intent where
  | submit (symbolId : UInt16) (side : Side) (price : Int64) (quantity : UInt32)
  | cancel (symbolId : UInt16) (orderId : UInt64)
  /-- No new price means leave the price alone. -/
  | amend (symbolId : UInt16) (orderId : UInt64) (newPrice : Option Int64) (newQuantity : UInt32)
  deriving DecidableEq, Repr

/-- The call the engine's loop makes of an intent. -/
def Intent.call : Intent → Call
  | .submit symbolId side price quantity => .submit symbolId side price quantity
  | .cancel symbolId orderId => .cancel symbolId orderId
  | .amend symbolId orderId newPrice newQuantity => .amend symbolId orderId newPrice newQuantity

/-- The part of a symbol's state that only the generator uses. -/
structure Quote where
  tickSize : Int64
  mid : Int64
  deriving DecidableEq, Repr

/-- The knobs the flow is shaped by. -/
structure Shape where
  targetDepth : Nat
  priceSpreadTicks : Int64
  aggressiveChance : ℚ
  cancelChance : ℚ
  modifyChance : ℚ
  minQuantity : UInt32
  maxQuantity : UInt32

structure Generator where
  rng : Rng
  shape : Shape

/-- `i64::saturating_add` and `i64::saturating_sub`, by the value they are cut off to. -/
def saturate (z : Int) : Int64 := Int64.ofInt (max (-2 ^ 63) (min z (2 ^ 63 - 1)))

namespace Generator

def new (seed : UInt64) (shape : Shape) : Generator := ⟨Rng.new seed, shape⟩

def below (g : Generator) (n : UInt64) : UInt64 × Generator :=
  ((g.rng.below n).1, { g with rng := (g.rng.below n).2 })

def rangeInclusive (g : Generator) (lo hi : UInt64) : UInt64 × Generator :=
  ((g.rng.rangeInclusive lo hi).1, { g with rng := (g.rng.rangeInclusive lo hi).2 })

def chance (g : Generator) (p : ℚ) : Bool × Generator :=
  ((g.rng.chance p).1, { g with rng := (g.rng.chance p).2 })

/-- Picks which symbol to act on next. -/
def pickSymbol (g : Generator) (symbols : Nat) : Nat × Generator :=
  let (idx, g) := g.below (UInt64.ofNat symbols)
  (idx.toNat, g)

def quantity (g : Generator) : UInt32 × Generator :=
  let (z, g) := g.rangeInclusive g.shape.minQuantity.toUInt64 g.shape.maxQuantity.toUInt64
  (z.toUInt32, g)

def priceNear (g : Generator) (mid tick : Int64) : Int64 × Generator :=
  let (z, g) := g.below (g.shape.priceSpreadTicks.toUInt64 * 2 + 1)
  (mid + (z.toInt64 - g.shape.priceSpreadTicks) * tick, g)

/-- A price on the passive side of the mid. -/
def passivePrice (g : Generator) (mid tick : Int64) (side : Side) : Int64 × Generator :=
  let (ticks, g) := g.rangeInclusive 1 g.shape.priceSpreadTicks.toUInt64
  match side with
  | .bid => (mid - ticks.toInt64 * tick, g)
  | .ask => (mid + ticks.toInt64 * tick, g)

/-- Lets the mid wander a tick at a time. -/
def driftMid (g : Generator) (quote : Quote) : Quote × Generator :=
  let (z, g) := g.below 64
  if z = 0 then ({ quote with mid := saturate (quote.mid.toInt + quote.tickSize.toInt) }, g)
  else if z = 1 then ({ quote with mid := saturate (quote.mid.toInt - quote.tickSize.toInt) }, g)
  else (quote, g)

/-- A price far enough across the spread to cross whatever is resting. -/
def crossingPrice (g : Generator) (mid tick : Int64) (side : Side) : Int64 × Generator :=
  let (reach, g) := g.rangeInclusive 1 3
  match side with
  | .bid => (mid + reach.toInt64 * tick, g)
  | .ask => (mid - reach.toInt64 * tick, g)

def drawSide (g : Generator) : Side × Generator :=
  let (buys, g) := g.chance (1 / 2)
  (if buys then .bid else .ask, g)

/-- Nothing crosses while the book is thin. -/
def drawPrice (g : Generator) (quote : Quote) (starving : Bool) (side : Side) : Int64 × Generator :=
  let (aggressive, g) := if starving then (false, g) else g.chance g.shape.aggressiveChance
  if aggressive then g.crossingPrice quote.mid quote.tickSize side
  else g.passivePrice quote.mid quote.tickSize side

/-- The end of `next`: an order is added. -/
def nextSubmit (g : Generator) (symbolId : UInt16) (quote : Quote) (starving : Bool) :
    Intent × Generator :=
  let (side, g) := g.drawSide
  let (price, g) := g.drawPrice quote starving side
  let (quantity, g) := g.quantity
  (.submit symbolId side price quantity, g)

/-- An order the generator may act on again, drawn from the list. -/
def pickLive (g : Generator) (live : List UInt64) : Option (UInt64 × Generator) := do
  let (idx, g) := g.below (UInt64.ofNat live.length)
  let orderId ← live[idx.toNat]?
  some (orderId, g)

/-- The amend of an order: half the time the price is left alone. -/
def drawAmend (g : Generator) (symbolId : UInt16) (quote : Quote) (orderId : UInt64) :
    Intent × Generator :=
  let (newQuantity, g) := g.quantity
  let (keeps, g) := g.chance (1 / 2)
  if keeps then (.amend symbolId orderId none newQuantity, g)
  else
    let (price, g) := g.priceNear quote.mid quote.tickSize
    (.amend symbolId orderId (some price) newQuantity, g)

def nextAmend (g : Generator) (sym : SymbolState) (quote : Quote) :
    Option (Intent × Generator) := do
  let (orderId, g) ← g.pickLive sym.live
  some (g.drawAmend sym.id quote orderId)

/-- Decides the next action for one symbol. A thin book is only added to, an overfull one is mostly
taken from. -/
def next (g : Generator) (sym : SymbolState) (quote : Quote) : Option (Intent × Generator) :=
  let resting := sym.live.length
  let starving : Bool := resting < g.shape.targetDepth / 2
  let crowded : Bool := g.shape.targetDepth * 2 < resting
  if ¬starving ∧ 0 < resting then
    let (cancels, g) := g.chance (if crowded then 3 / 4 else g.shape.cancelChance)
    if cancels then do
      let (orderId, g) ← g.pickLive sym.live
      some (.cancel sym.id orderId, g)
    else
      let (modifies, g) := g.chance g.shape.modifyChance
      if modifies then g.nextAmend sym quote
      else some (g.nextSubmit sym.id quote starving)
  else some (g.nextSubmit sym.id quote starving)

end Generator

/-! ## What an intent is about -/

/-- An intent for a symbol: an order that is acted on is one of the symbol's, and a quantity lies in
the configured band. -/
def Intent.Fits (sym : SymbolState) (shape : Shape) : Intent → Prop
  | .submit symbolId _ _ quantity => symbolId = sym.id ∧ shape.minQuantity ≤ quantity ∧
      quantity.toNat ≤ max shape.minQuantity.toNat shape.maxQuantity.toNat
  | .cancel symbolId orderId => symbolId = sym.id ∧ orderId ∈ sym.live
  | .amend symbolId orderId _ newQuantity => symbolId = sym.id ∧ orderId ∈ sym.live ∧
      shape.minQuantity ≤ newQuantity ∧
      newQuantity.toNat ≤ max shape.minQuantity.toNat shape.maxQuantity.toNat

namespace Generator

variable {g : Generator}

@[simp] theorem shape_below (n : UInt64) : (g.below n).2.shape = g.shape := rfl

theorem pickSymbol_fst (symbols : Nat) :
    (g.pickSymbol symbols).1 = (g.rng.below (UInt64.ofNat symbols)).1.toNat := by
  unfold pickSymbol below
  rfl

theorem shape_pickSymbol (symbols : Nat) : (g.pickSymbol symbols).2.shape = g.shape := by
  unfold pickSymbol below
  rfl

@[simp] theorem shape_rangeInclusive (lo hi : UInt64) :
    (g.rangeInclusive lo hi).2.shape = g.shape := rfl

@[simp] theorem shape_chance (p : ℚ) : (g.chance p).2.shape = g.shape := rfl

@[simp] theorem shape_quantity : g.quantity.2.shape = g.shape := rfl

@[simp] theorem shape_priceNear (mid tick : Int64) : (g.priceNear mid tick).2.shape = g.shape := rfl

@[simp] theorem shape_passivePrice (mid tick : Int64) (side : Side) :
    (g.passivePrice mid tick side).2.shape = g.shape := by
  unfold passivePrice
  cases side with
  | bid => exact shape_rangeInclusive _ _
  | ask => exact shape_rangeInclusive _ _

@[simp] theorem shape_crossingPrice (mid tick : Int64) (side : Side) :
    (g.crossingPrice mid tick side).2.shape = g.shape := by
  have h := g.shape_rangeInclusive 1 3
  unfold crossingPrice
  generalize g.rangeInclusive 1 3 = drawn at h
  cases side with
  | bid => exact h
  | ask => exact h

@[simp] theorem shape_drawSide : g.drawSide.2.shape = g.shape := by
  have h := g.shape_chance (1 / 2)
  unfold drawSide
  generalize g.chance (1 / 2) = drawn at h
  exact h

@[simp] theorem shape_drawPrice (quote : Quote) (starving : Bool) (side : Side) :
    (g.drawPrice quote starving side).2.shape = g.shape := by
  unfold drawPrice
  cases starving with
  | true => exact shape_passivePrice ..
  | false =>
    simp only [Bool.false_eq_true, if_false]
    split
    · exact shape_crossingPrice ..
    · exact shape_passivePrice ..

@[simp] theorem shape_driftMid (quote : Quote) : (g.driftMid quote).2.shape = g.shape := by
  have h := g.shape_below 64
  unfold driftMid
  generalize g.below 64 = drawn at h
  dsimp only
  split
  · exact h
  · split
    · exact h
    · exact h

theorem quantity_bounds (g : Generator) : g.shape.minQuantity ≤ g.quantity.1 ∧
    g.quantity.1.toNat ≤ max g.shape.minQuantity.toNat g.shape.maxQuantity.toNat := by
  have hmin := g.shape.minQuantity.toNat_lt
  have hmax := g.shape.maxQuantity.toNat_lt
  obtain ⟨hlow, hhigh⟩ := g.rng.rangeInclusive_bounds g.shape.minQuantity.toUInt64
    g.shape.maxQuantity.toUInt64 (by rw [UInt32.toNat_toUInt64]; omega)
  simp only [UInt32.toNat_toUInt64] at hlow hhigh
  unfold quantity rangeInclusive
  dsimp only
  generalize (g.rng.rangeInclusive _ _).1 = z at hlow hhigh ⊢
  rw [UInt32.le_iff_toNat_le, UInt64.toNat_toUInt32, Nat.mod_eq_of_lt (by omega)]
  exact ⟨hlow, hhigh⟩

/-- What is drawn from a list is one of it. -/
theorem pickLive_mem {live : List UInt64} (hsome : live ≠ []) (hlen : live.length < 2 ^ 64) :
    ∃ orderId, g.pickLive live = some (orderId, (g.below (UInt64.ofNat live.length)).2) ∧
      orderId ∈ live := by
  have hcount : (UInt64.ofNat live.length).toNat = live.length :=
    UInt64.toNat_ofNat_of_lt' hlen
  have hlt := g.rng.below_lt (n := UInt64.ofNat live.length) fun h => by
    rw [h] at hcount
    exact hsome (List.length_eq_zero_iff.mp hcount.symm)
  rw [UInt64.lt_iff_toNat_lt, hcount] at hlt
  refine ⟨live[(g.rng.below (UInt64.ofNat live.length)).1.toNat], ?_, List.getElem_mem _⟩
  show (live[(g.rng.below (UInt64.ofNat live.length)).1.toNat]?).bind _ = _
  rw [List.getElem?_eq_getElem hlt]
  rfl

theorem nextSubmit_fits (g : Generator) (sym : SymbolState) (quote : Quote) (starving : Bool) :
    (g.nextSubmit sym.id quote starving).1.Fits sym g.shape ∧
      (g.nextSubmit sym.id quote starving).2.shape = g.shape := by
  have hshape : (g.drawSide.2.drawPrice quote starving g.drawSide.1).2.shape = g.shape := by
    rw [shape_drawPrice, shape_drawSide]
  have hbounds := (g.drawSide.2.drawPrice quote starving g.drawSide.1).2.quantity_bounds
  rw [hshape] at hbounds
  exact ⟨⟨rfl, hbounds⟩, hshape⟩

theorem drawAmend_fits (g : Generator) (sym : SymbolState) (quote : Quote) {orderId : UInt64}
    (hmem : orderId ∈ sym.live) :
    (g.drawAmend sym.id quote orderId).1.Fits sym g.shape ∧
      (g.drawAmend sym.id quote orderId).2.shape = g.shape := by
  have hbounds := g.quantity_bounds
  have hdrawn := g.shape_quantity
  unfold drawAmend
  generalize g.quantity = drawn at hbounds hdrawn ⊢
  dsimp only
  have hkept := drawn.2.shape_chance (1 / 2)
  generalize drawn.2.chance (1 / 2) = kept at hkept ⊢
  have hsame : kept.2.shape = g.shape := hkept.trans hdrawn
  split
  · exact ⟨⟨rfl, hmem, hbounds⟩, hsame⟩
  · exact ⟨⟨rfl, hmem, hbounds⟩, (shape_priceNear quote.mid quote.tickSize).trans hsame⟩

theorem nextAmend_fits (sym : SymbolState) (quote : Quote) (hsome : sym.live ≠ [])
    (hlen : sym.live.length < 2 ^ 64) :
    ∃ drawn, g.nextAmend sym quote = some drawn ∧ drawn.1.Fits sym g.shape ∧
      drawn.2.shape = g.shape := by
  obtain ⟨orderId, hpick, hmem⟩ := pickLive_mem (g := g) hsome hlen
  generalize hg₁ : (g.below (UInt64.ofNat sym.live.length)).2 = g₁ at hpick
  have hshape : g₁.shape = g.shape := by rw [← hg₁, shape_below]
  obtain ⟨hfits, hsame⟩ := g₁.drawAmend_fits sym quote hmem
  rw [hshape] at hfits hsame
  refine ⟨g₁.drawAmend sym.id quote orderId, ?_, hfits, hsame⟩
  unfold nextAmend
  rw [hpick]
  rfl

/-- **The generator asks only for what there is**: it always decides on something, and an order it
wants canceled or amended is one of the symbol's. -/
theorem next_fits (g : Generator) (sym : SymbolState) (quote : Quote)
    (hlen : sym.live.length < 2 ^ 64) :
    ∃ drawn, g.next sym quote = some drawn ∧ drawn.1.Fits sym g.shape ∧
      drawn.2.shape = g.shape := by
  unfold next
  dsimp only
  split
  · rename_i hacts
    have hsome : sym.live ≠ [] := List.ne_nil_of_length_pos hacts.2
    have hcancels := g.shape_chance (if decide (g.shape.targetDepth * 2 < sym.live.length) = true
      then 3 / 4 else g.shape.cancelChance)
    generalize g.chance (if decide (g.shape.targetDepth * 2 < sym.live.length) = true
      then 3 / 4 else g.shape.cancelChance) = cancels at hcancels ⊢
    split
    · obtain ⟨orderId, hpick, hmem⟩ := pickLive_mem (g := cancels.2) hsome hlen
      rw [hpick]
      exact ⟨_, rfl, ⟨rfl, hmem⟩, hcancels⟩
    · have hmodifies := cancels.2.shape_chance g.shape.modifyChance
      rw [hcancels] at hmodifies ⊢
      generalize cancels.2.chance g.shape.modifyChance = modifies at hmodifies ⊢
      rw [← hmodifies]
      split
      · exact nextAmend_fits sym quote hsome hlen
      · exact ⟨_, rfl, nextSubmit_fits modifies.2 sym quote _⟩
  · exact ⟨_, rfl, nextSubmit_fits g sym quote _⟩

end Generator

end MarketData.Matching
