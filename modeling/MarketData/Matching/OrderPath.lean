import MarketData.Lib.Fifo
import MarketData.Matching.Engine
import MarketData.Wire.OrderPath

/-!
# `Matching/OrderPath.lean` — the engine's end of the order path

`crates/matching-engine/src/orderpath.rs`. Accepted orders come in over one ring, execution
reports go back out over another. The engine names an order by its own id and a client by the
id it chose; `owned` is the only place the two stand side by side.

A report that finds the ring full is counted and lost. Of the statistics only that count is kept.

## Two passes for one watch

An order that comes to rest is to be watched, so that a later fill of it is noted for its owner. The
engine is borrowed while a message is dispatched, and the source therefore puts the registration
down (`toWatch`) and makes it at the top of the next pass; the same for orders that are done
(`finished`). The model keeps the two lists and the delay, since **what happens to an order in
between is not noted** (`Matching/Told.lean`).

Lists with a bound stand for the arrays of fixed length: the table of owners, the fills that one
order can report, and the fills that a pass can. What does not fit is counted where the source
counts it, and where the source does not look, nothing is counted here.

`pump` takes up to `ordersPerPass` messages. How a pass is cut into steps is `Matching/Desk.lean`.
-/

set_option autoImplicit false

namespace MarketData.Matching

open MarketData.Wire MarketData.Book

/-- `ORDERS_PER_PASS` -/
def ordersPerPass : Nat := 64

/-- `MAX_OWNED`: order-path orders the engine will track at once. -/
def maxOwned : Nat := 4096

/-- The room `pump` and `on_new_order` have for the fills they report. -/
def fillsPerReport : Nat := 32

/-- One order that arrived over the order path and is still working. -/
structure Owned where
  exchangeOrderId : UInt64
  clientOrderId : UInt64
  deriving DecidableEq, Repr

/-- The engine's two rings, and the orders it knows the owner of. -/
structure OrderPath where
  orders : Fifo OrderMessage
  reports : Fifo ExecReport
  reportsDropped : Nat := 0
  owned : List Owned := []
  /-- Registrations for the passive-fill watch, applied at the top of the next `pump`. -/
  toWatch : List UInt64 := []
  finished : List UInt64 := []

namespace OrderPath

def emit (p : OrderPath) (r : ExecReport) : OrderPath :=
  match p.reports.push r with
  | some reports => { p with reports }
  | none => { p with reportsDropped := p.reportsDropped + 1 }

def emitReject (p : OrderPath) (clientOrderId : UInt64) (symbolId : UInt16) (side : Side)
    (reason : RejectReason) : OrderPath :=
  p.emit ⟨clientOrderId, 0, 0, 0, 0, 0, symbolId, side, .rejected, reason⟩

def drop (p : OrderPath) (n : Nat) : OrderPath := { p with reportsDropped := p.reportsDropped + n }

/-- `retain` of every other order, and no more watching of this one. -/
def forget (p : OrderPath) (exchangeOrderId : UInt64) : OrderPath :=
  { p with
    owned := p.owned.filter fun o => o.exchangeOrderId ≠ exchangeOrderId
    finished := p.finished ++ [exchangeOrderId] }

/-! ## New orders -/

/-- The report of one of an order's own fills; `last` says that nothing is left to report. -/
def fillReport (m : NewOrder) (side : Side) (orderId : UInt64) (f : Fill) (last : Bool) :
    ExecReport :=
  ⟨m.clientOrderId, orderId, f.tradeId, f.price, f.quantity, f.leaves, m.symbolId, side,
    if last then .fill else .partialFill, .notRejected⟩

/-- The reports of the fills there was room to collect. Only the last of them can say that the
order is done, and only if none was left out. -/
def reportFills (p : OrderPath) (m : NewOrder) (side : Side) (orderId : UInt64)
    (overflowed : Nat) : List Fill → OrderPath
  | [] => p
  | [f] => p.emit (fillReport m side orderId f (f.leaves = 0 && overflowed = 0))
  | f :: fills => (p.emit (fillReport m side orderId f false)).reportFills m side orderId overflowed
      fills

/-- Remembers a resting order, if there is room to. -/
def remember (p : OrderPath) (orderId clientOrderId : UInt64) : OrderPath :=
  if p.owned.length < maxOwned then
    { p with owned := p.owned ++ [⟨orderId, clientOrderId⟩], toWatch := p.toWatch ++ [orderId] }
  else p.drop 1

/-- What is reported of an order once the engine has taken it. -/
def reportOutcome (p : OrderPath) (m : NewOrder) (side : Side) (outcome : SubmitOutcome)
    (fills : List Fill) : OrderPath :=
  let overflowed := fills.length - fillsPerReport
  let p := p.reportFills m side outcome.orderId overflowed (fills.take fillsPerReport)
  let p := p.drop overflowed
  if 0 < outcome.resting then
    (p.remember outcome.orderId m.clientOrderId).emit
      ⟨m.clientOrderId, outcome.orderId, 0, m.price, m.quantity, outcome.resting, m.symbolId, side,
        .acknowledged, .notRejected⟩
  else p

variable (env : Env)

def onNewOrder (p : OrderPath) (x : Exchange) (m : NewOrder) :
    Except IoError (OrderPath × Exchange) :=
  match m.side with
  | none => .ok (p.emitReject m.clientOrderId m.symbolId .bid .unknownSymbol, x)
  | some side => do
    -- A client's order: the generator must not cancel or amend it.
    let (x, outcome, fills) ← x.submitReported env m.symbolId side m.price m.quantity false
    .ok (p.reportOutcome m side outcome fills, x)

/-! ## Cancels -/

/-- The order the request names is looked for under that id among the engine's own. -/
def onCancel (p : OrderPath) (x : Exchange) (m : CancelOrder) :
    Except IoError (OrderPath × Exchange) := do
  let side := m.side.getD .bid
  let orig := m.origClientOrderId
  let (x, answer) ← x.cancelReported env m.symbolId orig
  match answer with
  | some remaining =>
    .ok ((p.forget orig).emit
      ⟨m.clientOrderId, orig, 0, 0, remaining, 0, m.symbolId, side, .canceled, .notRejected⟩, x)
  | none =>
    .ok (p.emit
      ⟨m.clientOrderId, orig, 0, 0, 0, 0, m.symbolId, side, .rejected, .unknownOrder⟩, x)

/-! ## Reconciliation -/

/-- The first symbol whose book holds the order. -/
def lookUp (books : Books) (orderId : UInt64) : Option (UInt16 × RestingOrder) :=
  books.toList.findSome? fun (symbolId, b) => (b.get orderId).map fun o => (symbolId, o)

/-- One line of the answer; whether it got into the ring is counted. -/
def name (books : Books) (p : OrderPath) (named : Nat) (o : Owned) : OrderPath × Nat :=
  match lookUp books o.exchangeOrderId with
  | none => (p, named)
  | some (symbolId, resting) =>
    match p.reports.push ⟨o.clientOrderId, o.exchangeOrderId, 0, resting.price, resting.quantity,
        resting.quantity, symbolId, resting.side, .orderStatus, .notRejected⟩ with
    | some reports => ({ p with reports }, named + 1)
    | none => (p.drop 1, named)

/-- Every remembered order that still rests is named, the rest are forgotten, and a marker with
the number of lines ends the answer. -/
def onReconcile (p : OrderPath) (books : Books) (requestId : UInt64) : OrderPath :=
  let (p', named) := p.owned.foldl (fun (p, named) o => p.name books named o) (p, 0)
  let owned := p.owned.filter fun o => (lookUp books o.exchangeOrderId).isSome
  { p' with owned }.emit ⟨requestId, 0, 0, 0, UInt32.ofNat (min named (2 ^ 32 - 1)), 0, 0, .bid,
    .statusComplete, .notRejected⟩

/-! ## One pass -/

def dispatch (p : OrderPath) (x : Exchange) : OrderMessage →
    Except IoError (OrderPath × Exchange)
  | .newOrder m => p.onNewOrder env x m
  | .cancelOrder m => p.onCancel env x m
  | .reconcileRequest requestId => .ok (p.onReconcile x.engine.books requestId, x)

/-- A fill against a resting order goes back to its owner. -/
def reportPassiveFill (p : OrderPath) (f : PassiveFill) : OrderPath :=
  match p.owned.find? fun o => o.exchangeOrderId = f.restingOrderId with
  | none => p.drop 1
  | some o =>
    let p := p.emit ⟨o.clientOrderId, f.restingOrderId, f.tradeId, f.price, f.quantity, f.leaves,
      f.symbolId, f.side, if f.leaves = 0 then .fill else .partialFill, .notRejected⟩
    if f.leaves = 0 then p.forget f.restingOrderId else p

/-- The registrations of the previous pass, and the fills recorded since it. -/
def catchUp (p : OrderPath) (x : Exchange) : OrderPath × Exchange :=
  let engine := p.finished.foldl Engine.unwatchOrder (p.toWatch.foldl Engine.watchOrder x.engine)
  let passive := engine.passiveFills
  let p := { p with toWatch := [], finished := [] }
  let p := (passive.take fillsPerReport).foldl reportPassiveFill p
  (p.drop (passive.length - fillsPerReport), { x with engine := { engine with passiveFills := [] } })

/-- Takes up to `n` messages and acts on each. -/
def drain (p : OrderPath) (x : Exchange) : Nat → Except IoError (OrderPath × Exchange)
  | 0 => .ok (p, x)
  | n + 1 =>
    match p.orders.pop with
    | none => .ok (p, x)
    | some (m, orders) => do
      let (p, x) ← { p with orders }.dispatch env x m
      p.drain x n

def pump (p : OrderPath) (x : Exchange) : Except IoError (OrderPath × Exchange) :=
  let (p, x) := p.catchUp x
  p.drain env x ordersPerPass

end OrderPath

end MarketData.Matching
