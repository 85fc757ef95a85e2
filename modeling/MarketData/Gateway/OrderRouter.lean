import MarketData.Gateway.Fix
import MarketData.Gateway.OrderStore
import MarketData.Lib.Fifo

/-!
# `Gateway/OrderRouter.lean` — the gateway's end of the order path

`cpp/gateway/src/orderpath.cpp`: FIX on one side, rings on the other. An order is recorded before
it is sent on; a report is recorded before the client is told. What goes to the client is kept in
`sent`, as the fields the router hands to the session. Whether a record reached the disk is an
argument. Of the statistics only the reports for unknown orders are kept.

## The disk and the rings as arguments and lists

A call that writes two records takes two answers of the disk: `onNewOrderSingle` records the order,
and takes it back off the log when the ring is full, and either can fail on its own. The rings are
lists with a bound, pushed at one end and taken off at the other; that the ring itself keeps its
promises is `Ring/Spsc.lean`, and `Ring/Order.lean` after it.

`pump` is one turn: the oldest report, if there is one. The source's loop takes a batch in one call,
and what a batch does is what its turns do; a report can also arrive between two turns here, which
is the coarser reading of a loop that polls. `onReport` is the loop's body, with `recordReport` and
`sendExecReport` in the order the source has them, since one of them takes away what the other reads
(`Gateway/Fills.lean`).

## What a reconciliation keeps

Status lines are collected in `engineView` as they arrive, whatever request they answer, and
`compare` goes through the log when the count comes. The report is a list of entries; the counters
of the source are read off it (`Gateway/Divergence.lean`).
-/

set_option autoImplicit false

namespace MarketData.Gateway

open MarketData.Wire

/-- A FIX `Symbol` string and the id the wire uses for it. -/
structure SymbolMapping where
  name : Text
  id : UInt16
  deriving DecidableEq, Repr

inductive ReconcileState where
  | idle
  | awaiting
  | done
  deriving DecidableEq, Repr

/-- One way the gateway's view and the engine's can differ. -/
inductive DivergenceKind where
  | agree
  | leavesDiffer
  | gatewayOnly
  | engineOnly
  deriving DecidableEq, Repr

structure DivergenceEntry where
  kind : DivergenceKind := .agree
  clientOrderId : UInt64 := 0
  exchangeOrderId : UInt64 := 0
  gatewayLeaves : UInt32 := 0
  engineLeaves : UInt32 := 0
  symbolId : UInt16 := 0
  deriving DecidableEq, Repr

structure Divergence where
  complete : Bool := false
  engineNamed : UInt32 := 0
  gatewayHad : Nat := 0
  entries : List DivergenceEntry := []
  deriving DecidableEq, Repr

structure OrderRouter where
  orders : Fifo OrderMessage
  reports : Fifo ExecReport
  store : OrderStore := {}
  symbols : List SymbolMapping
  reportsForUnknownOrders : Nat := 0
  reconcileState : ReconcileState := .idle
  reconcileRequestId : UInt64 := 0
  /-- Status lines collected while a reconciliation is in flight. -/
  engineView : List DivergenceEntry := []
  divergence : Divergence := {}
  nextExecId : UInt64 := 1
  /-- The execution reports handed to the session. -/
  sent : List FixMessage := []

namespace OrderRouter

def symbolId (g : OrderRouter) (name : Text) : Option UInt16 :=
  (g.symbols.find? fun s => s.name = name).map (·.id)

def symbolName (g : OrderRouter) (id : UInt16) : Text :=
  ((g.symbols.find? fun s => s.id = id).map (·.name)).getD "UNKNOWN".toList

/-! ## Requests from the client -/

def sendReject (g : OrderRouter) (m : FixMessage) (text : String) (reason : RejectReason) :
    OrderRouter :=
  { g with
    nextExecId := g.nextExecId + 1
    sent := g.sent ++ [⟨[
      (Tag.orderId, "NONE".toList),
      (Tag.clOrdId, (m.find Tag.clOrdId).getD ['0']),
      (Tag.execId, intText g.nextExecId.toInt64.toInt),
      (Tag.execType, ['8']),
      (Tag.ordStatus, ['8']),
      (Tag.symbol, (m.find Tag.symbol).getD "UNKNOWN".toList),
      (Tag.side, (m.find Tag.side).getD ['1']),
      (Tag.leavesQty, ['0']),
      (Tag.cumQty, ['0']),
      (Tag.avgPx, "0.0000".toList),
      (Tag.orderQty, intText ((m.findInt Tag.orderQty).getD 0).toInt),
      (Tag.ordRejReason, intText (ordRejReason reason)),
      (Tag.text, text.toList)]⟩] }

/-- Durable first, then the ring. -/
def sendOrder (g : OrderRouter) (m : FixMessage) (durable durable' : Bool) (r : OrderRecord) :
    OrderRouter :=
  match g.store.record durable r with
  | none => g.sendReject m "could not persist the order" .queueFull
  | some store =>
    let g := { g with store }
    match g.orders.push (.newOrder ⟨r.clientOrderId, r.price, r.quantity, r.symbolId,
        some r.side⟩) with
    | some orders => { g with orders }
    | none =>
      let dead := { r with state := .rejected, leavesQuantity := 0 }
      { g with store := (store.record durable' dead).getD store }.sendReject m
        "the risk queue was full" .queueFull

/-- `NewOrderSingle`. The second `durable` is of the record that takes the order back. -/
def onNewOrderSingle (g : OrderRouter) (m : FixMessage) (durable durable' : Bool) : OrderRouter :=
  match m.find Tag.clOrdId, m.find Tag.symbol, m.find Tag.side, m.findInt Tag.orderQty,
      m.find Tag.price with
  | some clOrdId, some sym, some side, some qty, some px =>
    match fromChars clOrdId with
    | none => g.sendReject m "ClOrdID must be a number" .unknownOrder
    | some id =>
      match g.symbolId sym, parseSide side, parsePrice px with
      | some sid, some side, some price =>
        let quantity := qty.toUInt64.toUInt32
        g.sendOrder m durable durable' ⟨id, 0, price, quantity, quantity, sid, side, .pending⟩
      | none, _, _ => g.sendReject m "unknown symbol" .unknownSymbol
      | some _, _, _ => g.sendReject m "unparseable side or price" .unknownSymbol
  | _, _, _, _, _ => g.sendReject m "missing a required field" .unknownSymbol

/-- `OrderCancelRequest`. An id that is not a number is sent on as zero. -/
def onOrderCancelRequest (g : OrderRouter) (m : FixMessage) : OrderRouter :=
  match m.find Tag.clOrdId, m.find Tag.origClOrdId, m.find Tag.symbol, m.find Tag.side with
  | some clOrdId, some orig, some sym, some side =>
    match g.symbolId sym, parseSide side with
    | some sid, some side =>
      match g.orders.push (.cancelOrder ⟨(fromChars clOrdId).getD 0, (fromChars orig).getD 0, sid,
          some side⟩) with
      | some orders => { g with orders }
      | none => g.sendReject m "the risk queue was full" .queueFull
    | _, _ => g.sendReject m "unknown symbol" .unknownSymbol
  | _, _, _, _ => g.sendReject m "missing a required field" .unknownOrder

/-- Handles one inbound application message; the answer says whether it was one of the two. -/
def onApplication (g : OrderRouter) (m : FixMessage) (durable durable' : Bool) :
    Bool × OrderRouter :=
  if m.msgType = ['D'] then (true, g.onNewOrderSingle m durable durable')
  else if m.msgType = ['F'] then (true, g.onOrderCancelRequest m)
  else (false, g)

/-! ## Reports from the engine -/

/-- The execution report for a report of the engine. -/
def execReport (g : OrderRouter) (d : ExecReport) : FixMessage :=
  let isFill := d.execType = .fill ∨ d.execType = .partialFill
  let original := ((g.store.find d.clientOrderId).map (·.quantity)).getD d.quantity
  let cum := if d.leavesQuantity ≤ original then original - d.leavesQuantity else 0
  ⟨[(Tag.orderId, intText d.exchangeOrderId.toInt64.toInt),
      (Tag.clOrdId, intText d.clientOrderId.toInt64.toInt),
      (Tag.execId, intText g.nextExecId.toInt64.toInt),
      (Tag.execType, [execTypeChar d.execType]),
      (Tag.ordStatus, [ordStatus d.execType d.leavesQuantity]),
      (Tag.symbol, g.symbolName d.symbolId),
      (Tag.side, [fixSide d.side]),
      (Tag.leavesQty, intText d.leavesQuantity.toNat),
      (Tag.cumQty, intText cum.toNat),
      (Tag.avgPx, if 0 < cum then formatPrice d.price else "0.0000".toList)] ++
    (if isFill then
      [(Tag.lastPx, formatPrice d.price), (Tag.lastQty, intText d.quantity.toNat)] else []) ++
    (if d.execType = .rejected ∧ d.rejectReason ≠ .notRejected then
      [(Tag.ordRejReason, intText (ordRejReason d.rejectReason)),
        (Tag.text, (reasonText d.rejectReason).toList)] else [])⟩

/-- Hands the session the execution report. -/
def sendExecReport (g : OrderRouter) (d : ExecReport) : OrderRouter :=
  { g with
    nextExecId := g.nextExecId + 1
    sent := g.sent ++ [g.execReport d] }

/-- Where a report leaves the order it is about. -/
def nextRecord (r : OrderRecord) (d : ExecReport) : OrderRecord :=
  let next := { r with
    exchangeOrderId := if d.exchangeOrderId ≠ 0 then d.exchangeOrderId else r.exchangeOrderId
    leavesQuantity := d.leavesQuantity }
  match d.execType with
  | .acknowledged | .partialFill => { next with state := .live }
  | .fill => { next with state := if d.leavesQuantity = 0 then .filled else .live }
  | .canceled => { next with state := .canceled, leavesQuantity := 0 }
  | .rejected => { next with state := .rejected, leavesQuantity := 0 }
  | .orderStatus | .statusComplete => next

/-- A real event is recorded for the live order of that id, if there is one. -/
def recordReport (g : OrderRouter) (durable : Bool) (d : ExecReport) : OrderRouter :=
  match g.store.find d.clientOrderId with
  | none => { g with reportsForUnknownOrders := g.reportsForUnknownOrders + 1 }
  | some r => { g with store := (g.store.record durable (nextRecord r d)).getD g.store }

/-- The first line of the engine's answer that names this order and is not taken yet, with what
is left of the answer. -/
def takeMatch (exchangeOrderId : UInt64) :
    List (DivergenceEntry × Bool) → Option (DivergenceEntry × List (DivergenceEntry × Bool))
  | [] => none
  | (e, matched) :: view =>
    if !matched && e.exchangeOrderId = exchangeOrderId then some (e, (e, true) :: view)
    else (takeMatch exchangeOrderId view).map fun (hit, view) => (hit, (e, matched) :: view)

/-- Every order of the log against the engine's answer. -/
def compare : List OrderRecord → List (DivergenceEntry × Bool) →
    List DivergenceEntry × List (DivergenceEntry × Bool)
  | [], view => ([], view)
  | mine :: rest, view =>
    let e : DivergenceEntry := ⟨.agree, mine.clientOrderId, mine.exchangeOrderId,
      mine.leavesQuantity, 0, mine.symbolId⟩
    match if mine.exchangeOrderId ≠ 0 then takeMatch mine.exchangeOrderId view else none with
    | none =>
      let (entries, view) := compare rest view
      ({ e with kind := .gatewayOnly } :: entries, view)
    | some (hit, view) =>
      let (entries, view) := compare rest view
      ({ e with
          engineLeaves := hit.engineLeaves
          kind := if hit.engineLeaves = e.gatewayLeaves then .agree else .leavesDiffer } :: entries,
        view)

def finishReconciliation (g : OrderRouter) : OrderRouter :=
  let (entries, view) := compare g.store.live (g.engineView.map fun e => (e, false))
  let engineOnly := (view.filter fun e => !e.2).map fun e => { e.1 with kind := .engineOnly }
  { g with
    reconcileState := .done
    divergence := { g.divergence with
      complete := true
      entries := g.divergence.entries ++ entries ++ engineOnly } }

/-- What the loop of `pump` does with one report. -/
def onReport (g : OrderRouter) (durable : Bool) (d : ExecReport) : OrderRouter :=
  match d.execType with
  | .orderStatus =>
    if g.reconcileState = .awaiting then
      { g with engineView := g.engineView ++
        [{ exchangeOrderId := d.exchangeOrderId
           engineLeaves := d.leavesQuantity
           symbolId := d.symbolId }] }
    else g
  | .statusComplete =>
    if g.reconcileState = .awaiting ∧ d.clientOrderId = g.reconcileRequestId then
      { g with divergence := { g.divergence with engineNamed := d.quantity } }.finishReconciliation
    else g
  | _ => (g.recordReport durable d).sendExecReport d

/-- One turn of `pump`: the oldest report, if there is one. -/
def pump (g : OrderRouter) (durable : Bool) : OrderRouter :=
  match g.reports.pop with
  | none => g
  | some (d, reports) => { g with reports }.onReport durable d

/-- Asks the engine what it is holding. -/
def requestReconciliation (g : OrderRouter) : Bool × OrderRouter :=
  let g := { g with reconcileRequestId := g.reconcileRequestId + 1 }
  match g.orders.push (.reconcileRequest g.reconcileRequestId) with
  | none => (false, g)
  | some orders =>
    (true, { g with
      orders
      engineView := []
      divergence := { gatewayHad := g.store.live.length }
      reconcileState := .awaiting })

/-! ## What gets to the ring -/

/-- What one message of the client is sent on as. -/
inductive SentOn (m : FixMessage) : List OrderMessage → Prop where
  | nothing : SentOn m []
  | order (o : NewOrder) : SentOn m [.newOrder o]
  | cancel {clOrdId orig : Text} (c : CancelOrder) (htype : m.msgType = ['F'])
      (hid : m.find Tag.clOrdId = some clOrdId) (horig : m.find Tag.origClOrdId = some orig)
      (hc : c.clientOrderId = (fromChars clOrdId).getD 0)
      (hc' : c.origClientOrderId = (fromChars orig).getD 0) : SentOn m [.cancelOrder c]

theorem sendOrder_sentOn (g : OrderRouter) (m : FixMessage) (durable durable' : Bool)
    (r : OrderRecord) :
    ∃ ms, SentOn m ms ∧
      (g.sendOrder m durable durable' r).orders.items = g.orders.items ++ ms := by
  have hnothing : ∃ ms, SentOn m ms ∧ g.orders.items = g.orders.items ++ ms :=
    ⟨[], .nothing, (List.append_nil _).symm⟩
  unfold sendOrder
  split
  · exact hnothing
  dsimp only
  split
  · rename_i orders hpush
    exact ⟨_, .order _, congrArg Fifo.items (Fifo.push_some hpush)⟩
  · exact hnothing

theorem onNewOrderSingle_sentOn (g : OrderRouter) (m : FixMessage) (durable durable' : Bool) :
    ∃ ms, SentOn m ms ∧
      (g.onNewOrderSingle m durable durable').orders.items = g.orders.items ++ ms := by
  have hnothing : ∃ ms, SentOn m ms ∧ g.orders.items = g.orders.items ++ ms :=
    ⟨[], .nothing, (List.append_nil _).symm⟩
  unfold onNewOrderSingle
  split
  · split
    · exact hnothing
    · split
      · exact sendOrder_sentOn ..
      · exact hnothing
      · exact hnothing
  · exact hnothing

theorem onOrderCancelRequest_sentOn (g : OrderRouter) {m : FixMessage} (htype : m.msgType = ['F']) :
    ∃ ms, SentOn m ms ∧ (g.onOrderCancelRequest m).orders.items = g.orders.items ++ ms := by
  have hnothing : ∃ ms, SentOn m ms ∧ g.orders.items = g.orders.items ++ ms :=
    ⟨[], .nothing, (List.append_nil _).symm⟩
  unfold onOrderCancelRequest
  split
  · rename_i hid horig _ _
    split
    · split
      · rename_i orders hpush
        exact ⟨_, .cancel _ htype hid horig rfl rfl, congrArg Fifo.items (Fifo.push_some hpush)⟩
      · exact hnothing
    · exact hnothing
  · exact hnothing

theorem onApplication_sentOn (g : OrderRouter) (m : FixMessage) (durable durable' : Bool) :
    ∃ ms, SentOn m ms ∧
      (g.onApplication m durable durable').2.orders.items = g.orders.items ++ ms := by
  unfold onApplication
  split
  · exact onNewOrderSingle_sentOn g m durable durable'
  · split
    · rename_i htype
      exact onOrderCancelRequest_sentOn g htype
    · exact ⟨[], .nothing, (List.append_nil _).symm⟩

theorem requestReconciliation_sentOn (g : OrderRouter) :
    ∃ ms, (ms = [] ∨ ∃ id, ms = [.reconcileRequest id]) ∧
      g.requestReconciliation.2.orders.items = g.orders.items ++ ms := by
  unfold requestReconciliation
  dsimp only
  split
  · exact ⟨[], .inl rfl, (List.append_nil _).symm⟩
  · rename_i orders hpush
    exact ⟨_, .inr ⟨_, rfl⟩, congrArg Fifo.items (Fifo.push_some hpush)⟩

theorem orders_pump (g : OrderRouter) (durable : Bool) : (g.pump durable).orders = g.orders := by
  unfold pump
  split
  · rfl
  rename_i d reports _
  unfold onReport
  split
  · split <;> rfl
  · split <;> rfl
  · show (recordReport _ durable d).orders = _
    unfold recordReport
    split <;> rfl

/-! ## The log is what is in memory -/

variable {g : OrderRouter}

theorem logged_sendOrder (h : g.store.Logged) (m : FixMessage) (durable durable' : Bool)
    (r : OrderRecord) : (g.sendOrder m durable durable' r).store.Logged := by
  unfold sendOrder
  split
  · exact h
  rename_i store hstore
  have h' := h.record hstore
  dsimp only
  split
  · exact h'
  · exact h'.getD_record durable' _

theorem logged_onApplication (h : g.store.Logged) (m : FixMessage) (durable durable' : Bool) :
    (g.onApplication m durable durable').2.store.Logged := by
  unfold onApplication
  split
  · unfold onNewOrderSingle
    split
    · split
      · exact h
      · split
        · exact logged_sendOrder h ..
        · exact h
        · exact h
    · exact h
  split
  · unfold onOrderCancelRequest
    split
    · split
      · split
        · exact h
        · exact h
      · exact h
    · exact h
  · exact h

theorem logged_pump (h : g.store.Logged) (durable : Bool) : (g.pump durable).store.Logged := by
  unfold pump
  split
  · exact h
  rename_i d reports _
  unfold onReport
  split
  · split <;> exact h
  · split <;> exact h
  · show (recordReport _ durable d).store.Logged
    unfold recordReport
    split
    · exact h
    · exact h.getD_record durable _

theorem logged_requestReconciliation (h : g.store.Logged) :
    g.requestReconciliation.2.store.Logged := by
  unfold requestReconciliation
  dsimp only
  split <;> exact h

end OrderRouter

end MarketData.Gateway
