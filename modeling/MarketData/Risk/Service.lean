import MarketData.Lib.Fifo
import MarketData.Risk.Limits

/-!
# `Risk/Service.lean` — the risk service between its four rings

`cpp/risk/src/service_main.cpp`: what the two drain loops do with one message. A message that may
proceed is forwarded as it is; one that may not is answered here. The service's counters are left
out, so a report that finds the ring to the gateway full simply does not get there.

Each of the two directions is one function of one message. Which of the loops runs when, and how
many messages it takes at a time, is left to whoever composes the processes (`Trading/System.lean`);
the service's own loop alternates, and every order in which messages are taken singly covers it.

Of the four rings the service holds the two it writes to. What it reads is an argument, so a message
is gone from its ring whether or not it gets anywhere. That matters in one case: an order that was
recorded and finds the ring to the engine full is taken back (`Risk/Rollback.lean`) and answered
with a rejection, and a report that is passed on is applied first, since the gateway must not learn
of an end the service has not noted.
-/

set_option autoImplicit false

namespace MarketData.Risk

open MarketData.Wire

/-- What the service holds: the limits, and the producing ends of two rings. -/
structure Service where
  engine : RiskEngine
  /-- To the engine. -/
  accepted : Fifo OrderMessage
  /-- To the gateway. -/
  reports : Fifo ExecReport

namespace Service

def emit (s : Service) (r : ExecReport) : Service :=
  { s with reports := (s.reports.push r).getD s.reports }

def onNewOrder (s : Service) (m : NewOrder) : Service :=
  let side := m.side.getD .bid
  let (decision, engine) := s.engine.onNewOrder m.clientOrderId m.symbolId side m.price m.quantity
  let s := { s with engine }
  if decision.accepted then
    match s.accepted.push (.newOrder m) with
    | some accepted => { s with accepted }
    | none =>
      -- Recorded as live by the check above, so it has to be taken back off.
      { s with engine := s.engine.onExecReport m.clientOrderId 0 .rejected 0 0 0 }.emit
        ⟨m.clientOrderId, 0, 0, m.price, m.quantity, 0, m.symbolId, side, .rejected, .queueFull⟩
  else
    s.emit ⟨m.clientOrderId, 0, 0, m.price, m.quantity, 0, m.symbolId, side, .rejected,
      decision.reason⟩

def onCancel (s : Service) (m : CancelOrder) : Service :=
  let side := m.side.getD .bid
  let (decision, engine) := s.engine.onCancel m.clientOrderId m.origClientOrderId
  let s := { s with engine }
  let refuse reason := s.emit ⟨m.clientOrderId, m.origClientOrderId, 0, 0, 0, 0, m.symbolId, side,
    .rejected, reason⟩
  if decision.accepted then
    match s.accepted.push (.cancelOrder m) with
    | some accepted => { s with accepted }
    | none => refuse .queueFull
  else refuse decision.reason

/-- `handle_order_side`, for one message. -/
def handleOrder (s : Service) : OrderMessage → Service
  | .newOrder m => s.onNewOrder m
  | .cancelOrder m => s.onCancel m
  | .reconcileRequest requestId =>
    { s with accepted := (s.accepted.push (.reconcileRequest requestId)).getD s.accepted }

/-- `handle_report_side`, for one report. The lines of a reconciliation are not events here. -/
def handleReport (s : Service) (d : ExecReport) : Service :=
  let s := if d.execType = .orderStatus ∨ d.execType = .statusComplete then s
    else { s with
      engine := s.engine.onExecReport d.clientOrderId d.exchangeOrderId d.execType d.price
        d.quantity d.leavesQuantity }
  s.emit d

end Service

end MarketData.Risk
