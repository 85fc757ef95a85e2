import MarketData.Gateway.OrderRouter
import MarketData.Matching.OrderPath
import MarketData.Matching.Reproduction
import MarketData.Risk.Service

/-!
# `Trading/System.lean` — gateway, risk service and engine

The three processes and the four rings between them: `router.orders` from the gateway to the risk
service, `path.orders` from there to the engine, `path.reports` back from the engine and
`router.reports` back to the gateway. Every process takes one message at a time, and any process
may be the next to. The engine's own loop is its two parts: `catchUp`, at the top of a pass, and
`take`, for each message of it; between passes the flow generator trades on the same engine. An
engine whose feed fails stops, and the run with it.

## Interleavings as lists of steps

The processes share nothing but the rings, and a ring is a bounded queue (`Lib/Fifo.lean`), so what
can happen among them is any order of steps that each takes or puts a message. `run` is a fold over
such a list. A step that finds its ring empty leaves everything as it is, so **no schedule is
excluded by not fitting**, and a statement about all lists is one about all schedules.

The client is the message of a `request` step, and whatever it sends is parsed already. The answers
of the gateway's disk come with the request, one for each record it may write. Whether a report
finds room on its way is decided by the rings, and what happens if it does not is in the process
that sends it.

Processes that are killed and started again are not steps here; what the gateway finds on its disk
afterwards is `Gateway/OrderLog.lean`.
-/

set_option autoImplicit false

namespace MarketData.Trading

open MarketData.Wire MarketData.Gateway MarketData.Risk MarketData.Matching

structure System where
  router : OrderRouter
  risk : RiskEngine
  path : OrderPath
  exchange : Exchange

/-- What a process does next. -/
inductive Step where
  /-- The client's message reaches the router. -/
  | request (m : FixMessage) (durable durable' : Bool)
  | reconcile
  | riskOrder
  | riskReport
  | catchUp
  | take
  | flow (c : Matching.Call)
  | report (durable : Bool)

namespace System

/-- The risk service at its two outgoing rings. -/
def service (s : System) : Service := ⟨s.risk, s.path.orders, s.router.reports⟩

def putService (s : System) (v : Service) : System :=
  { s with
    risk := v.engine
    path := { s.path with orders := v.accepted }
    router := { s.router with reports := v.reports } }

def riskOrder (s : System) : System :=
  match s.router.orders.pop with
  | none => s
  | some (m, orders) =>
    { s with router := { s.router with orders } }.putService (s.service.handleOrder m)

def riskReport (s : System) : System :=
  match s.path.reports.pop with
  | none => s
  | some (d, reports) =>
    { s with path := { s.path with reports } }.putService (s.service.handleReport d)

variable (env : Env)

def take (s : System) : Except IoError System :=
  match s.path.orders.pop with
  | none => .ok s
  | some (m, orders) => do
    let (path, exchange) ← { s.path with orders }.dispatch env s.exchange m
    .ok { s with path, exchange }

def step (s : System) : Step → Except IoError System
  | .request m durable durable' =>
    .ok { s with router := (s.router.onApplication m durable durable').2 }
  | .reconcile => .ok { s with router := s.router.requestReconciliation.2 }
  | .riskOrder => .ok s.riskOrder
  | .riskReport => .ok s.riskReport
  | .catchUp =>
    let (path, exchange) := s.path.catchUp s.exchange
    .ok { s with path, exchange }
  | .take => s.take env
  | .flow c => do
    let exchange ← s.exchange.call env c
    .ok { s with exchange }
  | .report durable => .ok { s with router := s.router.pump durable }

def run (s : System) : List Step → Except IoError System
  | [] => .ok s
  | t :: ts => do
    let s ← s.step env t
    s.run ts

/-- The three processes as they start, with rings of the given capacity. -/
def new (symbols : List SymbolMapping) (cfg : RiskConfig) (exchange : Exchange)
    (capacity : Nat) : System where
  router := { orders := ⟨capacity, []⟩, reports := ⟨capacity, []⟩, symbols }
  risk := RiskEngine.new cfg
  path := { orders := ⟨capacity, []⟩, reports := ⟨capacity, []⟩ }
  exchange := exchange

end System

end MarketData.Trading
