import MarketData.Wire.Message

/-!
# `Wire/OrderPath.lean` — the messages of the order path

The `scope="orderPath"` messages of `schema/market-data.xml`, as their decoders read them. They
travel over rings between the gateway, the risk service and the engine. The side of a request is
what the decoder makes of its byte, which may be no side at all; a report is only ever written by
the risk service and the engine, with valid enumerations.

The three programs exchange these as values here, over queues (`Lib/Fifo.lean`); the bytes they are
on a ring are `Wire/OrderCodec.lean`, and matter where a message is passed on by one program as it
came and read by two others. A report's `leavesQuantity` and `tradeId` are there for every kind of
report and mean something for some; what is put into them otherwise is up to the sender, and is
modelled with it.
-/

set_option autoImplicit false

namespace MarketData.Wire

/-- What a report says happened. The last two are the forms of a reconciliation. -/
inductive ExecType where
  | acknowledged
  | partialFill
  | fill
  | canceled
  | rejected
  | orderStatus
  | statusComplete
  deriving DecidableEq, Repr

/-- Why an order was refused. -/
inductive RejectReason where
  | notRejected
  | unknownSymbol
  | maxOrderQuantity
  | maxNotional
  | priceCollar
  | openOrderLimit
  | positionLimit
  | duplicateClientOrderId
  | unknownOrder
  | queueFull
  | invalidQuantity
  deriving DecidableEq, Repr

/-- A client order entering the system. -/
structure NewOrder where
  clientOrderId : UInt64
  price : Int64
  quantity : UInt32
  symbolId : UInt16
  side : Option Side
  deriving DecidableEq, Repr

/-- Cancel a live order. -/
structure CancelOrder where
  /-- Identifies this cancel request, not the order. -/
  clientOrderId : UInt64
  /-- The order to cancel. -/
  origClientOrderId : UInt64
  symbolId : UInt16
  side : Option Side
  deriving DecidableEq, Repr

/-- What the two rings toward the engine carry. -/
inductive OrderMessage where
  | newOrder (m : NewOrder)
  | cancelOrder (m : CancelOrder)
  /-- Asks for a status line for every order this gateway owns. -/
  | reconcileRequest (requestId : UInt64)
  deriving DecidableEq, Repr

/-- What happened to an order. -/
structure ExecReport where
  clientOrderId : UInt64
  /-- The engine's order id; zero when the order never reached it. -/
  exchangeOrderId : UInt64
  /-- Zero unless this report is a fill. -/
  tradeId : UInt64
  price : Int64
  quantity : UInt32
  /-- Still live on the book after this event. -/
  leavesQuantity : UInt32
  symbolId : UInt16
  side : Side
  execType : ExecType
  rejectReason : RejectReason
  deriving DecidableEq, Repr

end MarketData.Wire
