import MarketData.Risk.Service
import MarketData.Wire.OrderCodec

/-!
# `Risk/OrderSide.lean` — the order side of the risk service, byte by byte

`handle_order_side` of `cpp/risk/src/service_main.cpp` over the bytes of a ring. A message is
decoded here by the C++ decoders and forwarded verbatim, so what goes on to the engine is whatever
came in, and the engine reads it with decoders of its own.

`Service` is the same loop over messages that have been read already (`handle_service`).

## Why twice

Nearly everything about the service is about orders and reports, and is said of `Service`, where a
ring carries messages. One question is not: whether the engine can read what the service counted.
For that the bytes have to be there, of which the service looks at some and forwards all.
`handle_service` says that the two loops are one, so that what is known of the limits carries over,
and `Forwards` is the case of interest, a message that was taken for an order and sent on.

What cannot be decoded is passed over without a report, here as in the source; nobody knows whose it
would have been.
-/

set_option autoImplicit false

namespace MarketData.Risk

open MarketData.Wire

structure OrderSide where
  engine : RiskEngine
  /-- To the engine. -/
  accepted : Fifo Buf
  /-- To the gateway. -/
  reports : Fifo ExecReport

namespace OrderSide

def emit (s : OrderSide) (r : ExecReport) : OrderSide :=
  { s with reports := (s.reports.push r).getD s.reports }

def onNewOrder (s : OrderSide) (b : Buf) (m : NewOrder) : OrderSide :=
  let side := m.side.getD .bid
  let (decision, engine) := s.engine.onNewOrder m.clientOrderId m.symbolId side m.price m.quantity
  let s := { s with engine }
  if decision.accepted then
    match s.accepted.push b with
    | some accepted => { s with accepted }
    | none =>
      { s with engine := s.engine.onExecReport m.clientOrderId 0 .rejected 0 0 0 }.emit
        ⟨m.clientOrderId, 0, 0, m.price, m.quantity, 0, m.symbolId, side, .rejected, .queueFull⟩
  else
    s.emit ⟨m.clientOrderId, 0, 0, m.price, m.quantity, 0, m.symbolId, side, .rejected,
      decision.reason⟩

def onCancel (s : OrderSide) (b : Buf) (m : CancelOrder) : OrderSide :=
  let side := m.side.getD .bid
  let (decision, engine) := s.engine.onCancel m.clientOrderId m.origClientOrderId
  let s := { s with engine }
  let refuse reason := s.emit ⟨m.clientOrderId, m.origClientOrderId, 0, 0, 0, 0, m.symbolId, side,
    .rejected, reason⟩
  if decision.accepted then
    match s.accepted.push b with
    | some accepted => { s with accepted }
    | none => refuse .queueFull
  else refuse decision.reason

/-- `handle_order_side`, for the bytes of one message. A request for reconciliation is passed on
by its template alone. -/
def handle (s : OrderSide) (b : Buf) : OrderSide :=
  if b.length < messageHeaderLen then s
  else if leU16 b 2 = Template.newOrder then
    match NewOrder.wrap? b with
    | none => s
    | some m => s.onNewOrder b m
  else if leU16 b 2 = Template.cancelOrder then
    match CancelOrder.wrap? b with
    | none => s
    | some m => s.onCancel b m
  else if leU16 b 2 = Template.reconcileRequest then
    { s with accepted := (s.accepted.push b).getD s.accepted }
  else s

/-! ## The messages behind the bytes -/

/-- The message that a string of bytes is taken for, by its template. -/
def messageOf (b : Buf) : OrderMessage :=
  if leU16 b 2 = Template.newOrder then .newOrder (NewOrder.read b)
  else if leU16 b 2 = Template.cancelOrder then .cancelOrder (CancelOrder.read b)
  else .reconcileRequest (leU64 b 8)

/-- Whether the service can decode it, as far as it tries to. -/
def Decodable (b : Buf) : Prop :=
  messageHeaderLen ≤ b.length ∧
    ((NewOrder.wrap? b).isSome ∨ (CancelOrder.wrap? b).isSome ∨
      leU16 b 2 = Template.reconcileRequest)

instance (b : Buf) : Decidable (Decodable b) := inferInstanceAs (Decidable (_ ∧ _))

/-- The service as `Service` has it: the ring to the engine holds messages. -/
def service (s : OrderSide) : Service := ⟨s.engine, s.accepted.map messageOf, s.reports⟩

variable {s : OrderSide} {b : Buf}

theorem wrap?_newOrder {m : NewOrder} (h : NewOrder.wrap? b = some m) :
    messageHeaderLen ≤ b.length ∧ leU16 b 2 = Template.newOrder ∧
      messageOf b = .newOrder m := by
  obtain ⟨rootLen, hroot, rfl⟩ := Option.map_eq_some_iff.mp h
  obtain ⟨hlen, htemplate, -, -⟩ := wrapRoot?_some hroot
  refine ⟨by omega, htemplate, ?_⟩
  rw [messageOf, if_pos htemplate]

theorem wrap?_cancelOrder {m : CancelOrder} (h : CancelOrder.wrap? b = some m) :
    messageHeaderLen ≤ b.length ∧ leU16 b 2 = Template.cancelOrder ∧
      messageOf b = .cancelOrder m := by
  obtain ⟨rootLen, hroot, rfl⟩ := Option.map_eq_some_iff.mp h
  obtain ⟨hlen, htemplate, -, -⟩ := wrapRoot?_some hroot
  refine ⟨by omega, htemplate, ?_⟩
  rw [messageOf, htemplate, if_neg (by decide), if_pos rfl]

theorem onNewOrder_service {m : NewOrder} (hm : messageOf b = .newOrder m) :
    (s.onNewOrder b m).service = s.service.onNewOrder m := by
  have hpush : (s.accepted.map messageOf).push (.newOrder m) =
      (s.accepted.push b).map (Fifo.map messageOf) := by
    rw [← hm]
    exact Fifo.push_map messageOf s.accepted b
  unfold onNewOrder Service.onNewOrder
  dsimp only [service]
  rw [hpush]
  generalize s.engine.onNewOrder m.clientOrderId m.symbolId (m.side.getD .bid) m.price m.quantity =
    answer
  obtain ⟨⟨accepted, reason⟩, engine⟩ := answer
  cases accepted with
  | false => rfl
  | true => cases s.accepted.push b <;> rfl

theorem onCancel_service {m : CancelOrder} (hm : messageOf b = .cancelOrder m) :
    (s.onCancel b m).service = s.service.onCancel m := by
  have hpush : (s.accepted.map messageOf).push (.cancelOrder m) =
      (s.accepted.push b).map (Fifo.map messageOf) := by
    rw [← hm]
    exact Fifo.push_map messageOf s.accepted b
  unfold onCancel Service.onCancel
  dsimp only [service]
  rw [hpush]
  generalize s.engine.onCancel m.clientOrderId m.origClientOrderId = answer
  obtain ⟨⟨accepted, reason⟩, engine⟩ := answer
  cases accepted with
  | false => rfl
  | true => cases s.accepted.push b <;> rfl

/-- **The loop over bytes is the loop over messages**: what cannot be decoded is passed over, and
anything else is handled as the message it is taken for. -/
theorem handle_service (s : OrderSide) (b : Buf) :
    (s.handle b).service =
      if Decodable b then s.service.handleOrder (messageOf b) else s.service := by
  unfold handle
  by_cases hshort : b.length < messageHeaderLen
  · rw [if_pos hshort, if_neg fun h => absurd h.1 (Nat.not_le_of_lt hshort)]
  rw [if_neg hshort]
  have hheader := Nat.le_of_not_lt hshort
  by_cases hnew : leU16 b 2 = Template.newOrder
  · rw [if_pos hnew]
    cases hwrap : NewOrder.wrap? b with
    | none =>
      rw [if_neg]
      rintro ⟨-, h | h | h⟩
      · rw [hwrap] at h
        cases h
      · obtain ⟨m, hm⟩ := Option.isSome_iff_exists.mp h
        rw [(wrap?_cancelOrder hm).2.1] at hnew
        exact absurd hnew (by decide)
      · rw [h] at hnew
        exact absurd hnew (by decide)
    | some m =>
      have hm := (wrap?_newOrder hwrap).2.2
      rw [if_pos ⟨hheader, .inl (Option.isSome_of_eq_some hwrap)⟩, hm]
      exact onNewOrder_service hm
  rw [if_neg hnew]
  have hnone : ¬(NewOrder.wrap? b).isSome := by
    intro h
    obtain ⟨m, hm⟩ := Option.isSome_iff_exists.mp h
    exact hnew (wrap?_newOrder hm).2.1
  by_cases hcancel : leU16 b 2 = Template.cancelOrder
  · rw [if_pos hcancel]
    cases hwrap : CancelOrder.wrap? b with
    | none =>
      rw [if_neg]
      rintro ⟨-, h | h | h⟩
      · exact hnone h
      · rw [hwrap] at h
        cases h
      · rw [h] at hcancel
        exact absurd hcancel (by decide)
    | some m =>
      have hm := (wrap?_cancelOrder hwrap).2.2
      rw [if_pos ⟨hheader, .inr (.inl (Option.isSome_of_eq_some hwrap))⟩, hm]
      exact onCancel_service hm
  rw [if_neg hcancel]
  by_cases hreconcile : leU16 b 2 = Template.reconcileRequest
  · have hm : messageOf b = .reconcileRequest (leU64 b 8) := by
      rw [messageOf, if_neg hnew, if_neg hcancel]
    have hpush : (s.accepted.map messageOf).push (.reconcileRequest (leU64 b 8)) =
        (s.accepted.push b).map (Fifo.map messageOf) := by
      rw [← hm]
      exact Fifo.push_map messageOf s.accepted b
    rw [if_pos hreconcile, if_pos ⟨hheader, .inr (.inr hreconcile)⟩, hm, Service.handleOrder]
    simp only [service]
    rw [hpush]
    cases s.accepted.push b <;> rfl
  · rw [if_neg hreconcile, if_neg]
    rintro ⟨-, h | h | h⟩
    · exact hnone h
    · obtain ⟨m, hm⟩ := Option.isSome_iff_exists.mp h
      exact hcancel (wrap?_cancelOrder hm).2.1
    · exact hreconcile h

/-! ## Accepted and forwarded -/

/-- An order that passes the limits is for something. -/
theorem quantity_ne_zero {e : RiskEngine} {clientOrderId : UInt64} {symbolId : UInt16} {side : Side}
    {price : Int64} {quantity : UInt32}
    (h : e.refusal clientOrderId symbolId side price quantity = none) : quantity ≠ 0 := by
  intro hzero
  unfold RiskEngine.refusal at h
  dsimp only at h
  generalize (if price < 0 then -price else price) = px at h
  split_ifs at h

/-- The message is a NewOrder by its header, and has gone on to the engine. -/
def Forwards (s : OrderSide) (b : Buf) : Prop :=
  leU16 b 2 = Template.newOrder ∧ (s.handle b).accepted.items = s.accepted.items ++ [b]

instance (s : OrderSide) (b : Buf) : Decidable (s.Forwards b) :=
  inferInstanceAs (Decidable (_ ∧ _))

theorem onNewOrder_refused {m : NewOrder} {reason : RejectReason}
    (h : s.engine.refusal m.clientOrderId m.symbolId (m.side.getD .bid) m.price m.quantity =
      some reason) : (s.onNewOrder b m).accepted = s.accepted := by
  unfold onNewOrder RiskEngine.onNewOrder
  dsimp only
  rw [h]
  rfl

theorem onNewOrder_full {m : NewOrder}
    (h : s.engine.refusal m.clientOrderId m.symbolId (m.side.getD .bid) m.price m.quantity = none)
    (hpush : s.accepted.push b = none) : (s.onNewOrder b m).accepted = s.accepted := by
  unfold onNewOrder RiskEngine.onNewOrder
  dsimp only
  rw [h, hpush]
  simp [Decision.accept, emit]

theorem onNewOrder_forwarded {m : NewOrder} {accepted : Fifo Buf}
    (h : s.engine.refusal m.clientOrderId m.symbolId (m.side.getD .bid) m.price m.quantity = none)
    (hpush : s.accepted.push b = some accepted) :
    (s.onNewOrder b m).engine.live = s.engine.live + 1 := by
  unfold onNewOrder RiskEngine.onNewOrder
  dsimp only
  rw [h, hpush]
  simp [Decision.accept, RiskEngine.record]

/-- **An order that is forwarded** was decoded, passed every limit, and is counted as live. -/
theorem Forwards.spec (h : s.Forwards b) :
    ∃ m, NewOrder.wrap? b = some m ∧
      s.engine.refusal m.clientOrderId m.symbolId (m.side.getD .bid) m.price m.quantity = none ∧
      (s.handle b).engine.live = s.engine.live + 1 := by
  obtain ⟨hnew, hitems⟩ := h
  have hkept : (s.handle b).accepted ≠ s.accepted := by
    intro hsame
    rw [hsame] at hitems
    simp at hitems
  have hhandle : s.handle b = match NewOrder.wrap? b with
      | none => s
      | some m => s.onNewOrder b m := by
    unfold handle
    rw [if_neg, if_pos hnew]
    intro hshort
    exact hkept (by rw [handle, if_pos hshort])
  rw [hhandle] at hkept ⊢
  cases hwrap : NewOrder.wrap? b with
  | none =>
    rw [hwrap] at hkept
    exact absurd rfl hkept
  | some m =>
    rw [hwrap] at hkept
    refine ⟨m, rfl, ?_⟩
    cases hrefusal : s.engine.refusal m.clientOrderId m.symbolId (m.side.getD .bid) m.price
        m.quantity with
    | some reason => exact absurd (onNewOrder_refused hrefusal) hkept
    | none =>
      cases hpush : s.accepted.push b with
      | none => exact absurd (onNewOrder_full hrefusal hpush) hkept
      | some accepted => exact ⟨rfl, onNewOrder_forwarded hrefusal hpush⟩

end OrderSide

end MarketData.Risk
