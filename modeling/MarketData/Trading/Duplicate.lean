import MarketData.Gateway.OrderRouter
import MarketData.Risk.Service

/-!
# `Trading/Duplicate.lean` — an order under an id that is taken

The gateway records an order before the risk service has judged it, and its log goes by the
client's id. A `NewOrderSingle` under the id of an order `x` that is at work is therefore written
over `x`, and the rejection it gets, from the risk service or for want of room in the ring, ends
what is then on record under that id (`undisturbed_iff`).

## The life of a duplicate

`Settled` is a message from its arrival to the last thing that becomes of it, over two processes: it
is rejected by the router, or sent on, refused as a duplicate, and its report is taken. Each of the
up to three records on the way may or may not reach the disk, and **a record that does not can save
`x`**. `written` is what one record does to the order of that id, and the whole life is two of them;
the equivalence is then about which of the two are written.

`Undisturbed` is asked of the memory and of the log at once, since a gateway that comes up again
knows only the second. What the client is told in the meantime, and what the engine still has on its
book, are not part of it: there `x` is unharmed throughout, and that is the point.
-/

set_option autoImplicit false

namespace MarketData.Trading

open MarketData.Wire MarketData.Gateway MarketData.Risk

/-- `y` is `x` as far as the engine and the client are concerned. -/
def Same (x y : OrderRecord) : Prop :=
  y.clientOrderId = x.clientOrderId ∧ y.exchangeOrderId = x.exchangeOrderId ∧ y.price = x.price ∧
    y.quantity = x.quantity ∧ y.leavesQuantity = x.leavesQuantity

instance (x y : OrderRecord) : Decidable (Same x y) :=
  inferInstanceAs (Decidable (_ ∧ _ ∧ _ ∧ _ ∧ _))

def Keeps (s : OrderStore) (x : OrderRecord) : Prop := ∃ y ∈ s.live, Same x y

/-- `x` is still there, in memory and when the log is opened again. -/
def Undisturbed (x : OrderRecord) (g : OrderRouter) : Prop :=
  Keeps g.store x ∧ Keeps (.openLog g.store.log) x

/-- The risk service refuses the order because its id is taken, and answers with `d`. -/
def RefusedDuplicate (v : Service) (o : NewOrder) (d : ExecReport) : Prop :=
  (v.engine.onNewOrder o.clientOrderId o.symbolId (o.side.getD .bid) o.price o.quantity).1 =
      .reject .duplicateClientOrderId ∧
    (v.handleOrder (.newOrder o)).reports.items = v.reports.items ++ [d]

/-- What becomes of a message to the router: it is answered there, or sent on, refused by the risk
service as a duplicate, and `pump` takes the report of that. -/
inductive Settled (g : OrderRouter) (m : FixMessage) (durable durable' durable'' : Bool) :
    OrderRouter → Prop where
  | answered
      (horders : (g.onApplication m durable durable').2.orders.items = g.orders.items) :
      Settled g m durable durable' durable'' (g.onApplication m durable durable').2
  | refused {o : NewOrder} {d : ExecReport} {v : Service}
      (horders : (g.onApplication m durable durable').2.orders.items =
        g.orders.items ++ [.newOrder o])
      (hv : RefusedDuplicate v o d) :
      Settled g m durable durable' durable''
        ((g.onApplication m durable durable').2.onReport durable'' d)

/-- The record a `NewOrderSingle` is put down as; there is none for one the router refuses. -/
def pendingRecord (g : OrderRouter) (m : FixMessage) : Option OrderRecord :=
  match m.find Tag.clOrdId, m.find Tag.symbol, m.find Tag.side, m.findInt Tag.orderQty,
      m.find Tag.price with
  | some clOrdId, some sym, some side, some qty, some px =>
    match fromChars clOrdId, g.symbolId sym, parseSide side, parsePrice px with
    | some id, some sid, some side, some price =>
      let quantity := qty.toUInt64.toUInt32
      some ⟨id, 0, price, quantity, quantity, sid, side, .pending⟩
    | _, _, _, _ => none
  | _, _, _, _, _ => none

/-- The write of the record that ends the order: that of the router, where the ring to the risk
service is full, and else that of the report. -/
def endDurable (g : OrderRouter) (durable' durable'' : Bool) : Bool :=
  if g.orders.items.length < g.orders.capacity then durable'' else durable'

variable {g g' : OrderRouter} {m : FixMessage} {x : OrderRecord} {durable durable' durable'' : Bool}

/-- A `NewOrderSingle` is put down and sent on, or nothing is written. -/
theorem onNewOrderSingle_cases (g : OrderRouter) (m : FixMessage) (durable durable' : Bool) :
    (∃ r, pendingRecord g m = some r ∧
      g.onNewOrderSingle m durable durable' = g.sendOrder m durable durable' r) ∨
    (pendingRecord g m = none ∧ (g.onNewOrderSingle m durable durable').store = g.store ∧
      (g.onNewOrderSingle m durable durable').orders = g.orders) := by
  unfold pendingRecord OrderRouter.onNewOrderSingle
  cases m.find Tag.clOrdId with
  | none => exact .inr ⟨rfl, rfl, rfl⟩
  | some clOrdId =>
  cases m.find Tag.symbol with
  | none => exact .inr ⟨rfl, rfl, rfl⟩
  | some sym =>
  cases m.find Tag.side with
  | none => exact .inr ⟨rfl, rfl, rfl⟩
  | some side =>
  cases m.findInt Tag.orderQty with
  | none => exact .inr ⟨rfl, rfl, rfl⟩
  | some qty =>
  cases m.find Tag.price with
  | none => exact .inr ⟨rfl, rfl, rfl⟩
  | some px =>
  dsimp only
  cases fromChars clOrdId with
  | none => exact .inr ⟨rfl, rfl, rfl⟩
  | some id =>
  cases g.symbolId sym with
  | none => exact .inr ⟨rfl, rfl, rfl⟩
  | some sid =>
  cases parseSide side with
  | none => exact .inr ⟨rfl, rfl, rfl⟩
  | some side =>
  cases parsePrice px with
  | none => exact .inr ⟨rfl, rfl, rfl⟩
  | some price => exact .inl ⟨_, rfl, rfl⟩

/-- The record goes by the id of the message, and is one of an order at work. -/
theorem pendingRecord_some {r : OrderRecord} (h : pendingRecord g m = some r) :
    (m.find Tag.clOrdId).bind fromChars = some r.clientOrderId ∧ r.isTerminal = false := by
  unfold pendingRecord at h
  split at h
  · rename_i hc _ _ _ _
    split at h
    · rename_i hid _ _ _
      cases h
      exact ⟨by rw [hc, Option.bind_some, hid], rfl⟩
    · cases h
  · cases h

/-- The report of a refusal goes by the id of the order, and has no other to tell. -/
theorem RefusedDuplicate.report {v : Service} {o : NewOrder} {d : ExecReport}
    (h : RefusedDuplicate v o d) : d.clientOrderId = o.clientOrderId ∧ d.execType = .rejected := by
  obtain ⟨hdecision, hitems⟩ := h
  have hrefuse : v.handleOrder (.newOrder o) = ({ v with
      engine := (v.engine.onNewOrder o.clientOrderId o.symbolId (o.side.getD .bid) o.price
        o.quantity).2 } : Service).emit ⟨o.clientOrderId, 0, 0, o.price, o.quantity, 0, o.symbolId,
          o.side.getD .bid, .rejected, .duplicateClientOrderId⟩ := by
    show v.onNewOrder o = _
    unfold Service.onNewOrder
    dsimp only
    rw [hdecision]
    rfl
  rw [hrefuse] at hitems
  rw [← Fifo.eq_of_push hitems]
  exact ⟨rfl, rfl⟩

/-! ## What one record does to an order -/

/-- A record of the id of `x` leaves `x` only if it says the same. -/
theorem keeps_apply {s : OrderStore} (h : s.Logged) {r : OrderRecord}
    (hid : r.clientOrderId = x.clientOrderId) :
    Keeps (s.apply r) x ↔ r.isTerminal = false ∧ Same x r := by
  constructor
  · rintro ⟨y, hy, hsame⟩
    obtain ⟨hterm, rfl⟩ := (OrderStore.mem_apply_iff h.working (hsame.1.trans hid.symm)).mp hy
    exact ⟨hterm, hsame⟩
  · rintro ⟨hterm, hsame⟩
    exact ⟨r, (OrderStore.mem_apply_iff h.working rfl).mpr ⟨hterm, rfl⟩, hsame⟩

theorem undisturbed_of_logged (h : g.store.Logged) : Undisturbed x g ↔ Keeps g.store x := by
  unfold Undisturbed Keeps
  rw [show (OrderStore.openLog g.store.log).live = g.store.live from h, and_self]

/-- A store after the record of the end of an order, written or not. -/
theorem keeps_end {s : OrderStore} (h : s.Logged) (dead : OrderRecord)
    (hdead : dead.isTerminal = true) (hid : dead.clientOrderId = x.clientOrderId)
    (durable : Bool) :
    Keeps ((s.record durable dead).getD s) x ↔ durable = false ∧ Keeps s x := by
  cases durable with
  | false => simp [OrderStore.record]
  | true =>
    have hkeeps := keeps_apply h hid
    rw [hdead] at hkeeps
    simpa [OrderStore.record, Keeps] using hkeeps

/-- The store once `r` is in it. -/
def written (g : OrderRouter) (r : OrderRecord) : OrderStore :=
  { g.store.apply r with log := g.store.log ++ [r] }

/-- What `send_order` leaves of the store and the ring. -/
inductive OrderSent (g : OrderRouter) (r : OrderRecord) (durable durable' : Bool) :
    OrderRouter → Prop where
  | notPersisted {g' : OrderRouter} (hdurable : durable = false) (hstore : g'.store = g.store)
      (horders : g'.orders = g.orders) : OrderSent g r durable durable' g'
  | full {g' : OrderRouter} (hdurable : durable = true)
      (hfull : ¬ g.orders.items.length < g.orders.capacity)
      (hstore : g'.store = ((written g r).record durable'
        { r with state := .rejected, leavesQuantity := 0 }).getD (written g r))
      (horders : g'.orders = g.orders) : OrderSent g r durable durable' g'
  | sent {g' : OrderRouter} (hdurable : durable = true)
      (hroom : g.orders.items.length < g.orders.capacity) (hstore : g'.store = written g r)
      (horders : g'.orders.items = g.orders.items ++
        [.newOrder ⟨r.clientOrderId, r.price, r.quantity, r.symbolId, some r.side⟩]) :
      OrderSent g r durable durable' g'

theorem sendOrder_sent (g : OrderRouter) (m : FixMessage) (durable durable' : Bool)
    (r : OrderRecord) : OrderSent g r durable durable' (g.sendOrder m durable durable' r) := by
  unfold OrderRouter.sendOrder
  cases durable with
  | false => exact .notPersisted rfl rfl rfl
  | true =>
    rw [OrderStore.record, if_pos rfl]
    dsimp only
    split
    · rename_i orders hpush
      refine .sent rfl ?_ rfl (congrArg Fifo.items (Fifo.push_some hpush))
      by_contra hfull
      rw [Fifo.push, if_neg hfull] at hpush
      cases hpush
    · rename_i hpush
      refine .full rfl ?_ rfl rfl
      intro hroom
      rw [Fifo.push, if_pos hroom] at hpush
      cases hpush

/-- The rejection of an order ends what is on record under its id. -/
theorem onReport_rejected {r : OrderRecord} {d : ExecReport} (hr : r ∈ g.store.live)
    (hd : d.clientOrderId = r.clientOrderId) (htype : d.execType = .rejected) (durable'' : Bool) :
    ∃ dead : OrderRecord, dead.isTerminal = true ∧ dead.clientOrderId = r.clientOrderId ∧
      (g.onReport durable'' d).store = (g.store.record durable'' dead).getD g.store := by
  have hsome : (g.store.find d.clientOrderId).isSome := by
    rw [OrderStore.find, List.find?_isSome]
    exact ⟨r, hr, by simpa using hd.symm⟩
  obtain ⟨y, hy⟩ := Option.isSome_iff_exists.mp hsome
  have hid : y.clientOrderId = d.clientOrderId := (OrderStore.exists_split_of_find hy).1
  refine ⟨OrderRouter.nextRecord y d, ?_, ?_, ?_⟩
  · unfold OrderRouter.nextRecord
    rw [htype]
    rfl
  · unfold OrderRouter.nextRecord
    rw [htype]
    exact hid.trans hd
  · unfold OrderRouter.onReport
    rw [htype]
    show (g.recordReport durable'' d).store = _
    unfold OrderRouter.recordReport
    rw [hy]

/-! ## A duplicate -/

/-- **What a duplicate does.** An order `x` at work comes through a `NewOrderSingle` under its own
id, and the rejection of that, just where the message is not put down (the router refuses it, or
the write fails), or says what is on record of `x` anyway and the end of it is not written. -/
theorem undisturbed_iff (hlog : g.store.Logged) (hx : x ∈ g.store.live) (htype : m.msgType = ['D'])
    (hid : (m.find Tag.clOrdId).bind fromChars = some x.clientOrderId)
    (hs : Settled g m durable durable' durable'' g') :
    Undisturbed x g' ↔ ∀ r, pendingRecord g m = some r →
      durable = false ∨ endDurable g durable' durable'' = false ∧ Same x r := by
  have hkept : ∀ g₁ : OrderRouter, g₁.store = g.store → Undisturbed x g₁ := by
    intro g₁ hstore
    rw [undisturbed_of_logged (hstore ▸ hlog), hstore]
    exact ⟨x, hx, rfl, rfl, rfl, rfl, rfl⟩
  have happ : (g.onApplication m durable durable').2 = g.onNewOrderSingle m durable durable' := by
    unfold OrderRouter.onApplication
    rw [if_pos htype]
  have hnot : ∀ o : NewOrder, g.orders.items ≠ g.orders.items ++ [.newOrder o] := by simp
  rcases onNewOrderSingle_cases g m durable durable' with ⟨r, hr, hsend⟩ | ⟨hnone, hstore, horders⟩
  · have hrid : r.clientOrderId = x.clientOrderId :=
      Option.some.inj ((pendingRecord_some hr).1.symm.trans hid)
    have hrterm := (pendingRecord_some hr).2
    have hrec : g.store.record true r = some (written g r) := rfl
    have hwritten := hlog.record hrec
    have hkeeps : Keeps (written g r) x ↔ Same x r := by
      simpa [hrterm, written, Keeps] using keeps_apply hlog hrid
    have hsent := sendOrder_sent g m durable durable' r
    rw [hr]
    simp only [Option.some.injEq, forall_eq']
    rw [← hsend, ← happ] at hsent
    cases hs with
    | answered h =>
      cases hsent with
      | notPersisted hdurable hstore horders => exact iff_of_true (hkept _ hstore) (.inl hdurable)
      | full hdurable hfull hstore horders =>
        have hlogged := hwritten.getD_record durable'
          { r with state := .rejected, leavesQuantity := 0 }
        have hend := keeps_end (x := x) hwritten { r with state := .rejected, leavesQuantity := 0 }
          rfl hrid durable'
        rw [undisturbed_of_logged (hstore ▸ hlogged), hstore, hend, hkeeps]
        simp [hdurable, endDurable, hfull]
      | sent hdurable hroom hstore horders => exact absurd (h.symm.trans horders) (hnot _)
    | refused h hv =>
      cases hsent with
      | notPersisted hdurable hstore horders =>
        rw [horders] at h
        exact absurd h (hnot _)
      | full hdurable hfull hstore horders =>
        rw [horders] at h
        exact absurd h (hnot _)
      | sent hdurable hroom hstore horders =>
        rename_i o d v
        have ho := List.singleton_inj.mp (List.append_cancel_left (h.symm.trans horders))
        obtain ⟨hd, hrejected⟩ := hv.report
        rw [OrderMessage.newOrder.inj ho] at hd
        generalize (g.onApplication m durable durable').2 = g₁ at hstore ⊢
        have hmem : r ∈ (written g r).live :=
          (OrderStore.mem_apply_iff hlog.working rfl).mpr ⟨hrterm, rfl⟩
        rw [← hstore] at hwritten hkeeps hmem
        obtain ⟨dead, hterm, hdead, hstore'⟩ := onReport_rejected hmem hd hrejected
          durable''
        have hlogged := hwritten.getD_record durable'' dead
        rw [undisturbed_of_logged (hstore' ▸ hlogged), hstore',
          keeps_end hwritten dead hterm (hdead.trans hrid), hkeeps]
        simp [hdurable, endDurable, hroom]
  · rw [hnone]
    refine iff_of_true ?_ fun _ h => (nomatch h)
    rw [← happ] at hstore horders
    cases hs with
    | answered h => exact hkept _ hstore
    | refused h hv =>
      rw [horders] at h
      exact absurd h (hnot _)

/-- 30 of 50 left at 1.0000, known to the engine as 100. -/
def resting : OrderRecord := ⟨7, 100, 10000, 50, 30, 1, .bid, .live⟩

/-- A gateway with that one order at work. -/
def gateway : OrderRouter :=
  { orders := ⟨8, []⟩, reports := ⟨8, []⟩, store := .openLog [resting]
    symbols := [⟨"ACME".toList, 1⟩] }

/-- The client sends another order as number 7. -/
def again : FixMessage :=
  ⟨[(Tag.msgType, ['D']), (Tag.clOrdId, ['7']), (Tag.symbol, "ACME".toList), (Tag.side, ['1']),
    (Tag.orderQty, "10".toList), (Tag.price, "1.0000".toList)]⟩

def againOrder : NewOrder := ⟨7, 10000, 10, 1, some .bid⟩

def againRefused : ExecReport :=
  ⟨7, 0, 0, 10000, 10, 0, 1, .bid, .rejected, .duplicateClientOrderId⟩

/-- The risk service, which has the order of that number too. -/
def riskService : Service where
  engine := ((RiskEngine.new ⟨fun _ => ⟨true, 100, 10000000, 1000, 0, 0⟩, 2, 4⟩).onNewOrder 7 1 .bid
    10000 50).2
  accepted := ⟨8, []⟩
  reports := ⟨8, []⟩

theorem again_refused : RefusedDuplicate riskService againOrder againRefused := by
  unfold RefusedDuplicate
  decide +kernel

/-- It is sent on, refused as a duplicate, and the report is taken. -/
theorem again_settled : Settled gateway again true true true
    ((gateway.onApplication again true true).2.onReport true againRefused) :=
  .refused (o := againOrder) (by decide +kernel) again_refused

/-- The order at the engine is no longer on record. -/
theorem duplicate_ends_resting :
    resting ∈ gateway.store.live ∧ again.msgType = ['D'] ∧
      (again.find Tag.clOrdId).bind fromChars = some resting.clientOrderId ∧
      ∃ g', Settled gateway again true true true g' ∧ ¬ Undisturbed resting g' := by
  refine ⟨by decide +kernel, by decide +kernel, by decide +kernel, _, again_settled, ?_⟩
  rintro ⟨⟨y, hy, -⟩, -⟩
  have hempty : ((gateway.onApplication again true true).2.onReport true againRefused).store.live =
      [] := by
    decide +kernel
  rw [hempty] at hy
  cases hy

/-- An order on a symbol the gateway does not know is refused there, and `resting` stays. -/
theorem unknown_symbol_undisturbed :
    ∃ m g', m.msgType = ['D'] ∧ Settled gateway m true true true g' ∧ Undisturbed resting g' := by
  let m : FixMessage := ⟨[(Tag.msgType, ['D']), (Tag.clOrdId, ['7']), (Tag.symbol, "NONE".toList),
    (Tag.side, ['1']), (Tag.orderQty, "10".toList), (Tag.price, "1.0000".toList)]⟩
  have hs : Settled gateway m true true true (gateway.onApplication m true true).2 :=
    .answered (by decide +kernel)
  refine ⟨m, _, by decide +kernel, hs, ?_⟩
  refine (undisturbed_iff (OrderStore.logged_openLog _) (by decide +kernel) (by decide +kernel)
    (by decide +kernel) hs).mpr fun r hr => ?_
  have hnone : pendingRecord gateway m = none := by decide +kernel
  rw [hnone] at hr
  cases hr

end MarketData.Trading
