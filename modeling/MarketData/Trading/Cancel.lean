import MarketData.Trading.Release

/-!
# `Trading/Cancel.lean` — which order a cancel is about

A cancel carries two ids the client chose, its own and the order's. The risk service looks the
second up among the client's orders; the engine looks it up among its own ids, which it hands out
itself. And a refused cancel is answered with the report a refused order gets, under the first
id; whoever has a live order of that id ends it.

## Two questions

Which order a request takes off the book is a question about one process, the engine, and one state
of it: `cancel_takes_off_iff` compares the engine's id of the order with the number the client gave
it. The states are all there are, since nothing ties the two numberings together.

What a refused request changes is a question about all three. The refusal may come from the risk
service or from the engine, and the report of it passes through everyone who keeps accounts on its
way back. `SameAccounts` is what none of them should have changed. **A report carries one id**, and
for a cancel it is the request's; so the condition is about the request's id and whether an order of
the same name is at work, for the service and for the gateway each.
-/

set_option autoImplicit false

namespace MarketData.Trading

open MarketData.Wire MarketData.Gateway MarketData.Risk MarketData.Matching
open MarketData.Risk.RiskEngine (IsOpen Tabled endsOrder)

/-! ## The order that is removed -/

/-- Between the two states the order `id` of symbol `t` left the books and nothing else did. -/
def TakesOff (x x' : Exchange) (t : UInt16) (id : UInt64) : Prop :=
  ∀ t' id', (x'.engine.books.book t').get id' =
    if t = t' ∧ id = id' then none else (x.engine.books.book t').get id'

/-- What a cancel request is sent on as: the order it names goes by the number in `OrigClOrdID`. -/
theorem onApplication_orig {g : OrderRouter} {m : FixMessage} {durable durable' : Bool}
    {c : CancelOrder}
    (hsent : (g.onApplication m durable durable').2.orders.items =
      g.orders.items ++ [.cancelOrder c]) :
    ∃ v ∈ m.find Tag.origClOrdId, c.origClientOrderId = (fromChars v).getD 0 := by
  obtain ⟨ms, hms, hitems⟩ := g.onApplication_sentOn m durable durable'
  rw [hsent] at hitems
  obtain rfl := List.append_cancel_left hitems
  cases hms with
  | cancel _ _ _ horig _ hc => exact ⟨_, horig, hc⟩

/-- **Which order a cancel removes.** For a request that names client order `X`, which rests on
the book of `t` as the engine's order `id`: exactly that order is taken off the books if and only
if the engine happened to give it the number the client had, and the request names its symbol. -/
theorem cancel_takes_off_iff {env : Env} {g : OrderRouter} {m : FixMessage}
    {durable durable' : Bool} {c : CancelOrder} {orig : Text} {X : UInt64} {p p' : OrderPath}
    {x x' : Exchange} {t : UInt16} {o : Owned}
    (hsent : (g.onApplication m durable durable').2.orders.items =
      g.orders.items ++ [.cancelOrder c])
    (horig : m.find Tag.origClOrdId = some orig) (hX : fromChars orig = some X)
    (ho : o ∈ p.owned ∧ o.clientOrderId = X)
    (hlive : ((x.engine.books.book t).get o.exchangeOrderId).isSome = true)
    (htaken : p.dispatch env x (.cancelOrder c) = .ok (p', x')) :
    TakesOff x x' t o.exchangeOrderId ↔
      o.exchangeOrderId = o.clientOrderId ∧ c.symbolId = t := by
  have hnamed : c.origClientOrderId = X := by
    obtain ⟨v, hv, hc⟩ := onApplication_orig hsent
    rw [horig, Option.mem_some_iff] at hv
    rw [hc, ← hv, hX]
    rfl
  have hbooks : TakesOff x x' c.symbolId X := by
    obtain ⟨⟨x₁, answer⟩, hcancel, htaken⟩ := bind_eq_ok htaken
    have hx : x' = x₁ := by cases answer <;> cases htaken <;> rfl
    rw [hx, ← hnamed]
    exact (Exchange.canceled hcancel).books
  rw [ho.2]
  constructor
  · intro htakes
    -- The order itself is gone, so it is what the engine looked for.
    have hgone := htakes t o.exchangeOrderId
    rw [if_pos ⟨rfl, rfl⟩, hbooks t o.exchangeOrderId] at hgone
    split at hgone
    · rename_i hsame
      exact ⟨hsame.2.symm, hsame.1⟩
    · rw [hgone] at hlive
      cases hlive
  · rintro ⟨hid, rfl⟩
    rw [hid]
    exact hbooks

/-- Where the first order is the engine's first too, its cancel is about it. -/
theorem cancel_takes_off_first : ∃ s s', oneSymbol.run Env.lossless untilCancel = .ok s ∧
    s.take Env.lossless = .ok s' ∧ TakesOff s.exchange s'.exchange 1 1 := by
  obtain ⟨s, s', hs, hitems, howned, hrests, htaken, -⟩ := untilCancel_reaches
  refine ⟨s, s', hs, htaken, ?_⟩
  have hsent : (oneSymbol.router.onApplication cancelFirst true true).2.orders.items =
      oneSymbol.router.orders.items ++ [.cancelOrder ⟨2, 1, 1, some .bid⟩] := by decide +kernel
  unfold System.take Fifo.pop at htaken
  rw [hitems] at htaken
  obtain ⟨⟨path, exchange⟩, hdispatch, htaken⟩ := bind_eq_ok htaken
  cases htaken
  refine (cancel_takes_off_iff (o := ⟨1, 1⟩) hsent rfl (by decide : fromChars ['1'] = some 1) ⟨?_, rfl⟩
    hrests hdispatch).mpr ⟨rfl, rfl⟩
  show _ ∈ s.path.owned
  rw [howned]
  exact List.mem_singleton_self _

/-- Order 7 is the engine's first and order 1 its second; then order 1 is canceled. -/
def crossedIds : List Step :=
  let buy (id : Char) : FixMessage :=
    ⟨[(Tag.msgType, ['D']), (Tag.clOrdId, [id]), (Tag.symbol, ['A', 'B']), (Tag.side, ['1']),
      (Tag.orderQty, ['5']), (Tag.price, ['0', '.', '0', '1'])]⟩
  [.request (buy '7') true true, .request (buy '1') true true, .riskOrder, .riskOrder, .catchUp,
    .take, .take, .request cancelFirst true true, .riskOrder, .catchUp]

/-- The request for order 1 takes order 7 off the book. Order 1 still rests, as the engine's
order 2. -/
theorem cancel_takes_off_another :
    (oneSymbol.run Env.lossless crossedIds).map
      (fun s => (s.path.owned, (s.exchange.engine.books.book 1).len,
        (s.take Env.lossless).map fun s' => (s'.path.owned,
          ((s'.exchange.engine.books.book 1).get 1).isSome,
          ((s'.exchange.engine.books.book 1).get 2).isSome))) =
      .ok ([⟨1, 7⟩, ⟨2, 1⟩], 2, .ok ([⟨2, 1⟩], false, true)) := by decide +kernel

/-! ## A refused cancel -/

/-- Positions, pending quantities and open orders are as they were. -/
structure SameAccounts (e e' : RiskEngine) : Prop where
  state : e'.state = e.state
  openOrders : e'.openOrders = e.openOrders

/-- The risk service answers the request itself, with `d`. -/
def RefusedByRisk (v : Risk.Service) (c : CancelOrder) (d : ExecReport) : Prop :=
  (v.handleOrder (.cancelOrder c)).reports.items = v.reports.items ++ [d]

/-- The engine answers the request with `d`, a reject. -/
def RefusedByEngine (env : Env) (p : OrderPath) (x : Exchange) (c : CancelOrder)
    (d : ExecReport) : Prop :=
  ∃ p' x', p.dispatch env x (.cancelOrder c) = .ok (p', x') ∧
    p'.reports.items = p.reports.items ++ [d] ∧ d.execType = .rejected

theorem sameAccounts_onCancel (v : Risk.Service) (c : CancelOrder) :
    SameAccounts v.engine (v.handleOrder (.cancelOrder c)).engine := by
  have hsame : SameAccounts v.engine
      (v.engine.onCancel c.clientOrderId c.origClientOrderId).2 := by
    unfold RiskEngine.onCancel
    split <;> exact ⟨rfl, rfl⟩
  show SameAccounts v.engine (v.onCancel c).engine
  unfold Risk.Service.onCancel
  dsimp only
  generalize v.engine.onCancel c.clientOrderId c.origClientOrderId = answer at hsame
  split
  · split <;> exact hsame
  · exact hsame

/-- The answer goes by the id of the request. -/
theorem RefusedByRisk.report {v : Risk.Service} {c : CancelOrder} {d : ExecReport}
    (h : RefusedByRisk v c d) : d.clientOrderId = c.clientOrderId ∧ d.execType = .rejected := by
  have hemit : ∀ (w : Risk.Service) (d' : ExecReport),
      (w.emit d').reports.items = w.reports.items ++ [d] → d' = d :=
    fun _ _ hitems => Fifo.eq_of_push hitems
  revert h
  show (v.onCancel c).reports.items = _ → _
  unfold Risk.Service.onCancel
  dsimp only
  generalize v.engine.onCancel c.clientOrderId c.origClientOrderId = answer
  intro h
  split at h
  · split at h
    · simp at h
    · rw [← hemit _ _ h]
      exact ⟨rfl, rfl⟩
  · rw [← hemit _ _ h]
    exact ⟨rfl, rfl⟩

theorem RefusedByEngine.report {env : Env} {p : OrderPath} {x : Exchange} {c : CancelOrder}
    {d : ExecReport} (h : RefusedByEngine env p x c d) :
    d.clientOrderId = c.clientOrderId ∧ d.execType = .rejected := by
  obtain ⟨p', x', hdispatch, hitems, hrejected⟩ := h
  refine ⟨?_, hrejected⟩
  have hemit : ∀ (q : OrderPath) (d' : ExecReport), q.reports = p.reports →
      (q.emit d').reports.items = p.reports.items ++ [d] → d' = d := by
    intro q d' hq hitems
    unfold OrderPath.emit at hitems
    split at hitems
    · rename_i reports hpush
      dsimp only at hitems
      rw [Fifo.push_some hpush, hq] at hitems
      exact List.singleton_inj.mp (List.append_cancel_left hitems)
    · rw [hq] at hitems
      simp at hitems
  obtain ⟨⟨x₁, answer⟩, -, hdispatch⟩ := bind_eq_ok hdispatch
  cases answer with
  | none =>
    cases hdispatch
    rw [← hemit p _ rfl hitems]
  | some remaining =>
    cases hdispatch
    rw [← hemit (p.forget c.origClientOrderId) _ rfl hitems]

/-- A reject ends a live order of its id at the risk service, and does nothing else there. -/
theorem sameAccounts_handleReport_iff {v : Risk.Service} (h : Tabled v.engine) {d : ExecReport}
    (hd : d.execType = .rejected) :
    SameAccounts v.engine (v.handleReport d).engine ↔ ¬ v.engine.IsOpen d.clientOrderId := by
  unfold Risk.Service.handleReport
  rw [hd]
  simp only [reduceCtorEq, or_self, if_false]
  show SameAccounts v.engine (v.engine.onExecReport d.clientOrderId d.exchangeOrderId .rejected
    d.price d.quantity d.leavesQuantity) ↔ _
  obtain ⟨-, hopen⟩ := h.onExecReport d.clientOrderId d.exchangeOrderId .rejected d.price d.quantity
    d.leavesQuantity
  constructor
  · intro hsame hlive
    have hgone := (hopen d.clientOrderId).mp (by
      obtain ⟨o, ho, hid⟩ := hlive
      exact ⟨o, hsame.openOrders ▸ ho, hid⟩)
    exact hgone.2 ⟨rfl, rfl⟩
  · intro hnone
    have hfind : v.engine.find d.clientOrderId = none := by
      rw [← Option.not_isSome_iff_eq_none]
      exact fun hsome => hnone ((h.find_isSome _).mp hsome)
    unfold RiskEngine.onExecReport
    rw [hfind]
    exact ⟨rfl, rfl⟩

/-- So it does at the gateway, where what ends is whatever has the id. -/
theorem live_onReport_iff (g : OrderRouter) (durable : Bool) {d : ExecReport}
    (hd : d.execType = .rejected) :
    (g.onReport durable d).store.live = g.store.live ↔
      (durable = true → ∀ r ∈ g.store.live, r.clientOrderId ≠ d.clientOrderId) := by
  unfold OrderRouter.onReport
  rw [hd]
  show (g.recordReport durable d).store.live = _ ↔ _
  unfold OrderRouter.recordReport
  cases hfind : g.store.find d.clientOrderId with
  | none =>
    refine ⟨fun _ _ r hr => ?_, fun _ => rfl⟩
    have hnone := List.find?_eq_none.mp hfind r hr
    simpa using hnone
  | some r =>
    have hmem := List.mem_of_find?_eq_some hfind
    have hid : r.clientOrderId = d.clientOrderId := by simpa using List.find?_some hfind
    have hnext : (OrderRouter.nextRecord r d).isTerminal = true ∧
        (OrderRouter.nextRecord r d).clientOrderId = r.clientOrderId := by
      unfold OrderRouter.nextRecord
      rw [hd]
      exact ⟨rfl, rfl⟩
    cases durable with
    | false => simp [OrderStore.record]
    | true =>
      have hne := OrderStore.apply_terminal_ne hnext.1 ⟨r, hmem, hnext.2.symm⟩
      refine ⟨fun hsame => absurd hsame hne, fun hnone => ?_⟩
      exact absurd hid (hnone rfl r hmem)

/-- **When a refused cancel changes nothing.** Whoever refuses it, the handling of the request
leaves every account as it was; the report of it does so if and only if no live order goes by the
request's own id: none at the gateway, unless the gateway cannot write the end of it down, and,
where the engine refused, none at the risk service. -/
theorem refused_cancel_changes_nothing_iff (c : CancelOrder) (d : ExecReport) (g : OrderRouter)
    (durable : Bool) :
    (∀ v, RefusedByRisk v c d →
      ((SameAccounts v.engine (v.handleOrder (.cancelOrder c)).engine ∧
          (g.onReport durable d).store.live = g.store.live) ↔
        (durable = true → ∀ r ∈ g.store.live, r.clientOrderId ≠ c.clientOrderId))) ∧
    ∀ env p x, RefusedByEngine env p x c d → ∀ v v' : Risk.Service, Tabled v'.engine →
      ((SameAccounts v.engine (v.handleOrder (.cancelOrder c)).engine ∧
          SameAccounts v'.engine (v'.handleReport d).engine ∧
          (g.onReport durable d).store.live = g.store.live) ↔
        ¬ v'.engine.IsOpen c.clientOrderId ∧
          (durable = true → ∀ r ∈ g.store.live, r.clientOrderId ≠ c.clientOrderId)) := by
  constructor
  · intro v hrefused
    obtain ⟨hid, hrejected⟩ := hrefused.report
    rw [live_onReport_iff g durable hrejected, hid]
    exact and_iff_right (sameAccounts_onCancel v c)
  · intro env p x hrefused v v' htabled
    obtain ⟨hid, hrejected⟩ := hrefused.report
    rw [live_onReport_iff g durable hrejected, sameAccounts_handleReport_iff htabled hrejected, hid]
    exact and_iff_right (sameAccounts_onCancel v c)

/-- With nothing live anywhere, a cancel is refused by either and changes nothing. -/
theorem refused_cancel_changes_nothing_at_start :
    let c : CancelOrder := ⟨2, 1, 1, some .bid⟩
    let d : ExecReport := ⟨2, 1, 0, 0, 0, 0, 1, .bid, .rejected, .unknownOrder⟩
    SameAccounts oneSymbol.risk (oneSymbol.service.handleOrder (.cancelOrder c)).engine ∧
      SameAccounts oneSymbol.risk (oneSymbol.service.handleReport d).engine ∧
      (oneSymbol.router.onReport true d).store.live = oneSymbol.router.store.live := by
  intro c d
  have hrisk : RefusedByRisk oneSymbol.service c d := by
    show (oneSymbol.service.handleOrder (.cancelOrder c)).reports.items = _
    decide +kernel
  have hengine : RefusedByEngine Env.lossless oneSymbol.path oneSymbol.exchange c d := by
    have hanswer : (oneSymbol.path.dispatch Env.lossless oneSymbol.exchange (.cancelOrder c)).map
        (fun px => px.1.reports.items) = .ok [d] := by decide +kernel
    obtain ⟨⟨p', x'⟩, hdispatch, hitems⟩ := map_eq_ok hanswer
    exact ⟨p', x', hdispatch, hitems, rfl⟩
  have hnone : true = true → ∀ r ∈ oneSymbol.router.store.live, r.clientOrderId ≠ c.clientOrderId :=
    fun _ _ hr => (nomatch hr)
  have htabled : Tabled oneSymbol.service.engine := RiskEngine.tabled_new _
  have hclosed : ¬ oneSymbol.service.engine.IsOpen c.clientOrderId := by
    rintro ⟨o, ho, -⟩
    rw [show oneSymbol.service.engine.openOrders = [] from RiskEngine.openOrders_new _] at ho
    cases ho
  obtain ⟨hhandled, -⟩ :=
    ((refused_cancel_changes_nothing_iff c d oneSymbol.router true).1 _ hrisk).mpr hnone
  obtain ⟨-, hreported, hlive⟩ := ((refused_cancel_changes_nothing_iff c d oneSymbol.router true).2
    _ _ _ hengine oneSymbol.service oneSymbol.service htabled).mpr ⟨hclosed, hnone⟩
  exact ⟨hhandled, hreported, hlive⟩

/-- Order 7 rests, as the engine's order 1. -/
def seventh : List Step :=
  [.request ⟨[(Tag.msgType, ['D']), (Tag.clOrdId, ['7']), (Tag.symbol, ['A', 'B']),
      (Tag.side, ['1']), (Tag.orderQty, ['5']), (Tag.price, ['0', '.', '0', '1'])]⟩ true true,
    .riskOrder, .catchUp, .take, .riskReport, .report true]

/-- A cancel of order 7 under the id 7, all the way there and back. -/
def cancelBySameId : List Step :=
  [.request ⟨[(Tag.msgType, ['F']), (Tag.clOrdId, ['7']), (Tag.origClOrdId, ['7']),
      (Tag.symbol, ['A', 'B']), (Tag.side, ['1'])]⟩ true true,
    .riskOrder, .catchUp, .take, .riskReport, .report true]

/-- The engine has no order of the number 7 and refuses the cancel. Order 7 rests as before, and
neither the risk service nor the gateway has it any more. -/
theorem refused_cancel_ends_live_order :
    (oneSymbol.run Env.lossless seventh).map
        (fun s => (s.risk.openOrders.map OpenOrder.clientOrderId, (s.risk.state 1).pendingBuy,
          s.router.store.live.map OrderRecord.clientOrderId,
          ((s.exchange.engine.books.book 1).get 1).isSome)) = .ok ([7], 5, [7], true) ∧
      (oneSymbol.run Env.lossless (seventh ++ cancelBySameId)).map
        (fun s => (s.risk.openOrders.map OpenOrder.clientOrderId, (s.risk.state 1).pendingBuy,
          s.router.store.live.map OrderRecord.clientOrderId,
          ((s.exchange.engine.books.book 1).get 1).isSome)) = .ok ([], 0, [], true) :=
  ⟨by decide +kernel, by decide +kernel⟩

end MarketData.Trading
