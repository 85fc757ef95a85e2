import MarketData.Risk.OpenOrders

/-!
# `Risk/Rollback.lean` — taking an accepted order back

When the ring to the engine is full, the service has already recorded the order as live; it takes
it off again with the report of a rejection. The order was inserted in the first free slot of its
chain, so releasing that slot moves no other order, and everything but the count of accepted orders
is as it was.

## The same, and not merely equivalent

Releasing a slot closes the chain behind it, which in general moves entries, and a table in which
entries have moved answers every question as before. Here they have not: the slot that was filled
was vacant, every probe that used to end there ends there again, and **the table is the same slot by
slot** (`insert_removeAt` of `Lib/Probing.lean`). `SameExposure` can therefore ask for the same
answer to every `find`, slot number included.

`Reachable` is any engine that calls can lead to, with any arguments. What is needed of it is the
invariant of the table; that the id is not open already is among the checks the order has passed.
-/

set_option autoImplicit false

namespace MarketData.Risk

open MarketData.Wire MarketData.Probing

namespace RiskEngine

/-! ## Reachable engines -/

/-- The engines there are: made, and called in any order with any arguments. -/
inductive Reachable : RiskEngine → Prop where
  | new (cfg : RiskConfig) : Reachable (.new cfg)
  | newOrder {e : RiskEngine} (h : Reachable e) (clientOrderId : UInt64) (symbolId : UInt16)
      (side : Side) (price : Int64) (quantity : UInt32) :
      Reachable (e.onNewOrder clientOrderId symbolId side price quantity).2
  | cancel {e : RiskEngine} (h : Reachable e) (clientOrderId origClientOrderId : UInt64) :
      Reachable (e.onCancel clientOrderId origClientOrderId).2
  | execReport {e : RiskEngine} (h : Reachable e) (clientOrderId exchangeOrderId : UInt64)
      (type : ExecType) (price : Int64) (quantity leavesQuantity : UInt32) :
      Reachable (e.onExecReport clientOrderId exchangeOrderId type price quantity leavesQuantity)
  | adopt {e : RiskEngine} (h : Reachable e) (order : OpenOrder) : Reachable (e.adopt order).2

theorem Tabled.adopt {e : RiskEngine} (h : Tabled e) (order : OpenOrder) :
    Tabled (e.adopt order).2 := by
  unfold RiskEngine.adopt
  split
  · exact h
  rename_i hroom
  split
  · exact h
  rename_i hfind
  have hnone : e.find order.clientOrderId = none := by simpa using hfind
  exact (h.record hnone (Nat.lt_of_not_le fun hle => hroom (.inr hle))).1

theorem Reachable.tabled {e : RiskEngine} (h : Reachable e) : Tabled e := by
  induction h with
  | new cfg => exact tabled_new cfg
  | newOrder _ clientOrderId symbolId side price quantity ih =>
    exact (ih.onNewOrder clientOrderId symbolId side price quantity).1
  | cancel _ clientOrderId origClientOrderId ih =>
    exact (ih.onCancel clientOrderId origClientOrderId).1
  | execReport _ clientOrderId exchangeOrderId type price quantity leavesQuantity ih =>
    exact (ih.onExecReport clientOrderId exchangeOrderId type price quantity leavesQuantity).1
  | adopt _ order ih => exact ih.adopt order

/-! ## Rolling back -/

/-- What the engine answers from, all but its statistics. -/
structure SameExposure (e e' : RiskEngine) : Prop where
  /-- Positions and pending quantities. -/
  state : e'.state = e.state
  live : e'.live = e.live
  /-- The limits, reference prices among them. -/
  cfg : e'.cfg = e.cfg
  find : ∀ id, e'.find id = e.find id
  /-- The order that is found. -/
  found : ∀ id i, e.find id = some i → e'.slots i = e.slots i

theorem subPending_addPending (st : SymbolState) (side : Side) (qty : Int64) :
    subPending (addPending st side qty) side qty = st := by
  cases side with
  | bid => simp [subPending, addPending]
  | ask => simp [subPending, addPending]

/-- The report of a rejection closes the slot its order is in. -/
theorem onExecReport_rejected {e : RiskEngine} {id : UInt64} {i : Nat} {o : OpenOrder}
    (hfind : e.find id = some i) (hslot : e.slots i = ⟨o, true⟩) :
    e.onExecReport id 0 .rejected 0 0 0 = e.close i o .rejected := by
  have hsame : Function.update e.slots i ⟨o, true⟩ = e.slots := by
    rw [← hslot, Function.update_eq_self]
  simp [onExecReport, hfind, isFill, hslot, hsame]

/-- A recorded order that is reported as rejected leaves nothing behind. -/
theorem sameExposure_rejected {e e' : RiskEngine} (h : Tabled e) {o : OpenOrder}
    (hfind : e.find o.clientOrderId = none) (hlive : e.live < e.cfg.maxOpenOrders)
    {stats : RiskStats} (he' : e' = { e.record o with stats }) :
    SameExposure e (e'.onExecReport o.clientOrderId 0 .rejected 0 0 0) := by
  have hroom : ((scheme e.mask).entries e.slots).length + 1 < (scheme e.mask).size := by
    have hcount := h.count
    have htable := h.room
    rw [openOrders, List.length_map] at hcount
    show _ < e.mask + 1
    omega
  obtain ⟨i, hi, hvacant, hinsert, hfound, hremoved⟩ :=
    h.table.insert_removeAt h.lawful hroom (e := ⟨o, true⟩) rfl fun s hs =>
      h.find_none hfind s.order (List.mem_map_of_mem hs)
  have hmask : e'.mask = e.mask := by rw [he', record]
  have hslots : e'.slots = (scheme e.mask).insert e.slots ⟨o, true⟩ := by rw [he', record]
  have hslot : e'.slots i = ⟨o, true⟩ := by rw [hslots, hinsert, Function.update_self]
  have hfound' : e'.find o.clientOrderId = some i := by
    rw [RiskEngine.find, hmask, hslots]
    exact hfound
  obtain ⟨hslotsAfter, hmaskAfter, hliveAfter, hcfgAfter⟩ := close_frame e' i o .rejected
  have hafter : (e'.close i o .rejected).slots = Function.update e.slots i {} := by
    rw [hslotsAfter, slots_release, hmask, hslots]
    exact hremoved
  rw [onExecReport_rejected hfound' hslot]
  refine ⟨?_, ?_, ?_, fun id => ?_, fun id j hj => ?_⟩
  · have hstate : e'.state = Function.update e.state o.symbolId.toNat
        (addPending (e.state o.symbolId.toNat) o.side (signed o.leavesQuantity)) := by
      rw [he', record]
    have hclosed : (e'.close i o .rejected).state = Function.update e'.state o.symbolId.toNat
        (subPending (e'.state o.symbolId.toNat) o.side (signed o.leavesQuantity)) := by
      simp [close, isFill, release]
    rw [hclosed, hstate, Function.update_self, subPending_addPending, Function.update_idem,
      Function.update_eq_self]
  · rw [hliveAfter, he']
    exact Nat.add_sub_cancel e.live 1
  · rw [hcfgAfter, he', record]
  · rw [RiskEngine.find, hafter, hmaskAfter, hmask]
    exact find_update_vacant hvacant rfl id
  · rw [hafter]
    obtain ⟨-, hocc, -, -⟩ := h.find_some hj
    refine Function.update_of_ne ?_ ..
    rintro rfl
    simp [scheme, hocc] at hvacant

/-- **An order that was accepted and could not be forwarded is taken back exactly.** -/
theorem rolled_back {e : RiskEngine} (h : Reachable e) (clientOrderId : UInt64)
    (symbolId : UInt16) (side : Side) (price : Int64) (quantity : UInt32)
    (haccepted : (e.onNewOrder clientOrderId symbolId side price quantity).1 = .accept) :
    SameExposure e ((e.onNewOrder clientOrderId symbolId side price quantity).2.onExecReport
      clientOrderId 0 .rejected 0 0 0) := by
  unfold onNewOrder at haccepted ⊢
  cases hrefusal : e.refusal clientOrderId symbolId side price quantity with
  | some reason =>
    rw [hrefusal] at haccepted
    simp [Decision.accept, Decision.reject] at haccepted
  | none =>
    obtain ⟨-, hfind, hlive, -⟩ := refusal_none hrefusal
    exact sameExposure_rejected h.tabled
      (o := ⟨clientOrderId, 0, price, quantity, symbolId, side⟩) hfind hlive rfl

/-- One symbol, and room for four orders in a table of eight slots. -/
def fourOrders : RiskEngine := .new ⟨fun _ => ⟨true, 1000, 1000000, 1000, 0, 0⟩, 1, 4⟩

theorem rolled_back_second :
    SameExposure (fourOrders.onNewOrder 1 0 .bid 100 10).2
      (((fourOrders.onNewOrder 1 0 .bid 100 10).2.onNewOrder 2 0 .ask 101 5).2.onExecReport
        2 0 .rejected 0 0 0) :=
  rolled_back (.newOrder (.new _) 1 0 .bid 100 10) 2 0 .ask 101 5 (by decide +kernel)

end RiskEngine

end MarketData.Risk
