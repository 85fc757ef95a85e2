import MarketData.Matching.Intake
import MarketData.Risk.OrderSide

/-!
# `Trading/Acceptance.lean` — what the risk service accepts, the engine reads

An order is decoded twice on its way: by the C++ decoder of the risk service, which then counts its
exposure, and by the Rust decoder of the engine, on a copy. The two ask for different things. The
engine wants this schema's id in the header, and its copy is of 256 bytes at most; the service asks
for neither. An order between the two stays pending, and nobody is told.

## Bytes that a publisher may write

A message here is any string of bytes that the service forwards. The gateway's own encoder writes
none that the engine does not read; another publisher's may, and so may a later version of this
schema with a longer root block, which is what the stated block length is there for. `Readable`
looks at the header alone, and is exact: **an order the service counts is read by the engine just if
it is `Readable`**.

`Understood` also asks that the engine answer the order, with a report or with a dropped report that
is counted. An engine whose feed fails stops, and what it owed is not asked of it.
-/

set_option autoImplicit false

namespace MarketData.Trading

open MarketData.Wire MarketData.Matching MarketData.Risk

/-- The engine reads the order the service counted, in the message and in its copy of it, and
answers it. A feed that fails ends the engine instead. -/
def Understood (env : Env) (p : OrderPath) (x : Exchange) (b : Buf) : Prop :=
  ∃ m, NewOrder.wrap? b = some m ∧
    (∃ n, decodeOrderPathMessage b = .ok (.newOrder m, n)) ∧
    (∃ n, decodeOrderPathMessage (OrderPath.taken b) = .ok (.newOrder m, n)) ∧
    match p.dispatchBytes env x (OrderPath.taken b) with
    | .error e => e.OfFeed
    | .ok (p', _) => OrderPath.Answers m.clientOrderId p p'

/-- What the engine asks of a NewOrder beyond what the service does: its schema, and a root block
that fits what is copied. -/
def Readable (b : Buf) : Prop := leU16 b 4 = schemaId ∧ (leU16 b 0).toNat ≤ 248

instance (b : Buf) : Decidable (Readable b) := inferInstanceAs (Decidable (_ ∧ _))

/-- The copy decodes to the order the service counted exactly where the order is readable. -/
theorem decodes_taken_iff {b : Buf} {m : NewOrder} (h : NewOrder.wrap? b = some m) :
    (∃ n, decodeOrderPathMessage (OrderPath.taken b) = .ok (.newOrder m, n)) ↔ Readable b := by
  have hcopied : messageHeaderLen + 24 ≤ OrderPath.copyLen := by decide
  have hschema : leU16 (OrderPath.taken b) 4 = leU16 b 4 :=
    leU16_take (by rw [OrderPath.copyLen]; omega)
  rw [NewOrder.decodes_iff, hschema, OrderPath.taken, NewOrder.wrap?_take h hcopied, and_comm,
    Readable, OrderPath.copyLen, messageHeaderLen]
  refine and_congr_right fun _ => ?_
  omega

variable {env : Env} {s : Desk}

/-- **An order that the risk service forwards is understood** exactly if its header names this schema
and states a root block of at most 248 bytes. The engine is in any state its process can reach before
it has handed out 2^64 order ids, at the end of any order path. -/
theorem understood_iff {symbols : List UInt16} {batchSize : UInt16} {maxDatagramBytes : Nat}
    {shadow : Option Book.Books} {orders reports : Nat} {is : List Desk.Input}
    (hids : Run.AlongRuns (Desk.step env) Desk.IdsLeft
      (Desk.new symbols batchSize maxDatagramBytes shadow orders reports) is)
    (hrun : Run.runs (Desk.step env)
      (Desk.new symbols batchSize maxDatagramBytes shadow orders reports) is = .ok s)
    (p : OrderPath) {r : OrderSide} {b : Buf} (h : r.Forwards b) :
    Understood env p s.exchange b ↔ Readable b := by
  have hsound : s.Sound :=
    hids.invariant Desk.Sound (fun s i s' hs hi hstep => hs.step hi hstep) (Desk.sound_new ..) hrun
  obtain ⟨m, hwrap, hrefusal, -⟩ := h.spec
  constructor
  · intro hunderstood
    obtain ⟨m', hwrap', -, htaken, -⟩ := hunderstood
    exact (decodes_taken_iff hwrap').mp htaken
  · intro hreadable
    obtain ⟨n, hdecodes⟩ := (decodes_taken_iff hwrap).mpr hreadable
    refine ⟨m, hwrap, NewOrder.decodes_iff.mpr ⟨hwrap, hreadable.1⟩, ⟨n, hdecodes⟩, ?_⟩
    have hdispatch : p.dispatchBytes env s.exchange (OrderPath.taken b) =
        p.onNewOrder env s.exchange m := by
      rw [OrderPath.dispatchBytes, hdecodes]
    rw [hdispatch]
    exact OrderPath.onNewOrder_answers hsound.engine (OrderSide.quantity_ne_zero hrefusal)

/-- The risk service with one symbol, and room in its rings. -/
def forSymbolOne : OrderSide where
  engine := RiskEngine.new
    { symbols := fun _ => ⟨true, 1000, 100000000, 100000, 0, 0⟩, symbolCount := 2,
      maxOpenOrders := 4 }
  accepted := ⟨4, []⟩
  reports := ⟨4, []⟩

/-- Five to buy at 100. -/
def buyOrder : Buf := newOrderBlock 1 100 5 1 .bid

/-- The same, from a publisher with another schema. -/
def foreignOrder : Buf := putU16 buyOrder 4 2

/-- With this schema's id, the order is understood. -/
theorem understood_own_schema : Understood Env.lossless OrderPath.idle
    (Desk.new [1] 8 512 none 4 8).exchange buyOrder :=
  have hids : Run.AlongRuns (Desk.step Env.lossless) Desk.IdsLeft (Desk.new [1] 8 512 none 4 8) [] :=
    trivial
  (understood_iff hids rfl OrderPath.idle
    (show forSymbolOne.Forwards buyOrder by decide +kernel)).mpr (by decide +kernel)

/-- With another it is counted as live by the service, and the engine does not read it. -/
theorem foreign_schema_not_understood :
    forSymbolOne.Forwards foreignOrder ∧ (forSymbolOne.handle foreignOrder).engine.live = 1 ∧
      decodeOrderPathMessage foreignOrder = .error (.schemaMismatch 1 2) ∧
      ¬Understood Env.lossless OrderPath.idle (Desk.new [1] 8 512 none 4 8).exchange
        foreignOrder := by
  have hdecode : decodeOrderPathMessage foreignOrder = .error (.schemaMismatch 1 2) := by
    decide +kernel
  refine ⟨by decide +kernel, by decide +kernel, hdecode, ?_⟩
  intro hunderstood
  obtain ⟨m, -, hdecodes, -⟩ := hunderstood
  obtain ⟨n, hdecodes⟩ := hdecodes
  rw [hdecode] at hdecodes
  cases hdecodes

end MarketData.Trading
