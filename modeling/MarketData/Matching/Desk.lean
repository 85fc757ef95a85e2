import MarketData.Lib.Run
import MarketData.Matching.OrderPath
import MarketData.Matching.Struck

/-!
# `Matching/Desk.lean` — the engine and its end of the order path

The engine's process: the engine, the two rings to the risk service, and the generator that trades
on the same engine. A pass of `pump` is `catchUp` followed by one `take` for each message
(`pump_eq_runs`); in between the risk service fills one ring and empties the other, and between
passes the generator calls the engine.

For the proofs only, the state carries what happened to the orders of the path: which came to rest
and who owns them, which fills there were of them while they rested, which of these were reported
and how many were counted instead.

## Histories beside the state

A promise such as *every fill of a client's order is reported once* has to name all fills there ever
were, and the engine forgets them. `arrived`, `struck` and the two others are written by the step
function and read by none; each is appended to where the thing happens, from the state before the
step, so that it is not the code's own notes that are counted. An order whose fill the engine fails
to note is in `struck` all the same.

A pass is cut into its messages because the risk service works in between, in the source as well; a
statement about every list of these inputs covers every number of messages a pass may take.
-/

set_option autoImplicit false

namespace MarketData.Matching

open MarketData.Wire MarketData.Book

structure Desk where
  path : OrderPath
  exchange : Exchange
  /-- The orders of the path that came to rest. -/
  arrived : List Owned := []
  /-- The fills of those while they rested. -/
  struck : List PassiveFill := []
  /-- The reports of such fills that found room in the ring. -/
  told : List ExecReport := []
  /-- The number of such fills that `pump` counted as dropped instead. -/
  untold : Nat := 0

/-- What happens next. -/
inductive Desk.Input where
  /-- The risk service puts a message into the ring. -/
  | arrives (m : OrderMessage)
  /-- The risk service takes a report. -/
  | read
  | catchUp
  | take
  /-- The generator calls the engine. -/
  | flow (c : Call)

/-- The fills of resting orders that a message would make. -/
def Exchange.struckByMessage (x : Exchange) : OrderMessage → List PassiveFill
  | .newOrder ⟨_, price, quantity, symbolId, some side⟩ => x.strikes symbolId side price quantity
  | _ => []

/-- The order that a message leaves on a book, and its owner. -/
def Exchange.restedBy (env : Env) (x : Exchange) : OrderMessage → List Owned
  | .newOrder ⟨clientOrderId, price, quantity, symbolId, some side⟩ =>
    match x.submitReported env symbolId side price quantity false with
    | .ok (_, outcome, _) =>
      if 0 < outcome.resting then [⟨outcome.orderId, clientOrderId⟩] else []
    | .error _ => []
  | _ => []

namespace Desk

/-- The fills of orders that came over the path. -/
def ofClients (s : Desk) (fs : List PassiveFill) : List PassiveFill :=
  fs.filter fun f => (s.arrived.map Owned.exchangeOrderId).contains f.restingOrderId

variable (env : Env)

def take (s : Desk) : Except IoError Desk :=
  match s.path.orders.pop with
  | none => .ok s
  | some (m, orders) => do
    let (path, exchange) ← { s.path with orders }.dispatch env s.exchange m
    .ok { s with
      path
      exchange
      arrived := s.arrived ++ s.exchange.restedBy env m
      struck := s.struck ++ s.ofClients (s.exchange.struckByMessage m) }

def catchUp (s : Desk) : Desk :=
  let (path, exchange) := s.path.catchUp s.exchange
  { s with
    path
    exchange
    told := s.told ++ path.reports.items.drop s.path.reports.items.length
    untold := s.untold + (path.reportsDropped - s.path.reportsDropped) }

def step (s : Desk) : Input → Except IoError Desk
  | .arrives m =>
    .ok { s with path := { s.path with orders := (s.path.orders.push m).getD s.path.orders } }
  | .read =>
    match s.path.reports.pop with
    | none => .ok s
    | some (_, reports) => .ok { s with path := { s.path with reports } }
  | .catchUp => .ok s.catchUp
  | .take => s.take env
  | .flow c => do
    let exchange ← s.exchange.call env c
    .ok { s with exchange, struck := s.struck ++ s.ofClients (s.exchange.struckBy c) }

/-- The process as it starts. -/
def new (symbols : List UInt16) (batchSize : UInt16) (maxDatagramBytes : Nat)
    (shadow : Option Books) (orders reports : Nat) : Desk where
  path := { orders := ⟨orders, []⟩, reports := ⟨reports, []⟩ }
  exchange := .new symbols batchSize maxDatagramBytes shadow

theorem drain_eq_runs (s : Desk) (n : Nat) :
    s.path.drain env s.exchange n =
      (Run.runs (step env) s (List.replicate n .take)).map fun s => (s.path, s.exchange) := by
  induction n generalizing s with
  | zero => rfl
  | succ n ih =>
    have htake : step env s .take = s.take env := rfl
    rw [List.replicate_succ, Run.runs, htake]
    unfold take
    cases hpop : s.path.orders.pop with
    | none =>
      -- An empty ring stays empty, so the other turns do nothing either.
      rw [OrderPath.drain, hpop]
      dsimp only
      rw [← ih]
      cases n with
      | zero => rfl
      | succ n => rw [OrderPath.drain, hpop]
    | some popped =>
      obtain ⟨m, orders⟩ := popped
      rw [OrderPath.drain, hpop]
      dsimp only
      cases hdispatch : ({ s.path with orders } : OrderPath).dispatch env s.exchange m with
      | error e => rfl
      | ok answer =>
        obtain ⟨path, exchange⟩ := answer
        exact ih { s with
          path
          exchange
          arrived := s.arrived ++ s.exchange.restedBy env m
          struck := s.struck ++ s.ofClients (s.exchange.struckByMessage m) }

/-- **A pass is a run**: `pump` is the two parts of the loop, one after the other. -/
theorem pump_eq_runs (s : Desk) :
    s.path.pump env s.exchange =
      (Run.runs (step env) s (.catchUp :: List.replicate ordersPerPass .take)).map
        fun s => (s.path, s.exchange) :=
  drain_eq_runs env s.catchUp ordersPerPass

end Desk

/-! ## The table of owners -/

namespace OrderPath

/-- The orders that wait and that are remembered, and what is to be watched and no longer watched, are
the same. -/
structure SameTable (p p' : OrderPath) : Prop where
  orders : p'.orders = p.orders
  owned : p'.owned = p.owned
  toWatch : p'.toWatch = p.toWatch
  finished : p'.finished = p.finished

namespace SameTable

variable {p p' p'' : OrderPath}

theorem refl (p : OrderPath) : SameTable p p := ⟨rfl, rfl, rfl, rfl⟩

theorem trans (h : SameTable p p') (h' : SameTable p' p'') : SameTable p p'' :=
  ⟨h'.orders.trans h.orders, h'.owned.trans h.owned, h'.toWatch.trans h.toWatch,
    h'.finished.trans h.finished⟩

theorem emit (p : OrderPath) (r : ExecReport) : SameTable p (p.emit r) := by
  unfold OrderPath.emit
  split
  · exact ⟨rfl, rfl, rfl, rfl⟩
  · exact ⟨rfl, rfl, rfl, rfl⟩

theorem reportFills (p : OrderPath) (m : NewOrder) (side : Side) (orderId : UInt64)
    (overflowed : Nat) (fills : List Fill) :
    SameTable p (p.reportFills m side orderId overflowed fills) := by
  induction fills generalizing p with
  | nil => exact refl p
  | cons f fills ih =>
    cases fills with
    | nil => exact emit p _
    | cons g fills =>
      rw [OrderPath.reportFills]
      · exact (emit p _).trans (ih _)
      · exact fun h => (nomatch h)

theorem name (books : Books) (p : OrderPath) (named : Nat) (o : Owned) :
    SameTable p (p.name books named o).1 := by
  unfold OrderPath.name
  split
  · exact refl p
  · split
    · exact ⟨rfl, rfl, rfl, rfl⟩
    · exact ⟨rfl, rfl, rfl, rfl⟩

theorem foldl_name (books : Books) (owned : List Owned) (p : OrderPath) (named : Nat) :
    SameTable p (owned.foldl (fun (p, named) o => p.name books named o) (p, named)).1 := by
  induction owned generalizing p named with
  | nil => exact refl p
  | cons o owned ih => exact (name books p named o).trans (ih _ _)

end SameTable

variable {p : OrderPath}

/-- An order that rests is put into the table, if there is room. -/
theorem reportOutcome_remembers (m : NewOrder) (side : Side) {outcome : SubmitOutcome}
    (fills : List Fill) (hrests : 0 < outcome.resting) (hroom : p.owned.length < maxOwned) :
    (p.reportOutcome m side outcome fills).owned =
        p.owned ++ [⟨outcome.orderId, m.clientOrderId⟩] ∧
      (p.reportOutcome m side outcome fills).toWatch = p.toWatch ++ [outcome.orderId] ∧
      (p.reportOutcome m side outcome fills).finished = p.finished := by
  unfold reportOutcome
  dsimp only
  rw [if_pos hrests]
  obtain ⟨-, howned, htoWatch, hfinished⟩ := SameTable.reportFills p m side outcome.orderId
    (fills.length - fillsPerReport) (fills.take fillsPerReport)
  generalize p.reportFills m side outcome.orderId (fills.length - fillsPerReport)
    (fills.take fillsPerReport) = q at howned htoWatch hfinished ⊢
  have hlen : (q.drop (fills.length - fillsPerReport)).owned.length < maxOwned := by
    show q.owned.length < maxOwned
    rwa [howned]
  obtain ⟨-, howned', htoWatch', hfinished'⟩ := SameTable.emit
    ((q.drop (fills.length - fillsPerReport)).remember outcome.orderId m.clientOrderId)
    ⟨m.clientOrderId, outcome.orderId, 0, m.price, m.quantity, outcome.resting, m.symbolId, side,
      .acknowledged, .notRejected⟩
  rw [howned', htoWatch', hfinished', remember, if_pos hlen]
  refine ⟨?_, ?_, hfinished⟩
  · show q.owned ++ _ = _
    rw [howned]
  · show q.toWatch ++ _ = _
    rw [htoWatch]

/-- Otherwise the table is left alone. -/
theorem reportOutcome_sameTable (m : NewOrder) (side : Side) {outcome : SubmitOutcome}
    (fills : List Fill) (h : 0 < outcome.resting → ¬p.owned.length < maxOwned) :
    SameTable p (p.reportOutcome m side outcome fills) := by
  unfold reportOutcome
  dsimp only
  have hfills := SameTable.reportFills p m side outcome.orderId
    (fills.length - fillsPerReport) (fills.take fillsPerReport)
  generalize p.reportFills m side outcome.orderId (fills.length - fillsPerReport)
    (fills.take fillsPerReport) = q at hfills ⊢
  have hdropped : SameTable p (q.drop (fills.length - fillsPerReport)) :=
    hfills.trans ⟨rfl, rfl, rfl, rfl⟩
  split
  · rename_i hrests
    refine (hdropped.trans ?_).trans (.emit _ _)
    have hfull : ¬(q.drop (fills.length - fillsPerReport)).owned.length < maxOwned := by
      rw [hdropped.owned]
      exact h hrests
    rw [remember, if_neg hfull]
    exact ⟨rfl, rfl, rfl, rfl⟩
  · exact hdropped

/-- A reconciliation forgets the orders that are on no book. -/
theorem onReconcile_table (p : OrderPath) (books : Books) (requestId : UInt64) :
    (p.onReconcile books requestId).owned =
        p.owned.filter (fun o => (lookUp books o.exchangeOrderId).isSome) ∧
      (p.onReconcile books requestId).toWatch = p.toWatch ∧
      (p.onReconcile books requestId).finished = p.finished := by
  unfold onReconcile
  obtain ⟨-, -, htoWatch, hfinished⟩ := SameTable.foldl_name books p.owned p 0
  generalize p.owned.foldl (fun (p, named) o => p.name books named o) (p, 0) = r
    at htoWatch hfinished ⊢
  obtain ⟨q, named⟩ := r
  dsimp only
  obtain ⟨-, howned', htoWatch', hfinished'⟩ := SameTable.emit
    { q with owned := p.owned.filter fun o => (lookUp books o.exchangeOrderId).isSome }
    ⟨requestId, 0, 0, 0, UInt32.ofNat (min named (2 ^ 32 - 1)), 0, 0, .bid, .statusComplete,
      .notRejected⟩
  exact ⟨howned', htoWatch'.trans htoWatch, hfinished'.trans hfinished⟩

/-- The report of a fill while the order rested forgets the order when it is done. -/
theorem reportPassiveFill_table (p : OrderPath) (f : PassiveFill) :
    (p.reportPassiveFill f).toWatch = p.toWatch ∧
      ((p.reportPassiveFill f).owned = p.owned ∧ (p.reportPassiveFill f).finished = p.finished ∨
        f.leaves = 0 ∧
          (p.reportPassiveFill f).owned =
            p.owned.filter (fun o => o.exchangeOrderId ≠ f.restingOrderId) ∧
          (p.reportPassiveFill f).finished = p.finished ++ [f.restingOrderId]) := by
  unfold reportPassiveFill
  split
  · exact ⟨rfl, .inl ⟨rfl, rfl⟩⟩
  · dsimp only
    generalize hr : (⟨_, _, _, _, _, _, _, _, _, _⟩ : ExecReport) = r
    obtain ⟨-, howned, htoWatch, hfinished⟩ := SameTable.emit p r
    split
    · rename_i hzero
      refine ⟨htoWatch, .inr ⟨hzero, ?_, ?_⟩⟩
      · show (p.emit r).owned.filter _ = _
        rw [howned]
      · show (p.emit r).finished ++ _ = _
        rw [hfinished]
    · exact ⟨htoWatch, .inl ⟨howned, hfinished⟩⟩

theorem foldl_reportPassiveFill_owned (fs : List PassiveFill) (p : OrderPath) :
    (fs.foldl reportPassiveFill p).owned.Sublist p.owned := by
  induction fs generalizing p with
  | nil => exact List.Sublist.refl _
  | cons f fs ih =>
    refine (ih (p.reportPassiveFill f)).trans ?_
    rcases (reportPassiveFill_table p f).2 with ⟨howned, -⟩ | ⟨-, howned, -⟩
    · rw [howned]
    · rw [howned]
      exact List.filter_sublist

/-- Only orders that are done are forgotten. -/
theorem mem_foldl_reportPassiveFill {o : Owned} {fs : List PassiveFill} {p : OrderPath}
    (ho : o ∈ p.owned) (hleft : ∀ f ∈ fs, f.leaves = 0 → f.restingOrderId ≠ o.exchangeOrderId) :
    o ∈ (fs.foldl reportPassiveFill p).owned := by
  induction fs generalizing p with
  | nil => exact ho
  | cons f fs ih =>
    obtain ⟨hfirst, hrest⟩ := List.forall_mem_cons.mp hleft
    refine ih ?_ hrest
    rcases (reportPassiveFill_table p f).2 with ⟨howned, -⟩ | ⟨hzero, howned, -⟩
    · rwa [howned]
    · rw [howned]
      exact List.mem_filter.mpr ⟨ho, decide_eq_true (hfirst hzero).symm⟩

end OrderPath

/-! ## Watching -/

namespace Engine

/-- Registering changes nothing but who is watched. -/
theorem foldl_watchOrder (ids : List UInt64) (e : Engine) :
    ∃ watched, ids.foldl watchOrder e = { e with watched } ∧
      ∀ id, id ∈ watched ↔ id ∈ e.watched ∨ id ∈ ids := by
  induction ids generalizing e with
  | nil => exact ⟨e.watched, rfl, by simp⟩
  | cons a ids ih =>
    have hone : ∃ watched, e.watchOrder a = { e with watched } ∧
        ∀ id, id ∈ watched ↔ id ∈ e.watched ∨ id = a := by
      unfold watchOrder
      split
      · rename_i hmem
        refine ⟨e.watched, rfl, fun id => ⟨.inl, ?_⟩⟩
        rintro (hid | rfl)
        · exact hid
        · exact List.contains_iff_mem.mp hmem
      · refine ⟨_, rfl, fun id => ?_⟩
        have hsplit := List.takeWhile_append_dropWhile (p := (· < a)) (l := e.watched)
        rw [List.mem_append, List.mem_cons]
        nth_rewrite 3 [← hsplit]
        rw [List.mem_append]
        tauto
    obtain ⟨watched, heq, hmem⟩ := hone
    obtain ⟨watched', heq', hmem'⟩ := ih (e.watchOrder a)
    rw [heq] at hmem' heq'
    refine ⟨watched', by rw [List.foldl_cons, heq, heq'], fun id => ?_⟩
    rw [hmem', hmem, List.mem_cons, or_assoc]

/-- And so does the end of it, which concerns no other order. -/
theorem foldl_unwatchOrder (ids : List UInt64) (e : Engine) :
    ∃ watched, ids.foldl unwatchOrder e = { e with watched } ∧ watched ⊆ e.watched ∧
      ∀ id ∈ e.watched, id ∉ ids → id ∈ watched := by
  induction ids generalizing e with
  | nil => exact ⟨e.watched, rfl, List.Subset.refl _, fun _ hid _ => hid⟩
  | cons a ids ih =>
    obtain ⟨watched, heq, hsub, hkeep⟩ := ih (e.unwatchOrder a)
    refine ⟨watched, heq, fun id hid => List.mem_of_mem_erase (hsub hid), fun id hid hnot => ?_⟩
    rw [List.mem_cons, not_or] at hnot
    exact hkeep id ((List.mem_erase_of_ne hnot.1).mpr hid) hnot.2

end Engine

namespace OrderPath

/-- What `catchUp` does to the engine: who is watched is brought up to date, and no fill is left to
report. -/
theorem catchUp_engine (p : OrderPath) (x : Exchange) :
    ∃ watched, (p.catchUp x).2.engine = { x.engine with watched, passiveFills := [] } ∧
      (∀ id ∈ watched, id ∈ x.engine.watched ∨ id ∈ p.toWatch) ∧
      ∀ id, id ∈ x.engine.watched ∨ id ∈ p.toWatch → id ∉ p.finished → id ∈ watched := by
  obtain ⟨w, hw, hmem⟩ := Engine.foldl_watchOrder p.toWatch x.engine
  obtain ⟨w', hw', hsub, hkeep⟩ := Engine.foldl_unwatchOrder p.finished { x.engine with watched := w }
  refine ⟨w', ?_, fun id hid => (hmem id).mp (hsub hid), fun id hid hnot => ?_⟩
  · unfold catchUp
    rw [hw, hw']
  · exact hkeep id ((hmem id).mpr hid) hnot

/-- And what it is that is reported. -/
theorem catchUp_path (p : OrderPath) (x : Exchange) :
    (p.catchUp x).1 = ((x.engine.passiveFills.take fillsPerReport).foldl reportPassiveFill
      { p with toWatch := [], finished := [] }).drop
        (x.engine.passiveFills.length - fillsPerReport) := by
  obtain ⟨w, hw, -⟩ := Engine.foldl_watchOrder p.toWatch x.engine
  obtain ⟨w', hw', -⟩ := Engine.foldl_unwatchOrder p.finished { x.engine with watched := w }
  unfold catchUp
  rw [hw, hw']

end OrderPath

end MarketData.Matching
