import MarketData.Book.FastBooks
import MarketData.Matching.Remainder
import MarketData.Trading.Exposure

/-!
# `Trading/FastConsumer.lean` — a fast book behind the order path

A client's price passes the gateway, the risk service and the engine, and none of them asks
whether it is on the symbol's grid. A consumer of the feed that keeps fast books takes every
message, and shows the engine's books, exactly as long as no order comes to rest off the grid.

## What is promised and what is supplied

A fast book is sized when it is made, with so many nodes and so many ticks. Whether these are enough
depends on how many orders rest and how far their prices spread, and neither the engine nor the path
knows of any such bound; the theorem is given them. The grid is another matter: it is a setting of
the symbol which the engine has as well, and **which it never compares a price with**.

`KeepsGrid` is a condition on a run that is read off the states before each step: what would come to
rest, and where (`places`, from `Matching/Remainder.lean`). An order that is off the grid and filled
at once does no harm, and so does one that is refused.

The consumer gets every message of the feed, in order; what becomes of one that does not is the feed
handler's business.
-/

set_option autoImplicit false

namespace MarketData.Trading

open MarketData.Wire MarketData.Book MarketData.Matching MarketData.Gateway MarketData.Risk

namespace System

/-- The prices at which a step will put an order on a book, read off the state before it. -/
def places (s : System) : Step → List (UInt16 × Int64)
  | .take =>
    match s.path.orders.pop with
    | some (.newOrder m, _) =>
      match m.side with
      | none => []
      | some side => s.exchange.restsAt m.symbolId side m.price m.quantity
    | _ => []
  | .flow c => s.exchange.places c
  | _ => []

/-- **No order comes to rest off its symbol's grid** in the run. -/
def KeepsGrid (env : Env) (caps : UInt16 → MboCapacity) (s : System) : List Step → Prop
  | [] => True
  | t :: ts => (∀ e ∈ s.places t, (caps e.1).OnGrid e.2) ∧
    match s.step env t with
    | .ok s' => s'.KeepsGrid env caps ts
    | .error _ => True

def decKeepsGrid (env : Env) (caps : UInt16 → MboCapacity) : (s : System) → (ts : List Step) →
    Decidable (s.KeepsGrid env caps ts)
  | _, [] => .isTrue trivial
  | s, t :: ts =>
    have : Decidable (match s.step env t with
        | .ok s' => s'.KeepsGrid env caps ts
        | .error _ => True) :=
      match s.step env t with
      | .ok s' => decKeepsGrid env caps s' ts
      | .error _ => .isTrue trivial
    @instDecidableAnd _ _ (List.decidableBAll _ _) this

instance (env : Env) (caps : UInt16 → MboCapacity) (s : System) (ts : List Step) :
    Decidable (s.KeepsGrid env caps ts) :=
  decKeepsGrid env caps s ts

end System

/-! ## Every step of the three processes -/

variable {env : Env} {s s' : System} {ms : List Message}

theorem catchUp_reproduces {p : OrderPath} {x : Exchange} (hx : Reproduces env x ms) :
    Reproduces env (p.catchUp x).2 ms := by
  have hbooks : (p.catchUp x).2.engine.books = x.engine.books := by
    obtain ⟨hwatched, -⟩ := Path.engine_watch p.toWatch x.engine
    obtain ⟨hunwatched, -⟩ :=
      Path.engine_unwatch p.finished (p.toWatch.foldl Engine.watchOrder x.engine)
    exact hunwatched.trans hwatched
  refine ⟨hx.emitted, hx.checkpoints, ?_⟩
  rw [hbooks]
  exact hx.books

theorem take_places (hx : Reproduces env s.exchange ms) (hplain : ∀ m ∈ ms, isSnapshot m = false)
    (h : s.take env = .ok s') : Continues env s'.exchange ms (s.places .take) := by
  unfold System.take at h
  unfold System.places
  cases hpop : s.path.orders.pop with
  | none =>
    rw [hpop] at h
    cases h
    exact hx.continues
  | some found =>
    obtain ⟨m, orders⟩ := found
    rw [hpop] at h
    obtain ⟨⟨path, exchange⟩, hdispatch, h⟩ := bind_eq_ok h
    cases h
    cases m with
    | newOrder m =>
      replace hdispatch : ({ s.path with orders } : OrderPath).onNewOrder env s.exchange m =
        .ok (path, exchange) := hdispatch
      unfold OrderPath.onNewOrder at hdispatch
      dsimp only
      cases hside : m.side with
      | none =>
        rw [hside] at hdispatch
        cases hdispatch
        exact hx.continues
      | some side =>
        rw [hside] at hdispatch
        obtain ⟨⟨x₁, outcome, fills⟩, hsubmit, hdispatch⟩ := bind_eq_ok hdispatch
        cases hdispatch
        exact hx.submitReported_places hplain hsubmit
    | cancelOrder m =>
      obtain ⟨⟨x₁, answer⟩, hcancel, hdispatch⟩ := bind_eq_ok hdispatch
      have hcontinues := hx.cancelReported hcancel
      cases answer <;> cases hdispatch <;> exact hcontinues
    | reconcileRequest requestId =>
      cases hdispatch
      exact hx.continues

/-- **A step** publishes messages that put on the books what could be read off before it. -/
theorem step_places (hx : Reproduces env s.exchange ms) (hplain : ∀ m ∈ ms, isSnapshot m = false)
    {t : Step} (h : s.step env t = .ok s') : Continues env s'.exchange ms (s.places t) := by
  cases t with
  | request m durable durable' =>
    cases h
    exact hx.continues
  | reconcile =>
    cases h
    exact hx.continues
  | riskOrder =>
    cases h
    have hkept : s.riskOrder.exchange = s.exchange := by
      unfold System.riskOrder
      split <;> rfl
    rw [hkept]
    exact hx.continues
  | riskReport =>
    cases h
    have hkept : s.riskReport.exchange = s.exchange := by
      unfold System.riskReport
      split <;> rfl
    rw [hkept]
    exact hx.continues
  | catchUp =>
    cases h
    exact (catchUp_reproduces hx).continues
  | take => exact take_places hx hplain h
  | flow c =>
    obtain ⟨exchange, hcall, h⟩ := bind_eq_ok h
    cases h
    exact hx.call_places hplain hcall
  | report durable =>
    cases h
    exact hx.continues

/-- **A run** puts on the books what its steps put there. -/
theorem run_places (caps : UInt16 → MboCapacity) {ts : List Step}
    (hx : Reproduces env s.exchange ms) (hplain : ∀ m ∈ ms, isSnapshot m = false)
    (h : s.run env ts = .ok s') :
    ∃ prices, Continues env s'.exchange ms prices ∧
      ((∀ e ∈ prices, (caps e.1).OnGrid e.2) ↔ s.KeepsGrid env caps ts) := by
  induction ts generalizing s ms with
  | nil =>
    cases h
    exact ⟨[], hx.continues, ⟨fun _ => trivial, fun _ _ h => (nomatch h)⟩⟩
  | cons t ts ih =>
    obtain ⟨s₁, hstep, h⟩ := bind_eq_ok h
    obtain ⟨more, hmore, hmorePlain, hmorePlaced⟩ := step_places hx hplain hstep
    have hplain₁ : ∀ m ∈ ms ++ more, isSnapshot m = false := by
      intro m hm
      rcases List.mem_append.mp hm with hm | hm
      · exact hplain m hm
      · exact hmorePlain m hm
    obtain ⟨prices, ⟨later, hlater, hlaterPlain, hlaterPlaced⟩, hiff⟩ := ih hmore hplain₁ h
    refine ⟨s.places t ++ prices, ⟨more ++ later, ?_, fun m hm => ?_, ?_⟩, ?_⟩
    · rw [← List.append_assoc]
      exact hlater
    · rcases List.mem_append.mp hm with hm | hm
      · exact hmorePlain m hm
      · exact hlaterPlain m hm
    · rw [List.filterMap_append, hmorePlaced, hlaterPlaced]
    · rw [List.forall_mem_append, hiff, System.KeepsGrid, hstep]

/-! ## The consumer -/

theorem results_ok {ms : List (UInt64 × Message)} {checkpoints : List Checkpoint}
    (h : List.Forall₂ Reproduced (replay Books.new ms) checkpoints) :
    ∀ r ∈ replay Books.new ms, r.result = .ok () := by
  generalize replay Books.new ms = applied at h
  induction h with
  | nil => exact fun _ h => (nomatch h)
  | cons hfirst _ ih => exact List.forall_mem_cons.mpr ⟨hfirst.applied, ih⟩

/-- The messages of a list that put an order somewhere, and the prices. -/
theorem onItsGrid_iff {caps : UInt16 → MboCapacity} :
    (∀ e ∈ numbered 1 ms, OnItsGrid caps e.2) ↔
      ∀ e ∈ ms.filterMap placedBy, (caps e.1).OnGrid e.2 := by
  have hmem : ∀ m ∈ ms, ∃ e ∈ numbered 1 ms, e.2 = m := by
    generalize (1 : UInt64) = first
    induction ms generalizing first with
    | nil => exact fun _ h => (nomatch h)
    | cons m ms ih =>
      intro m' hm'
      rcases List.mem_cons.mp hm' with rfl | hm'
      · exact ⟨_, List.mem_cons_self, rfl⟩
      · obtain ⟨e, he, heq⟩ := ih (first + 1) m' hm'
        exact ⟨e, List.mem_cons_of_mem _ he, heq⟩
  constructor
  · intro h e he
    obtain ⟨m, hm, hplaced⟩ := List.mem_filterMap.mp he
    obtain ⟨e', he', rfl⟩ := hmem m hm
    exact h e' he' e.1 e.2 hplaced
  · intro h e he symbolId price hplaced
    exact h (symbolId, price) (List.mem_filterMap.mpr ⟨e.2, mem_numbered he, hplaced⟩)

/-- **A consumer with fast books keeps up with the engine exactly as long as no order comes to
rest off its symbol's grid**, given the nodes and the width of window. Whatever the gateway, the
risk service, the engine and its own flow do, the fast books built for the configured symbols
take every message of the feed and then look like the engine's books just when every price an
order was put on the books at lies a whole number of ticks from the reference price. -/
theorem fast_consumer_keeps_up_iff {mappings : List SymbolMapping} {cfg : RiskConfig}
    {ids : List UInt16} {batchSize : UInt16} {maxDatagramBytes capacity : Nat}
    {shadow : Option Books} {symbols : List (UInt16 × MboCapacity)} {fallback : MboCapacity}
    {ts : List Step} {feed : FeedPublisher} {stream : List (UInt64 × Message)}
    (hsound : ∀ symbolId, (capacityOf symbols fallback symbolId).Sound)
    (hrun : (System.new mappings cfg (.new ids batchSize maxDatagramBytes shadow) capacity).run
      env ts = .ok s)
    (hflush : s.exchange.feed.flush env = .ok feed)
    (hstream : decodeAll feed.uplink = .ok stream)
    (hroom : (FastBooks.withSymbols symbols fallback).RoomAlong stream) :
    ((∀ r ∈ replay (FastBooks.withSymbols symbols fallback) stream, r.result = .ok ()) ∧
      ∀ symbolId, SameView ((replayed (FastBooks.withSymbols symbols fallback) stream).book symbolId)
        (s.exchange.engine.books.book symbolId)) ↔
    (System.new mappings cfg (.new ids batchSize maxDatagramBytes shadow) capacity).KeepsGrid env
      (capacityOf symbols fallback) ts := by
  have hnew := reproduces_new env ids batchSize maxDatagramBytes shadow
  obtain ⟨prices, ⟨ms, hms, hplain, hplaced⟩, hiff⟩ :=
    run_places (capacityOf symbols fallback) hnew (fun _ h => absurd h List.not_mem_nil) hrun
  rw [List.nil_append] at hms
  have hflushed := (hms.emitted.flush hflush).uplink
  obtain rfl : numbered 1 ms = stream := Except.ok.inj (hflushed.symm.trans hstream)
  obtain ⟨htaken, hmirrors⟩ := (mirrors_new symbols fallback hsound).stream
    (fun e he => hplain _ (mem_numbered he)) hroom (results_ok hms.checkpoints)
  rw [onItsGrid_iff, hplaced, hiff] at htaken
  constructor
  · rintro ⟨hkept, -⟩
    exact htaken.mp hkept
  · intro hgrid
    have hkept := htaken.mpr hgrid
    refine ⟨hkept, fun symbolId => ?_⟩
    rw [← hms.books symbolId]
    exact (hmirrors hkept).sameView symbolId

/-! ## One order on the grid, one off it -/

/-- The shipped symbol `ACME` and the limits the risk service has by default. -/
def acme : System :=
  .new [⟨['A', 'C', 'M', 'E'], 1⟩]
    { symbols := fun _ => ⟨true, 10000, 100000000000, 1000000, 0, 0⟩, symbolCount := 2,
      maxOpenOrders := 4 } (.new [1] 8 512 none) 8

/-- A fast book for it: eight ticks of 0.0100 around 100.0000. -/
def acmeCapacity : MboCapacity := ⟨8, 4, 1000000, 100⟩

def acmeBooks : FastBooks := .withSymbols [(1, acmeCapacity)] acmeCapacity

/-- Five to buy at a price go through the gateway and the risk service to the engine. -/
def buying (price : List Char) : List Step :=
  [.request ⟨[(Tag.msgType, ['D']), (Tag.clOrdId, ['1']), (Tag.symbol, ['A', 'C', 'M', 'E']),
      (Tag.side, ['1']), (Tag.orderQty, ['5']), (Tag.price, price)]⟩ true true,
    .riskOrder, .catchUp, .take]

theorem sound_acme (symbolId : UInt16) :
    (capacityOf [(1, acmeCapacity)] acmeCapacity symbolId).Sound := by
  have hsound : acmeCapacity.Sound :=
    ⟨⟨by decide, by decide⟩, by decide +kernel, by decide +kernel⟩
  rw [capacityOf_cons]
  split <;> exact hsound

/-- An order at 100.0100 rests; the consumer takes its message and shows the engine's books. -/
theorem fast_consumer_keeps_up_on_grid :
    ∃ s feed stream, acme.run Env.lossless (buying ['1', '0', '0', '.', '0', '1']) = .ok s ∧
      s.exchange.feed.flush Env.lossless = .ok feed ∧ decodeAll feed.uplink = .ok stream ∧
      stream.length = 1 ∧ (∀ r ∈ replay acmeBooks stream, r.result = .ok ()) ∧
      ∀ symbolId, SameView ((replayed acmeBooks stream).book symbolId)
        (s.exchange.engine.books.book symbolId) := by
  have hrun : (acme.run Env.lossless (buying ['1', '0', '0', '.', '0', '1'])).map
      (fun s => (s.exchange.feed.flush Env.lossless).map fun feed =>
        (decodeAll feed.uplink).map fun stream =>
          (stream.length, decide (acmeBooks.RoomAlong stream))) =
      .ok (.ok (.ok (1, true))) := by decide +kernel
  obtain ⟨s, hs, hviews⟩ := map_eq_ok hrun
  obtain ⟨feed, hfeed, hviews⟩ := map_eq_ok hviews
  obtain ⟨stream, hstream, hviews⟩ := map_eq_ok hviews
  obtain ⟨hlength, hroom⟩ := Prod.mk.inj hviews
  have hgrid : acme.KeepsGrid Env.lossless (capacityOf [(1, acmeCapacity)] acmeCapacity)
      (buying ['1', '0', '0', '.', '0', '1']) := by decide +kernel
  exact ⟨s, feed, stream, hs, hfeed, hstream, hlength,
    (fast_consumer_keeps_up_iff sound_acme hs hfeed hstream (of_decide_eq_true hroom)).mpr hgrid⟩

/-- An order at 100.0050 passes the risk service and rests on the engine's book, under the id 1.
The consumer has the nodes and the width for it, and refuses its message. -/
theorem resting_order_refused_off_grid :
    (acme.run Env.lossless (buying ['1', '0', '0', '.', '0', '0', '5'])).map
      (fun s => (s.risk.openOrders.map OpenOrder.price,
        ((s.exchange.engine.books.book 1).get 1).map RestingOrder.price)) =
      .ok ([1000050], some 1000050) ∧
    (acme.run Env.lossless (buying ['1', '0', '0', '.', '0', '0', '5'])).map
      (fun s => (s.exchange.feed.flush Env.lossless).map fun feed =>
        (decodeAll feed.uplink).map fun stream =>
          (decide (acmeBooks.RoomAlong stream), (replay acmeBooks stream).map (·.result))) =
      .ok (.ok (.ok (true, [.error (.book 1 (.priceOffGrid 1 1000050))]))) := by
  constructor
  · decide +kernel
  · decide +kernel

end MarketData.Trading
