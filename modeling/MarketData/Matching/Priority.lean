import MarketData.Matching.RoundTrip
import MarketData.Matching.Struck

/-!
# `Matching/Priority.lean` — price-time priority

What `submit_reported` is for: an order goes down the opposite side of the book in *priority*,
best price first and oldest first within a price, as long as its limit crosses. It takes from each
order it meets what the two still have in common, at the price of the order that rests, and what
is left of it rests behind everything else at its own price. `fillsOf` and `afterFills` say that
of a list of resting orders, one order after the other, with no loop that re-reads a changing
book; `submitReported_priority` says that the loop does the same.

The loop can only stop early for the feed's sake (`IoError.OfFeed`): the front is always on the
book, and the book refuses neither a fill nor the removal of what was filled.

## A specification without a book

`InPriority` characterises the list of orders that are met: they are the orders of the other side
whose prices cross, and of two the better price comes first, or the earlier arrival. It does not say
how to find them. There is one such list (`Lib/Ladder.lean`), so whatever order a book keeps its
queues in, the fills are determined.

`afterFills` speaks of **every** resting order, of those that were not met as well. The list of a
book's orders in the order of arrival (`Book/Arrivals.lean`) is what it is applied to, and nothing
else about a book can be observed.
-/

set_option autoImplicit false

namespace MarketData.Matching

open MarketData.Wire MarketData.Book

/-! ## The specification -/

/-- `rs` are the orders an order of that side and limit crosses, best price first and, within a
price, in the order of their arrival. -/
structure InPriority (side : Side) (price : Int64) (os rs : List RestingOrder) : Prop where
  orders : ∀ o, o ∈ rs ↔ o ∈ os ∧ o.side = opposite side ∧ crosses side price o.price = true
  best : rs.Pairwise fun a b => Arrivals.bestLe (opposite side) a.price b.price = true
  oldest : ∀ p, (rs.filter fun o => o.price = p).Sublist os

/-- The fills of an order of which `remaining` is left, against the orders it meets. -/
def fillsOf : UInt32 → UInt64 → List RestingOrder → List Fill
  | _, _, [] => []
  | remaining, tradeId, r :: rs =>
    if remaining = 0 then []
    else
      let fill := min remaining r.quantity
      ⟨tradeId, r.price, fill, remaining - fill⟩ :: fillsOf (remaining - fill) (tradeId + 1) rs

/-- What is left of the order after the orders it meets. -/
def leftAfter : UInt32 → List RestingOrder → UInt32
  | remaining, [] => remaining
  | remaining, r :: rs => leftAfter (remaining - min remaining r.quantity) rs

/-- What is left of a resting order: nothing of one that is filled, less of one that is filled in
part, and every other order as it was. -/
def afterFills : UInt32 → List RestingOrder → RestingOrder → Option RestingOrder
  | _, [], o => some o
  | remaining, r :: rs, o =>
    if o.orderId = r.orderId then
      if remaining < r.quantity then some { o with quantity := r.quantity - remaining } else none
    else afterFills (remaining - min remaining r.quantity) rs o

/-- The order as it rests, if something of it is left. -/
def remainder (orderId : UInt64) (side : Side) (price : Int64) (quantity : UInt32) :
    List RestingOrder :=
  if quantity = 0 then [] else [⟨orderId, price, quantity, side⟩]

section Specification

variable {os rs : List RestingOrder} {r o : RestingOrder} {remaining : UInt32}

theorem sub_min_eq_zero {a b : UInt32} (h : a.toNat ≤ b.toNat) : a - min a b = 0 := by
  have hmin := toNat_min a b
  rw [← UInt32.toNat_inj, UInt32.toNat_sub_of_le _ _ (UInt32.le_iff_toNat_le.mpr (by omega)), hmin,
    Nat.min_eq_left h, Nat.sub_self]
  rfl

theorem leftAfter_zero (rs : List RestingOrder) : leftAfter 0 rs = 0 := by
  induction rs with
  | nil => rfl
  | cons r rs ih =>
    have hmin : (0 : UInt32) - min 0 r.quantity = 0 := sub_min_eq_zero (Nat.zero_le _)
    rw [leftAfter, hmin, ih]

theorem fillsOf_zero (tradeId : UInt64) (rs : List RestingOrder) : fillsOf 0 tradeId rs = [] := by
  cases rs with
  | nil => rfl
  | cons r rs => rw [fillsOf, if_pos rfl]

/-- Nothing left to fill leaves every order as it is. -/
theorem afterFills_zero (hrs : ∀ r ∈ rs, r ∈ os) (hvalid : Arrivals.Valid os) (ho : o ∈ os) :
    afterFills 0 rs o = some o := by
  induction rs with
  | nil => rfl
  | cons r rs ih =>
    have hr := hrs r (by simp)
    have hmin : (0 : UInt32) - min 0 r.quantity = 0 := sub_min_eq_zero (Nat.zero_le _)
    rw [afterFills, hmin]
    split
    · rename_i hid
      have hpos : 0 < r.quantity := by
        rw [UInt32.pos_iff_ne_zero]
        exact hvalid.quantities r hr
      rw [if_pos hpos, hvalid.eq_of_orderId ho hr hid, UInt32.sub_zero]
    · exact ih fun r' hr' => hrs r' (List.mem_cons_of_mem r hr')

/-- An order that is not met stays as it is. -/
theorem afterFills_of_notMem (h : ∀ r ∈ rs, r.orderId ≠ o.orderId) :
    afterFills remaining rs o = some o := by
  induction rs generalizing remaining with
  | nil => rfl
  | cons r rs ih =>
    rw [afterFills, if_neg fun hid => h r (by simp) hid.symm]
    exact ih fun r' hr' => h r' (List.mem_cons_of_mem r hr')

/-- What is left of an order is at the order's place. -/
theorem afterFills_place {o' : RestingOrder} (h : afterFills remaining rs o = some o') :
    o.orderId = o'.orderId ∧ o.side = o'.side ∧ o.price = o'.price := by
  induction rs generalizing remaining with
  | nil =>
    cases h
    exact ⟨rfl, rfl, rfl⟩
  | cons r rs ih =>
    rw [afterFills] at h
    split at h
    · split at h
      · cases h
        exact ⟨rfl, rfl, rfl⟩
      · cases h
    · exact ih h

/-- Where something is left of the order, every order it met is gone. -/
theorem afterFills_met (hleft : leftAfter remaining rs ≠ 0) (ho : o ∈ rs) :
    afterFills remaining rs o = none := by
  induction rs generalizing remaining with
  | nil => cases ho
  | cons r rs ih =>
    rw [leftAfter] at hleft
    rw [afterFills]
    split
    · have hnot : ¬ remaining < r.quantity := by
        intro hlt
        apply hleft
        rw [sub_min_eq_zero (Nat.le_of_lt (UInt32.lt_iff_toNat_lt.mp hlt))]
        exact leftAfter_zero rs
      rw [if_neg hnot]
    · rename_i hid
      rcases List.mem_cons.mp ho with rfl | ho
      · exact absurd rfl hid
      · exact ih hleft ho

/-- Nothing left to fill leaves the book as it is. -/
theorem filterMap_afterFills_zero (hvalid : Arrivals.Valid os) (hrs : ∀ r ∈ rs, r ∈ os) :
    os.filterMap (afterFills 0 rs) = os := by
  rw [List.filterMap_congr fun o ho => afterFills_zero hrs hvalid ho, List.filterMap_some]

/-- **`met` is the priority.** -/
theorem inPriority_met (side : Side) (price : Int64) (os : List RestingOrder) :
    InPriority side price os (met side price os) where
  orders := by
    intro o
    have hperm := (Arrivals.levels_perm os (opposite side)).mem_iff (a := o)
    rw [met, List.mem_filter, meets]
    constructor
    · rintro ⟨hwalk, hmeets⟩
      obtain ⟨hmem, hside⟩ := side_of_mem_walk hwalk
      refine ⟨hmem, hside, ?_⟩
      simpa [hside] using hmeets
    · rintro ⟨hmem, hside, hcrosses⟩
      refine ⟨hperm.mpr ?_, ?_⟩
      · exact List.mem_filter.mpr ⟨hmem, decide_eq_true hside⟩
      · simp [hside, hcrosses]
  best := (Arrivals.sorted_walk os (opposite side)).sublist List.filter_sublist
  oldest := by
    intro p
    have hqueue : (Arrivals.walk os (opposite side)).filter (fun o => o.price = p) =
        Arrivals.queue os (opposite side) p := Arrivals.queueOf_walk os (opposite side) p
    have hmet : (met side price os).filter (fun o => o.price = p) =
        (Arrivals.queue os (opposite side) p).filter (meets side price) := by
      rw [← hqueue, met, List.filter_filter, List.filter_filter]
      refine List.filter_congr fun o _ => ?_
      rw [Bool.and_comm]
    rw [hmet]
    exact List.filter_sublist.trans List.filter_sublist

theorem mem_of_met {side : Side} {price : Int64} {r : RestingOrder} (hr : r ∈ met side price os) :
    r ∈ os :=
  (((inPriority_met side price os).orders r).mp hr).1

end Specification

/-! ## What the feed can refuse -/

/-- An error of the feed: not a refusal of the book, and not a front that is not on it. -/
def IoError.OfFeed : IoError → Prop
  | .book _ => False
  | .frontNotOnBook _ => False
  | _ => True

namespace FeedPublisher

variable {env : Env} {p : FeedPublisher} {e : IoError}

theorem wireToIo_error {α : Type} {x : Except WireError α} (h : wireToIo x = .error e) :
    e.OfFeed := by
  cases x with
  | ok a => cases h
  | error err =>
    cases h
    trivial

theorem send_error {channel : UInt8} {bytes : Buf} (h : send env p channel bytes = .error e) :
    e.OfFeed := by
  unfold send at h
  split at h
  · cases h
  · cases h
    trivial

theorem sendArm_error {channel : UInt8} {drop : Bool} {len : Nat}
    (h : sendArm env p channel drop len = .error e) : e.OfFeed := by
  unfold sendArm at h
  split at h
  · cases h
  · rcases bind_eq_error h with hpatch | ⟨buf, -, hsend⟩
    · exact wireToIo_error hpatch
    · exact send_error hsend

theorem replayShadow_error {books : Books} {ms : List (Except WireError (UInt64 × Message))}
    (h : replayShadow books ms = .error e) : e.OfFeed := by
  induction ms generalizing books with
  | nil => cases h
  | cons m ms ih =>
    cases m with
    | error err =>
      cases h
      trivial
    | ok entry =>
      obtain ⟨seq, msg⟩ := entry
      rw [replayShadow] at h
      cases happly : applyMessage books msg with
      | mk result books' =>
        rw [happly] at h
        cases result with
        | ok u => exact ih h
        | error err =>
          cases h
          trivial

theorem selfCheck_error {shadow : Option Books} {datagram : Buf}
    (h : selfCheck shadow datagram = .error e) : e.OfFeed := by
  unfold selfCheck at h
  split at h
  · cases h
  · split at h
    · cases h
      trivial
    · exact replayShadow_error (map_eq_error h)

theorem flush_error (h : flush env p = .error e) : e.OfFeed := by
  unfold flush at h
  split at h
  · cases h
  rcases bind_eq_error h with hheader | ⟨buf, -, h⟩
  · exact wireToIo_error hheader
  rcases bind_eq_error h with hcount | ⟨buf', -, h⟩
  · exact wireToIo_error hcount
  rcases bind_eq_error h with harm | ⟨p₁, -, h⟩
  · exact sendArm_error harm
  rcases bind_eq_error h with harm | ⟨p₂, -, h⟩
  · exact sendArm_error harm
  rcases bind_eq_error h with hcheck | ⟨shadow, -, h⟩
  · exact selfCheck_error hcheck
  · cases h

theorem emit_error {encode : Buf → Except WireError (Buf × Nat)}
    (h : emit env p encode = .error e) : e.OfFeed := by
  unfold emit at h
  rcases bind_eq_error h with hstart | ⟨p₁, -, h⟩
  · rcases bind_eq_error hstart with hflush | ⟨p₂, -, hstart⟩
    · split at hflush
      · exact flush_error hflush
      · cases hflush
    · cases hstart
  split at h
  · cases h
  · split at h
    · cases h
      trivial
    · rcases bind_eq_error h with hflush | ⟨p₂, -, h⟩
      · exact flush_error hflush
      · rcases bind_eq_error h with hencode | ⟨written, -, h⟩
        · exact wireToIo_error hencode
        · cases h
  · cases h
    trivial

end FeedPublisher

section Errors

variable {env : Env} {e : IoError} {os : List RestingOrder}

theorem Engine.store_error {α : Type} {e' : Engine} {symbolId : UInt16}
    {r : Except BookError α × ReferenceBook} (h : e'.store symbolId r = .error e) :
    ∃ err, r.1 = .error err ∧ e = .book err := by
  obtain ⟨result, b⟩ := r
  cases result with
  | ok a => cases h
  | error err =>
    cases h
    exact ⟨err, rfl, rfl⟩

/-- **A publish fails for the feed's sake, or because the book refuses the change.** -/
theorem Engine.publish_error {x : Engine} {p : FeedPublisher} {symbolId : UInt16} {change : Change}
    (h : x.publish env p symbolId change = .error e) :
    e.OfFeed ∨ ∃ op err, change.op = some op ∧
      (OrderBook.step (x.books.book symbolId) op).1 = .error err ∧ e = .book err := by
  cases change with
  | trade =>
    rcases bind_eq_error h with hemit | ⟨a, -, h⟩
    · exact .inl (FeedPublisher.emit_error hemit)
    · cases h
  | add orderId side price quantity =>
    rcases bind_eq_error h with hstore | ⟨a, -, h⟩
    · obtain ⟨err, hr, rfl⟩ := Engine.store_error hstore
      exact .inr ⟨_, err, rfl, congrArg (Except.map fun _ => none) hr, rfl⟩
    · rcases bind_eq_error h with hemit | ⟨a, -, h⟩
      · exact .inl (FeedPublisher.emit_error hemit)
      · cases h
  | reduce orderId side price newQuantity =>
    rcases bind_eq_error h with hstore | ⟨a, -, h⟩
    · obtain ⟨err, hr, rfl⟩ := Engine.store_error hstore
      exact .inr ⟨_, err, rfl, congrArg (Except.map fun _ => none) hr, rfl⟩
    · rcases bind_eq_error h with hemit | ⟨a, -, h⟩
      · exact .inl (FeedPublisher.emit_error hemit)
      · cases h
  | replace orderId side newPrice newQuantity =>
    rcases bind_eq_error h with hstore | ⟨a, -, h⟩
    · obtain ⟨err, hr, rfl⟩ := Engine.store_error hstore
      exact .inr ⟨_, err, rfl, congrArg (Except.map fun _ => none) hr, rfl⟩
    · rcases bind_eq_error h with hemit | ⟨a, -, h⟩
      · exact .inl (FeedPublisher.emit_error hemit)
      · cases h
  | delete orderId side =>
    rcases bind_eq_error h with hstore | ⟨a, -, h⟩
    · obtain ⟨err, hr, rfl⟩ := Engine.store_error hstore
      exact .inr ⟨_, err, rfl, congrArg (Except.map some) hr, rfl⟩
    · rcases bind_eq_error h with hemit | ⟨a, -, h⟩
      · exact .inl (FeedPublisher.emit_error hemit)
      · cases h

/-- Where the book takes the change, a publish fails only for the feed's sake. -/
theorem Exchange.publish_error {x : Exchange} {symbolId : UInt16} {change : Change}
    (hreps : Reps (x.engine.books.book symbolId) os)
    (hop : ∀ op, change.op = some op → ∃ a, (Arrivals.step os op).1 = .ok a)
    (h : x.publish env symbolId change = .error e) : e.OfFeed := by
  rcases bind_eq_error h with hpublish | ⟨a, -, h⟩
  · rcases Engine.publish_error hpublish with hfeed | ⟨op, err, hchange, hstep, -⟩
    · exact hfeed
    · obtain ⟨a, ha⟩ := hop op hchange
      rw [(hreps.step op).1, ha] at hstep
      cases hstep
  · cases h

/-- The book takes the operation of a change that is made. -/
theorem Change.Makes.ok {b b' : ReferenceBook} {change : Change} {op : Op}
    (h : change.Makes b b') (hop : change.op = some op) :
    ∃ a, (OrderBook.step b op).1 = .ok a := by
  cases change with
  | trade => cases hop
  | add orderId side price quantity =>
    cases hop
    obtain ⟨u, hb⟩ := h
    refine ⟨none, ?_⟩
    show (b.add orderId side price quantity).1.map _ = _
    rw [hb]
    rfl
  | reduce orderId side price newQuantity =>
    cases hop
    obtain ⟨u, hb⟩ := h
    refine ⟨none, ?_⟩
    show (b.reduce orderId newQuantity).1.map _ = _
    rw [hb]
    rfl
  | replace orderId side newPrice newQuantity =>
    cases hop
    obtain ⟨u, hb⟩ := h
    refine ⟨none, ?_⟩
    show (b.replace orderId newPrice newQuantity).1.map _ = _
    rw [hb]
    rfl
  | delete orderId side =>
    cases hop
    obtain ⟨order, hb⟩ := h
    exact ⟨some order, congrArg (fun r => r.1.map some) hb⟩

/-- The change that a fill leaves behind is one the book takes. -/
theorem step_fillChange (hvalid : Arrivals.Valid os) {resting : RestingOrder} (hmem : resting ∈ os)
    (o : Aggressor) {remaining : UInt32} {op : Op}
    (hop : (Exchange.fillChange o resting.orderId resting (min remaining resting.quantity)).op
      = some op) : ∃ a, (Arrivals.step os op).1 = .ok a := by
  have hlookup := hvalid.lookup_of_mem hmem
  unfold Exchange.fillChange at hop
  split at hop
  · cases hop
    rw [Arrivals.step, hlookup]
    exact ⟨_, rfl⟩
  · rename_i hpart
    cases hop
    have hmin := toNat_min remaining resting.quantity
    have hlt : remaining.toNat < resting.quantity.toNat := by
      by_contra hge
      apply hpart
      rw [← UInt32.toNat_inj, hmin]
      omega
    have hsub : (resting.quantity - min remaining resting.quantity).toNat =
        resting.quantity.toNat - remaining.toNat := by
      rw [UInt32.toNat_sub_of_le _ _ (UInt32.le_iff_toNat_le.mpr (by omega)), hmin]
      omega
    have hne : resting.quantity - min remaining resting.quantity ≠ 0 := by
      intro hzero
      rw [hzero, UInt32.toNat_zero] at hsub
      omega
    have hle : ¬ resting.quantity < resting.quantity - min remaining resting.quantity := by
      rw [UInt32.lt_iff_toNat_lt, hsub]
      omega
    rw [Arrivals.step, hlookup]
    dsimp only
    rw [if_neg hne, if_neg hle]
    exact ⟨_, rfl⟩

end Errors

namespace Exchange

variable {env : Env} {x x' : Exchange} {o : Aggressor} {os : List RestingOrder} {e : IoError}

/-- A change that is published is one the book took. -/
theorem publish_step {symbolId : UInt16} {change : Change} {op : Op} (hop : change.op = some op)
    (hreps : Reps (x.engine.books.book symbolId) os)
    (h : x.publish env symbolId change = .ok x') :
    (∃ a, (Arrivals.step os op).1 = .ok a) ∧
      Reps (x'.engine.books.book symbolId) (Arrivals.step os op).2 := by
  obtain ⟨⟨seq, e', p'⟩, hpublish, h⟩ := bind_eq_ok h
  cases h
  refine ⟨?_, Engine.publish_reps hop hreps hpublish⟩
  obtain ⟨b, hmakes, -⟩ := Engine.publish_makes hpublish
  rw [← (hreps.step op).1]
  exact hmakes.ok hop

theorem publish_trade_reps {symbolId : UInt16} {tradeId aggressorOrderId restingOrderId : UInt64}
    {price : Int64} {quantity : UInt32} {side : Side}
    (hreps : Reps (x.engine.books.book symbolId) os)
    (h : x.publish env symbolId
      (.trade tradeId aggressorOrderId restingOrderId price quantity side) = .ok x') :
    Reps (x'.engine.books.book symbolId) os := by
  obtain ⟨⟨seq, e', p'⟩, hpublish, h⟩ := bind_eq_ok h
  cases h
  show Reps (e'.books.book symbolId) os
  rw [Engine.publish_trade_book hpublish]
  exact hreps

/-- A fill fails only for the feed's sake. -/
theorem fillResting_error {bestPrice : Int64} {resting : RestingOrder} {remaining : UInt32}
    (hreps : Reps (x.engine.books.book o.symbolId) os) (hmem : resting ∈ os)
    (h : x.fillResting env o bestPrice resting.orderId resting remaining = .error e) :
    e.OfFeed := by
  rcases bind_eq_error h with htrade | ⟨x₁, htrade, h⟩
  · have hno : ∀ op, (Change.trade x.engine.nextTradeId o.orderId resting.orderId bestPrice
        (min remaining resting.quantity) o.side).op = some op →
        ∃ a, (Arrivals.step os op).1 = .ok a := by
      intro op hop
      cases hop
    exact publish_error (show Reps (BookSet.book (x.mapEngine fun e =>
      { e with nextTradeId := e.nextTradeId + 1 }).engine.books o.symbolId) os from hreps) hno htrade
  · have hreps₁ : Reps (x₁.engine.books.book o.symbolId) os := by
      refine publish_trade_reps ?_ htrade
      exact hreps
    rcases bind_eq_error h with hchange | ⟨x₂, -, h⟩
    · exact publish_error hreps₁
        (fun op hop => step_fillChange hreps.valid hmem o hop) hchange
    · cases h

/-- A turn of the loop fails only for the feed's sake: the front is on the book. -/
theorem matchTurn_error {remaining : UInt32} (hreps : Reps (x.engine.books.book o.symbolId) os)
    (h : x.matchTurn env o remaining = .error e) : e.OfFeed := by
  have hcreated := reps_getOrCreate hreps
  unfold matchTurn at h
  dsimp only at h
  rw [hcreated.front_eq] at h
  split at h
  · cases h
  rename_i best restingId hfront
  split at h
  · obtain ⟨⟨resting, hmem, rfl, -, -⟩, -⟩ := Arrivals.front_eq_some hfront
    rw [hcreated.get_of_mem hmem] at h
    rcases bind_eq_error h with hfill | ⟨answer, -, h⟩
    · exact fillResting_error hcreated hmem hfill
    · cases h
  · cases h

/-- The loop fails only for the feed's sake. -/
theorem matchLoop_error {fuel : Nat} {remaining : UInt32}
    (hreps : Reps (x.engine.books.book o.symbolId) os)
    (h : matchLoop env o fuel x remaining = .error e) : e.OfFeed := by
  induction fuel generalizing x remaining os with
  | zero => cases h
  | succ fuel ih =>
    unfold matchLoop at h
    split at h
    · cases h
    rcases bind_eq_error h with hturn | ⟨⟨x₁, turn⟩, hturn, h⟩
    · exact matchTurn_error hreps hturn
    rcases matchTurn_met hreps hturn with ⟨rfl, -⟩ |
      ⟨resting, rest, remaining₁, fill, os', rfl, -, -, -, -, -, -, hreps', -⟩
    · cases h
    · rcases bind_eq_error h with hloop | ⟨answer, -, h⟩
      · exact ih hreps' hloop
      · cases h

/-! ## The loop and the specification -/

/-- Every book but that of `symbolId` is as it was, and so is the next order id. -/
structure Aside (symbolId : UInt16) (x x' : Exchange) : Prop where
  others : ∀ t, t ≠ symbolId → x'.engine.books.book t = x.engine.books.book t
  nextOrderId : x'.engine.nextOrderId = x.engine.nextOrderId

namespace Aside

variable {symbolId : UInt16} {x'' : Exchange}

theorem refl (symbolId : UInt16) (x : Exchange) : Aside symbolId x x := ⟨fun _ _ => rfl, rfl⟩

theorem trans (h : Aside symbolId x x') (h' : Aside symbolId x' x'') : Aside symbolId x x'' :=
  ⟨fun t ht => (h'.others t ht).trans (h.others t ht), h'.nextOrderId.trans h.nextOrderId⟩

/-- A step that leaves the books and the next order id alone. -/
theorem of_same {f : Engine → Engine} (hbooks : (f x.engine).books = x.engine.books)
    (hnext : (f x.engine).nextOrderId = x.engine.nextOrderId) :
    Aside symbolId x (x.mapEngine f) :=
  ⟨fun t _ => congrArg (BookSet.book · t) hbooks, hnext⟩

theorem getOrCreate (symbolId : UInt16) (x : Exchange) :
    Aside symbolId x (x.mapEngine fun e => e.getOrCreate symbolId) :=
  ⟨fun t _ => BookSet.agree_put_self x.engine.books symbolId t, rfl⟩

theorem modifySymbol (symbolId : UInt16) (f : SymbolState → SymbolState) (x : Exchange) :
    Aside symbolId x (x.mapEngine fun e => e.modifySymbol symbolId f) := by
  refine .of_same (Engine.books_modifySymbol _ _ _) ?_
  unfold Engine.modifySymbol
  split <;> rfl

theorem recordPassiveFill (symbolId : UInt16) (fill : PassiveFill) (x : Exchange) :
    Aside symbolId x (x.mapEngine fun e => e.recordPassiveFill fill) := by
  refine .of_same (Engine.books_recordPassiveFill _ _) ?_
  unfold Engine.recordPassiveFill
  split
  · split <;> rfl
  · rfl

theorem publish {change : Change} (h : x.publish env symbolId change = .ok x') :
    Aside symbolId x x' := by
  obtain ⟨⟨seq, e', p'⟩, hpublish, h⟩ := bind_eq_ok h
  cases h
  obtain ⟨b, -, rfl⟩ := Engine.publish_makes hpublish
  refine ⟨fun t ht => ?_, rfl⟩
  show BookSet.book (x.engine.books.put symbolId b) t = _
  rw [BookSet.book_put, if_neg (Ne.symm ht)]

theorem fillResting {bestPrice : Int64} {restingId : UInt64} {resting : RestingOrder}
    {remaining remaining' : UInt32} {fill : Fill}
    (h : x.fillResting env o bestPrice restingId resting remaining = .ok (x', remaining', fill)) :
    Aside o.symbolId x x' := by
  obtain ⟨x₁, htrade, h⟩ := bind_eq_ok h
  obtain ⟨x₂, hchange, h⟩ := bind_eq_ok h
  cases h
  have hcounted : Aside o.symbolId x
      (x.mapEngine fun e => { e with nextTradeId := e.nextTradeId + 1 }) := .of_same rfl rfl
  have hchanged := (hcounted.trans (publish htrade)).trans (publish hchange)
  refine Aside.trans ?_ (.recordPassiveFill o.symbolId _ _)
  split
  · exact hchanged.trans (.modifySymbol o.symbolId _ _)
  · exact hchanged

theorem rest {remaining : UInt32} {generatorMayRecycle : Bool}
    (h : x.rest env o remaining generatorMayRecycle = .ok x') : Aside o.symbolId x x' := by
  unfold Exchange.rest at h
  split at h
  · cases h
    exact .refl _ _
  · obtain ⟨x₁, hpublish, h⟩ := bind_eq_ok h
    cases h
    split
    · exact (publish hpublish).trans (.modifySymbol o.symbolId _ _)
    · exact publish hpublish

end Aside

/-- The order that is filled in whole is off the book. -/
theorem filterMap_afterFills_all {resting : RestingOrder} {rest : List RestingOrder}
    {remaining : UInt32} (hle : ¬ remaining < resting.quantity) :
    os.filterMap (afterFills remaining (resting :: rest)) =
      (Arrivals.without os resting.orderId).filterMap
        (afterFills (remaining - min remaining resting.quantity) rest) := by
  rw [Arrivals.without, List.filterMap_filter]
  refine List.filterMap_congr fun o' _ => ?_
  rw [afterFills]
  by_cases hid : o'.orderId = resting.orderId
  · rw [if_pos hid, if_neg hle, if_neg (by simp [hid])]
  · rw [if_neg hid, if_pos (by simp [hid])]

/-- The order that is filled in part has less of it left, and the others are as they were. -/
theorem filterMap_afterFills_part {resting : RestingOrder} {rest : List RestingOrder}
    {remaining : UInt32} (hvalid : Arrivals.Valid os) (hrest : ∀ r ∈ rest, r ∈ os)
    (hlt : remaining < resting.quantity)
    (hused : remaining - min remaining resting.quantity = 0) :
    os.filterMap (afterFills remaining (resting :: rest)) =
      Arrivals.resize os resting.orderId (resting.quantity - remaining) := by
  rw [Arrivals.resize, ← List.filterMap_eq_map]
  refine List.filterMap_congr fun o' ho' => ?_
  rw [afterFills, hused]
  by_cases hid : o'.orderId = resting.orderId
  · simp only [if_pos hid, if_pos hlt, Function.comp_apply]
  · simp only [if_neg hid, Function.comp_apply]
    exact afterFills_zero hrest hvalid ho'

/-- **The loop makes the fills of the specification**, and leaves the book it says. -/
theorem matchLoop_ok {fuel : Nat} {remaining remaining' : UInt32} {fills : List Fill}
    (hreps : Reps (x.engine.books.book o.symbolId) os)
    (hfuel : (x.engine.books.book o.symbolId).len < fuel)
    (h : matchLoop env o fuel x remaining = .ok (x', remaining', fills)) :
    fills = fillsOf remaining x.engine.nextTradeId (met o.side o.price os) ∧
      remaining' = leftAfter remaining (met o.side o.price os) ∧
      Reps (x'.engine.books.book o.symbolId)
        (os.filterMap (afterFills remaining (met o.side o.price os))) ∧
      Aside o.symbolId x x' := by
  induction fuel generalizing x remaining fills os with
  | zero => exact absurd hfuel (Nat.not_lt_zero _)
  | succ fuel ih =>
    unfold matchLoop at h
    split at h
    · rename_i hzero
      cases h
      rw [hzero, fillsOf_zero, leftAfter_zero,
        filterMap_afterFills_zero hreps.valid fun r hr => mem_of_met hr]
      exact ⟨rfl, rfl, hreps, .refl _ _⟩
    rename_i hpos
    obtain ⟨⟨x₁, turn⟩, hturn, h⟩ := bind_eq_ok h
    have hshrinks := @matchTurn_shrinks env x x₁ o remaining
    have hcreated := reps_getOrCreate hreps
    rcases matchTurn_cases hreps hturn with ⟨rfl, rfl, hmet⟩ |
      ⟨resting, rest, remaining₁, fill, rfl, hmet, hmem, hrest, hfill⟩
    · cases h
      rw [hmet]
      refine ⟨rfl, rfl, ?_, .getOrCreate _ _⟩
      have hall : ∀ q, os.filterMap (afterFills q []) = os := fun _ => List.filterMap_some
      rw [hall]
      exact hcreated
    obtain ⟨⟨x₂, remaining₂, fills₂⟩, hloop, h⟩ := bind_eq_ok h
    cases h
    obtain ⟨-, -, os', hreps', hfilled⟩ := fillResting_filled hcreated hmem hfill
    have haside := (Aside.getOrCreate o.symbolId x).trans (.fillResting hfill)
    obtain ⟨htradeId, hleft, hfill, -⟩ := fillResting_moves (hcreated.get_of_mem hmem) hfill
    have hrestMem : ∀ r ∈ rest, r ∈ os := by
      intro r hr
      have hr : r ∈ met o.side o.price os := hmet ▸ List.mem_cons_of_mem resting hr
      exact mem_of_met hr
    have hloop' : fills₂ = fillsOf remaining₁ x₁.engine.nextTradeId rest ∧
        remaining' = leftAfter remaining₁ rest ∧
        Reps (x'.engine.books.book o.symbolId)
          (os.filterMap (afterFills remaining (resting :: rest))) ∧ Aside o.symbolId x₁ x' := by
      cases hfilled with
      | part hlt hquantity hused =>
        rename_i quantity
        have hzero : remaining₁ = 0 := UInt32.toNat_inj.mp hused
        have hsub : quantity = resting.quantity - remaining := by
          rw [← UInt32.toNat_inj, hquantity,
            UInt32.toNat_sub_of_le _ _ (UInt32.le_iff_toNat_le.mpr (Nat.le_of_lt hlt))]
        have hbook := filterMap_afterFills_part hreps.valid hrestMem
          (UInt32.lt_iff_toNat_lt.mpr hlt) (hleft ▸ hzero)
        rw [hzero, matchLoop_done] at hloop
        cases hloop
        rw [hbook, ← hsub, hzero, fillsOf_zero, leftAfter_zero]
        exact ⟨rfl, rfl, hreps', .refl _ _⟩
      | all hle hless =>
        rw [filterMap_afterFills_all (fun hlt => absurd (UInt32.lt_iff_toNat_lt.mp hlt)
          (Nat.not_lt.mpr hle)), ← hleft]
        by_cases hzero : remaining₁ = 0
        · rw [hzero, matchLoop_done] at hloop
          cases hloop
          rw [hzero, fillsOf_zero, leftAfter_zero, filterMap_afterFills_zero hreps'.valid
            fun r hr => mem_of_met (hrest ▸ hr)]
          exact ⟨rfl, rfl, hreps', .refl _ _⟩
        · have hlen := (hshrinks hturn).resolve_left hzero
          have hih := ih hreps' (by omega) hloop
          rwa [hrest] at hih
    obtain ⟨hfills, hremaining, hbook, haside'⟩ := hloop'
    have hnext : x₁.engine.nextTradeId = x.engine.nextTradeId + 1 := htradeId
    rw [hmet, fillsOf, if_neg hpos, leftAfter, ← hleft, ← hnext, hfills, hfill]
    subst hleft
    exact ⟨rfl, hremaining, hbook, haside.trans haside'⟩

/-- What is left rests behind everything else, unless the feed refuses the message. -/
theorem rest_ok {remaining : UInt32} {generatorMayRecycle : Bool}
    (hreps : Reps (x.engine.books.book o.symbolId) os)
    (h : x.rest env o remaining generatorMayRecycle = .ok x') :
    Reps (x'.engine.books.book o.symbolId) (os ++ remainder o.orderId o.side o.price remaining) := by
  unfold rest at h
  unfold remainder
  split at h
  · rename_i hzero
    cases h
    rw [if_pos hzero, List.append_nil]
    exact hreps
  · rename_i hpos
    obtain ⟨x₁, hpublish, h⟩ := bind_eq_ok h
    have hbook : x'.engine.books.book o.symbolId = x₁.engine.books.book o.symbolId := by
      cases h
      split
      · simp only [mapEngine, Engine.pushLive, Engine.books_modifySymbol]
      · rfl
    obtain ⟨⟨answer, hstep⟩, hadded⟩ := publish_step rfl hreps hpublish
    rw [Arrivals.step, if_neg hpos] at hstep hadded
    rw [hbook, if_neg hpos]
    cases hlookup : Arrivals.lookup os o.orderId with
    | none =>
      rw [hlookup] at hadded
      exact hadded
    | some resting =>
      rw [hlookup] at hstep
      cases hstep

/-- What is left is refused a place only where its id rests on the book already. -/
theorem rest_error {remaining : UInt32} {generatorMayRecycle : Bool}
    (hreps : Reps (x.engine.books.book o.symbolId) os)
    (h : x.rest env o remaining generatorMayRecycle = .error e) :
    e.OfFeed ∨ e = .book (.duplicateOrderId o.orderId) ∧ ∃ r ∈ os, r.orderId = o.orderId := by
  unfold rest at h
  split at h
  · cases h
  · rename_i hpos
    rcases bind_eq_error h with hpublish | ⟨x₁, -, h⟩
    · rcases bind_eq_error hpublish with hadd | ⟨answer, -, h⟩
      · rcases Engine.publish_error hadd with hfeed | ⟨op, err, hop, hstep, rfl⟩
        · exact .inl hfeed
        · cases hop
          rw [(hreps.step _).1, Arrivals.step, if_neg hpos] at hstep
          cases hlookup : Arrivals.lookup os o.orderId with
          | none =>
            rw [hlookup] at hstep
            cases hstep
          | some resting =>
            rw [hlookup] at hstep
            cases hstep
            exact .inr ⟨rfl, resting, Arrivals.lookup_eq_some hlookup⟩
      · cases h
    · cases h

/-- An order that has something left is one that was on the book. -/
theorem exists_of_filterMap {remaining : UInt32} {rs : List RestingOrder} {r : RestingOrder}
    (hr : r ∈ os.filterMap (afterFills remaining rs)) : ∃ r' ∈ os, r'.orderId = r.orderId := by
  obtain ⟨r', hr', hafter⟩ := List.mem_filterMap.mp hr
  exact ⟨r', hr', (afterFills_place hafter).1⟩

/-- The engine that has given the order its id. -/
def numbered (x : Exchange) : Exchange :=
  x.mapEngine fun e => { e with nextOrderId := e.nextOrderId + 1 }

/-- The loop of a call is over before its fuel is. -/
theorem matchLoop_fuel {fuel : Nat} {remaining : UInt32}
    (hfuel : (x.engine.books.book o.symbolId).len < fuel) :
    matchLoop env o fuel x remaining =
      matchLoop env o ((x.engine.books.book o.symbolId).len + 1) x remaining := by
  induction hfuel with
  | refl => rfl
  | step hfuel ih => rw [matchLoop_succ hfuel, ih]

/-- What a submitted order makes of the book it is for. -/
theorem submitReported_ok {symbolId : UInt16} {side : Side} {price : Int64} {quantity : UInt32}
    {generatorMayRecycle : Bool} {outcome : SubmitOutcome} {fills : List Fill}
    (hreps : Reps (x.engine.books.book symbolId) os)
    (h : x.submitReported env symbolId side price quantity generatorMayRecycle =
      .ok (x', outcome, fills)) :
    fills = fillsOf quantity x.engine.nextTradeId (met side price os) ∧
      outcome.orderId = x.engine.nextOrderId ∧
      outcome.resting = leftAfter quantity (met side price os) ∧
      Reps (x'.engine.books.book symbolId) (os.filterMap (afterFills quantity (met side price os)) ++
        remainder outcome.orderId side price outcome.resting) ∧
      ∀ t, t ≠ symbolId → x'.engine.books.book t = x.engine.books.book t := by
  obtain ⟨⟨x₁, remaining, fills₁⟩, hloop, h⟩ := bind_eq_ok h
  obtain ⟨x₂, hrest, h⟩ := bind_eq_ok h
  cases h
  obtain ⟨hfills, hleft, hreps₁, haside⟩ := matchLoop_ok hreps (Nat.lt_succ_self _) hloop
  refine ⟨hfills, rfl, hleft, rest_ok hreps₁ hrest, fun t ht => ?_⟩
  exact (haside.trans (.rest hrest)).others t ht

/-- A submitted order can only fail for the feed's sake, or for an id that is on the book. -/
theorem submitReported_error {symbolId : UInt16} {side : Side} {price : Int64} {quantity : UInt32}
    {generatorMayRecycle : Bool} {e : IoError} (hreps : Reps (x.engine.books.book symbolId) os)
    (h : x.submitReported env symbolId side price quantity generatorMayRecycle = .error e) :
    e.OfFeed ∨ e = .book (.duplicateOrderId x.engine.nextOrderId) ∧
      ∃ r ∈ os, r.orderId = x.engine.nextOrderId := by
  rcases bind_eq_error h with hloop | ⟨⟨x₁, remaining, fills⟩, hloop, hrest⟩
  · exact .inl (matchLoop_error hreps hloop)
  · obtain ⟨-, -, hreps₁, -⟩ := matchLoop_ok hreps (Nat.lt_succ_self _) hloop
    rcases bind_eq_error hrest with hrest | ⟨x₂, -, h⟩
    · rcases rest_error hreps₁ hrest with hfeed | ⟨rfl, r, hr, hid⟩
      · exact .inl hfeed
      · obtain ⟨r', hr', hid'⟩ := exists_of_filterMap hr
        exact .inr ⟨rfl, r', hr', hid'.trans hid⟩
    · cases h

/-- **Matching is price-time priority.** Whatever books operations led to: the loop of a submitted
order ends by itself, and where the feed takes the messages the order is filled against the
opposite side in priority, each fill the lesser of the two quantities at the resting order's price.
What is filled and what rests make up the quantity, the remainder is behind everything else on the
book, and every order that is not met is where it was, as are the books of the other symbols. -/
theorem submitReported_priority (env : Env) {x : Exchange}
    (hbooks : BooksReachable x.engine.books) (symbolId : UInt16) (side : Side) (price : Int64) (quantity : UInt32) (generatorMayRecycle : Bool) :
    ∃ os rs, Reps (x.engine.books.book symbolId) os ∧ InPriority side price os rs ∧
      (∀ fuel, (x.engine.books.book symbolId).len < fuel →
        matchLoop env ⟨x.engine.nextOrderId, symbolId, side, price⟩ fuel x.numbered quantity =
          matchLoop env ⟨x.engine.nextOrderId, symbolId, side, price⟩
            ((x.engine.books.book symbolId).len + 1) x.numbered quantity) ∧
      match x.submitReported env symbolId side price quantity generatorMayRecycle with
      | .error e => e.OfFeed ∨
          e = .book (.duplicateOrderId x.engine.nextOrderId) ∧
            ∃ r ∈ os, r.orderId = x.engine.nextOrderId
      | .ok (x', outcome, fills) =>
        fills = fillsOf quantity x.engine.nextTradeId rs ∧
        outcome.orderId = x.engine.nextOrderId ∧
        outcome.resting = leftAfter quantity rs ∧
        sumQuantity fills = outcome.filled.toNat ∧
        outcome.filled.toNat + outcome.resting.toNat = quantity.toNat ∧
        Reps (x'.engine.books.book symbolId) (os.filterMap (afterFills quantity rs) ++
          remainder outcome.orderId side price outcome.resting) ∧
        (∀ r ∈ os, r ∉ rs → afterFills quantity rs r = some r) ∧
        ∀ t, t ≠ symbolId → x'.engine.books.book t = x.engine.books.book t := by
  obtain ⟨os, hreps⟩ := hbooks.reps symbolId
  refine ⟨os, met side price os, hreps, inPriority_met side price os, ?_, ?_⟩
  · intro fuel hfuel
    exact @matchLoop_fuel env x.numbered ⟨x.engine.nextOrderId, symbolId, side, price⟩ _ _ hfuel
  cases hsubmit : x.submitReported env symbolId side price quantity generatorMayRecycle with
  | error e => exact submitReported_error hreps hsubmit
  | ok answer =>
    obtain ⟨x', outcome, fills⟩ := answer
    obtain ⟨htaken, hfilled, -⟩ := submitReported_count hreps hsubmit
    obtain ⟨hfills, hid, hleft, hreps', hothers⟩ := submitReported_ok hreps hsubmit
    have hsum := htaken.sum
    have hsub : (quantity - outcome.resting).toNat =
        quantity.toNat - outcome.resting.toNat :=
      UInt32.toNat_sub_of_le _ _ (UInt32.le_iff_toNat_le.mpr (by omega))
    rw [← hfilled] at hsub
    refine ⟨hfills, hid, hleft, by omega, by omega, hreps', fun r hr hnot => ?_, hothers⟩
    refine afterFills_of_notMem fun r' hr' hsame => hnot ?_
    rwa [← hreps.valid.eq_of_orderId (mem_of_met hr') hr hsame]

/-- A bid for 12 at 110 takes the 5 that are offered there, and the 7 that are left rest. -/
theorem submitReported_priority_two_symbols :
    ∃ os rs, Reps (twoSymbols.book 1) os ∧ InPriority .bid 110 os rs ∧
      match submitReported Env.lossless ⟨{ books := twoSymbols, nextOrderId := 4 },
        FeedPublisher.new 4 72, []⟩ 1 .bid 110 12 true with
      | .error _ => False
      | .ok (_, outcome, fills) => fills = fillsOf 12 1 rs ∧ fills = [⟨1, 110, 5, 7⟩] ∧
          outcome = ⟨4, 5, 7⟩ := by
  obtain ⟨os, rs, hreps, hpriority, -, hanswer⟩ := submitReported_priority Env.lossless
    (x := ⟨{ books := twoSymbols, nextOrderId := 4 }, FeedPublisher.new 4 72, []⟩)
    booksReachable_twoSymbols 1 .bid 110 12 true
  have hruns : (submitReported Env.lossless ⟨{ books := twoSymbols, nextOrderId := 4 },
      FeedPublisher.new 4 72, []⟩ 1 .bid 110 12 true).map (fun a => (a.2.1, a.2.2)) =
        .ok (⟨4, 5, 7⟩, [⟨1, 110, 5, 7⟩]) := by decide +kernel
  refine ⟨os, rs, hreps, hpriority, ?_⟩
  cases hsubmit : submitReported Env.lossless ⟨{ books := twoSymbols, nextOrderId := 4 },
      FeedPublisher.new 4 72, []⟩ 1 .bid 110 12 true with
  | error e =>
    rw [hsubmit] at hruns
    cases hruns
  | ok answer =>
    obtain ⟨x', outcome, fills⟩ := answer
    rw [hsubmit] at hruns hanswer
    cases hruns
    exact ⟨hanswer.1, rfl, rfl⟩

end Exchange

end MarketData.Matching
