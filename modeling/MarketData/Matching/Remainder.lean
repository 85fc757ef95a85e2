import MarketData.Book.Rebuild
import MarketData.Matching.Reproduction

/-!
# `Matching/Remainder.lean` — what is left of an order once it has matched

A submitted order takes from the other side of the book, best price first, until nothing there
crosses its price or nothing of it is left. What rests is its quantity less everything the other
side offered at its price, which can be read off the book before the order is submitted.

## Before, not after

Conditions on a run have to be conditions on its inputs and the states they meet. Whether an order
comes to rest is neither: it is what the matching loop leaves. `available` is a sum over the book
before the call, without an order of fills and without a loop, and **the remainder is a difference
of two numbers that are both there beforehand**. `restsAt` and `places` turn that into the prices at
which a call will put an order on a book, which is what a consumer with a limited grid has to know.

An amend that loses priority puts an order on the book as well, at its new price; one that keeps it
does not. The sums are in `Nat`, since no order of fills and no width matters to them.
-/

set_option autoImplicit false

namespace MarketData.Book.Arrivals

open MarketData.Wire MarketData.Ladder

variable {os : List RestingOrder} {s : Side}

theorem front_eq_none (h : front os s = none) {o : RestingOrder} (ho : o ∈ os) : o.side ≠ s := by
  intro hside
  have hqueue : queue os s o.price ≠ [] := by
    apply List.ne_nil_of_mem
    exact List.mem_filter.mpr ⟨ho, decide_eq_true ⟨hside, rfl⟩⟩
  have hmem := mem_levels.mpr ⟨rfl, hqueue⟩
  unfold front at h
  cases hlevels : levels os s with
  | nil =>
    rw [hlevels] at hmem
    cases hmem
  | cons level rest =>
    obtain ⟨price, q⟩ := level
    obtain ⟨-, hne⟩ := mem_levels.mp (hlevels ▸ List.mem_cons_self : (price, q) ∈ levels os s)
    rw [hlevels] at h
    cases q with
    | nil => exact hne rfl
    | cons o' q => cases h

/-- The front is an order of its side, and no order of the side has a better price. -/
theorem front_eq_some {price : Int64} {orderId : UInt64} (h : front os s = some (price, orderId)) :
    (∃ o ∈ os, o.orderId = orderId ∧ o.side = s ∧ o.price = price) ∧
    ∀ o ∈ os, o.side = s → bestLe s price o.price = true := by
  have hsorted := (isLevels_levels os s).sorted
  unfold front at h
  cases hlevels : levels os s with
  | nil =>
    rw [hlevels] at h
    cases h
  | cons level rest =>
    obtain ⟨best, q⟩ := level
    obtain ⟨hq, hne⟩ := mem_levels.mp (hlevels ▸ List.mem_cons_self : (best, q) ∈ levels os s)
    rw [hlevels] at h hsorted
    cases q with
    | nil => exact absurd rfl hne
    | cons first q =>
      obtain ⟨rfl, rfl⟩ := Prod.mk.inj (Option.some.inj h)
      have hfirst : first ∈ queue os s best := hq ▸ List.mem_cons_self
      obtain ⟨hmem, hwhere⟩ := List.mem_filter.mp hfirst
      obtain ⟨hside, hprice⟩ := of_decide_eq_true hwhere
      refine ⟨⟨first, hmem, rfl, hside, hprice⟩, fun o ho hoside => ?_⟩
      have hqueue : queue os s o.price ≠ [] := by
        apply List.ne_nil_of_mem
        exact List.mem_filter.mpr ⟨ho, decide_eq_true ⟨hoside, rfl⟩⟩
      have hlevel := mem_levels.mpr ⟨rfl, hqueue⟩
      rw [hlevels] at hlevel
      rcases List.mem_cons.mp hlevel with heq | hlater
      · rw [(Prod.mk.inj heq).1]
        have htotal := (ranking_bestLe s).total best best
        rwa [Bool.or_self] at htotal
      · exact ((List.pairwise_cons.mp hsorted).1 _ hlater).1

end MarketData.Book.Arrivals

namespace MarketData.Matching

open MarketData.Wire MarketData.Book

/-! ## What the other side offers -/

/-- The order rests on the other side, at a price the aggressor's crosses. -/
def meets (side : Side) (price : Int64) (o : RestingOrder) : Bool :=
  o.side = opposite side && crosses side price o.price

/-- What the orders offer an aggressor at its price. -/
def offered (side : Side) (price : Int64) (os : List RestingOrder) : Nat :=
  ((os.filter (meets side price)).map fun o => o.quantity.toNat).sum

/-- What the book offers an aggressor at its price. -/
def available (b : ReferenceBook) (side : Side) (price : Int64) : Nat :=
  offered side price (b.ordersInQueueOrder (opposite side))

section Offered

variable {side : Side} {price : Int64} {os : List RestingOrder} {b : ReferenceBook}

theorem offered_cons (o : RestingOrder) (os : List RestingOrder) :
    offered side price (o :: os) =
      (if meets side price o then o.quantity.toNat else 0) + offered side price os := by
  unfold offered
  rw [List.filter_cons]
  split
  · rw [List.map_cons, List.sum_cons]
  · rw [Nat.zero_add]

theorem available_eq (h : Reps b os) : available b side price = offered side price os := by
  have hwalk : b.ordersInQueueOrder (opposite side) =
      (Arrivals.levels os (opposite side)).flatMap (·.2) := h.shows.forEachOrder (opposite side)
  have hperm := (Arrivals.levels_perm os (opposite side)).filter (meets side price)
  have hside : (Arrivals.onSide os (opposite side)).filter (meets side price) =
      os.filter (meets side price) := by
    rw [Arrivals.onSide, List.filter_filter]
    refine List.filter_congr fun o _ => ?_
    unfold meets
    cases hmeets : decide (o.side = opposite side) <;> simp
  unfold available offered
  rw [hwalk, ← hside]
  exact (hperm.map _).sum_nat

theorem offered_eq_zero (h : ∀ o ∈ os, meets side price o = false) : offered side price os = 0 := by
  induction os with
  | nil => rfl
  | cons o os ih =>
    obtain ⟨hfirst, hrest⟩ := List.forall_mem_cons.mp h
    rw [offered_cons, hfirst, ih hrest]
    rfl

theorem offered_append (os os' : List RestingOrder) :
    offered side price (os ++ os') = offered side price os + offered side price os' := by
  unfold offered
  rw [List.filter_append, List.map_append, List.sum_append]

/-- An order of the list, and the others before and behind it, which have other ids. -/
theorem split_at {o : RestingOrder} (hvalid : Arrivals.Valid os) (ho : o ∈ os) :
    ∃ before behind, os = before ++ o :: behind ∧
      (∀ o' ∈ before, o'.orderId ≠ o.orderId) ∧ ∀ o' ∈ behind, o'.orderId ≠ o.orderId := by
  obtain ⟨before, behind, rfl⟩ := List.append_of_mem ho
  have hids := hvalid.ids
  rw [List.map_append, List.map_cons, List.nodup_append] at hids
  obtain ⟨-, hbehind, hbefore⟩ := hids
  refine ⟨before, behind, rfl, fun o' ho' => ?_, fun o' ho' heq => ?_⟩
  · exact hbefore _ (List.mem_map_of_mem ho') _ List.mem_cons_self
  · exact (List.nodup_cons.mp hbehind).1 (heq ▸ List.mem_map_of_mem ho')

theorem without_of_ne {orderId : UInt64} (h : ∀ o ∈ os, o.orderId ≠ orderId) :
    Arrivals.without os orderId = os :=
  List.filter_eq_self.mpr fun o ho => decide_eq_true (h o ho)

theorem resize_of_ne {orderId : UInt64} {quantity : UInt32} (h : ∀ o ∈ os, o.orderId ≠ orderId) :
    Arrivals.resize os orderId quantity = os := by
  unfold Arrivals.resize
  rw [List.map_congr_left fun o ho => if_neg (h o ho), List.map_id']

/-- An order that leaves takes its quantity from the offer. -/
theorem offered_without {o : RestingOrder} (hvalid : Arrivals.Valid os) (ho : o ∈ os)
    (hmeets : meets side price o = true) :
    offered side price (Arrivals.without os o.orderId) + o.quantity.toNat =
      offered side price os := by
  obtain ⟨before, behind, rfl, hbefore, hbehind⟩ := split_at hvalid ho
  have hwithout : Arrivals.without (before ++ o :: behind) o.orderId = before ++ behind := by
    have hself : Arrivals.without (o :: behind) o.orderId = Arrivals.without behind o.orderId :=
      List.filter_cons_of_neg (by simp)
    have happend : Arrivals.without (before ++ o :: behind) o.orderId =
        Arrivals.without before o.orderId ++ Arrivals.without (o :: behind) o.orderId :=
      List.filter_append ..
    rw [happend, hself, without_of_ne hbefore, without_of_ne hbehind]
  rw [hwithout, offered_append, offered_append, offered_cons, if_pos hmeets]
  omega

/-- An order that shrinks takes the difference. -/
theorem offered_resize {o : RestingOrder} (quantity : UInt32) (hvalid : Arrivals.Valid os)
    (ho : o ∈ os) (hmeets : meets side price o = true) :
    offered side price (Arrivals.resize os o.orderId quantity) + o.quantity.toNat =
      offered side price os + quantity.toNat := by
  obtain ⟨before, behind, rfl, hbefore, hbehind⟩ := split_at hvalid ho
  have hresize : Arrivals.resize (before ++ o :: behind) o.orderId quantity =
      before ++ { o with quantity := quantity } :: behind := by
    have happend : Arrivals.resize (before ++ o :: behind) o.orderId quantity =
        Arrivals.resize before o.orderId quantity ++ (if o.orderId = o.orderId then
          { o with quantity := quantity } else o) :: Arrivals.resize behind o.orderId quantity :=
      List.map_append ..
    rw [happend, if_pos rfl, resize_of_ne hbefore, resize_of_ne hbehind]
  have hstill : meets side price { o with quantity := quantity } = true := hmeets
  rw [hresize, offered_append, offered_append, offered_cons, offered_cons, if_pos hmeets,
    if_pos hstill]
  dsimp only
  omega

/-- Where the front does not cross, nothing does. -/
theorem meets_of_front (h : ∀ best orderId,
    Arrivals.front os (opposite side) = some (best, orderId) → crosses side price best = false)
    {o : RestingOrder} (ho : o ∈ os) : meets side price o = false := by
  unfold meets
  by_cases hside : o.side = opposite side
  · cases hfront : Arrivals.front os (opposite side) with
    | none => exact absurd hside (Arrivals.front_eq_none hfront ho)
    | some found =>
      obtain ⟨best, orderId⟩ := found
      have hnot := h best orderId hfront
      have hbest := (Arrivals.front_eq_some hfront).2 o ho hside
      rw [Bool.and_eq_false_iff]
      right
      cases side with
      | bid =>
        simp only [opposite, Arrivals.bestLe, crosses, decide_eq_true_eq, decide_eq_false_iff_not]
          at hbest hnot ⊢
        exact fun hle => hnot (Int64.le_trans hbest hle)
      | ask =>
        simp only [opposite, Arrivals.bestLe, crosses, decide_eq_true_eq, decide_eq_false_iff_not]
          at hbest hnot ⊢
        exact fun hle => hnot (Int64.le_trans hle hbest)
  · rw [decide_eq_false hside, Bool.false_and]

theorem offered_of_front (h : ∀ best orderId,
    Arrivals.front os (opposite side) = some (best, orderId) → crosses side price best = false) :
    offered side price os = 0 :=
  offered_eq_zero fun _ ho => meets_of_front h ho

end Offered

/-! ## The matching loop -/

variable {env : Env} {x x' : Exchange} {o : Aggressor} {os : List RestingOrder}

/-- A change makes of the book what its operation does. -/
theorem Change.Makes.step {b b' : ReferenceBook} {change : Change} {op : Op}
    (h : change.Makes b b') (hop : change.op = some op) : b' = (OrderBook.step b op).2 := by
  cases change with
  | trade => cases hop
  | add =>
    cases hop
    exact (congrArg Prod.snd h.choose_spec).symm
  | reduce =>
    cases hop
    exact (congrArg Prod.snd h.choose_spec).symm
  | replace =>
    cases hop
    exact (congrArg Prod.snd h.choose_spec).symm
  | delete =>
    cases hop
    exact (congrArg Prod.snd h.choose_spec).symm

/-- The book of the symbol after a change to it. -/
theorem Engine.publish_reps {e e' : Engine} {p p' : FeedPublisher} {symbolId : UInt16}
    {change : Change} {op : Op} {seq : UInt64} (hop : change.op = some op)
    (hreps : Reps (e.books.book symbolId) os)
    (h : e.publish env p symbolId change = .ok (seq, e', p')) :
    Reps (e'.books.book symbolId) (Arrivals.step os op).2 := by
  obtain ⟨b, hmakes, rfl⟩ := Engine.publish_makes h
  rw [BookSet.book_put, if_pos rfl, hmakes.step hop]
  exact (hreps.step op).2

theorem toNat_min (a b : UInt32) : (min a b).toNat = min a.toNat b.toNat := by
  have hdef : min a b = if a ≤ b then a else b := rfl
  rw [hdef]
  split
  · rename_i hle
    rw [Nat.min_eq_left (UInt32.le_iff_toNat_le.mp hle)]
  · rename_i hle
    rw [UInt32.le_iff_toNat_le] at hle
    rw [Nat.min_eq_right (by omega)]

/-- What a fill leaves of the book: the resting order is gone, or the order is used up and the
resting one is smaller. -/
inductive Filled (os : List RestingOrder) (resting : RestingOrder) (remaining remaining' : UInt32) :
    List RestingOrder → Prop where
  | all (hle : resting.quantity.toNat ≤ remaining.toNat)
      (hleft : remaining'.toNat = remaining.toNat - resting.quantity.toNat) :
      Filled os resting remaining remaining' (Arrivals.without os resting.orderId)
  | part {quantity : UInt32} (hlt : remaining.toNat < resting.quantity.toNat)
      (hquantity : quantity.toNat = resting.quantity.toNat - remaining.toNat)
      (hleft : remaining'.toNat = 0) :
      Filled os resting remaining remaining' (Arrivals.resize os resting.orderId quantity)

theorem Exchange.fillResting_filled {bestPrice : Int64} {resting : RestingOrder}
    {remaining remaining' : UInt32} {fill : Fill}
    (hreps : Reps (x.engine.books.book o.symbolId) os) (hmem : resting ∈ os)
    (h : x.fillResting env o bestPrice resting.orderId resting remaining =
      .ok (x', remaining', fill)) :
    fill.quantity = min remaining resting.quantity ∧ fill.leaves = remaining' ∧
      ∃ os', Reps (x'.engine.books.book o.symbolId) os' ∧
        Filled os resting remaining remaining' os' := by
  obtain ⟨x₁, hfirst, h⟩ := bind_eq_ok h
  obtain ⟨x₂, hsecond, h⟩ := bind_eq_ok h
  obtain ⟨⟨seq₁, e₁, p₁⟩, htrade, hx₁⟩ := bind_eq_ok hfirst
  obtain ⟨⟨seq₂, e₂, p₂⟩, hchange, hx₂⟩ := bind_eq_ok hsecond
  cases hx₁
  cases hx₂
  cases h
  refine ⟨rfl, rfl, ?_⟩
  have htraded : Reps (e₁.books.book o.symbolId) os := by
    rw [Engine.publish_trade_book htrade]
    exact hreps
  have hlookup := hreps.valid.lookup_of_mem hmem
  have hmin := toNat_min remaining resting.quantity
  have hleft : (remaining - min remaining resting.quantity).toNat =
      remaining.toNat - min remaining.toNat resting.quantity.toNat := by
    rw [UInt32.toNat_sub_of_le _ _ (UInt32.le_iff_toNat_le.mpr (by omega)), hmin]
  by_cases hall : min remaining resting.quantity = resting.quantity
  · rw [fillChange, if_pos hall] at hchange
    have hafter := Engine.publish_reps rfl htraded hchange
    rw [Arrivals.step, hlookup] at hafter
    refine ⟨Arrivals.without os resting.orderId, ?_, ?_⟩
    · simp only [if_pos hall, mapEngine, Engine.books_recordPassiveFill, Engine.removeLive,
        Engine.books_modifySymbol]
      exact hafter
    · rw [hall] at hmin
      exact .all (by omega) (by omega)
  · rw [fillChange, if_neg hall] at hchange
    have hshort : remaining.toNat < resting.quantity.toNat := by
      by_contra hge
      apply hall
      rw [← UInt32.toNat_inj, hmin]
      omega
    have hsub : (resting.quantity - min remaining resting.quantity).toNat =
        resting.quantity.toNat - remaining.toNat := by
      rw [UInt32.toNat_sub_of_le _ _ (UInt32.le_iff_toNat_le.mpr (by omega)), hmin]
      omega
    have hafter := Engine.publish_reps rfl htraded hchange
    have hne : resting.quantity - min remaining resting.quantity ≠ 0 := by
      intro hzero
      rw [hzero] at hsub
      simp only [UInt32.toNat_zero] at hsub
      omega
    have hle : ¬resting.quantity < resting.quantity - min remaining resting.quantity := by
      rw [UInt32.lt_iff_toNat_lt, hsub]
      omega
    rw [Arrivals.step, hlookup] at hafter
    dsimp only at hafter
    rw [if_neg hne, if_neg hle] at hafter
    refine ⟨Arrivals.resize os resting.orderId (resting.quantity - min remaining resting.quantity),
      ?_, .part hshort hsub (by omega)⟩
    simp only [if_neg hall, mapEngine, Engine.books_recordPassiveFill]
    exact hafter

/-- **One fill** takes as much from the offer as from the order, or uses the order up. -/
theorem Exchange.fillResting_offered {bestPrice : Int64} {resting : RestingOrder}
    {remaining remaining' : UInt32} {fill : Fill}
    (hreps : Reps (x.engine.books.book o.symbolId) os) (hmem : resting ∈ os)
    (hmeets : meets o.side o.price resting = true)
    (h : x.fillResting env o bestPrice resting.orderId resting remaining =
      .ok (x', remaining', fill)) :
    ∃ os', Reps (x'.engine.books.book o.symbolId) os' ∧
      remaining'.toNat - offered o.side o.price os' =
        remaining.toNat - offered o.side o.price os := by
  obtain ⟨-, -, os', hreps', hfilled⟩ := fillResting_filled hreps hmem h
  refine ⟨os', hreps', ?_⟩
  have hoffer := offered_without hreps.valid hmem hmeets
  cases hfilled with
  | all hle hleft => omega
  | part hlt hquantity hleft =>
    rename_i quantity
    have hshrunk := offered_resize quantity hreps.valid hmem hmeets
    omega

/-- The book a turn starts with. -/
theorem Exchange.reps_getOrCreate {symbolId : UInt16}
    (h : Reps (x.engine.books.book symbolId) os) :
    Reps ((x.mapEngine fun e => e.getOrCreate symbolId).engine.books.book symbolId) os := by
  have hbook : (x.mapEngine fun e => e.getOrCreate symbolId).engine.books.book symbolId =
      x.engine.books.book symbolId := BookSet.agree_put_self x.engine.books symbolId symbolId
  rw [hbook]
  exact h

theorem Exchange.matchTurn_offered {remaining : UInt32} {turn : Option (UInt32 × Fill)}
    (hreps : Reps (x.engine.books.book o.symbolId) os)
    (h : x.matchTurn env o remaining = .ok (x', turn)) :
    (turn = none → offered o.side o.price os = 0) ∧
    ∀ taken, turn = some taken → ∃ os', Reps (x'.engine.books.book o.symbolId) os' ∧
      taken.1.toNat - offered o.side o.price os' =
        remaining.toNat - offered o.side o.price os := by
  have hcreated := Exchange.reps_getOrCreate hreps
  unfold Exchange.matchTurn at h
  dsimp only at h
  rw [hcreated.front_eq] at h
  split at h
  · rename_i hfront
    cases h
    refine ⟨fun _ => offered_of_front fun best orderId hsome => ?_, fun _ h => (nomatch h)⟩
    rw [hfront] at hsome
    cases hsome
  · rename_i best restingId hfront
    split at h
    · rename_i hcrosses
      obtain ⟨⟨resting, hmem, rfl, hside, hprice⟩, -⟩ := Arrivals.front_eq_some hfront
      rw [hcreated.get_of_mem hmem] at h
      obtain ⟨⟨x₂, remaining₂, fill⟩, hfill, h⟩ := bind_eq_ok h
      cases h
      refine ⟨fun h => (nomatch h), fun taken htaken => ?_⟩
      obtain rfl := Option.some.inj htaken
      refine Exchange.fillResting_offered hcreated hmem ?_ hfill
      rw [meets, decide_eq_true hside, hprice, hcrosses]
      rfl
    · rename_i hcrosses
      cases h
      refine ⟨fun _ => offered_of_front fun best' orderId hsome => ?_, fun _ h => (nomatch h)⟩
      rw [hfront] at hsome
      cases hsome
      exact (Bool.not_eq_true _).mp hcrosses

/-- **The loop leaves what the other side did not offer.** -/
theorem Exchange.matchLoop_offered {fuel : Nat} {remaining remaining' : UInt32} {fills : List Fill}
    (hreps : Reps (x.engine.books.book o.symbolId) os)
    (hfuel : (x.engine.books.book o.symbolId).len < fuel)
    (h : matchLoop env o fuel x remaining = .ok (x', remaining', fills)) :
    remaining'.toNat = remaining.toNat - offered o.side o.price os := by
  induction fuel generalizing x remaining fills os with
  | zero => exact absurd hfuel (Nat.not_lt_zero _)
  | succ fuel ih =>
    unfold matchLoop at h
    split at h
    · rename_i hzero
      cases h
      rw [hzero, UInt32.toNat_zero, Nat.zero_sub]
    · obtain ⟨⟨x₁, turn⟩, hturn, h⟩ := bind_eq_ok h
      obtain ⟨hnone, hsome⟩ := matchTurn_offered hreps hturn
      cases turn with
      | none =>
        cases h
        rw [hnone rfl, Nat.sub_zero]
      | some taken =>
        obtain ⟨⟨x₂, remaining₂, fills₂⟩, hloop, h⟩ := bind_eq_ok h
        cases h
        obtain ⟨os', hreps', hsame⟩ := hsome taken rfl
        obtain ⟨remaining₁, fill⟩ := taken
        cases matchTurn_shrinks hturn with
        | inl hdone =>
          dsimp only at hloop hsame
          rw [hdone] at hloop hsame
          rw [matchLoop_done] at hloop
          cases hloop
          rw [← hsame, UInt32.toNat_zero, Nat.zero_sub]
        | inr hlen =>
          rw [ih hreps' (by omega) hloop]
          exact hsame

/-- **What rests of a submitted order** can be read off the book before. -/
theorem Exchange.submitReported_resting {symbolId : UInt16} {side : Side} {price : Int64}
    {quantity : UInt32} {generatorMayRecycle : Bool} {outcome : SubmitOutcome} {fills : List Fill}
    (hreps : Reps (x.engine.books.book symbolId) os)
    (h : x.submitReported env symbolId side price quantity generatorMayRecycle =
      .ok (x', outcome, fills)) :
    outcome.resting = 0 ↔
      quantity.toNat ≤ available (x.engine.books.book symbolId) side price := by
  obtain ⟨⟨x₁, remaining, fills₁⟩, hloop, h⟩ := bind_eq_ok h
  obtain ⟨x₂, hrest, h⟩ := bind_eq_ok h
  cases h
  have hleft := matchLoop_offered hreps (Nat.lt_succ_self _) hloop
  dsimp only at hleft ⊢
  rw [available_eq hreps, ← UInt32.toNat_inj, hleft, UInt32.toNat_zero]
  omega

/-! ## What a call puts on the books -/

namespace Exchange

/-- What of a submitted order will rest, and at which price: nothing if the other side offers its
whole quantity. -/
def restsAt (x : Exchange) (symbolId : UInt16) (side : Side) (price : Int64) (quantity : UInt32) :
    List (UInt16 × Int64) :=
  if quantity.toNat ≤ available (x.engine.books.book symbolId) side price then []
  else [(symbolId, price)]

/-- The prices at which a call will put an order on a book. -/
def places (x : Exchange) : Call → List (UInt16 × Int64)
  | .submit symbolId side price quantity => x.restsAt symbolId side price quantity
  | .submitReported symbolId side price quantity _ => x.restsAt symbolId side price quantity
  | .cancel .. => []
  | .amend symbolId orderId newPrice newQuantity =>
    x.amendedTo symbolId orderId newPrice newQuantity
  | .flushOnTimer => []

end Exchange

variable {ms : List Message}

/-- The books of a consumer of a feed without snapshots are books of resting orders. -/
theorem reps_replayed {books : Books} {stream : List (UInt64 × Message)}
    (hplain : ∀ e ∈ stream, isSnapshot e.2 = false)
    (h : ∀ symbolId, ∃ os, Reps (books.book symbolId) os) (symbolId : UInt16) :
    ∃ os, Reps ((replayed books stream).book symbolId) os := by
  induction stream generalizing books with
  | nil => exact h symbolId
  | cons e stream ih =>
    obtain ⟨sequence, m⟩ := e
    obtain ⟨hfirst, hrest⟩ := List.forall_mem_cons.mp hplain
    refine ih hrest fun t => ?_
    cases hop : opOf m with
    | none =>
      rw [(applyMessage_of_none books books hop hfirst).2 t]
      exact h t
    | some asked =>
      obtain ⟨asked, op⟩ := asked
      rw [(applyMessage_of_op books hop).2 t]
      split
      · obtain ⟨os, hos⟩ := h asked
        exact ⟨_, (hos.step op).2⟩
      · exact h t

theorem mem_numbered {first : UInt64} {ms : List Message} {e : UInt64 × Message}
    (h : e ∈ numbered first ms) : e.2 ∈ ms := by
  induction ms generalizing first with
  | nil => cases h
  | cons m ms ih =>
    rcases List.mem_cons.mp h with rfl | h
    · exact List.mem_cons_self
    · exact List.mem_cons_of_mem _ (ih h)

theorem Reproduces.reps (hx : Reproduces env x ms) (hplain : ∀ m ∈ ms, isSnapshot m = false)
    (symbolId : UInt16) : ∃ os, Reps (x.engine.books.book symbolId) os := by
  have hnew : ∀ t, ∃ os, Reps (Books.new.book t) os := fun _ => ⟨[], Reps.new⟩
  rw [← hx.books symbolId]
  exact reps_replayed (fun e he => hplain _ (mem_numbered he)) hnew symbolId

/-- **A submitted order** puts on the books what could be read off before. -/
theorem Reproduces.submitReported_places {symbolId : UInt16} {side : Side} {price : Int64}
    {quantity : UInt32} {generatorMayRecycle : Bool} {outcome : SubmitOutcome} {fills : List Fill}
    (hx : Reproduces env x ms) (hplain : ∀ m ∈ ms, isSnapshot m = false)
    (h : x.submitReported env symbolId side price quantity generatorMayRecycle =
      .ok (x', outcome, fills)) : Continues env x' ms (x.restsAt symbolId side price quantity) := by
  obtain ⟨os, hreps⟩ := hx.reps hplain symbolId
  have hrests := Exchange.submitReported_resting hreps h
  have hcontinues := hx.submitReported h
  unfold Exchange.restsAt
  simp only [hrests] at hcontinues
  exact hcontinues

/-- **Every call** puts on the books what could be read off before. -/
theorem Reproduces.call_places {c : Call} (hx : Reproduces env x ms)
    (hplain : ∀ m ∈ ms, isSnapshot m = false) (h : x.call env c = .ok x') :
    Continues env x' ms (x.places c) := by
  cases c with
  | submit symbolId side price quantity =>
    obtain ⟨⟨x₁, outcome, fills⟩, hsubmit, rfl⟩ := map_eq_ok h
    exact hx.submitReported_places hplain hsubmit
  | submitReported symbolId side price quantity generatorMayRecycle =>
    obtain ⟨⟨x₁, outcome, fills⟩, hsubmit, rfl⟩ := map_eq_ok h
    exact hx.submitReported_places hplain hsubmit
  | cancel symbolId orderId =>
    obtain ⟨⟨x₁, answer⟩, hcancel, rfl⟩ := map_eq_ok h
    exact hx.cancelReported hcancel
  | amend symbolId orderId newPrice newQuantity => exact hx.amend h
  | flushOnTimer =>
    obtain ⟨p, hflush, rfl⟩ := map_eq_ok h
    exact (hx.flushOnTimer hflush).continues

end MarketData.Matching
