import MarketData.Matching.Priority
import MarketData.Lib.Run

/-!
# `Matching/Touch.lean` — whether the engine's books are crossed

A submitted order matches before it rests, so what rests of it does not reach the other side. An
amend does not match: `amend` takes a new price to the book as it is asked for. So the books of an
engine stay uncrossed just as long as no amend asks for a price that reaches the best price of the
other side (`uncrossed_iff`).

## Uncrossed and apart

`Uncrossed` is what anyone can see of a book, its best bid below its best ask. It is not inductive:
when a front goes, the next one has to be known not to cross either. `Apart` says it of every pair
of orders, and is the invariant; that the two are the same is a fact about fronts
(`uncrossed_iff_apart`).

What an amend puts on the book is decided by the book before it, where the order stands and what the
other side's best price is, and **an amend that reaches the other side crosses the book whatever
happens next**: nothing in the engine matches two orders that rest. A later fill or cancel may
uncross it again, which is why the equivalence asks for every state of the run.
-/

set_option autoImplicit false

namespace MarketData.Matching

open MarketData.Wire MarketData.Book MarketData.Run

/-- The best bid is below the best ask, where there are both. -/
def Uncrossed (b : ReferenceBook) : Prop :=
  ∀ bid ask bidId askId, b.front .bid = some (bid, bidId) → b.front .ask = some (ask, askId) →
    bid < ask

/-- No order reaches one of the other side. -/
def Apart (os : List RestingOrder) : Prop :=
  ∀ o ∈ os, ∀ r ∈ os, r.side = opposite o.side → crosses o.side o.price r.price = false

section Apart

variable {os os' : List RestingOrder} {side : Side} {price : Int64}

theorem opposite_opposite (side : Side) : opposite (opposite side) = side := by
  cases side <;> rfl

theorem crosses_opposite (side : Side) (price other : Int64) :
    crosses (opposite side) other price = crosses side price other := by
  cases side <;> rfl

theorem crosses_eq_false_iff_lt {bid ask : Int64} : crosses .bid bid ask = false ↔ bid < ask := by
  rw [crosses, decide_eq_false_iff_not, Int64.not_le]

/-- The book is uncrossed just where its orders are apart. -/
theorem uncrossed_iff_apart {b : ReferenceBook} (hreps : Reps b os) : Uncrossed b ↔ Apart os := by
  unfold Uncrossed
  rw [hreps.front_eq, hreps.front_eq]
  constructor
  · intro huncrossed
    -- The orders of the two sides that are named are no better than the two fronts.
    have hpair : ∀ o ∈ os, ∀ r ∈ os, o.side = .bid → r.side = .ask →
        crosses .bid o.price r.price = false := by
      intro o ho r hr hbid hask
      rw [crosses_eq_false_iff_lt]
      cases hfrontBid : Arrivals.front os .bid with
      | none => exact absurd hbid (Arrivals.front_eq_none hfrontBid ho)
      | some best =>
        cases hfrontAsk : Arrivals.front os .ask with
        | none => exact absurd hask (Arrivals.front_eq_none hfrontAsk hr)
        | some best' =>
          have hlt := huncrossed _ _ _ _ hfrontBid hfrontAsk
          have hle := of_decide_eq_true ((Arrivals.front_eq_some hfrontBid).2 o ho hbid)
          have hle' := of_decide_eq_true ((Arrivals.front_eq_some hfrontAsk).2 r hr hask)
          exact Int64.lt_of_le_of_lt hle (Int64.lt_of_lt_of_le hlt hle')
    intro o ho r hr hside
    cases hs : o.side with
    | bid =>
      rw [hs] at hside
      exact hpair o ho r hr hs hside
    | ask =>
      rw [hs] at hside
      rw [← crosses_opposite]
      exact hpair r hr o ho hside hs
  · intro hapart bid ask bidId askId hbid hask
    obtain ⟨⟨o, ho, -, hoside, rfl⟩, -⟩ := Arrivals.front_eq_some hbid
    obtain ⟨⟨r, hr, -, hrside, rfl⟩, -⟩ := Arrivals.front_eq_some hask
    rw [← crosses_eq_false_iff_lt]
    have hcrosses := hapart o ho r hr (by rw [hrside, hoside]; rfl)
    rwa [hoside] at hcrosses

/-- Orders at places where there were orders are apart where those were. -/
theorem Apart.of_places (h : Apart os)
    (hplaces : ∀ o' ∈ os', ∃ o ∈ os, o.side = o'.side ∧ o.price = o'.price) : Apart os' := by
  intro o' ho' r' hr' hside
  obtain ⟨o, ho, hoside, hoprice⟩ := hplaces o' ho'
  obtain ⟨r, hr, hrside, hrprice⟩ := hplaces r' hr'
  rw [← hoside, ← hoprice, ← hrprice]
  apply h o ho r hr
  rw [hrside, hside, hoside]

/-- An order behind the others keeps them apart just where it reaches none of the other side. -/
theorem apart_append_iff {o : RestingOrder} (h : Apart os) :
    Apart (os ++ [o]) ↔ ∀ r ∈ os, meets o.side o.price r = false := by
  unfold meets
  constructor
  · intro happart r hr
    by_cases hside : r.side = opposite o.side
    · rw [happart o (by simp) r (by simp [hr]) hside, Bool.and_false]
    · rw [decide_eq_false hside, Bool.false_and]
  · intro hmeets
    have hnot : ∀ r ∈ os, r.side = opposite o.side → crosses o.side o.price r.price = false := by
      intro r hr hside
      have hr := hmeets r hr
      rwa [decide_eq_true hside, Bool.true_and] at hr
    intro o₁ ho₁ r₁ hr₁ hside
    rcases List.mem_append.mp ho₁ with ho₁ | ho₁
    · rcases List.mem_append.mp hr₁ with hr₁ | hr₁
      · exact h o₁ ho₁ r₁ hr₁ hside
      · rw [List.mem_singleton.mp hr₁] at hside ⊢
        have hother : o₁.side = opposite o.side := by rw [hside, opposite_opposite]
        rw [← crosses_opposite, ← hside]
        exact hnot o₁ ho₁ hother
    · rw [List.mem_singleton.mp ho₁] at hside ⊢
      rcases List.mem_append.mp hr₁ with hr₁ | hr₁
      · exact hnot r₁ hr₁ hside
      · rw [List.mem_singleton.mp hr₁] at hside
        cases hs : o.side <;> rw [hs] at hside <;> cases hside

end Apart

/-! ## What a call does -/

namespace Exchange

variable {env : Env} {x x' : Exchange} {os : List RestingOrder}

/-- Whether the price reaches the best price of the other side. -/
def reaches (b : ReferenceBook) (side : Side) (price : Int64) : Bool :=
  (b.front (opposite side)).any fun best => crosses side price best.1

/-- An amend keeps the touch if the price it asks for does not reach the other side, and every
other call does. -/
def keepsTouch (x : Exchange) : Call → Bool
  | .amend symbolId orderId newPrice _ =>
    match (x.engine.books.book symbolId).get orderId with
    | none => true
    | some resting =>
      !reaches (x.engine.books.book symbolId) resting.side (newPrice.getD resting.price)
  | _ => true

/-- Every book holds some orders. -/
def Filed (x : Exchange) : Prop := ∀ t, ∃ os, Reps (x.engine.books.book t) os

/-- No book is crossed. -/
def NoneCrossed (x : Exchange) : Prop := ∀ t, Uncrossed (x.engine.books.book t)

/-- Where one book changes, that book decides. -/
theorem noneCrossed_of_one {symbolId : UInt16} (h : x.NoneCrossed)
    (hothers : ∀ t, t ≠ symbolId → x'.engine.books.book t = x.engine.books.book t) :
    x'.NoneCrossed ↔ Uncrossed (x'.engine.books.book symbolId) := by
  refine ⟨fun hall => hall symbolId, fun hone t => ?_⟩
  by_cases ht : t = symbolId
  · rw [ht]
    exact hone
  · rw [hothers t ht]
    exact h t

/-- **A submitted order rests apart from the other side**: where something of it is left, all that
it met is gone. -/
theorem submitReported_uncrossed {symbolId : UInt16} {side : Side} {price : Int64}
    {quantity : UInt32} {generatorMayRecycle : Bool} {outcome : SubmitOutcome} {fills : List Fill}
    (hfiled : x.Filed) (huncrossed : x.NoneCrossed)
    (h : x.submitReported env symbolId side price quantity generatorMayRecycle =
      .ok (x', outcome, fills)) : x'.NoneCrossed := by
  obtain ⟨os, hreps⟩ := hfiled symbolId
  obtain ⟨-, -, hleft, hreps', hothers⟩ := submitReported_ok hreps h
  rw [noneCrossed_of_one huncrossed hothers, uncrossed_iff_apart hreps']
  have hapart := (uncrossed_iff_apart hreps).mp (huncrossed symbolId)
  have hfilled : Apart (os.filterMap (afterFills quantity (met side price os))) := by
    refine hapart.of_places fun o' ho' => ?_
    obtain ⟨o, ho, hafter⟩ := List.mem_filterMap.mp ho'
    obtain ⟨-, hside, hprice⟩ := afterFills_place hafter
    exact ⟨o, ho, hside, hprice⟩
  unfold remainder
  split
  · rw [List.append_nil]
    exact hfilled
  · rename_i hpos
    rw [hleft] at hpos
    refine (apart_append_iff hfilled).mpr fun r hr => ?_
    obtain ⟨o, ho, hafter⟩ := List.mem_filterMap.mp hr
    obtain ⟨-, hside, hprice⟩ := afterFills_place hafter
    rw [← Bool.not_eq_true]
    intro hmeets
    rw [meets, ← hside, ← hprice, Bool.and_eq_true, decide_eq_true_iff] at hmeets
    have hmet := ((inPriority_met side price os).orders o).mpr ⟨ho, hmeets.1, hmeets.2⟩
    rw [afterFills_met hpos hmet] at hafter
    cases hafter

theorem others_of_publish {symbolId : UInt16} {change : Change}
    (h : (x.mapEngine fun e => e.getOrCreate symbolId).publish env symbolId change = .ok x') :
    ∀ t, t ≠ symbolId → x'.engine.books.book t = x.engine.books.book t :=
  ((Aside.getOrCreate symbolId x).trans (.publish h)).others

theorem cancelReported_uncrossed {symbolId : UInt16} {orderId : UInt64} {answer : Option UInt32}
    (hfiled : x.Filed) (huncrossed : x.NoneCrossed)
    (h : x.cancelReported env symbolId orderId = .ok (x', answer)) : x'.NoneCrossed := by
  obtain ⟨os, hreps⟩ := hfiled symbolId
  have hapart := (uncrossed_iff_apart hreps).mp (huncrossed symbolId)
  unfold cancelReported at h
  dsimp only at h
  split at h
  · cases h
    intro t
    rw [show BookSet.book (x.mapEngine fun e => e.getOrCreate symbolId).engine.books t =
      BookSet.book x.engine.books t from BookSet.agree_put_self x.engine.books symbolId t]
    exact huncrossed t
  · obtain ⟨x₁, hpublish, h⟩ := bind_eq_ok h
    cases h
    obtain ⟨-, hreps'⟩ := publish_step rfl (reps_getOrCreate hreps) hpublish
    have hbook : ∀ t, (x₁.mapEngine fun e => e.removeLive symbolId orderId).engine.books.book t =
        x₁.engine.books.book t := fun t =>
      congrArg (BookSet.book · t) (Engine.books_modifySymbol x₁.engine symbolId _)
    rw [noneCrossed_of_one huncrossed fun t ht => (hbook t).trans (others_of_publish hpublish t ht),
      hbook, uncrossed_iff_apart hreps']
    refine hapart.of_places fun o ho => ⟨o, ?_, rfl, rfl⟩
    rw [Arrivals.step] at ho
    split at ho
    · exact ho
    · exact (List.mem_filter.mp ho).1

theorem get_eq {b : ReferenceBook} (hreps : Reps b os) (orderId : UInt64) :
    b.get orderId = Arrivals.lookup os orderId := hreps.orders orderId

/-- The best price of the other side is reached just where some order there is met. -/
theorem reaches_eq_false_iff {b : ReferenceBook} (hreps : Reps b os) {side : Side} {price : Int64} :
    reaches b side price = false ↔ ∀ r ∈ os, meets side price r = false := by
  rw [reaches, hreps.front_eq]
  constructor
  · intro h r hr
    refine meets_of_front (fun best bestId hfront => ?_) hr
    rwa [hfront] at h
  · intro h
    cases hfront : Arrivals.front os (opposite side) with
    | none => rfl
    | some best =>
      obtain ⟨⟨r, hr, -, hside, hprice⟩, -⟩ := Arrivals.front_eq_some hfront
      have hnot := h r hr
      rwa [meets, decide_eq_true hside, hprice, Bool.true_and] at hnot

/-- **An amend takes its price as it is**: the books are uncrossed after it just where the price
does not reach the other side. -/
theorem amend_uncrossed {symbolId : UInt16} {orderId : UInt64} {newPrice : Option Int64}
    {newQuantity : UInt32} (hfiled : x.Filed) (huncrossed : x.NoneCrossed)
    (h : x.amend env symbolId orderId newPrice newQuantity = .ok x') :
    x'.NoneCrossed ↔ x.keepsTouch (.amend symbolId orderId newPrice newQuantity) = true := by
  obtain ⟨os, hreps⟩ := hfiled symbolId
  have hapart := (uncrossed_iff_apart hreps).mp (huncrossed symbolId)
  have hcreated := reps_getOrCreate hreps
  unfold amend at h
  dsimp only at h
  rw [get_eq hcreated] at h
  rw [keepsTouch, get_eq hreps]
  cases hlookup : Arrivals.lookup os orderId with
  | none =>
    rw [hlookup] at h
    cases h
    refine iff_of_true (fun t => ?_) rfl
    rw [show BookSet.book (x.mapEngine fun e => e.getOrCreate symbolId).engine.books t =
      BookSet.book x.engine.books t from BookSet.agree_put_self x.engine.books symbolId t]
    exact huncrossed t
  | some resting =>
    rw [hlookup] at h
    dsimp only at h ⊢
    obtain ⟨hmem, hid⟩ := Arrivals.lookup_eq_some hlookup
    rw [noneCrossed_of_one huncrossed (others_of_publish h), Bool.not_eq_true',
      reaches_eq_false_iff hreps]
    unfold amendChange at h
    split at h
    · -- The price is the old one.
      rename_i hsame
      obtain ⟨-, hreps'⟩ := publish_step rfl hcreated h
      rw [uncrossed_iff_apart hreps']
      refine iff_of_true (hapart.of_places fun o' ho' => ?_) fun r hr => ?_
      · rw [Arrivals.step, hlookup] at ho'
        dsimp only at ho'
        split at ho'
        · exact ⟨o', ho', rfl, rfl⟩
        · split at ho'
          · exact ⟨o', ho', rfl, rfl⟩
          · obtain ⟨o, ho, rfl⟩ := List.mem_map.mp ho'
            refine ⟨o, ho, ?_⟩
            split <;> exact ⟨rfl, rfl⟩
      · rw [hsame.1, meets]
        by_cases hside : r.side = opposite resting.side
        · rw [hapart resting hmem r hr hside, Bool.and_false]
        · rw [decide_eq_false hside, Bool.false_and]
    · -- The order is taken off, and put where it is asked for.
      obtain ⟨⟨answer, hstep⟩, hreps'⟩ := publish_step rfl hcreated h
      have hpos : newQuantity ≠ 0 := by
        intro hzero
        rw [Arrivals.step, if_pos hzero] at hstep
        cases hstep
      rw [Arrivals.step, if_neg hpos, hlookup] at hreps'
      have hwithout : Apart (Arrivals.without os orderId) :=
        hapart.of_places fun o ho => ⟨o, (List.mem_filter.mp ho).1, rfl, rfl⟩
      rw [uncrossed_iff_apart hreps', apart_append_iff hwithout]
      dsimp only
      constructor
      · intro hnone r hr
        by_cases hself : r.orderId = orderId
        · have hresting := hreps.valid.eq_of_orderId hr hmem (hself.trans hid.symm)
          rw [hresting, meets, Bool.and_eq_false_iff]
          left
          cases resting.side <;> rfl
        · exact hnone r (List.mem_filter.mpr ⟨hr, decide_eq_true hself⟩)
      · intro hnone r hr
        exact hnone r (List.mem_filter.mp hr).1

/-! ## Runs -/

theorem flushOnTimer_engine (h : x.call env .flushOnTimer = .ok x') : x'.engine = x.engine := by
  obtain ⟨p, -, rfl⟩ := map_eq_ok h
  rfl

/-- What is on the books is orders, whatever is called. -/
theorem Filed.call {c : Call} (hfiled : x.Filed) (h : x.call env c = .ok x') : x'.Filed := by
  cases c with
  | submit symbolId side price quantity =>
    obtain ⟨⟨x₁, outcome, fills⟩, hsubmit, rfl⟩ := map_eq_ok h
    obtain ⟨os, hreps⟩ := hfiled symbolId
    exact (submitReported_moves hreps hsubmit).1.reps hfiled
  | submitReported symbolId side price quantity generatorMayRecycle =>
    obtain ⟨⟨x₁, outcome, fills⟩, hsubmit, rfl⟩ := map_eq_ok h
    obtain ⟨os, hreps⟩ := hfiled symbolId
    exact (submitReported_moves hreps hsubmit).1.reps hfiled
  | cancel symbolId orderId =>
    obtain ⟨⟨x₁, answer⟩, hcancel, rfl⟩ := map_eq_ok h
    exact (cancelReported_moves hcancel).reps hfiled
  | amend symbolId orderId newPrice newQuantity => exact (amend_moves h).reps hfiled
  | flushOnTimer =>
    intro t
    rw [flushOnTimer_engine h]
    exact hfiled t

/-- **One call** leaves the books uncrossed just where it keeps the touch. -/
theorem call_uncrossed {c : Call} (hfiled : x.Filed) (huncrossed : x.NoneCrossed)
    (h : x.call env c = .ok x') : x'.NoneCrossed ↔ x.keepsTouch c = true := by
  cases c with
  | submit symbolId side price quantity =>
    obtain ⟨⟨x₁, outcome, fills⟩, hsubmit, rfl⟩ := map_eq_ok h
    exact iff_of_true (submitReported_uncrossed hfiled huncrossed hsubmit) rfl
  | submitReported symbolId side price quantity generatorMayRecycle =>
    obtain ⟨⟨x₁, outcome, fills⟩, hsubmit, rfl⟩ := map_eq_ok h
    exact iff_of_true (submitReported_uncrossed hfiled huncrossed hsubmit) rfl
  | cancel symbolId orderId =>
    obtain ⟨⟨x₁, answer⟩, hcancel, rfl⟩ := map_eq_ok h
    exact iff_of_true (cancelReported_uncrossed hfiled huncrossed hcancel) rfl
  | amend symbolId orderId newPrice newQuantity => exact amend_uncrossed hfiled huncrossed h
  | flushOnTimer =>
    refine iff_of_true (fun t => ?_) rfl
    rw [flushOnTimer_engine h]
    exact huncrossed t

/-- **The books are never crossed just where no amend reaches the other side.** Of the calls of a
run from empty books that all return: no state they come to has a crossed book, if and only if
every amend in it asks for a price that does not reach the best price of the other side. -/
theorem uncrossed_iff (env : Env) (symbols : List UInt16) (batchSize : UInt16)
    (maxDatagramBytes : Nat) (shadow : Option Books) (calls : List Call)
    (h : runs (call env) (Exchange.new symbols batchSize maxDatagramBytes shadow) calls = .ok x') :
    (∀ before, before <+: calls → ∀ x,
      runs (call env) (Exchange.new symbols batchSize maxDatagramBytes shadow) before = .ok x →
        ∀ t, Uncrossed (x.engine.books.book t)) ↔
      AlongRuns (call env) (fun x c => x.keepsTouch c = true)
        (Exchange.new symbols batchSize maxDatagramBytes shadow) calls := by
  refine alongRuns_iff_of_invariant Filed NoneCrossed (fun x c x' hfiled hcall => hfiled.call hcall)
    (fun x c x' hfiled huncrossed hcall => call_uncrossed hfiled huncrossed hcall)
    (fun _ => ⟨[], Reps.new⟩) (fun t bid ask bidId askId hbid => ?_) h
  cases hbid

/-- A bid, an ask above it, and an amend of the bid to a price above the ask. -/
def amendedAcross : List Call :=
  [.submit 1 .bid 100 5, .submit 1 .ask 110 5, .amend 1 1 (some 120) 5]

theorem amendedAcross_crosses :
    ∃ x, runs (call Env.lossless) (Exchange.new [1] 3 128 none) amendedAcross = .ok x ∧
      (x.engine.books.book 1).front .bid = some (120, 1) ∧
      (x.engine.books.book 1).front .ask = some (110, 2) ∧
      ¬ Uncrossed (x.engine.books.book 1) := by
  have hruns : (runs (call Env.lossless) (Exchange.new [1] 3 128 none) amendedAcross).map
      (fun x => ((x.engine.books.book 1).front .bid, (x.engine.books.book 1).front .ask)) =
        .ok (some (120, 1), some (110, 2)) := by decide +kernel
  obtain ⟨x, hx, hfronts⟩ := map_eq_ok hruns
  obtain ⟨hbid, hask⟩ := Prod.mk.inj hfronts
  refine ⟨x, hx, hbid, hask, fun huncrossed => ?_⟩
  have hlt := huncrossed _ _ _ _ hbid hask
  revert hlt
  decide

/-- An amend that stays below the ask. -/
theorem uncrossed_iff_amended_below :
    (runs (call Env.lossless) (Exchange.new [1] 3 128 none)
      [.submit 1 .bid 100 5, .submit 1 .ask 110 5, .amend 1 1 (some 105) 5]).toBool = true ∧
    ∀ x, runs (call Env.lossless) (Exchange.new [1] 3 128 none)
      [.submit 1 .bid 100 5, .submit 1 .ask 110 5, .amend 1 1 (some 105) 5] = .ok x →
        ∀ t, Uncrossed (x.engine.books.book t) := by
  refine ⟨by decide +kernel, fun x hx => ?_⟩
  refine (uncrossed_iff Env.lossless [1] 3 128 none _ hx).mpr ?_ _ (List.prefix_refl _) x hx
  decide +kernel

end Exchange

end MarketData.Matching
