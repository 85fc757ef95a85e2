import MarketData.Matching.Meeting
import MarketData.Matching.OrderPath

/-!
# `Matching/Executions.lean` — what a client is told of its order

`on_new_order` collects the fills of an order while it is matched, up to `fillsPerReport` of them,
and reports them afterwards. The fills beyond that are only counted: the reports then do not add up
to what was filled, and where the order is done nobody says so (`accounts_iff`).

## Adding up

`Accounts` is what a client can check for itself: the quantities of the fills add up to what is no
longer left, each report's `leaves` continues the one before, and the last of them says whether the
order is done. It does not mention the buffer of fills. The condition does not either: it compares
the order's quantity with what the first so many orders in its way offer, **on the book before the
order comes** (`firstOffer`). That the loop fills against just those is `Matching/Meeting.lean`.

Room in the ring is assumed for what is reported; a report that finds none is lost for another
reason, and is counted.
-/

set_option autoImplicit false

namespace MarketData.Matching

open MarketData.Wire MarketData.Book

namespace OrderPath

/-! ## Reports that find room -/

/-- The reports of the fills that were collected. -/
def fillReports (m : NewOrder) (side : Side) (orderId : UInt64) (overflowed : Nat) :
    List Fill → List ExecReport
  | [] => []
  | [f] => [fillReport m side orderId f (f.leaves = 0 && overflowed = 0)]
  | f :: fills => fillReport m side orderId f false :: fillReports m side orderId overflowed fills

/-- The report that something of the order rests. -/
def ackReport (m : NewOrder) (side : Side) (outcome : SubmitOutcome) : ExecReport :=
  ⟨m.clientOrderId, outcome.orderId, 0, m.price, m.quantity, outcome.resting, m.symbolId, side,
    .acknowledged, .notRejected⟩

/-- Everything that is reported of an order once the engine has taken it. -/
def executions (m : NewOrder) (side : Side) (outcome : SubmitOutcome) (fills : List Fill) :
    List ExecReport :=
  fillReports m side outcome.orderId (fills.length - fillsPerReport) (fills.take fillsPerReport) ++
    if 0 < outcome.resting then [ackReport m side outcome] else []

variable {p : OrderPath}

theorem emit_reports {r : ExecReport} (h : p.reports.items.length < p.reports.capacity) :
    (p.emit r).reports = { p.reports with items := p.reports.items ++ [r] } := by
  unfold emit
  rw [Fifo.push, if_pos h]

theorem foldl_emit_reports (rs : List ExecReport)
    (h : p.reports.items.length + rs.length ≤ p.reports.capacity) :
    (rs.foldl emit p).reports = { p.reports with items := p.reports.items ++ rs } := by
  induction rs generalizing p with
  | nil => simp
  | cons r rs ih =>
    rw [List.length_cons] at h
    have hemit := emit_reports (p := p) (r := r) (by omega)
    rw [List.foldl_cons,
      ih (by rw [hemit, List.length_append, List.length_singleton]; dsimp only; omega), hemit]
    simp

theorem reportFills_eq (m : NewOrder) (side : Side) (orderId : UInt64) (overflowed : Nat)
    (fills : List Fill) : p.reportFills m side orderId overflowed fills =
      (fillReports m side orderId overflowed fills).foldl emit p := by
  induction fills generalizing p with
  | nil => rfl
  | cons f fills ih =>
    cases fills with
    | nil => rfl
    | cons g fills =>
      rw [reportFills, fillReports, List.foldl_cons]
      · exact ih
      · exact fun h => (nomatch h)
      · exact fun h => (nomatch h)

/-- With room in the ring, what is to be reported gets there. -/
theorem reportOutcome_reports {m : NewOrder} {side : Side} {outcome : SubmitOutcome}
    {fills : List Fill}
    (h : p.reports.items.length + (executions m side outcome fills).length ≤ p.reports.capacity) :
    (p.reportOutcome m side outcome fills).reports.items =
      p.reports.items ++ executions m side outcome fills := by
  unfold executions at h ⊢
  rw [List.length_append] at h
  unfold reportOutcome
  dsimp only
  rw [reportFills_eq]
  have hfills := foldl_emit_reports (p := p) (fillReports m side outcome.orderId
    (fills.length - fillsPerReport) (fills.take fillsPerReport)) (by omega)
  generalize fillReports m side outcome.orderId (fills.length - fillsPerReport)
    (fills.take fillsPerReport) = rs at h hfills ⊢
  have hremember : ∀ q : OrderPath, (q.remember outcome.orderId m.clientOrderId).reports =
      q.reports := by
    intro q
    unfold remember
    split <;> rfl
  split
  · rename_i hrests
    rw [if_pos hrests, List.length_singleton] at h
    have hreports : (((rs.foldl emit p).drop (fills.length - fillsPerReport)).remember
        outcome.orderId m.clientOrderId).reports =
          { p.reports with items := p.reports.items ++ rs } := (hremember _).trans hfills
    rw [emit_reports (by rw [hreports, List.length_append]; dsimp only; omega), hreports,
      List.append_assoc]
    rfl
  · rw [List.append_nil]
    exact congrArg Fifo.items hfills

/-! ## Do they account for the order? -/

/-- The report of a fill, partial or not. -/
def isFill (r : ExecReport) : Bool := r.execType = .fill || r.execType = .partialFill

/-- The reports of an order add up to it. -/
structure Accounts (m : NewOrder) (outcome : SubmitOutcome) (rs : List ExecReport) : Prop where
  filled : ((rs.filter isFill).map fun r => r.quantity.toNat).sum = outcome.filled.toNat
  leaves : ∀ r ∈ rs.getLast?, r.leavesQuantity = outcome.resting
  terminal : (rs.countP fun r => r.execType = .fill) =
    if outcome.filled = m.quantity then 1 else 0
  acknowledged : (∃ r ∈ rs, r.execType = .acknowledged) ↔ 0 < outcome.resting

section

variable (m : NewOrder) (side : Side) (orderId : UInt64) (overflowed : Nat)

theorem decide_fillReport (f : Fill) (last : Bool) :
    decide ((fillReport m side orderId f last).execType = .fill) = last := by
  cases last with
  | true => rfl
  | false => rfl

/-- What the reports of fills have in common. -/
theorem mem_fillReports {fills : List Fill} {r : ExecReport}
    (h : r ∈ fillReports m side orderId overflowed fills) : isFill r = true := by
  have hfill : ∀ f last, isFill (fillReport m side orderId f last) = true := by
    intro f last
    cases last with
    | true => rfl
    | false => rfl
  induction fills with
  | nil => cases h
  | cons f fills ih =>
    cases fills with
    | nil =>
      rw [fillReports, List.mem_singleton] at h
      rw [h]
      exact hfill _ _
    | cons g fills =>
      rw [fillReports, List.mem_cons] at h
      · rcases h with rfl | h
        · exact hfill _ _
        · exact ih h
      · exact fun h => (nomatch h)

theorem fillReports_quantities (fills : List Fill) :
    (fillReports m side orderId overflowed fills).map (fun r => r.quantity.toNat) =
      fills.map fun f => f.quantity.toNat := by
  induction fills with
  | nil => rfl
  | cons f fills ih =>
    cases fills with
    | nil => rfl
    | cons g fills =>
      rw [fillReports, List.map_cons, ih]
      · rfl
      · exact fun h => (nomatch h)

/-- The last of them is of the last fill, and it is the only one that can end the order. -/
theorem fillReports_last (fills : List Fill) :
    ((fillReports m side orderId overflowed fills).getLast?.map fun r => r.leavesQuantity) =
      fills.getLast?.map Fill.leaves ∧
    ((fillReports m side orderId overflowed fills).countP fun r => r.execType = .fill) =
      if overflowed = 0 ∧ ∃ f ∈ fills.getLast?, f.leaves = 0 then 1 else 0 := by
  induction fills with
  | nil => exact ⟨rfl, by simp [fillReports]⟩
  | cons f fills ih =>
    cases fills with
    | nil =>
      refine ⟨rfl, ?_⟩
      rw [fillReports, List.countP_singleton, decide_fillReport]
      simp [and_comm]
    | cons g fills =>
      rw [fillReports, List.countP_cons_of_neg (by simp [fillReport]), ih.2,
        List.getLast?_cons_cons]
      · refine ⟨?_, rfl⟩
        cases hrest : fillReports m side orderId overflowed (g :: fills) with
        | nil =>
          have hlen := congrArg List.length (fillReports_quantities m side orderId overflowed
            (g :: fills))
          rw [hrest] at hlen
          simp at hlen
        | cons r rs =>
          rw [List.getLast?_cons_cons, ← hrest]
          exact ih.1
      · exact fun h => (nomatch h)

end

section

variable {m : NewOrder} {side : Side} {outcome : SubmitOutcome} {fills : List Fill}

/-- The quantities in the reports are those of the fills that were collected. -/
theorem executions_filled :
    (((executions m side outcome fills).filter isFill).map fun r => r.quantity.toNat).sum =
      sumQuantity (fills.take fillsPerReport) := by
  have hack : (if 0 < outcome.resting then [ackReport m side outcome] else []).filter isFill = [] := by
    split <;> rfl
  have hfills : (fillReports m side outcome.orderId (fills.length - fillsPerReport)
      (fills.take fillsPerReport)).filter isFill = fillReports m side outcome.orderId
        (fills.length - fillsPerReport) (fills.take fillsPerReport) :=
    List.filter_eq_self.mpr fun r hr => mem_fillReports _ _ _ _ hr
  rw [executions, List.filter_append, hack, hfills, List.append_nil, fillReports_quantities]
  rfl

/-- One for each fill that was collected, and one for what rests. -/
theorem length_executions : (executions m side outcome fills).length =
    min fillsPerReport fills.length + if 0 < outcome.resting then 1 else 0 := by
  have hfills := congrArg List.length (fillReports_quantities m side outcome.orderId
    (fills.length - fillsPerReport) (fills.take fillsPerReport))
  rw [List.length_map, List.length_map, List.length_take] at hfills
  rw [executions, List.length_append, hfills]
  congr 1
  split <;> rfl

/-- How many of them end the order. -/
theorem executions_terminal :
    ((executions m side outcome fills).countP fun r => r.execType = .fill) =
      if fills.length - fillsPerReport = 0 ∧
        ∃ f ∈ (fills.take fillsPerReport).getLast?, f.leaves = 0 then 1 else 0 := by
  have hack : (if 0 < outcome.resting then [ackReport m side outcome] else []).countP
      (fun r => r.execType = .fill) = 0 := by
    split <;> rfl
  rw [executions, List.countP_append, hack, Nat.add_zero, (fillReports_last _ _ _ _ _).2]

/-- The last of them, where something rests and where nothing does. -/
theorem executions_leaves (hall : fills.length ≤ fillsPerReport)
    (hlast : ∀ f, fills.getLast? = some f → f.leaves = outcome.resting) :
    ∀ r ∈ (executions m side outcome fills).getLast?, r.leavesQuantity = outcome.resting := by
  intro r hr
  unfold executions at hr
  split at hr
  · rw [List.getLast?_append, List.getLast?_singleton, Option.some_or] at hr
    obtain rfl := Option.some.inj hr
    rfl
  · rw [List.append_nil, List.take_of_length_le hall] at hr
    have hleaves := (fillReports_last m side outcome.orderId (fills.length - fillsPerReport) fills).1
    rw [Option.mem_def.mp hr, Option.map_some] at hleaves
    obtain ⟨f, hf, heq⟩ := Option.map_eq_some_iff.mp hleaves.symm
    rw [← heq]
    exact hlast f hf

theorem executions_acknowledged :
    (∃ r ∈ executions m side outcome fills, r.execType = .acknowledged) ↔ 0 < outcome.resting := by
  constructor
  · rintro ⟨r, hr, hack⟩
    rcases List.mem_append.mp hr with hr | hr
    · have hfill := mem_fillReports _ _ _ _ hr
      rw [isFill, hack] at hfill
      cases hfill
    · split at hr
      · assumption
      · cases hr
  · intro hrests
    refine ⟨ackReport m side outcome, List.mem_append_right _ ?_, rfl⟩
    rw [if_pos hrests]
    exact List.mem_singleton_self _

/-- The reports account for the order where there is something to account for, and every fill of it
was collected. -/
theorem accounts_executions (htaken : Taken m.quantity fills outcome.resting)
    (hfilled : outcome.filled = m.quantity - outcome.resting) :
    Accounts m outcome (executions m side outcome fills) ↔
      m.quantity ≠ 0 ∧ fills.length ≤ fillsPerReport := by
  have hsum := htaken.sum
  have hle : outcome.resting ≤ m.quantity := UInt32.le_iff_toNat_le.mpr (by omega)
  have hnat : outcome.filled.toNat = sumQuantity fills := by
    rw [hfilled, UInt32.toNat_sub_of_le _ _ hle]
    omega
  have hcomplete : outcome.filled = m.quantity ↔ outcome.resting = 0 := by
    rw [← UInt32.toNat_inj, ← UInt32.toNat_inj (b := 0), UInt32.toNat_zero]
    omega
  constructor
  · intro h
    constructor
    · intro hzero
      -- An order for nothing is done, and nobody says so.
      have hnone := htaken.eq_nil hzero
      have hdone : outcome.resting = 0 := by
        rw [← UInt32.toNat_inj, UInt32.toNat_zero]
        rw [hzero, UInt32.toNat_zero] at hsum
        omega
      have hterminal := h.terminal
      rw [if_pos (hcomplete.mpr hdone), executions_terminal, hnone] at hterminal
      simp at hterminal
    · by_contra hmore
      have hfilled := h.filled
      rw [executions_filled, hnat] at hfilled
      have hlt := htaken.sum_take_lt (Nat.not_le.mp hmore)
      omega
  · rintro ⟨hpos, hall⟩
    refine ⟨?_, executions_leaves hall fun f hf => htaken.last hf, ?_, executions_acknowledged⟩
    · rw [executions_filled, List.take_of_length_le hall, hnat]
    · rw [executions_terminal, List.take_of_length_le hall, Nat.sub_eq_zero_of_le hall]
      congr 1
      rw [hcomplete, eq_iff_iff]
      constructor
      · rintro ⟨-, f, hf, hleaves⟩
        rw [← htaken.last hf, hleaves]
      · intro hdone
        refine ⟨rfl, ?_⟩
        cases hlast : fills.getLast? with
        | none =>
          rw [List.getLast?_eq_none_iff.mp hlast] at htaken
          exact absurd (htaken.of_nil.symm.trans hdone) hpos
        | some f => exact ⟨f, rfl, (htaken.last hlast).trans hdone⟩

end

/-- **What the client is told of its order.** On any book, and with room in the ring for what is
reported, the reports of an order account for it if and only if it is for something and the first
`fillsPerReport` orders it meets offer all of it, or are all that it meets. -/
theorem accounts_iff {env : Env} {x x' : Exchange} {os : List RestingOrder} {m : NewOrder}
    {side : Side} {outcome : SubmitOutcome} {fills : List Fill} (p : OrderPath)
    (hreps : Reps (x.engine.books.book m.symbolId) os) (hside : m.side = some side)
    (hsubmit : x.submitReported env m.symbolId side m.price m.quantity false =
      .ok (x', outcome, fills))
    (hroom : p.reports.items.length + (executions m side outcome fills).length ≤
      p.reports.capacity) :
    ∃ p' rs, p.onNewOrder env x m = .ok (p', x') ∧ p'.reports.items = p.reports.items ++ rs ∧
      (Accounts m outcome rs ↔ m.quantity ≠ 0 ∧
        (m.quantity.toNat ≤ firstOffer fillsPerReport
            (meeting (x.engine.books.book m.symbolId) side m.price) ∨
          (meeting (x.engine.books.book m.symbolId) side m.price).length ≤ fillsPerReport)) := by
  obtain ⟨htaken, hfilled, hcount⟩ := Exchange.submitReported_count hreps hsubmit
  refine ⟨p.reportOutcome m side outcome fills, executions m side outcome fills, ?_,
    reportOutcome_reports hroom, ?_⟩
  · unfold onNewOrder
    rw [hside]
    dsimp only
    rw [hsubmit]
    rfl
  · rw [accounts_executions htaken hfilled, hcount]

/-- The engine's end of the order path as it starts. -/
def idle : OrderPath := { orders := ⟨64, []⟩, reports := ⟨64, []⟩ }

/-- An engine with this book for symbol 1. -/
def onBook (b : ReferenceBook) (nextOrderId : UInt64) : Exchange :=
  let x := Exchange.new [1] 2 100 none
  { x with engine := { x.engine with books := x.engine.books.put 1 b, nextOrderId } }

/-- Five offered, five wanted. -/
theorem accounts_one_fill :
    ∃ p' x' outcome rs,
      idle.onNewOrder Env.lossless (onBook (ReferenceBook.new.add 1 .ask 100 5).2 2)
        ⟨7, 100, 5, 1, some .bid⟩ = .ok (p', x') ∧
      outcome.filled = 5 ∧ p'.reports.items = idle.reports.items ++ rs ∧
      Accounts ⟨7, 100, 5, 1, some .bid⟩ outcome rs := by
  have hrun : ((onBook (ReferenceBook.new.add 1 .ask 100 5).2 2).submitReported Env.lossless 1 .bid
      100 5 false).map (fun r => (r.2.1.filled, r.2.1.resting, r.2.2.length)) = .ok (5, 0, 1) := by
    decide +kernel
  obtain ⟨⟨x', outcome, fills⟩, hsubmit, hsizes⟩ := map_eq_ok hrun
  obtain ⟨hfilled, hsizes⟩ := Prod.mk.inj hsizes
  obtain ⟨hresting, hlength⟩ := Prod.mk.inj hsizes
  dsimp only at hfilled hresting hlength
  have hreps : Reps ((onBook (ReferenceBook.new.add 1 .ask 100 5).2 2).engine.books.book 1)
      (Arrivals.step [] (.add 1 .ask 100 5)).2 := (Reps.new.step (.add 1 .ask 100 5)).2
  obtain ⟨p', rs, hnew, hitems, haccounts⟩ := accounts_iff (m := ⟨7, 100, 5, 1, some .bid⟩) idle
    hreps rfl hsubmit (by rw [length_executions, hresting, hlength]; decide)
  exact ⟨p', x', outcome, rs, hnew, hfilled, hitems, haccounts.mpr (by decide +kernel)⟩

/-- Thirty-three offers of one each. -/
def thin : ReferenceBook :=
  (List.range 33).foldl (fun b i => (b.add (UInt64.ofNat (i + 1)) .ask 100 1).2) ReferenceBook.new

set_option maxRecDepth 20000 in
/-- An order that takes them all is done, and the client is told of thirty-two fills and no end. -/
theorem thirty_three_fills_unaccounted :
    ∃ p' x' outcome fills,
      (onBook thin 34).submitReported Env.lossless 1 .bid 100 33 false = .ok (x', outcome, fills) ∧
      idle.onNewOrder Env.lossless (onBook thin 34) ⟨7, 100, 33, 1, some .bid⟩ = .ok (p', x') ∧
      ¬ Accounts ⟨7, 100, 33, 1, some .bid⟩ outcome p'.reports.items := by
  have hrun : ((onBook thin 34).submitReported Env.lossless 1 .bid 100 33 false).map
      (fun r => (r.2.1.filled, r.2.1.resting, r.2.2.length)) = .ok (33, 0, 33) := by
    decide +kernel
  obtain ⟨⟨x', outcome, fills⟩, hsubmit, hsizes⟩ := map_eq_ok hrun
  obtain ⟨hfilled, hsizes⟩ := Prod.mk.inj hsizes
  obtain ⟨hresting, hlength⟩ := Prod.mk.inj hsizes
  dsimp only at hfilled hresting hlength
  refine ⟨idle.reportOutcome ⟨7, 100, 33, 1, some .bid⟩ .bid outcome fills, x', outcome, fills,
    hsubmit, ?_, ?_⟩
  · unfold onNewOrder
    dsimp only
    rw [hsubmit]
    rfl
  · intro h
    have hroom : idle.reports.items.length + (executions ⟨7, 100, 33, 1, some .bid⟩ .bid outcome
        fills).length ≤ idle.reports.capacity := by
      rw [length_executions, hresting, hlength]
      decide
    have hterminal := h.terminal
    rw [reportOutcome_reports hroom, hfilled, if_pos rfl] at hterminal
    change List.countP _ (executions _ _ _ _) = 1 at hterminal
    rw [executions_terminal, hlength] at hterminal
    exact absurd hterminal (by simp [fillsPerReport])

end OrderPath

end MarketData.Matching
