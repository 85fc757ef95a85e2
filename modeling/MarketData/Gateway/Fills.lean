import MarketData.Gateway.Reports
import Mathlib.Data.List.Nodup

/-!
# `Gateway/Fills.lean` — what the client is told of its fills

`send_exec_report` takes the quantity an order was for from the live orders. By then `pump` has
recorded the report, and a fill that leaves nothing has taken the order off them: the quantity of
the report itself stands in for what was asked for, and `CumQty` is the last fill alone
(`cumQty_iff`).

## Reports of one order among others

What a client adds up are the fills of one order, while the ring carries everyone's. `Fills` says of
a list of reports that those about this order are fills, each of what the one before left, and says
nothing of those in between. With every report goes whether the disk takes its record, because an
order that could not be recorded as filled stays live, and the next report about it finds the
quantity after all.

`Standing` is the invariant: the order is live with the quantity it was for, or it has ended and the
store holds nothing of it. A report never brings it back, so the walk over the reports is an
induction with two states and no third one.

The equivalence is about `CumQty` and the quantity reported with it. `AvgPx` is not followed: the
router sends the price of the report.
-/

set_option autoImplicit false

namespace MarketData.Gateway

open MarketData.Wire

namespace OrderStore

variable {s : OrderStore} {r x : OrderRecord} {id : UInt64}

theorem find_eq_some_iff (h : Working s.live) :
    s.find id = some x ↔ x ∈ s.live ∧ x.clientOrderId = id := by
  constructor
  · intro hfind
    obtain ⟨hid, as, bs, hlive, -⟩ := exists_split_of_find hfind
    exact ⟨by simp [hlive], hid⟩
  · rintro ⟨hmem, rfl⟩
    obtain ⟨y, hy⟩ : ∃ y, s.find x.clientOrderId = some y :=
      Option.isSome_iff_exists.mp (List.find?_isSome.mpr ⟨x, hmem, by simp⟩)
    obtain ⟨hid, as, bs, hlive, -⟩ := exists_split_of_find hy
    have hids : (s.live.map OrderRecord.clientOrderId).Nodup := List.pairwise_map.mpr h.1
    have hy' : y ∈ s.live := by simp [hlive]
    -- Two orders of one id are one.
    obtain rfl := List.inj_on_of_nodup_map hids hmem hy' hid.symm
    exact hy

/-- What is on record under the id of the record just applied. -/
theorem find_apply_self (h : Working s.live) :
    (s.apply r).find r.clientOrderId = if r.isTerminal then none else some r := by
  refine Option.ext fun y => ?_
  rw [find_eq_some_iff (h.apply r)]
  constructor
  · rintro ⟨hmem, hid⟩
    obtain ⟨hterm, rfl⟩ := (mem_apply_iff h hid).mp hmem
    simp [hterm]
  · intro hy
    split at hy
    · cases hy
    · rename_i hterm
      obtain rfl := Option.some.inj hy
      exact ⟨(mem_apply_iff h rfl).mpr ⟨by simpa using hterm, rfl⟩, rfl⟩

theorem find_apply_of_ne (hid : r.clientOrderId ≠ id) : (s.apply r).find id = s.find id := by
  have happ := apply_applied s r
  unfold find
  generalize (s.apply r).live = live at happ ⊢
  cases happ with
  | absent hterm h => rfl
  | ended hterm hlive hx has =>
    rw [hlive, List.find?_append, List.find?_append, List.find?_cons_of_neg]
    simpa using mt hx.symm.trans hid
  | added hterm h =>
    rw [List.find?_append, List.find?_cons_of_neg (by simpa using hid)]
    simp
  | written hterm hlive hx has =>
    rw [hlive, List.find?_append, List.find?_append, List.find?_cons_of_neg (by simpa using hid),
      List.find?_cons_of_neg]
    simpa using mt hx.symm.trans hid

end OrderStore

namespace OrderRouter

variable {g : OrderRouter} {d : ExecReport} {reports : Fifo ExecReport} {id : UInt64}
  {quantity : UInt32} {durable : Bool}

theorem nextRecord_clientOrderId (r : OrderRecord) (d : ExecReport) :
    (nextRecord r d).clientOrderId = r.clientOrderId := by
  unfold nextRecord
  cases d.execType <;> rfl

theorem nextRecord_quantity (r : OrderRecord) (d : ExecReport) :
    (nextRecord r d).quantity = r.quantity := by
  unfold nextRecord
  cases d.execType <;> rfl

/-- A report is on record under its own id, if under any. -/
theorem find_recordReport_of_ne (hid : d.clientOrderId ≠ id) :
    (g.recordReport durable d).store.find id = g.store.find id := by
  unfold recordReport
  split
  · rfl
  · rename_i r hr
    obtain ⟨hr, -⟩ := OrderStore.exists_split_of_find hr
    unfold OrderStore.record
    cases durable with
    | false => rfl
    | true =>
      refine OrderStore.find_apply_of_ne (r := nextRecord r d) ?_
      rwa [nextRecord_clientOrderId, hr]

theorem working_recordReport (h : OrderStore.Working g.store.live) :
    OrderStore.Working (g.recordReport durable d).store.live := by
  unfold recordReport
  split
  · exact h
  · unfold OrderStore.record
    cases durable with
    | false => exact h
    | true => exact h.apply _

/-! ## The fills of one order -/

def isFill (d : ExecReport) : Bool := d.execType = .fill || d.execType = .partialFill

/-- The report is an event on the order of that id. -/
def About (id : UInt64) (d : ExecReport) : Prop := isEvent d = true ∧ d.clientOrderId = id

instance (id : UInt64) (d : ExecReport) : Decidable (About id d) :=
  inferInstanceAs (Decidable (_ ∧ _))

/-- The reports on the order of that id are fills, each of what the one before left. What is
between them is about other orders. With every report goes whether the disk takes its record. -/
inductive Fills (id : UInt64) : (leaves : Nat) → List (Bool × ExecReport) → Prop where
  | nil {leaves : Nat} : Fills id leaves []
  | other {leaves : Nat} {durable : Bool} {d : ExecReport} {ds : List (Bool × ExecReport)}
      (hd : ¬ About id d) (h : Fills id leaves ds) : Fills id leaves ((durable, d) :: ds)
  | fill {leaves : Nat} {durable : Bool} {d : ExecReport} {ds : List (Bool × ExecReport)}
      (hfill : isFill d = true) (hd : About id d)
      (hleaves : d.quantity.toNat + d.leavesQuantity.toNat = leaves)
      (h : Fills id d.leavesQuantity.toNat ds) : Fills id leaves ((durable, d) :: ds)

/-- What the client is to be told of a fill of an order for `quantity`. -/
structure Carries (quantity : UInt32) (d : ExecReport) (m : FixMessage) : Prop where
  leavesQty : m.find Tag.leavesQty = some (intText d.leavesQuantity.toNat)
  cumQty : m.find Tag.cumQty = some (intText (quantity.toNat - d.leavesQuantity.toNat : Nat))

/-- A turn that takes a report on the order off the ring says what has been filled of it. -/
def Tells (id : UInt64) (quantity : UInt32) (g : OrderRouter) (durable : Bool) : Prop :=
  ∀ d reports, g.reports.pop = some (d, reports) → About id d →
    ∃ m, (g.pump durable).sent = g.sent ++ [m] ∧ Carries quantity d m

/-- The report takes the order off the live ones. -/
def ends (id : UInt64) (e : Bool × ExecReport) : Bool :=
  e.1 && decide (About id e.2) && (e.2.execType = .fill && e.2.leavesQuantity = 0)

/-- A report that ends the order, and every one after it, is of all that was asked for. -/
def WholeFrom (id : UInt64) (quantity : UInt32) (ended : Bool) : List (Bool × ExecReport) → Prop :=
  Run.Along (fun ended e => ended || ends id e)
    (fun ended e => About id e.2 → (ended || ends id e) = true → e.2.quantity = quantity) ended

theorem intText_inj {m n : Nat} (h : intText m = intText n) : m = n := by
  rw [intText_eq, intText_eq, if_pos (Int.natCast_nonneg m), if_pos (Int.natCast_nonneg n)] at h
  have hdecimal := congrArg decimal h
  rwa [decimal_toDigits, decimal_toDigits] at hdecimal

/-- What `CumQty` counts from is the order as the report has left it. -/
theorem execReport_carries_iff :
    Carries quantity d (g.execReport d) ↔
      (((g.store.find d.clientOrderId).map (·.quantity)).getD d.quantity).toNat -
        d.leavesQuantity.toNat = quantity.toNat - d.leavesQuantity.toNat := by
  have hleaves : (g.execReport d).find Tag.leavesQty = some (intText d.leavesQuantity.toNat) := rfl
  have hcum : (g.execReport d).find Tag.cumQty = some (intText
      ((((g.store.find d.clientOrderId).map (·.quantity)).getD d.quantity).toNat -
        d.leavesQuantity.toNat : Nat)) := by
    generalize horiginal : ((g.store.find d.clientOrderId).map (·.quantity)).getD d.quantity = original
    have hfound : (g.execReport d).find Tag.cumQty = some (intText
        (if d.leavesQuantity ≤ original then original - d.leavesQuantity else 0).toNat) := by
      rw [← horiginal]
      rfl
    rw [hfound]
    split
    · rename_i hle
      rw [UInt32.toNat_sub_of_le _ _ hle]
    · rename_i hlt
      have hlt : original.toNat < d.leavesQuantity.toNat := by
        simpa [UInt32.le_iff_toNat_le] using hlt
      rw [Nat.sub_eq_zero_of_le (Nat.le_of_lt hlt)]
      rfl
  constructor
  · intro h
    have heq := h.cumQty
    rw [hcum] at heq
    exact intText_inj (Option.some.inj heq)
  · intro h
    exact ⟨hleaves, by rw [hcum, h]⟩

/-- A turn that meets a report on the order. -/
theorem tells_iff (hpop : g.reports.pop = some (d, reports)) (hd : About id d) :
    Tells id quantity g durable ↔
      ((((g.pump durable).store.find id).map (·.quantity)).getD d.quantity).toNat -
        d.leavesQuantity.toNat = quantity.toNat - d.leavesQuantity.toNat := by
  obtain ⟨hevent, rfl⟩ := hd
  have hpump := pump_event durable hpop hevent
  have hsent : ({ g with reports }.recordReport durable d).sent = g.sent := by
    unfold recordReport
    split <;> rfl
  unfold Tells
  rw [hpump]
  generalize OrderRouter.recordReport { g with reports } durable d = g₁ at hsent ⊢
  have htold : (g₁.sendExecReport d).sent = g.sent ++ [g₁.execReport d] := by
    rw [← hsent]
    rfl
  rw [htold]
  constructor
  · intro h
    obtain ⟨m, hm, hcarries⟩ := h d reports hpop ⟨hevent, rfl⟩
    obtain rfl := List.singleton_inj.mp (List.append_cancel_left hm)
    have hcum := execReport_carries_iff.mp hcarries
    exact hcum
  · intro h d' reports' hpop' _
    obtain ⟨rfl, rfl⟩ := Prod.mk.inj (Option.some.inj (hpop.symm.trans hpop'))
    exact ⟨_, rfl, execReport_carries_iff.mpr h⟩

/-- Where the store is between two reports on the order: it is live with the quantity it was for,
or it has ended and nothing of it is left. -/
inductive Standing (id : UInt64) (quantity : UInt32) (store : OrderStore) :
    (ended : Bool) → (leaves : Nat) → Prop where
  | live {leaves : Nat} {r : OrderRecord} (hr : store.find id = some r)
      (hquantity : r.quantity = quantity) : Standing id quantity store false leaves
  | finished (hnone : store.find id = none) : Standing id quantity store true 0

/-- Reports about other orders leave it where it is. -/
theorem Standing.congr {store store' : OrderStore} {ended : Bool} {leaves : Nat}
    (h : Standing id quantity store ended leaves) (heq : store'.find id = store.find id) :
    Standing id quantity store' ended leaves := by
  cases h with
  | live hr hquantity => exact .live (heq.trans hr) hquantity
  | finished hnone => exact .finished (heq.trans hnone)

theorem pump_reports (hpop : g.reports.pop = some (d, reports)) (durable : Bool) :
    (g.pump durable).reports = reports := by
  unfold pump
  rw [hpop]
  dsimp only
  unfold onReport
  split
  · split <;> rfl
  · split <;> rfl
  · show (recordReport _ durable d).reports = _
    unfold recordReport
    split <;> rfl

/-- What a turn does to the store is what recording the report does, if the report is an event. -/
theorem pump_store (hpop : g.reports.pop = some (d, reports)) (durable : Bool) :
    (g.pump durable).store =
      if isEvent d then (({ g with reports } : OrderRouter).recordReport durable d).store
      else g.store := by
  cases hevent : isEvent d with
  | true =>
    rw [pump_event durable hpop hevent]
    rfl
  | false =>
    unfold pump
    rw [hpop]
    unfold isEvent at hevent
    dsimp only
    unfold onReport
    cases htype : d.execType <;> rw [htype] at hevent <;> cases hevent
    · dsimp only
      split <;> rfl
    · dsimp only
      split <;> rfl

theorem working_pump (h : OrderStore.Working g.store.live)
    (hpop : g.reports.pop = some (d, reports)) (durable : Bool) :
    OrderStore.Working (g.pump durable).store.live := by
  rw [pump_store hpop]
  split
  · exact working_recordReport h
  · exact h

theorem find_pump_of_not_about (hpop : g.reports.pop = some (d, reports)) (hd : ¬ About id d) :
    (g.pump durable).store.find id = g.store.find id := by
  rw [pump_store hpop]
  split
  · rename_i hevent
    exact find_recordReport_of_ne fun hid => hd ⟨hevent, hid⟩
  · rfl

/-- A fill of a live order keeps it, unless it ends it and the disk takes that. -/
theorem standing_fill (durable : Bool) (hwork : OrderStore.Working g.store.live)
    (hpop : g.reports.pop = some (d, reports)) (hfill : isFill d = true) (hd : About id d)
    {r : OrderRecord} (hr : g.store.find id = some r) (hquantity : r.quantity = quantity) :
    Standing id quantity (g.pump durable).store (ends id (durable, d)) d.leavesQuantity.toNat := by
  obtain ⟨hevent, rfl⟩ := hd
  obtain ⟨hid, -⟩ := OrderStore.exists_split_of_find hr
  rw [pump_store hpop, hevent, if_pos rfl]
  unfold recordReport
  rw [show ({ g with reports } : OrderRouter).store.find d.clientOrderId = some r from hr]
  dsimp only
  cases durable with
  | false =>
    have hends : ends d.clientOrderId (false, d) = false := rfl
    rw [hends]
    exact .live hr hquantity
  | true =>
    have hfind := OrderStore.find_apply_self hwork (r := nextRecord r d)
    rw [nextRecord_clientOrderId, hid] at hfind
    have hterm : (nextRecord r d).isTerminal = ends d.clientOrderId (true, d) := by
      have habout : decide (About d.clientOrderId d) = true := decide_eq_true ⟨hevent, rfl⟩
      unfold ends
      rw [habout]
      unfold isFill at hfill
      unfold nextRecord OrderRecord.isTerminal
      cases htype : d.execType <;> rw [htype] at hfill <;> simp at hfill
      · simp
      · by_cases hzero : d.leavesQuantity = 0 <;> simp [hzero]
    rw [hterm] at hfind
    cases hends : ends d.clientOrderId (true, d) with
    | true =>
      rw [hends, if_pos rfl] at hfind
      have hzero : d.leavesQuantity = 0 := by
        unfold ends at hends
        simp only [Bool.and_eq_true, decide_eq_true_eq] at hends
        exact hends.2.2
      rw [hzero]
      exact .finished hfind
    | false =>
      rw [hends, if_neg Bool.false_ne_true] at hfind
      exact .live hfind ((nextRecord_quantity r d).trans hquantity)

/-- A fill after the order has ended finds nothing on record. -/
theorem find_pump_of_none (durable : Bool) (hpop : g.reports.pop = some (d, reports)) (hd : About id d)
    (hnone : g.store.find id = none) : (g.pump durable).store.find id = none := by
  obtain ⟨hevent, rfl⟩ := hd
  rw [pump_store hpop, hevent, if_pos rfl]
  unfold recordReport
  rw [show ({ g with reports } : OrderRouter).store.find d.clientOrderId = none from hnone]
  exact hnone

/-- **`CumQty` over the reports of an order**, from wherever it stands. -/
theorem tells_along_iff {leaves : Nat} {ds : List (Bool × ExecReport)} (h : Fills id leaves ds)
    {ended : Bool} {rest : List ExecReport} (hwork : OrderStore.Working g.store.live)
    (hring : g.reports.items = ds.map (·.2) ++ rest)
    (hstands : Standing id quantity g.store ended leaves) :
    Run.Along pump (Tells id quantity) g (ds.map (·.1)) ↔ WholeFrom id quantity ended ds := by
  induction h generalizing g ended with
  | nil => exact Iff.rfl
  | other hd h ih =>
    rename_i leaves durable d ds
    have hpop : g.reports.pop =
        some (d, { g.reports with items := ds.map (·.2) ++ rest }) := Fifo.pop_cons hring
    have hquiet : Tells id quantity g durable := by
      intro d' reports' hpop' hd'
      obtain ⟨rfl, -⟩ := Prod.mk.inj (Option.some.inj (hpop.symm.trans hpop'))
      exact absurd hd' hd
    have hends : (ended || ends id (durable, d)) = ended := by
      simp [ends, hd]
    have hrest := ih (working_pump hwork hpop durable)
      (by rw [pump_reports hpop]) (hstands.congr (find_pump_of_not_about hpop hd))
    show Tells id quantity g durable ∧ _ ↔ (_ → _) ∧ Run.Along _ _ (ended || ends id (durable, d)) ds
    rw [hends]
    exact and_congr (iff_of_true hquiet fun habout => absurd habout hd) hrest
  | fill hfill hd hleaves h ih =>
    rename_i leaves durable d ds
    have hpop : g.reports.pop =
        some (d, { g.reports with items := ds.map (·.2) ++ rest }) := Fifo.pop_cons hring
    have hrest : ∀ b, Standing id quantity (g.pump durable).store b d.leavesQuantity.toNat →
        (Run.Along pump (Tells id quantity) (g.pump durable) (ds.map (·.1)) ↔
          WholeFrom id quantity b ds) := fun _ =>
      ih (working_pump hwork hpop durable) (by rw [pump_reports hpop])
    show Tells id quantity g durable ∧ _ ↔ (_ → _ → d.quantity = quantity) ∧
      Run.Along _ _ (ended || ends id (durable, d)) ds
    rw [tells_iff hpop hd, imp_iff_right hd]
    cases hstands with
    | live hr hquantity =>
      have hnext := standing_fill durable hwork hpop hfill hd hr hquantity
      refine and_congr ?_ (hrest _ hnext)
      rw [Bool.false_or]
      generalize ends id (durable, d) = ends at hnext ⊢
      generalize d.leavesQuantity.toNat = left at hnext ⊢
      cases hnext with
      | live hr' hquantity' =>
        rw [hr']
        exact iff_of_true (by simp [hquantity']) fun h => absurd h Bool.false_ne_true
      | finished hnone =>
        rw [hnone, imp_iff_right rfl]
        simp [UInt32.toNat_inj]
    | finished hnone =>
      have hnone' := find_pump_of_none durable hpop hd hnone
      have hzero : d.leavesQuantity.toNat = 0 := by omega
      have hnext : Standing id quantity (g.pump durable).store true d.leavesQuantity.toNat := by
        rw [hzero]
        exact .finished hnone'
      refine and_congr ?_ (hrest true hnext)
      rw [hnone', hzero, Bool.true_or, imp_iff_right rfl]
      simp [UInt32.toNat_inj]

/-- **When `CumQty` is what has been filled.** In every state a gateway that was started from a log
gets to, for every order it has on record and every run of fills of it: each turn of `pump` that
takes one says so just where the fill that ends the order, and any after it, is of all that was
asked for. -/
theorem cumQty_iff (disk : Disk) {start : MainLoop} {log : List OrderRecord}
    (hlog : start.router.store = .openLog log) (events : List LoopEvent) {g : OrderRouter}
    (hg : (events.foldl (MainLoop.step disk) start).router = g) {r : OrderRecord}
    (hr : r ∈ g.store.live) {ds : List (Bool × ExecReport)} {rest : List ExecReport}
    (hring : g.reports.items = ds.map (·.2) ++ rest)
    (hfills : Fills r.clientOrderId r.leavesQuantity.toNat ds) :
    Run.Along pump (Tells r.clientOrderId r.quantity) g (ds.map (·.1)) ↔
      WholeFrom r.clientOrderId r.quantity false ds := by
  have hwork : OrderStore.Working g.store.live := by
    rw [← hg]
    exact (MainLoop.run_logged disk hlog events).working
  exact tells_along_iff hfills hwork hring
    (.live ((OrderStore.find_eq_some_iff hwork).mpr ⟨hr, rfl⟩) rfl)

/-- An order for 100. -/
def hundred : OrderRecord := ⟨7, 100, 10000, 100, 100, 1, .bid, .live⟩

def fillOf (quantity leaves : UInt32) : ExecReport :=
  { clientOrderId := 7, exchangeOrderId := 100, tradeId := 9, price := 10000, quantity := quantity
    leavesQuantity := leaves, symbolId := 1, side := .bid, execType := .fill
    rejectReason := .notRejected }

/-- A gateway with the order on record and its fills in the ring. -/
def withFills (ds : List ExecReport) : OrderRouter :=
  { orders := ⟨8, []⟩, reports := ⟨8, ds⟩, store := .openLog [hundred], symbols := [] }

/-- Filled at once. -/
theorem cumQty_at_once :
    Run.Along pump (Tells 7 100) (withFills [fillOf 100 0]) [true] ↔
      WholeFrom 7 100 false [(true, fillOf 100 0)] :=
  let start : MainLoop :=
    ⟨withFills [fillOf 100 0], .new { senderCompId := ['G'], targetCompId := ['C'] } {}⟩
  have hstart : start.router.store = .openLog [hundred] := rfl
  have hfills : Fills hundred.clientOrderId hundred.leavesQuantity.toNat [(true, fillOf 100 0)] :=
    .fill rfl ⟨rfl, rfl⟩ rfl .nil
  have hring : start.router.reports.items = [(true, fillOf 100 0)].map (·.2) ++ [] := rfl
  cumQty_iff (fun _ => .synced) hstart [] rfl (List.mem_singleton.mpr rfl) hring hfills

/-- Filled in two: the client is told of 60, and then that 40 are filled in all. -/
theorem last_fill_alone :
    Fills 7 100 [(true, fillOf 60 40), (true, fillOf 40 0)] ∧
      ((withFills [fillOf 60 40, fillOf 40 0]).pump true |>.pump true).sent.map
        (·.find Tag.cumQty) = [some (intText 60), some (intText 40)] ∧
      ¬ Run.Along pump (Tells 7 100) (withFills [fillOf 60 40, fillOf 40 0]) [true, true] := by
  have hfills : Fills 7 100 [(true, fillOf 60 40), (true, fillOf 40 0)] :=
    .fill rfl ⟨rfl, rfl⟩ rfl (.fill rfl ⟨rfl, rfl⟩ rfl .nil)
  have hwork : OrderStore.Working (withFills [fillOf 60 40, fillOf 40 0]).store.live :=
    (OrderStore.logged_openLog [hundred]).working
  refine ⟨hfills, by decide +kernel, fun htold => ?_⟩
  have hring : (withFills [fillOf 60 40, fillOf 40 0]).reports.items =
      [(true, fillOf 60 40), (true, fillOf 40 0)].map (·.2) ++ [] := rfl
  have hstands : Standing 7 100 (withFills [fillOf 60 40, fillOf 40 0]).store false 100 :=
    .live (rfl : _ = some hundred) rfl
  have hwhole := (tells_along_iff hfills hwork hring hstands).mp htold
  exact absurd (hwhole.2.1 ⟨rfl, rfl⟩ rfl) (by decide)

end OrderRouter

end MarketData.Gateway
