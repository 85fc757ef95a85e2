import MarketData.Gateway.Divergence
import MarketData.Lib.Run
import MarketData.Matching.OrderPath

/-!
# `Trading/Reconciliation.lean` — which answer a reconciliation is about

The gateway asks the engine what it is holding. The lines of the answer come back over the engine's
ring and, past the risk service, over the gateway's, and a marker with the number of the request
ends them. The lines themselves do not say which request they answer, and a line that finds the
gateway's ring full is lost. Here every report on its way carries, for the proof only, the request
whose answer it is part of. Where no line of another answer is taken while one is awaited, and none
of the lines that are awaited is lost, the answer is compared as the engine gave it
(`compared_of_inOrder`).

Which orders the engine answers with, and when, is left open, and so is the order in which the
processes move; what it sends has the form `on_reconcile` gives it (`onReconcile_sends`).

## Labels nobody reads

The label on a report says of which answer it is a part. It is there so that the statement can be
made at all, and erasing it gives the processes as they are: no function of the code takes one.
`InOrder` reads the labels, on the state before a step. It is the condition for an answer not to be
mixed with another, and the code has nothing to enforce it with, because a line names an order and
no request.

The comparison itself is `Gateway/Divergence.lean`. Here it is only asked what it was given.
-/

set_option autoImplicit false

namespace MarketData.Trading

open MarketData.Wire MarketData.Gateway

/-- An order the engine names in an answer. -/
structure StatusLine where
  clientOrderId : UInt64
  exchangeOrderId : UInt64
  price : Int64
  quantity : UInt32
  symbolId : UInt16
  side : Side
  deriving DecidableEq, Repr

namespace StatusLine

/-- The line as `on_reconcile` sends it. -/
def report (l : StatusLine) : ExecReport :=
  ⟨l.clientOrderId, l.exchangeOrderId, 0, l.price, l.quantity, l.quantity, l.symbolId, l.side,
    .orderStatus, .notRejected⟩

/-- What the gateway keeps of it. -/
def entry (l : StatusLine) : DivergenceEntry :=
  { exchangeOrderId := l.exchangeOrderId, engineLeaves := l.quantity, symbolId := l.symbolId }

end StatusLine

/-- The end of an answer of that many lines. -/
def marker (requestId : UInt64) (lines : Nat) : ExecReport :=
  ⟨requestId, 0, 0, 0, UInt32.ofNat (min lines (2 ^ 32 - 1)), 0, 0, .bid, .statusComplete,
    .notRejected⟩

/-- One turn of the loop of `on_reconcile` sends a line, or none. -/
theorem name_sends (books : Book.Books) (p : Matching.OrderPath) (named : Nat)
    (o : Matching.Owned) :
    ∃ lines : List StatusLine, (p.name books named o).2 = named + lines.length ∧
      (p.name books named o).1.reports.items = p.reports.items ++ lines.map StatusLine.report := by
  have hnone : ∀ q : Matching.OrderPath, q.reports = p.reports →
      ∃ lines : List StatusLine, named = named + lines.length ∧
        q.reports.items = p.reports.items ++ lines.map StatusLine.report := by
    intro q hq
    exact ⟨[], rfl, by rw [hq, List.map_nil, List.append_nil]⟩
  unfold Matching.OrderPath.name
  split
  · exact hnone p rfl
  · rename_i symbolId resting _
    split
    · rename_i reports hpush
      refine ⟨[⟨o.clientOrderId, o.exchangeOrderId, resting.price, resting.quantity, symbolId,
        resting.side⟩], rfl, ?_⟩
      exact congrArg Fifo.items (Fifo.push_some hpush)
    · exact hnone _ rfl

/-- The loop over the orders sends lines, and counts them. -/
theorem foldl_name_sends (books : Book.Books) (owned : List Matching.Owned)
    (q : Matching.OrderPath) (named : Nat) : ∃ lines : List StatusLine,
    (owned.foldl (fun (p, named) o => p.name books named o) (q, named)).2 =
      named + lines.length ∧
    (owned.foldl (fun (p, named) o => p.name books named o) (q, named)).1.reports.items =
      q.reports.items ++ lines.map StatusLine.report := by
  induction owned generalizing q named with
  | nil => exact ⟨[], rfl, (List.append_nil _).symm⟩
  | cons o owned ih =>
    obtain ⟨lines, hnamed, hitems⟩ := name_sends books q named o
    obtain ⟨lines', hnamed', hitems'⟩ := ih (q.name books named o).1 (q.name books named o).2
    refine ⟨lines ++ lines', ?_, ?_⟩
    · rw [List.foldl_cons, List.length_append]
      exact hnamed'.trans (by omega)
    · rw [List.foldl_cons, List.map_append, ← List.append_assoc, ← hitems]
      exact hitems'

/-- **What the engine sends in answer to a request**: lines, and then the marker with their number,
if there is room for it. -/
theorem onReconcile_sends (p : Matching.OrderPath) (books : Book.Books) (requestId : UInt64) :
    ∃ (lines : List StatusLine) (whole : Bool), (p.onReconcile books requestId).reports.items =
      p.reports.items ++ lines.map StatusLine.report ++
        if whole then [marker requestId lines.length] else [] := by
  obtain ⟨lines, hnamed, hitems⟩ := foldl_name_sends books p.owned p 0
  unfold Matching.OrderPath.onReconcile
  generalize p.owned.foldl (fun (p, named) o => p.name books named o) (p, 0) = r at hnamed hitems
  obtain ⟨q, named⟩ := r
  obtain rfl : named = lines.length := hnamed.trans (Nat.zero_add _)
  dsimp only
  unfold Matching.OrderPath.emit
  split
  · rename_i reports hpush
    refine ⟨lines, true, ?_⟩
    rw [← hitems]
    exact congrArg Fifo.items (Fifo.push_some hpush)
  · refine ⟨lines, false, ?_⟩
    rw [if_neg Bool.false_ne_true, List.append_nil]
    exact hitems

/-- A report on its way, and the request whose answer it is part of. -/
structure Underway where
  report : ExecReport
  request : Option Nat := none

structure Reconciling where
  router : OrderRouter
  /-- How many requests were sent. -/
  made : Nat := 0
  /-- The request that is awaited. -/
  current : Option Nat := none
  /-- Requests the engine has not come to yet, with the ids they carry. -/
  unanswered : List (Nat × UInt64) := []
  /-- What the engine answered. -/
  answers : Nat → Option (List StatusLine) := fun _ => none
  /-- In the engine's ring. -/
  execs : List Underway := []
  /-- In the gateway's ring. -/
  ring : List Underway := []

inductive Move where
  | request
  | application (m : FixMessage) (durable durable' : Bool)
  /-- The risk service takes a message of the gateway. -/
  | riskOrder
  /-- The risk service finds no room for a request. -/
  | lose
  /-- The engine answers; `whole` says whether there was room for the marker. -/
  | answer (lines : List StatusLine) (whole : Bool)
  /-- A report of the engine on an order. -/
  | event (d : ExecReport)
  /-- The risk service passes the next report of the engine on. -/
  | forward
  /-- A report of the risk service itself. -/
  | reject (d : ExecReport)
  | pump (durable : Bool)

/-- A report that is part of an answer. -/
def ofAnswer (d : ExecReport) : Prop := d.execType = .orderStatus ∨ d.execType = .statusComplete

instance (d : ExecReport) : Decidable (ofAnswer d) := inferInstanceAs (Decidable (_ ∨ _))

namespace Reconciling

/-- A report goes into the gateway's ring, if there is room. -/
def deliver (s : Reconciling) (t : Underway) : Reconciling :=
  match s.router.reports.push t.report with
  | none => s
  | some reports => { s with router := { s.router with reports }, ring := s.ring ++ [t] }

def step (s : Reconciling) : Move → Reconciling
  | .request =>
    let (ok, router) := s.router.requestReconciliation
    if ok then
      { s with
        router
        made := s.made + 1
        current := some s.made
        unanswered := s.unanswered ++ [(s.made, router.reconcileRequestId)] }
    else { s with router, current := none }
  | .application m durable durable' =>
    { s with router := (s.router.onApplication m durable durable').2 }
  | .riskOrder =>
    match s.router.orders.pop with
    | none => s
    | some (_, orders) => { s with router := { s.router with orders } }
  | .lose => { s with unanswered := s.unanswered.tail }
  | .answer lines whole =>
    match s.unanswered with
    | [] => s
    | (n, id) :: unanswered =>
      { s with
        unanswered
        answers := Function.update s.answers n (some lines)
        execs := s.execs ++ (lines.map fun l => ⟨l.report, some n⟩) ++
          if whole then [⟨marker id lines.length, some n⟩] else [] }
  | .event d => if ofAnswer d then s else { s with execs := s.execs ++ [⟨d, none⟩] }
  | .forward =>
    match s.execs with
    | [] => s
    | t :: execs => { s with execs }.deliver t
  | .reject d => if ofAnswer d then s else s.deliver ⟨d, none⟩
  | .pump durable => { s with router := s.router.pump durable, ring := s.ring.tail }

/-- What was compared is the answer, as the engine gave it. -/
structure Compared (g : OrderRouter) (lines : List StatusLine) (g' : OrderRouter) : Prop where
  view : g.engineView = lines.map StatusLine.entry
  /-- An order of the log that the answer names is not said to be the gateway's alone. -/
  named : (OrderRouter.ids g.store.live).Nodup → ∀ e ∈ g'.divergence.entries,
    e.kind = .gatewayOnly → e.exchangeOrderId = 0 ∨
      ∀ l ∈ lines, l.exchangeOrderId ≠ e.exchangeOrderId
  /-- No order is listed twice. -/
  once : (OrderRouter.ids g.store.live).Nodup → (lines.map StatusLine.exchangeOrderId).Nodup →
    ((g'.divergence.entries.map DivergenceEntry.exchangeOrderId).filter (· ≠ 0)).Nodup

/-- The report that `pump` takes next ends the answer that is awaited. -/
def Finishes (s : Reconciling) : Prop :=
  ∃ d reports, s.router.reports.pop = some (d, reports) ∧ d.execType = .statusComplete ∧
    s.router.reconcileState = .awaiting ∧ d.clientOrderId = s.router.reconcileRequestId

/-- Whenever a reconciliation is finished, it is about the answer to the request that is awaited. -/
def Answered (s : Reconciling) : Move → Prop
  | .pump durable => s.Finishes → ∃ n lines, s.current = some n ∧ s.answers n = some lines ∧
      Compared s.router lines (s.step (.pump durable)).router
  | _ => True

/-- While a request is awaited, no line of another answer is taken, nor the marker of another
under the same id; and there is room in the gateway's ring for the lines that are awaited. -/
def InOrder (s : Reconciling) : Move → Prop
  | .pump _ => ∀ t ∈ s.ring.head?, s.router.reconcileState = .awaiting →
      (t.report.execType = .orderStatus → s.current.isSome → t.request = s.current) ∧
      (t.report.execType = .statusComplete → t.report.clientOrderId = s.router.reconcileRequestId →
        s.current.isSome ∧ t.request = s.current)
  | .forward => ∀ t ∈ s.execs.head?, t.report.execType = .orderStatus →
      s.router.reconcileState = .awaiting → s.current.isSome → t.request = s.current →
      s.router.reports.items.length < s.router.reports.capacity
  | _ => True

instance (s : Reconciling) : (e : Move) → Decidable (s.InOrder e)
  | .pump _ => inferInstanceAs (Decidable (∀ t ∈ s.ring.head?, _ → _))
  | .forward => inferInstanceAs (Decidable (∀ t ∈ s.execs.head?, _ → _))
  | .request | .application .. | .riskOrder | .lose | .answer .. | .event _ | .reject _ =>
    .isTrue trivial

end Reconciling

/-! ## What the router does to a reconciliation -/

/-- What has nothing to do with a reconciliation leaves it alone. -/
structure Unasked (g g' : OrderRouter) : Prop where
  reports : g'.reports = g.reports
  engineView : g'.engineView = g.engineView
  reconcileState : g'.reconcileState = g.reconcileState
  divergence : g'.divergence = g.divergence
  reconcileRequestId : g'.reconcileRequestId = g.reconcileRequestId

theorem sendOrder_unasked (g : OrderRouter) (m : FixMessage) (durable durable' : Bool)
    (r : OrderRecord) : Unasked g (g.sendOrder m durable durable' r) := by
  unfold OrderRouter.sendOrder
  cases g.store.record durable r with
  | none => exact ⟨rfl, rfl, rfl, rfl, rfl⟩
  | some store =>
    dsimp only
    split
    · exact ⟨rfl, rfl, rfl, rfl, rfl⟩
    · exact ⟨rfl, rfl, rfl, rfl, rfl⟩

theorem onNewOrderSingle_unasked (g : OrderRouter) (m : FixMessage) (durable durable' : Bool) :
    Unasked g (g.onNewOrderSingle m durable durable') := by
  unfold OrderRouter.onNewOrderSingle
  split
  · split
    · exact ⟨rfl, rfl, rfl, rfl, rfl⟩
    · split
      · exact sendOrder_unasked ..
      · exact ⟨rfl, rfl, rfl, rfl, rfl⟩
      · exact ⟨rfl, rfl, rfl, rfl, rfl⟩
  · exact ⟨rfl, rfl, rfl, rfl, rfl⟩

theorem onOrderCancelRequest_unasked (g : OrderRouter) (m : FixMessage) :
    Unasked g (g.onOrderCancelRequest m) := by
  unfold OrderRouter.onOrderCancelRequest
  split
  · split
    · split
      · exact ⟨rfl, rfl, rfl, rfl, rfl⟩
      · exact ⟨rfl, rfl, rfl, rfl, rfl⟩
    · exact ⟨rfl, rfl, rfl, rfl, rfl⟩
  · exact ⟨rfl, rfl, rfl, rfl, rfl⟩

theorem onApplication_unasked (g : OrderRouter) (m : FixMessage) (durable durable' : Bool) :
    Unasked g (g.onApplication m durable durable').2 := by
  unfold OrderRouter.onApplication
  split
  · exact onNewOrderSingle_unasked ..
  split
  · exact onOrderCancelRequest_unasked ..
  · exact ⟨rfl, rfl, rfl, rfl, rfl⟩

/-- What `request_reconciliation` does: a request that is sent starts over. -/
inductive Requested (g : OrderRouter) : Bool × OrderRouter → Prop where
  | sent {g' : OrderRouter} (hreports : g'.reports = g.reports) (hview : g'.engineView = [])
      (hentries : g'.divergence.entries = []) : Requested g (true, g')
  | notSent {g' : OrderRouter} (hreports : g'.reports = g.reports) : Requested g (false, g')

theorem requestReconciliation_requested (g : OrderRouter) : Requested g g.requestReconciliation := by
  unfold OrderRouter.requestReconciliation
  dsimp only
  split
  · exact .notSent rfl
  · exact .sent rfl rfl rfl

/-- What one turn of `pump` does with the report it takes. -/
inductive Taken (g : OrderRouter) (d : ExecReport) : OrderRouter → Prop where
  | line {g' : OrderRouter} (htype : d.execType = .orderStatus)
      (hstate : g.reconcileState = .awaiting)
      (hview : g'.engineView = g.engineView ++ [⟨.agree, 0, d.exchangeOrderId, 0, d.leavesQuantity,
        d.symbolId⟩])
      (hentries : g'.divergence = g.divergence) : Taken g d g'
  | finished {g' : OrderRouter} (htype : d.execType = .statusComplete)
      (hstate : g.reconcileState = .awaiting) (hid : d.clientOrderId = g.reconcileRequestId)
      (hentries : g'.divergence.entries = g.finishReconciliation.divergence.entries)
      (hdone : g'.reconcileState = .done) : Taken g d g'
  | other {g' : OrderRouter} (hview : g'.engineView = g.engineView)
      (hentries : g'.divergence = g.divergence) (hstate : g'.reconcileState = g.reconcileState)
      (hline : d.execType = .orderStatus → g.reconcileState ≠ .awaiting)
      (hmarker : d.execType = .statusComplete → g.reconcileState = .awaiting →
        d.clientOrderId ≠ g.reconcileRequestId) : Taken g d g'

theorem pump_taken {g : OrderRouter} {d : ExecReport} {reports : Fifo ExecReport}
    (hpop : g.reports.pop = some (d, reports)) (durable : Bool) :
    (g.pump durable).reports = reports ∧ Taken g d (g.pump durable) := by
  unfold OrderRouter.pump
  rw [hpop]
  dsimp only
  unfold OrderRouter.onReport
  split
  · rename_i htype
    split
    · rename_i hstate
      exact ⟨rfl, .line htype hstate rfl rfl⟩
    · rename_i hstate
      exact ⟨rfl, .other rfl rfl rfl (fun _ => hstate) fun h => (by rw [htype] at h; cases h)⟩
  · rename_i htype
    split
    · rename_i hstate
      exact ⟨rfl, .finished htype hstate.1 hstate.2 rfl rfl⟩
    · rename_i hstate
      exact ⟨rfl, .other rfl rfl rfl (fun h => (by rw [htype] at h; cases h))
        fun _ hawait hid => hstate ⟨hawait, hid⟩⟩
  · rename_i hline hmarker
    unfold OrderRouter.recordReport
    dsimp only
    split
    · exact ⟨rfl, .other rfl rfl rfl (fun h => absurd h hline) fun h => absurd h hmarker⟩
    · exact ⟨rfl, .other rfl rfl rfl (fun h => absurd h hline) fun h => absurd h hmarker⟩

/-! ## Nothing is mixed in, and nothing is missing -/

/-- How far the answer to request `n` has come: what the gateway has taken of it, and what is on
its way. -/
inductive Coming (n : Nat) (view : List DivergenceEntry) (answer : Option (List StatusLine))
    (ts : List Underway) : Prop where
  | unanswered (hview : view = []) (hts : ts = []) : Coming n view answer ts
  | answered {taken rest : List StatusLine} {tail : List Underway}
      (hanswer : answer = some (taken ++ rest)) (hview : view = taken.map StatusLine.entry)
      (hts : ts = (rest.map fun l => ⟨l.report, some n⟩) ++ tail)
      (htail : tail = [] ∨ ∃ id k, tail = [⟨marker id k, some n⟩]) : Coming n view answer ts

/-- The marker of an answer comes last of it. -/
theorem eq_of_append_cons {α : Type*} {as bs rest tail : List α} {m : α}
    (h : as ++ m :: bs = rest ++ tail) (hm : m ∉ rest) (htail : tail.length ≤ 1) :
    as = rest ∧ bs = [] := by
  rcases List.append_eq_append_iff.mp h with ⟨cs, hrest, hcs⟩ | ⟨cs, has, hcs⟩
  · cases cs with
    | nil =>
      rw [List.append_nil] at hrest
      rw [List.nil_append] at hcs
      rw [← hcs, List.length_cons] at htail
      exact ⟨hrest.symm, List.length_eq_zero_iff.mp (by omega)⟩
    | cons c cs =>
      rw [List.cons_append] at hcs
      rw [hrest, ← (List.cons.inj hcs).1] at hm
      exact absurd (by simp) hm
  · have hlen := congrArg List.length hcs
    rw [List.length_append, List.length_cons] at hlen
    have hnil : cs = [] := List.length_eq_zero_iff.mp (by omega)
    refine ⟨by rw [has, hnil, List.append_nil], List.length_eq_zero_iff.mp (by omega)⟩

namespace Coming

variable {n : Nat} {view : List DivergenceEntry} {answer : Option (List StatusLine)}
  {ts as bs : List Underway} {t : Underway}

theorem tail_length {tail : List Underway} (h : tail = [] ∨ ∃ id k, tail = [⟨marker id k, some n⟩]) :
    tail.length ≤ 1 := by
  rcases h with rfl | ⟨id, k, rfl⟩
  · exact Nat.zero_le _
  · exact Nat.le_refl _

/-- A report of the answer that is no line can be lost. -/
theorem drop (h : Coming n view answer (as ++ t :: bs)) (ht : t.report.execType ≠ .orderStatus) :
    Coming n view answer (as ++ bs) := by
  cases h with
  | unanswered hview hts => simp at hts
  | answered hanswer hview hts htail =>
    rename_i taken rest tail
    have hline : t ∉ rest.map fun l => (⟨l.report, some n⟩ : Underway) := by
      intro hmem
      obtain ⟨l, -, rfl⟩ := List.mem_map.mp hmem
      exact ht rfl
    obtain ⟨rfl, rfl⟩ := eq_of_append_cons hts hline (tail_length htail)
    exact .answered hanswer hview rfl (.inl rfl)

/-- A line of the answer is the next one of it. -/
theorem line (h : Coming n view answer (t :: bs)) (ht : t.report.execType = .orderStatus) :
    Coming n (view ++ [⟨.agree, 0, t.report.exchangeOrderId, 0, t.report.leavesQuantity,
      t.report.symbolId⟩]) answer bs := by
  cases h with
  | unanswered hview hts => cases hts
  | answered hanswer hview hts htail =>
    rename_i taken rest tail
    cases rest with
    | nil =>
      rw [List.map_nil, List.nil_append] at hts
      rcases htail with rfl | ⟨id, k, rfl⟩
      · cases hts
      · cases hts
        cases ht
    | cons l rest =>
      rw [List.map_cons, List.cons_append] at hts
      obtain ⟨rfl, rfl⟩ := List.cons.inj hts
      have hanswer' : answer = some ((taken ++ [l]) ++ rest) := by
        rw [hanswer, List.append_assoc, List.singleton_append]
      refine .answered hanswer' ?_ rfl htail
      rw [hview, List.map_append]
      rfl

/-- Where the marker comes next, the answer has been taken. -/
theorem marker (h : Coming n view answer (t :: bs)) (ht : t.report.execType ≠ .orderStatus) :
    ∃ lines, answer = some lines ∧ view = lines.map StatusLine.entry := by
  cases h with
  | unanswered hview hts => cases hts
  | answered hanswer hview hts htail =>
    rename_i taken rest tail
    cases rest with
    | nil =>
      rw [List.append_nil] at hanswer
      exact ⟨taken, hanswer, hview⟩
    | cons l rest =>
      obtain ⟨rfl, -⟩ := List.cons.inj hts
      exact absurd rfl ht

end Coming

namespace Reconciling

/-- What is on its way to the gateway, the oldest first. -/
def under (s : Reconciling) : List Underway := s.ring ++ s.execs

/-- What of it is part of the answer to request `n`. -/
def part (n : Nat) (ts : List Underway) : List Underway := ts.filter fun t => t.request = some n

theorem part_append (n : Nat) (ts us : List Underway) : part n (ts ++ us) = part n ts ++ part n us :=
  List.filter_append ..

theorem part_eq_nil {n : Nat} {ts : List Underway} (h : ∀ t ∈ ts, t.request ≠ some n) :
    part n ts = [] :=
  List.filter_eq_nil_iff.mpr fun t ht => by simpa using h t ht

@[simp] theorem part_none (n : Nat) (d : ExecReport) : part n [⟨d, none⟩] = [] := rfl

/-- The requests are told apart, and the answer to the one that is awaited is neither mixed with
another nor incomplete. -/
structure Inv (s : Reconciling) : Prop where
  sync : s.router.reports.items = s.ring.map Underway.report
  numbered : ∀ p ∈ s.unanswered, p.1 < s.made
  distinct : (s.unanswered.map Prod.fst).Nodup
  tagged : ∀ t ∈ s.under, ∀ n, t.request = some n → n < s.made ∧ n ∉ s.unanswered.map Prod.fst
  answered : ∀ n, s.answers n ≠ none → n < s.made ∧ n ∉ s.unanswered.map Prod.fst
  current : ∀ n, s.current = some n → n < s.made
  awaited : s.router.reconcileState = .awaiting → ∀ n, s.current = some n →
    s.router.divergence.entries = [] ∧
      Coming n s.router.engineView (s.answers n) (part n s.under)

variable {s : Reconciling}

/-- A router with anything in its ring, and anything behind it, before the first request. -/
def start (router : OrderRouter) (execs : List ExecReport) : Reconciling where
  router := router
  execs := execs.map fun d => ⟨d, none⟩
  ring := router.reports.items.map fun d => ⟨d, none⟩

theorem inv_start (router : OrderRouter) (execs : List ExecReport) : Inv (start router execs) where
  sync := by
    show router.reports.items = (router.reports.items.map _).map _
    rw [List.map_map]
    exact (List.map_id _).symm
  numbered := fun _ h => (nomatch h)
  distinct := List.nodup_nil
  tagged := by
    intro t ht n hn
    rcases List.mem_append.mp ht with ht | ht
    · obtain ⟨d, -, rfl⟩ := List.mem_map.mp ht
      cases hn
    · obtain ⟨d, -, rfl⟩ := List.mem_map.mp ht
      cases hn
  answered := fun _ h => absurd rfl h
  current := fun _ h => (nomatch h)
  awaited := fun _ _ h => (nomatch h)

namespace Inv

theorem unasked (h : Inv s) {g : OrderRouter} (hg : Unasked s.router g) :
    Inv { s with router := g } where
  sync := by
    show g.reports.items = _
    rw [hg.reports]
    exact h.sync
  numbered := h.numbered
  distinct := h.distinct
  tagged := h.tagged
  answered := h.answered
  current := h.current
  awaited := by
    show g.reconcileState = _ → ∀ n, _ → g.divergence.entries = [] ∧ Coming n g.engineView _ _
    rw [hg.reconcileState, hg.divergence, hg.engineView]
    exact h.awaited

theorem request (h : Inv s) : Inv (s.step .request) := by
  have hreq := requestReconciliation_requested s.router
  unfold step
  dsimp only
  generalize s.router.requestReconciliation = r at hreq ⊢
  cases hreq with
  | notSent hreports =>
    exact ⟨by rw [if_neg Bool.false_ne_true]; exact hreports ▸ h.sync, h.numbered, h.distinct,
      h.tagged, h.answered, fun _ hn => (nomatch hn), fun _ _ hn => (nomatch hn)⟩
  | sent hreports hview hentries =>
    rename_i g
    simp only [if_true]
    have hlt : ∀ n, n < s.made → n ∉ s.unanswered.map Prod.fst →
        n ∉ (s.unanswered ++ [(s.made, g.reconcileRequestId)]).map Prod.fst := by
      intro n hn hmem
      simpa [Nat.ne_of_lt hn] using hmem
    refine ⟨?_, ?_, ?_, ?_, ?_, ?_, ?_⟩
    · exact hreports ▸ h.sync
    · intro p hp
      rcases List.mem_append.mp hp with hp | hp
      · exact Nat.lt_succ_of_lt (h.numbered p hp)
      · rw [List.mem_singleton.mp hp]
        exact Nat.lt_succ_self _
    · show ((s.unanswered ++ [(s.made, g.reconcileRequestId)]).map Prod.fst).Nodup
      rw [List.map_append, List.nodup_append]
      refine ⟨h.distinct, List.pairwise_singleton _ _, ?_⟩
      intro n hn k hk hnk
      obtain ⟨p, hp, rfl⟩ := List.mem_map.mp hn
      have hk' : k = s.made := by simpa using hk
      have hlt := h.numbered p hp
      omega
    · intro t ht n hn
      obtain ⟨hmade, hmem⟩ := h.tagged t ht n hn
      exact ⟨Nat.lt_succ_of_lt hmade, hlt n hmade hmem⟩
    · intro n hn
      obtain ⟨hmade, hmem⟩ := h.answered n hn
      exact ⟨Nat.lt_succ_of_lt hmade, hlt n hmade hmem⟩
    · intro n hn
      cases hn
      exact Nat.lt_succ_self _
    · intro _ n hn
      cases hn
      refine ⟨hentries, .unanswered hview (part_eq_nil fun t ht hreq => ?_)⟩
      exact absurd (h.tagged t ht _ hreq).1 (Nat.lt_irrefl _)

theorem lose (h : Inv s) : Inv (s.step .lose) where
  sync := h.sync
  numbered := fun p hp => h.numbered p (List.mem_of_mem_tail hp)
  distinct := by
    show (s.unanswered.tail.map Prod.fst).Nodup
    rw [List.map_tail]
    exact h.distinct.tail
  tagged := fun t ht n hn => (h.tagged t ht n hn).imp_right fun hmem hmem' =>
    hmem (List.mem_of_mem_tail (List.map_tail ▸ hmem'))
  answered := fun n hn => (h.answered n hn).imp_right fun hmem hmem' =>
    hmem (List.mem_of_mem_tail (List.map_tail ▸ hmem'))
  current := h.current
  awaited := h.awaited

theorem answer (h : Inv s) (lines : List StatusLine) (whole : Bool) :
    Inv (s.step (.answer lines whole)) := by
  unfold step
  dsimp only
  split
  · exact h
  rename_i n id unanswered heq
  have hnumbered := h.numbered
  have hdistinct := h.distinct
  have htagged := h.tagged
  have hanswered := h.answered
  rw [heq] at hnumbered hdistinct htagged hanswered
  obtain ⟨hn, hdistinct⟩ := List.nodup_cons.mp hdistinct
  have hrest : ∀ k, k ∉ List.map Prod.fst ((n, id) :: unanswered) → k ∉ unanswered.map Prod.fst :=
    fun k hk hmem => hk (List.mem_cons_of_mem _ hmem)
  have hmade : n < s.made := hnumbered _ (List.mem_cons_self ..)
  generalize hnew : ((lines.map fun l => (⟨l.report, some n⟩ : Underway)) ++
    if whole then [⟨marker id lines.length, some n⟩] else []) = new
  have hrequest : ∀ t ∈ new, t.request = some n := by
    rw [← hnew]
    intro t ht
    rcases List.mem_append.mp ht with ht | ht
    · obtain ⟨l, -, rfl⟩ := List.mem_map.mp ht
      rfl
    · split at ht
      · rw [List.mem_singleton.mp ht]
      · cases ht
  have hunder : s.ring ++ (s.execs ++ (lines.map fun l => (⟨l.report, some n⟩ : Underway)) ++
      if whole then [⟨marker id lines.length, some n⟩] else []) = s.under ++ new := by
    rw [← hnew, under, List.append_assoc, List.append_assoc]
  refine ⟨h.sync, fun p hp => hnumbered p (List.mem_cons_of_mem _ hp), hdistinct, ?_, ?_, h.current,
    ?_⟩
  · intro t ht k hk
    have ht' : t ∈ s.under ++ new := hunder ▸ ht
    rcases List.mem_append.mp ht' with ht' | ht'
    · exact (htagged t ht' k hk).imp_right (hrest k)
    · rw [← Option.some.inj ((hrequest t ht').symm.trans hk)]
      exact ⟨hmade, hn⟩
  · intro k hk
    by_cases hkn : k = n
    · rw [hkn]
      exact ⟨hmade, hn⟩
    · refine (hanswered k ?_).imp_right (hrest k)
      have hk' : Function.update s.answers n (some lines) k ≠ none := hk
      rwa [Function.update_of_ne hkn] at hk'
  · intro hstate k hk
    obtain ⟨hentries, hcoming⟩ := h.awaited hstate k hk
    refine ⟨hentries, ?_⟩
    show Coming k s.router.engineView (Function.update s.answers n (some lines) k)
      (part k (s.ring ++ (s.execs ++ (lines.map fun l => (⟨l.report, some n⟩ : Underway)) ++ _)))
    rw [hunder, part_append]
    by_cases hkn : k = n
    · subst hkn
      cases hcoming with
      | answered hanswer hview hts htail =>
        -- It was answered before.
        exact absurd (List.mem_cons_self ..) (hanswered k (by simp [hanswer])).2
      | unanswered hview hts =>
        rw [Function.update_self, hts, List.nil_append]
        have hall : part k new = new :=
          List.filter_eq_self.mpr fun t ht => by simpa using hrequest t ht
        have htail : (if whole then [(⟨marker id lines.length, some k⟩ : Underway)] else []) = [] ∨
            ∃ id' m, (if whole then [(⟨marker id lines.length, some k⟩ : Underway)] else []) =
              [⟨marker id' m, some k⟩] := by
          split
          · exact .inr ⟨_, _, rfl⟩
          · exact .inl rfl
        refine .answered (?_ : some lines = some ([] ++ lines)) hview (hall.trans hnew.symm) htail
        rw [List.nil_append]
    · have hnone : part k new = [] :=
        part_eq_nil fun t ht heq' => hkn (Option.some.inj (heq'.symm.trans (hrequest t ht)))
      rw [Function.update_of_ne hkn, hnone, List.append_nil]
      exact hcoming

/-- Reports move on, or are lost. -/
theorem carry (h : Inv s) (reports : Fifo ExecReport) {ring execs : List Underway}
    (hsync : reports.items = ring.map Underway.report)
    (hsub : ∀ t ∈ ring ++ execs, t.request ≠ none → t ∈ s.under)
    (hcoming : s.router.reconcileState = .awaiting → ∀ n, s.current = some n →
      Coming n s.router.engineView (s.answers n) (part n s.under) →
        Coming n s.router.engineView (s.answers n) (part n (ring ++ execs))) :
    Inv { s with router := { s.router with reports }, ring, execs } where
  sync := hsync
  numbered := h.numbered
  distinct := h.distinct
  tagged := fun t ht n hn => h.tagged t (hsub t ht (by simp [hn])) n hn
  answered := h.answered
  current := h.current
  awaited := fun hstate n hn => (h.awaited hstate n hn).imp_right (hcoming hstate n hn)

theorem event (h : Inv s) (d : ExecReport) : Inv (s.step (.event d)) := by
  unfold step
  dsimp only
  split
  · exact h
  · refine h.carry s.router.reports h.sync ?_ ?_
    · intro t ht hreq
      rw [← List.append_assoc] at ht
      rcases List.mem_append.mp ht with ht | ht
      · exact ht
      · rw [List.mem_singleton.mp ht] at hreq
        exact absurd rfl hreq
    · intro _ n _ hcoming
      rw [← List.append_assoc, part_append, part_none,
        List.append_nil]
      exact hcoming

theorem reject (h : Inv s) (d : ExecReport) : Inv (s.step (.reject d)) := by
  unfold step
  dsimp only
  split
  · exact h
  unfold deliver
  split
  · exact h
  rename_i reports hpush
  refine h.carry reports ?_ ?_ ?_
  · rw [Fifo.push_some hpush, List.map_append, h.sync]
    rfl
  · intro t ht hreq
    simp only [List.mem_append, List.mem_singleton] at ht
    rcases ht with (ht | rfl) | ht
    · exact List.mem_append_left _ ht
    · exact absurd rfl hreq
    · exact List.mem_append_right _ ht
  · intro _ n _ hcoming
    rw [part_append, part_append, part_none,
      List.append_nil, ← part_append]
    exact hcoming

theorem forward (h : Inv s) (hc : s.InOrder .forward) : Inv (s.step .forward) := by
  unfold step
  dsimp only
  split
  · exact h
  rename_i t execs heq
  have hunder : s.under = s.ring ++ t :: execs := by rw [under, heq]
  unfold deliver
  dsimp only
  split
  · rename_i hpush
    -- The report is lost.
    refine h.carry s.router.reports h.sync ?_ ?_
    · intro u hu _
      rw [hunder]
      rcases List.mem_append.mp hu with hu | hu
      · exact List.mem_append_left _ hu
      · exact List.mem_append_right _ (List.mem_cons_of_mem _ hu)
    · intro hstate n hn hcoming
      rw [hunder, part_append] at hcoming
      rw [part_append]
      by_cases hreq : t.request = some n
      · have hpart : part n (t :: execs) = t :: part n execs :=
          List.filter_cons_of_pos (by simpa using hreq)
        rw [hpart] at hcoming
        refine hcoming.drop fun htype => ?_
        have hroom := hc t (by rw [heq]; rfl) htype hstate (by rw [hn]; rfl) (hreq.trans hn.symm)
        rw [Fifo.push, if_pos hroom] at hpush
        cases hpush
      · have hpart : part n (t :: execs) = part n execs :=
          List.filter_cons_of_neg (by simpa using hreq)
        rwa [hpart] at hcoming
  · rename_i reports hpush
    refine h.carry reports ?_ ?_ ?_
    · rw [Fifo.push_some hpush, List.map_append, h.sync]
      rfl
    · intro u hu _
      rw [hunder]
      simpa using hu
    · intro _ n _ hcoming
      rw [hunder] at hcoming
      rwa [List.append_assoc, List.singleton_append]

end Inv

/-- The oldest report in the ring, as the router and as the ghost list see it. -/
theorem Inv.pop (h : Inv s) {d : ExecReport} {reports : Fifo ExecReport}
    (hpop : s.router.reports.pop = some (d, reports)) :
    ∃ t rest, s.ring = t :: rest ∧ t.report = d ∧ reports.items = rest.map Underway.report := by
  have hsync := h.sync
  rw [(Fifo.pop_some hpop).1] at hsync
  cases hring : s.ring with
  | nil =>
    rw [hring] at hsync
    cases hsync
  | cons t rest =>
    rw [hring, List.map_cons] at hsync
    obtain ⟨hd, hrest⟩ := List.cons.inj hsync
    exact ⟨t, rest, rfl, hd.symm, hrest⟩

theorem part_cons {n : Nat} {t : Underway} (ts : List Underway) :
    part n (t :: ts) = if t.request = some n then t :: part n ts else part n ts := by
  unfold part
  rw [List.filter_cons]
  simp only [decide_eq_true_eq]

theorem Inv.pump (h : Inv s) (durable : Bool) (hc : s.InOrder (.pump durable)) :
    Inv (s.step (.pump durable)) := by
  show Inv { s with router := s.router.pump durable, ring := s.ring.tail }
  cases hpop : s.router.reports.pop with
  | none =>
    have hitems : s.router.reports.items = [] := by
      unfold Fifo.pop at hpop
      split at hpop
      · assumption
      · cases hpop
    have hring : s.ring = [] := List.map_eq_nil_iff.mp (h.sync.symm.trans hitems)
    have hpump : s.router.pump durable = s.router := by
      unfold OrderRouter.pump
      rw [hpop]
    rw [hpump, hring, List.tail_nil, ← hring]
    exact h
  | some popped =>
    obtain ⟨d, reports⟩ := popped
    obtain ⟨t, rest, hring, rfl, hrest⟩ := h.pop hpop
    obtain ⟨hreports, htaken⟩ := pump_taken hpop durable
    have hunder : s.under = t :: (rest ++ s.execs) := by rw [under, hring, List.cons_append]
    generalize s.router.pump durable = g at hreports htaken ⊢
    rw [hring, List.tail_cons]
    refine ⟨hreports ▸ hrest, h.numbered, h.distinct, ?_, h.answered, h.current, ?_⟩
    · intro u hu
      exact h.tagged u (hunder ▸ List.mem_cons_of_mem _ hu)
    intro hstate n hn
    cases htaken with
    | line htype hawait hview hentries =>
      obtain ⟨hclean, hcoming⟩ := h.awaited hawait n hn
      have hreq := (hc t (by rw [hring]; rfl) hawait).1 htype (by rw [hn]; rfl)
      rw [hunder, part_cons, if_pos (hreq.trans hn)] at hcoming
      refine ⟨(congrArg Divergence.entries hentries).trans hclean, ?_⟩
      have hline := hcoming.line htype
      rwa [← hview] at hline
    | finished htype hawait hid hentries hdone =>
      rw [hdone] at hstate
      cases hstate
    | other hview hentries hsame hline hmarker =>
      have hawait := hsame.symm.trans hstate
      obtain ⟨hclean, hcoming⟩ := h.awaited hawait n hn
      refine ⟨(congrArg Divergence.entries hentries).trans hclean, ?_⟩
      show Coming n g.engineView _ (part n (rest ++ s.execs))
      rw [hunder, part_cons] at hcoming
      rw [hview]
      split at hcoming
      · rw [← List.nil_append (t :: _)] at hcoming
        exact hcoming.drop fun htype => hline htype hawait
      · exact hcoming

theorem Inv.step (h : Inv s) (e : Move) (hc : s.InOrder e) : Inv (s.step e) := by
  cases e with
  | request => exact h.request
  | application m durable durable' => exact h.unasked (onApplication_unasked ..)
  | riskOrder =>
    unfold Reconciling.step
    dsimp only
    split
    · exact h
    · exact h.unasked ⟨rfl, rfl, rfl, rfl, rfl⟩
  | lose => exact h.lose
  | answer lines whole => exact h.answer lines whole
  | event d => exact h.event d
  | forward => exact h.forward hc
  | reject d => exact h.reject d
  | pump durable => exact h.pump durable hc

/-- The reconciliation that a turn finishes is about the answer. -/
theorem Inv.finishes (h : Inv s) (e : Move) (hc : s.InOrder e) : s.Answered e := by
  cases e with
  | pump durable =>
    rintro ⟨d, reports, hpop, htype, hawait, hid⟩
    obtain ⟨t, rest, hring, rfl, -⟩ := h.pop hpop
    obtain ⟨hsome, hreq⟩ := (hc t (by rw [hring]; rfl) hawait).2 htype hid
    obtain ⟨n, hn⟩ := Option.isSome_iff_exists.mp hsome
    obtain ⟨hclean, hcoming⟩ := h.awaited hawait n hn
    rw [under, hring, List.cons_append, part_cons, if_pos (hreq.trans hn)] at hcoming
    obtain ⟨lines, hanswer, hview⟩ := hcoming.marker (by rw [htype]; exact fun h => (nomatch h))
    refine ⟨n, lines, hn, hanswer, ?_⟩
    have htaken := (pump_taken hpop durable).2
    show Compared s.router lines (s.router.pump durable)
    generalize s.router.pump durable = g at htaken ⊢
    cases htaken with
    | line htype' =>
      rw [htype] at htype'
      cases htype'
    | other hview hentries hsame hline hmarker => exact absurd hid (hmarker htype hawait)
    | finished htype' hawait' hid' hentries hdone =>
      refine ⟨hview, ?_, ?_⟩
      · intro hlive e he hkind
        rw [hentries] at he
        refine (OrderRouter.finish_named hclean hlive he hkind).imp_right fun hnot l hl => ?_
        exact hnot l.entry (hview ▸ List.mem_map_of_mem hl)
      · intro hlive hlines
        rw [hentries]
        refine OrderRouter.finish_once hclean hlive ?_
        rw [hview, List.map_map]
        exact hlines
  | _ => trivial

/-- **What a reconciliation is about.** From any router, with anything left in the rings by those
before it: where every move is in order, every reconciliation that is finished has compared the log
with the lines the engine sent in answer to the request that was awaited, and with nothing else. -/
theorem compared_of_inOrder (router : OrderRouter) (execs : List ExecReport) (moves : List Move)
    (hc : Run.Along Reconciling.step InOrder (start router execs) moves) :
    Run.Along Reconciling.step Answered (start router execs) moves :=
  hc.of_invariant Inv (fun _ e h hc => h.step e hc) (fun _ e h hc => h.finishes e hc)
    (inv_start router execs)

/-- A gateway with one order at work. -/
def oneOrder : OrderRouter :=
  { orders := ⟨8, []⟩, reports := ⟨8, []⟩, symbols := []
    store := .openLog [⟨7, 100, 10000, 50, 50, 1, .bid, .live⟩] }

/-- The engine's line on it. -/
def held : StatusLine := ⟨7, 100, 10000, 50, 1, .bid⟩

/-- A request, its answer, and all of it taken. -/
theorem answered_once :
    Run.Along Reconciling.step Answered (start oneOrder [])
      [.request, .answer [held] true, .forward, .forward, .pump true, .pump true] :=
  compared_of_inOrder oneOrder [] _ (by decide +kernel)

/-- Two requests are under way, and the first is answered late. -/
def lateAnswer : List Move :=
  [.request, .request, .answer [held] true, .answer [held] true, .forward, .forward, .forward,
    .forward, .pump true, .pump true, .pump true]

/-- The second reconciliation is about the lines of both answers. -/
theorem late_answer_counted_twice :
    ¬ Run.Along Reconciling.step Answered (start oneOrder []) (lateAnswer ++ [.pump true]) := by
  rw [Run.along_append]
  intro h
  have hpop : (lateAnswer.foldl Reconciling.step (start oneOrder [])).router.reports.pop =
      some (marker 2 1, ⟨8, []⟩) := by
    decide +kernel
  have hcurrent : (lateAnswer.foldl Reconciling.step (start oneOrder [])).current = some 1 := by
    decide +kernel
  have hanswer : (lateAnswer.foldl Reconciling.step (start oneOrder [])).answers 1 =
      some [held] := by
    decide +kernel
  have hview : (lateAnswer.foldl Reconciling.step (start oneOrder [])).router.engineView =
      [held.entry, held.entry] := by
    decide +kernel
  obtain ⟨n, lines, hn, hlines, hcompared⟩ := h.2.1 ⟨_, _, hpop, rfl, by decide +kernel,
    by decide +kernel⟩
  obtain rfl := Option.some.inj (hcurrent.symm.trans hn)
  rw [hanswer] at hlines
  obtain rfl := Option.some.inj hlines
  have hlen := congrArg List.length (hview.symm.trans hcompared.view)
  cases hlen

end Reconciling

end MarketData.Trading
