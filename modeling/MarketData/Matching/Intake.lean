import MarketData.Matching.Executions
import MarketData.Matching.Owners
import MarketData.Matching.Priority
import MarketData.Matching.Resting
import MarketData.Wire.OrderCodec

/-!
# `Matching/Intake.lean` — the bytes the engine takes off the ring

`pump` copies at most 256 bytes of a message out of its slot and `dispatch` decodes the copy; a copy
that does not decode is counted among the dropped reports and forgotten. What an order that does
decode gets in return is an answer: a report with its client's id, or a report counted as dropped.

## Answers

Reports go into a ring that may be full, and one that does not fit is counted. An order is
`Answers`ed between two states if the ring or the count shows it, and `Onward` is what makes such an
answer last: no later step takes a report back or forgets a dropped one. The lemmas follow
`on_new_order` through its parts, with a disjunction that is introduced where a report is sent and
carried from there on.

A new order is refused, or it rests, or it is filled, and in each case something is said. It is not
answered if the engine's call fails, and then `onNewOrder_answers` says that **the feed has
failed**, for an engine whose books are sound and which has ids left.
-/

set_option autoImplicit false

namespace MarketData.Matching

open MarketData.Wire MarketData.Book

namespace OrderPath

/-- The length of `buf` in `pump`. -/
def copyLen : Nat := 256

/-- The bytes of a message that are copied out of its slot. -/
def taken (b : Buf) : Buf := b.take copyLen

/-- `OrderPath::dispatch`, from the bytes on. -/
def dispatchBytes (env : Env) (p : OrderPath) (x : Exchange) (b : Buf) :
    Except IoError (OrderPath × Exchange) :=
  match decodeOrderPathMessage b with
  | .error _ => .ok (p.drop 1, x)
  | .ok (.newOrder m, _) => p.onNewOrder env x m
  | .ok (.cancelOrder m, _) => p.onCancel env x m
  | .ok (.reconcileRequest requestId, _) => .ok (p.onReconcile x.engine.books requestId, x)
  -- The engine never receives execution reports; it writes them.
  | .ok (.execReport _, _) => .ok (p, x)

/-! ## Answers -/

/-- No report is taken back, and no dropped one is forgotten. -/
structure Onward (p p' : OrderPath) : Prop where
  reports : ∃ rs, p'.reports.items = p.reports.items ++ rs
  dropped : p.reportsDropped ≤ p'.reportsDropped

/-- On the way from `p` to `p'` the client was told something of the order, or it was counted that
it was not. -/
def Answers (clientOrderId : UInt64) (p p' : OrderPath) : Prop :=
  (∃ rs, p'.reports.items = p.reports.items ++ rs ∧ ∃ r ∈ rs, r.clientOrderId = clientOrderId) ∨
    p.reportsDropped < p'.reportsDropped

variable {p p' p'' : OrderPath} {id : UInt64}

theorem Onward.refl (p : OrderPath) : Onward p p := ⟨⟨[], by simp⟩, Nat.le_refl _⟩

theorem Onward.trans (h : Onward p p') (h' : Onward p' p'') : Onward p p'' := by
  obtain ⟨rs, hrs⟩ := h.reports
  obtain ⟨rs', hrs'⟩ := h'.reports
  refine ⟨⟨rs ++ rs', ?_⟩, h.dropped.trans h'.dropped⟩
  rw [hrs', hrs, List.append_assoc]

/-- A step that leaves the ring and the count of lost reports alone, or counts up. -/
theorem Onward.of_reports (hreports : p'.reports = p.reports)
    (hdropped : p.reportsDropped ≤ p'.reportsDropped) : Onward p p' :=
  ⟨⟨[], by rw [hreports, List.append_nil]⟩, hdropped⟩

theorem Answers.before (h : Onward p p') (ha : Answers id p' p'') : Answers id p p'' := by
  rcases ha with ⟨rs', hrs', r, hr, hid⟩ | hdropped
  · obtain ⟨rs, hrs⟩ := h.reports
    refine .inl ⟨rs ++ rs', ?_, r, List.mem_append_right _ hr, hid⟩
    rw [hrs', hrs, List.append_assoc]
  · exact .inr (Nat.lt_of_le_of_lt h.dropped hdropped)

theorem Answers.after (ha : Answers id p p') (h : Onward p' p'') : Answers id p p'' := by
  rcases ha with ⟨rs, hrs, r, hr, hid⟩ | hdropped
  · obtain ⟨rs', hrs'⟩ := h.reports
    refine .inl ⟨rs ++ rs', ?_, r, List.mem_append_left _ hr, hid⟩
    rw [hrs', hrs, List.append_assoc]
  · exact .inr (Nat.lt_of_lt_of_le hdropped h.dropped)

theorem emit_cases (p : OrderPath) (r : ExecReport) :
    (p.emit r).reports.items = p.reports.items ++ [r] ∧
        (p.emit r).reportsDropped = p.reportsDropped ∨
      (p.emit r).reports = p.reports ∧ (p.emit r).reportsDropped = p.reportsDropped + 1 := by
  unfold emit
  cases hpush : p.reports.push r with
  | none => exact .inr ⟨rfl, rfl⟩
  | some reports =>
    rw [Fifo.push_some hpush]
    exact .inl ⟨rfl, rfl⟩

theorem Onward.emit (p : OrderPath) (r : ExecReport) : Onward p (p.emit r) := by
  rcases emit_cases p r with ⟨hreports, hdropped⟩ | ⟨hreports, hdropped⟩
  · exact ⟨⟨[r], hreports⟩, Nat.le_of_eq hdropped.symm⟩
  · exact .of_reports hreports (by omega)

/-- **A report that is sent is an answer**, whether or not it finds room. -/
theorem emit_answers (p : OrderPath) (r : ExecReport) : Answers r.clientOrderId p (p.emit r) := by
  rcases emit_cases p r with ⟨hreports, -⟩ | ⟨-, hdropped⟩
  · exact .inl ⟨[r], hreports, r, List.mem_singleton_self r, rfl⟩
  · exact .inr (by omega)

theorem Onward.emits (rs : List ExecReport) (p : OrderPath) :
    Onward p (rs.foldl OrderPath.emit p) := by
  induction rs generalizing p with
  | nil => exact .refl p
  | cons r rs ih => exact (Onward.emit p r).trans (ih _)

theorem Onward.drop (p : OrderPath) (n : Nat) : Onward p (p.drop n) :=
  .of_reports rfl (Nat.le_add_right _ _)

theorem Onward.remember (p : OrderPath) (orderId clientOrderId : UInt64) :
    Onward p (p.remember orderId clientOrderId) := by
  unfold OrderPath.remember
  split
  · exact .of_reports rfl (Nat.le_refl _)
  · exact .drop p 1

section Submitted

variable {m : NewOrder} {side : Side} {outcome : SubmitOutcome} {fills : List Fill}

/-- The report of the first fill is an answer. -/
theorem fillReports_answers {orderId : UInt64} {overflowed : Nat} (hfills : fills ≠ []) :
    Answers m.clientOrderId p ((fillReports m side orderId overflowed fills).foldl emit p) := by
  cases fills with
  | nil => exact absurd rfl hfills
  | cons f fills =>
    cases fills with
    | nil => exact emit_answers p _
    | cons g fills =>
      rw [fillReports]
      · exact (emit_answers p (fillReport m side orderId f false)).after (.emits _ _)
      · intro h
        cases h

/-- **An order that filled or rests is answered.** -/
theorem reportOutcome_answers (h : fills ≠ [] ∨ 0 < outcome.resting) :
    Answers m.clientOrderId p (p.reportOutcome m side outcome fills) := by
  unfold reportOutcome
  dsimp only
  rw [reportFills_eq]
  have hfilled : Onward p (((fillReports m side outcome.orderId (fills.length - fillsPerReport)
      (fills.take fillsPerReport)).foldl emit p).drop (fills.length - fillsPerReport)) :=
    (Onward.emits _ p).trans (.drop _ _)
  split
  · exact Answers.before (hfilled.trans (.remember _ outcome.orderId m.clientOrderId))
      (emit_answers _ _)
  · rename_i hnone
    have hsome : fills.take fillsPerReport ≠ [] := by
      intro hnil
      rcases List.take_eq_nil_iff.mp hnil with hzero | hnil
      · exact absurd hzero (by decide)
      · exact h.elim (fun hfills => hfills hnil) hnone
    exact (fillReports_answers hsome).after (.drop _ _)

end Submitted

/-! ## New orders -/

/-- An order for something fills, or something of it rests. -/
theorem submitReported_something {env : Env} {x x' : Exchange} {symbolId : UInt16} {side : Side}
    {price : Int64} {quantity : UInt32} {generatorMayRecycle : Bool} {outcome : SubmitOutcome}
    {fills : List Fill} (hquantity : quantity ≠ 0)
    (h : x.submitReported env symbolId side price quantity generatorMayRecycle =
      .ok (x', outcome, fills)) : fills ≠ [] ∨ 0 < outcome.resting := by
  obtain ⟨⟨x₁, remaining, fills₁⟩, hloop, h⟩ := bind_eq_ok h
  obtain ⟨x₂, -, h⟩ := bind_eq_ok h
  cases h
  cases fills with
  | cons f fills => exact .inl (List.cons_ne_nil f fills)
  | nil =>
    right
    rw [← Exchange.matchLoop_nil hloop]
    exact UInt32.pos_iff_ne_zero.mpr hquantity

/-- **A new order is answered**: a report with its id is sent or counted as dropped. Where the
engine's ids and books are in order, a call that fails has failed for the feed's sake. -/
theorem onNewOrder_answers {env : Env} {x : Exchange} {m : NewOrder} (hx : x.engine.Sound)
    (hquantity : m.quantity ≠ 0) :
    match p.onNewOrder env x m with
    | .error e => e.OfFeed
    | .ok (p', _) => Answers m.clientOrderId p p' := by
  unfold onNewOrder
  cases m.side with
  | none => exact emit_answers p _
  | some side =>
    dsimp only
    cases hsubmit : x.submitReported env m.symbolId side m.price m.quantity false with
    | error e =>
      obtain ⟨os, hreps⟩ := hx.reps m.symbolId
      rcases Exchange.submitReported_error hreps hsubmit with hfeed | ⟨-, r, hr, hid⟩
      · exact hfeed
      · -- The id of a new order is above every id on a book.
        have hget := hreps.get_of_mem hr
        rw [hid] at hget
        have hbelow := hx.below m.symbolId x.engine.nextOrderId (Option.isSome_of_eq_some hget)
        exact absurd hbelow (UInt64.lt_irrefl _)
    | ok answer =>
      obtain ⟨x', outcome, fills⟩ := answer
      exact reportOutcome_answers (submitReported_something hquantity hsubmit)

end OrderPath

end MarketData.Matching
