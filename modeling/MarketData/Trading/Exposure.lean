import MarketData.Matching.Resting
import MarketData.Risk.OpenOrders
import MarketData.Trading.System

/-!
# `Trading/Exposure.lean` — what the risk service still counts

An order the risk service counts as open is somewhere: on its way to the engine, resting there,
or finished with the report of it on its way back. `tokens` counts those places for one client
order id. The service opens the id when it sends the order on and closes it when the report that
ends it comes back, so no step lets the tokens grow against what is open. A cancel takes the
order off the book and answers under the id of the request: it uses a token up and puts nothing
in its place, and the id stays open for good.

## Counting instead of following

The order itself is hard to follow: it changes its name on the way, rests under an id of the
engine's, is filled while nobody looks, and is noted in two tables. A count of places does not care
which of them it is in. Every step is one of three kinds: it moves a token, uses one up, or opens
one together with the id; and that *no step makes one out of nothing* is the whole invariant. It is
an inequality, which leaves room for the reports that are lost in a full ring.

The lemmas go process by process, and in the engine message by message (`Took`). `Pending` is for
the time in which an order is off the book and its last fill has not been reported.
-/

set_option autoImplicit false

namespace MarketData.Trading

open MarketData.Wire MarketData.Gateway MarketData.Risk MarketData.Matching
open MarketData.Risk.RiskEngine (IsOpen Tabled endsOrder)

/-! ## Tokens -/

/-- The report ends order `X`. -/
def ends (X : UInt64) (d : ExecReport) : Bool :=
  d.clientOrderId = X && endsOrder d.execType d.leavesQuantity

/-- The message is order `X`. -/
def asks (X : UInt64) : OrderMessage → Bool
  | .newOrder m => m.clientOrderId = X
  | _ => false

open Classical in
/-- How many of the engine's orders for `X` are such that `P`. -/
noncomputable def ownedFor (X : UInt64) (owned : List Owned) (P : UInt64 → Prop) : Nat :=
  owned.countP fun o => o.clientOrderId = X ∧ P o.exchangeOrderId

/-- The places where order `X` can be, counted. -/
noncomputable def tokens (X : UInt64) (path : OrderPath) (engine : Engine) : Nat :=
  path.orders.items.countP (asks X) + ownedFor X path.owned engine.Working +
    path.reports.items.countP (ends X)

open Classical in
/-- One if the risk service counts `X` as open. -/
noncomputable def held (X : UInt64) (risk : RiskEngine) : Nat := if risk.IsOpen X then 1 else 0

section OwnedFor

variable {X : UInt64} {owned owned' : List Owned} {P Q : UInt64 → Prop}

theorem ownedFor_mono (h : ∀ o ∈ owned, P o.exchangeOrderId → Q o.exchangeOrderId) :
    ownedFor X owned P ≤ ownedFor X owned Q := by
  apply List.countP_mono_left
  intro o ho hP
  simp only [decide_eq_true_eq] at hP ⊢
  exact ⟨hP.1, h o ho hP.2⟩

theorem ownedFor_sublist (h : owned.Sublist owned') : ownedFor X owned P ≤ ownedFor X owned' P :=
  h.countP_le

theorem ownedFor_concat_le (o : Owned) :
    ownedFor X (owned ++ [o]) P ≤ ownedFor X owned P + if o.clientOrderId = X then 1 else 0 := by
  rw [ownedFor, List.countP_append, List.countP_singleton]
  apply Nat.add_le_add_left
  split
  · rename_i ho
    simp only [decide_eq_true_eq] at ho
    rw [if_pos ho.1]
  · exact Nat.zero_le _

/-- Forgetting an order that was counted takes it off the count. -/
theorem ownedFor_forget {o : Owned} (ho : o ∈ owned) (hX : o.clientOrderId = X)
    (hP : P o.exchangeOrderId) :
    ownedFor X (owned.filter fun x => x.exchangeOrderId ≠ o.exchangeOrderId) P + 1 ≤
      ownedFor X owned P := by
  induction owned with
  | nil => cases ho
  | cons x xs ih =>
    have hrest : ownedFor X (xs.filter fun x => x.exchangeOrderId ≠ o.exchangeOrderId) P ≤
        ownedFor X xs P := ownedFor_sublist List.filter_sublist
    have hcons : ∀ (y : Owned) (ys : List Owned), ownedFor X (y :: ys) P =
        ownedFor X ys P + ownedFor X [y] P := by
      intro y ys
      simp only [ownedFor, List.countP_cons, List.countP_nil, Nat.zero_add]
    rcases List.mem_cons.mp ho with rfl | ho
    · have hone : ownedFor X [o] P = 1 := by simp [ownedFor, hX, hP]
      rw [List.filter_cons_of_neg (by simp), hcons, hone]
      omega
    · have hstep := ih ho
      by_cases hx : x.exchangeOrderId = o.exchangeOrderId
      · rw [List.filter_cons_of_neg (by simpa using hx), hcons]
        omega
      · rw [List.filter_cons_of_pos (by simpa using hx), hcons, hcons x xs]
        omega

end OwnedFor

/-! ## The engine's end -/

namespace Path

variable {X : UInt64}

theorem emit_frame (p : OrderPath) (d : ExecReport) :
    (p.emit d).owned = p.owned ∧ (p.emit d).orders = p.orders ∧
      (p.emit d).reports.items.countP (ends X) ≤
        p.reports.items.countP (ends X) + if ends X d = true then 1 else 0 := by
  unfold OrderPath.emit
  split
  · rename_i reports hpush
    refine ⟨rfl, rfl, ?_⟩
    rw [Fifo.push_some hpush]
    simp [List.countP_append, List.countP_singleton]
  · exact ⟨rfl, rfl, Nat.le_add_right _ _⟩

/-- A report that does not end `X` leaves the reports that do. -/
theorem emit_other (p : OrderPath) {d : ExecReport} (hd : ends X d = false) :
    (p.emit d).reports.items.countP (ends X) ≤ p.reports.items.countP (ends X) := by
  have hemit := (emit_frame (X := X) p d).2.2
  rw [hd] at hemit
  exact hemit

/-- A step of the path alone: it takes no message and grows no table, and if it sends a report
that ends `X` it has let go of an order for `X`. -/
structure Shrinks (X : UInt64) (P Q : UInt64 → Prop) (p p' : OrderPath) : Prop where
  orders : p'.orders = p.orders
  owned : p'.owned.Sublist p.owned
  count : ownedFor X p'.owned Q + p'.reports.items.countP (ends X) ≤
    ownedFor X p.owned P + p.reports.items.countP (ends X)

theorem Shrinks.refl {P Q : UInt64 → Prop} (hPQ : ∀ id, Q id → P id) (p : OrderPath) :
    Shrinks X P Q p p :=
  ⟨rfl, List.Sublist.refl _, Nat.add_le_add_right (ownedFor_mono fun _ _ => hPQ _) _⟩

theorem Shrinks.trans {P Q R : UInt64 → Prop} {p p' p'' : OrderPath} (h : Shrinks X P Q p p')
    (h' : Shrinks X Q R p' p'') : Shrinks X P R p p'' :=
  ⟨h'.orders.trans h.orders, h'.owned.trans h.owned, h'.count.trans h.count⟩

theorem Shrinks.emit {P : UInt64 → Prop} (p : OrderPath) {d : ExecReport}
    (hd : ends X d = false) : Shrinks X P P p (p.emit d) := by
  obtain ⟨howned, horders, -⟩ := emit_frame (X := X) p d
  refine ⟨horders, howned ▸ List.Sublist.refl _, ?_⟩
  rw [howned]
  exact Nat.add_le_add_left (emit_other p hd) _

theorem Shrinks.drop {P : UInt64 → Prop} (p : OrderPath) (n : Nat) : Shrinks X P P p (p.drop n) :=
  ⟨rfl, List.Sublist.refl _, Nat.le_refl _⟩

/-- The last report of an order is sent as the order is let go of. -/
theorem Shrinks.finish {P Q : UInt64 → Prop} (hPQ : ∀ id, Q id → P id) {p : OrderPath} {o : Owned}
    (ho : o ∈ p.owned) (hP : P o.exchangeOrderId) {d : ExecReport}
    (hd : d.clientOrderId = o.clientOrderId) :
    Shrinks X P Q p ((p.emit d).forget o.exchangeOrderId) := by
  obtain ⟨howned, horders, hcount⟩ := emit_frame (X := X) p d
  refine ⟨horders, ?_, ?_⟩
  · show ((p.emit d).owned.filter _).Sublist p.owned
    rw [howned]
    exact List.filter_sublist
  show ownedFor X ((p.emit d).owned.filter _) Q + (p.emit d).reports.items.countP (ends X) ≤ _
  rw [howned]
  have hmono : ownedFor X (p.owned.filter fun x => x.exchangeOrderId ≠ o.exchangeOrderId) Q ≤
      ownedFor X (p.owned.filter fun x => x.exchangeOrderId ≠ o.exchangeOrderId) P :=
    ownedFor_mono fun _ _ => hPQ _
  by_cases hX : o.clientOrderId = X
  · have hforget := ownedFor_forget ho hX hP
    split at hcount <;> omega
  · have hother : ends X d = false := by simp [ends, hd, hX]
    rw [hother, if_neg (by simp)] at hcount
    have hsub : ownedFor X (p.owned.filter fun x => x.exchangeOrderId ≠ o.exchangeOrderId) P ≤
        ownedFor X p.owned P := ownedFor_sublist List.filter_sublist
    omega

/-- Still on a book, or finished by one of the fills `fs`. -/
def Pending (e : Engine) (fs : List PassiveFill) (id : UInt64) : Prop :=
  e.Rests id ∨ ∃ f ∈ fs, f.restingOrderId = id ∧ f.leaves = 0

theorem Pending.weaken {e : Engine} {fs fs' : List PassiveFill} (h : fs ⊆ fs') {id : UInt64}
    (hid : Pending e fs id) : Pending e fs' id := by
  rcases hid with hid | ⟨g, hg, hid⟩
  · exact .inl hid
  · exact .inr ⟨g, h hg, hid⟩

theorem reportPassiveFill_shrinks (e : Engine) (p : OrderPath) (f : PassiveFill)
    (fs : List PassiveFill) :
    Shrinks X (Pending e (f :: fs)) (Pending e fs) p (p.reportPassiveFill f) := by
  have hweaker : ∀ id, Pending e fs id → Pending e (f :: fs) id := fun _ =>
    Pending.weaken (List.subset_cons_self f fs)
  unfold OrderPath.reportPassiveFill
  split
  · exact (Shrinks.refl hweaker p).trans (.drop p 1)
  rename_i o hfind
  have hmem := List.mem_of_find?_eq_some hfind
  have hid : o.exchangeOrderId = f.restingOrderId := by
    simpa using List.find?_some hfind
  dsimp only
  split
  · rename_i hzero
    rw [← hid]
    exact .finish hweaker hmem (.inr ⟨f, List.mem_cons_self, hid.symm, hzero⟩) rfl
  · rename_i hzero
    refine (Shrinks.refl hweaker p).trans (.emit p ?_)
    simp [ends, endsOrder]

/-- The fills of a pass, one after the other. -/
theorem foldl_reportPassiveFill_shrinks (e : Engine) (p : OrderPath) (fs rest : List PassiveFill) :
    Shrinks X (Pending e (fs ++ rest)) (Pending e rest) p (fs.foldl OrderPath.reportPassiveFill p) := by
  induction fs generalizing p with
  | nil => exact .refl (fun _ hid => hid) p
  | cons f fs ih => exact (reportPassiveFill_shrinks e p f (fs ++ rest)).trans (ih _)

theorem engine_watch (ids : List UInt64) (e : Engine) :
    (ids.foldl Engine.watchOrder e).books = e.books ∧
      (ids.foldl Engine.watchOrder e).passiveFills = e.passiveFills ∧
      (ids.foldl Engine.watchOrder e).nextOrderId = e.nextOrderId := by
  induction ids generalizing e with
  | nil => exact ⟨rfl, rfl, rfl⟩
  | cons id ids ih =>
    have hwatch : (e.watchOrder id).books = e.books ∧
        (e.watchOrder id).passiveFills = e.passiveFills ∧
        (e.watchOrder id).nextOrderId = e.nextOrderId := by
      unfold Engine.watchOrder
      split <;> exact ⟨rfl, rfl, rfl⟩
    obtain ⟨hbooks, hpassive, hnext⟩ := ih (e.watchOrder id)
    exact ⟨hbooks.trans hwatch.1, hpassive.trans hwatch.2.1, hnext.trans hwatch.2.2⟩

theorem engine_unwatch (ids : List UInt64) (e : Engine) :
    (ids.foldl Engine.unwatchOrder e).books = e.books ∧
      (ids.foldl Engine.unwatchOrder e).passiveFills = e.passiveFills ∧
      (ids.foldl Engine.unwatchOrder e).nextOrderId = e.nextOrderId := by
  induction ids generalizing e with
  | nil => exact ⟨rfl, rfl, rfl⟩
  | cons id ids ih => exact ih (e.unwatchOrder id)

/-- The top of a pass. -/
theorem catchUp_shrinks (p : OrderPath) (x : Exchange) :
    (p.catchUp x).2.engine.nextOrderId = x.engine.nextOrderId ∧
      Shrinks X x.engine.Working (p.catchUp x).2.engine.Working p (p.catchUp x).1 := by
  unfold OrderPath.catchUp
  dsimp only
  obtain ⟨hbooks, hpassive, hnext⟩ := engine_watch p.toWatch x.engine
  obtain ⟨hbooks', hpassive', hnext'⟩ :=
    engine_unwatch p.finished (p.toWatch.foldl Engine.watchOrder x.engine)
  refine ⟨hnext'.trans hnext, ?_⟩
  rw [hpassive', hpassive]
  have hfold := foldl_reportPassiveFill_shrinks (X := X) x.engine
    { p with toWatch := [], finished := [] } (x.engine.passiveFills.take fillsPerReport)
    (x.engine.passiveFills.drop fillsPerReport)
  rw [List.take_append_drop] at hfold
  have hstart : Shrinks X x.engine.Working
      (Pending x.engine (x.engine.passiveFills.drop fillsPerReport)) p
      ((x.engine.passiveFills.take fillsPerReport).foldl OrderPath.reportPassiveFill
        { p with toWatch := [], finished := [] }) := ⟨hfold.orders, hfold.owned, hfold.count⟩
  refine (hstart.trans (.refl ?_ _)).trans (.drop _ _)
  -- Of what was working, only what rests still is.
  rintro id (⟨t, ht⟩ | ⟨f, hf, -⟩)
  · left
    refine ⟨t, ?_⟩
    rw [← hbooks, ← hbooks']
    exact ht
  · cases hf

/-! ## Messages -/

/-- The reports of an order's own fills: at most one ends the order, and then nothing of it is
left. -/
theorem reportFills_frame (p : OrderPath) (m : NewOrder) (side : Side) (orderId : UInt64)
    (overflowed : Nat) (fills : List Fill) :
    (p.reportFills m side orderId overflowed fills).owned = p.owned ∧
    (p.reportFills m side orderId overflowed fills).orders = p.orders ∧
    (p.reportFills m side orderId overflowed fills).reports.items.countP (ends X) ≤
      p.reports.items.countP (ends X) +
        if m.clientOrderId = X ∧ overflowed = 0 ∧ ∃ f ∈ fills.getLast?, f.leaves = 0 then 1
        else 0 := by
  fun_induction OrderPath.reportFills p m side orderId overflowed fills with
  | case1 p => exact ⟨rfl, rfl, Nat.le_add_right _ _⟩
  | case2 p f =>
    obtain ⟨howned, horders, hcount⟩ := emit_frame (X := X) p
      (OrderPath.fillReport m side orderId f (f.leaves = 0 && overflowed = 0))
    refine ⟨howned, horders, hcount.trans (Nat.add_le_add_left ?_ _)⟩
    by_cases hlast : f.leaves = 0 ∧ overflowed = 0
    · by_cases hX : m.clientOrderId = X
      · rw [if_pos (show m.clientOrderId = X ∧ overflowed = 0 ∧
          ∃ g ∈ [f].getLast?, g.leaves = 0 from ⟨hX, hlast.2, f, rfl, hlast.1⟩)]
        split <;> simp
      · simp [ends, OrderPath.fillReport, hX]
    · have hpartial : (decide (f.leaves = 0) && decide (overflowed = 0)) = false := by
        simpa using hlast
      simp [ends, OrderPath.fillReport, hpartial, endsOrder]
  | case3 p f fills hne ih =>
    obtain ⟨howned, horders, -⟩ := emit_frame (X := X) p (OrderPath.fillReport m side orderId f false)
    have hother : ends X (OrderPath.fillReport m side orderId f false) = false := by
      simp [ends, OrderPath.fillReport, endsOrder]
    have hemit := emit_other p hother
    refine ⟨ih.1.trans howned, ih.2.1.trans horders, ih.2.2.trans ?_⟩
    cases fills with
    | nil => exact absurd rfl (hne)
    | cons g fills =>
      rw [List.getLast?_cons_cons]
      omega

/-- What the engine makes of one message: a new order is the only thing that can add a token, and
it was one itself. -/
structure Took (X : UInt64) (p p' : OrderPath) (e e' : Engine) (m : OrderMessage) : Prop where
  orders : p'.orders = p.orders
  owned : ∀ o ∈ p'.owned, o ∈ p.owned ∨
    (o.exchangeOrderId = e.nextOrderId ∧ e'.nextOrderId = e.nextOrderId + 1)
  next : e'.nextOrderId = e.nextOrderId ∨ e'.nextOrderId = e.nextOrderId + 1
  count : ownedFor X p'.owned e'.Working + p'.reports.items.countP (ends X) ≤
    ownedFor X p.owned e.Working + p.reports.items.countP (ends X) +
      if asks X m = true then 1 else 0

theorem Shrinks.took {p p' : OrderPath} {e e' : Engine} {m : OrderMessage}
    (h : Shrinks X e.Working e'.Working p p') (hnext : e'.nextOrderId = e.nextOrderId) :
    Took X p p' e e' m :=
  ⟨h.orders, fun _ ho => .inl (h.owned.subset ho), .inl hnext, h.count.trans (Nat.le_add_right _ _)⟩

variable {env : Env} {p p' : OrderPath} {x x' : Exchange}

/-- Where a submitted order ends up: finished, or remembered and resting, or neither. -/
theorem reportOutcome_took {m : NewOrder} {side : Side} {outcome : SubmitOutcome}
    {fills : List Fill} (hfresh : ∀ o ∈ p.owned, o.exchangeOrderId ≠ x.engine.nextOrderId)
    (hs : Exchange.Submitted x x' outcome fills) :
    Took X p (p.reportOutcome m side outcome fills) x.engine x'.engine (.newOrder m) := by
  unfold OrderPath.reportOutcome
  dsimp only
  obtain ⟨howned, horders, hcount⟩ := reportFills_frame (X := X) p m side outcome.orderId
    (fills.length - fillsPerReport) (fills.take fillsPerReport)
  generalize p.reportFills m side outcome.orderId (fills.length - fillsPerReport)
    (fills.take fillsPerReport) = p₁ at howned horders hcount
  -- Of the orders known before, none is new to the books.
  have hold : ownedFor X p.owned x'.engine.Working ≤ ownedFor X p.owned x.engine.Working := by
    apply ownedFor_mono
    intro o ho hworking
    rcases hs.working _ hworking with hworking | ⟨heq, -⟩
    · exact hworking
    · exact absurd (heq.trans hs.orderId) (hfresh o ho)
  split
  · rename_i hresting
    -- Something rests, so the last fill left something and no report ended the order.
    have hopen : ¬ (m.clientOrderId = X ∧ fills.length - fillsPerReport = 0 ∧
        ∃ f ∈ (fills.take fillsPerReport).getLast?, f.leaves = 0) := by
      rintro ⟨-, hall, f, hf, hzero⟩
      rw [List.take_of_length_le (Nat.sub_eq_zero_iff_le.mp hall)] at hf
      have hleaves := hs.leaves f hf
      rw [hzero] at hleaves
      rw [← hleaves] at hresting
      exact absurd hresting (by decide)
    rw [if_neg hopen] at hcount
    generalize hack : (⟨m.clientOrderId, outcome.orderId, 0, m.price, m.quantity, outcome.resting,
      m.symbolId, side, .acknowledged, .notRejected⟩ : ExecReport) = ack
    have hother : ends X ack = false := by
      rw [← hack]
      simp [ends, endsOrder]
    obtain ⟨howned', horders', -⟩ := emit_frame (X := X)
      ((p₁.drop (fills.length - fillsPerReport)).remember outcome.orderId m.clientOrderId) ack
    have hemit := emit_other
      ((p₁.drop (fills.length - fillsPerReport)).remember outcome.orderId m.clientOrderId) hother
    generalize ((p₁.drop (fills.length - fillsPerReport)).remember outcome.orderId
      m.clientOrderId).emit ack = p₂ at howned' horders' hemit
    unfold OrderPath.remember at howned' horders' hemit
    split at howned'
    · have hconcat : ownedFor X (p.owned ++ [⟨outcome.orderId, m.clientOrderId⟩])
          x'.engine.Working ≤ _ := ownedFor_concat_le _
      have howned'' : p₂.owned = p.owned ++ [⟨outcome.orderId, m.clientOrderId⟩] :=
        howned'.trans (congrArg (· ++ [(⟨outcome.orderId, m.clientOrderId⟩ : Owned)]) howned)
      rename_i hroom
      rw [if_pos hroom] at horders' hemit
      refine ⟨horders'.trans horders, fun o ho => ?_, .inr hs.next, ?_⟩
      · rw [howned''] at ho
        rcases List.mem_append.mp ho with ho | ho
        · exact .inl ho
        · rw [List.mem_singleton.mp ho]
          exact .inr ⟨hs.orderId, hs.next⟩
      · rw [howned'']
        have hemit' : p₂.reports.items.countP (ends X) ≤ p₁.reports.items.countP (ends X) := hemit
        simp only [asks, decide_eq_true_eq]
        dsimp only at hconcat
        omega
    · rename_i hroom
      rw [if_neg hroom] at horders' hemit
      have howned'' : p₂.owned = p.owned := howned'.trans howned
      refine ⟨horders'.trans horders, fun o ho => .inl (howned'' ▸ ho), .inr hs.next, ?_⟩
      rw [howned'']
      have hemit' : p₂.reports.items.countP (ends X) ≤ p₁.reports.items.countP (ends X) := hemit
      omega
  · refine ⟨horders, fun o ho => .inl (howned ▸ ho), .inr hs.next, ?_⟩
    show ownedFor X p₁.owned _ + p₁.reports.items.countP (ends X) ≤ _
    rw [howned]
    simp only [asks, decide_eq_true_eq]
    split at hcount
    · rename_i hends
      rw [if_pos hends.1]
      omega
    · omega

theorem onNewOrder_took {m : NewOrder}
    (hfresh : ∀ o ∈ p.owned, o.exchangeOrderId ≠ x.engine.nextOrderId)
    (h : p.onNewOrder env x m = .ok (p', x')) :
    Took X p p' x.engine x'.engine (.newOrder m) := by
  unfold OrderPath.onNewOrder at h
  split at h
  · cases h
    obtain ⟨howned, horders, hcount⟩ := emit_frame (X := X) p
      ⟨m.clientOrderId, 0, 0, 0, 0, 0, m.symbolId, .bid, .rejected, .unknownSymbol⟩
    refine ⟨horders, fun o ho => .inl (howned ▸ ho), .inl rfl, ?_⟩
    show ownedFor X (p.emit _).owned _ + (p.emit _).reports.items.countP (ends X) ≤ _
    rw [howned]
    refine (Nat.add_le_add_left hcount _).trans (Nat.le_of_eq ?_)
    simp [ends, asks, endsOrder, Nat.add_assoc]
  · obtain ⟨⟨x₁, outcome, fills⟩, hsubmit, h⟩ := bind_eq_ok h
    cases h
    exact reportOutcome_took hfresh (Exchange.submitted hsubmit)

/-- A cancel whose own id is another adds no token for `X`. -/
theorem onCancel_shrinks {m : CancelOrder} (hX : m.clientOrderId ≠ X)
    (h : p.onCancel env x m = .ok (p', x')) :
    Shrinks X x.engine.Working x'.engine.Working p p' ∧
      x'.engine.nextOrderId = x.engine.nextOrderId := by
  obtain ⟨⟨x₁, answer⟩, hcancel, h⟩ := bind_eq_ok h
  have hspares := (Exchange.canceled hcancel).spares
  have hweaker : ∀ id, x₁.engine.Working id → x.engine.Working id := fun _ => hspares.working
  cases answer with
  | none =>
    cases h
    refine ⟨(Shrinks.refl hweaker p).trans (.emit p ?_), hspares.next⟩
    simp [ends, hX]
  | some remaining =>
    cases h
    have hforget : Shrinks X x.engine.Working x'.engine.Working p
        (p.forget m.origClientOrderId) := by
      refine ⟨rfl, List.filter_sublist, Nat.add_le_add_right ?_ _⟩
      exact (ownedFor_mono fun _ _ => hweaker _).trans (ownedFor_sublist List.filter_sublist)
    refine ⟨hforget.trans (.emit _ ?_), hspares.next⟩
    simp [ends, hX]

theorem name_frame (books : Book.Books) (p : OrderPath) (named : Nat) (o : Owned) :
    (p.name books named o).1.owned = p.owned ∧ (p.name books named o).1.orders = p.orders ∧
      (p.name books named o).1.reports.items.countP (ends X) = p.reports.items.countP (ends X) := by
  unfold OrderPath.name
  split
  · exact ⟨rfl, rfl, rfl⟩
  · split
    · rename_i reports hpush
      refine ⟨rfl, rfl, ?_⟩
      rw [Fifo.push_some hpush]
      simp [List.countP_append, ends, endsOrder]
    · exact ⟨rfl, rfl, rfl⟩

theorem foldl_name_frame (books : Book.Books) (owned : List Owned) (p : OrderPath) (named : Nat) :
    (owned.foldl (fun (q : OrderPath × Nat) o => q.1.name books q.2 o) (p, named)).1.orders =
        p.orders ∧
      (owned.foldl (fun (q : OrderPath × Nat) o => q.1.name books q.2 o)
        (p, named)).1.reports.items.countP (ends X) = p.reports.items.countP (ends X) := by
  induction owned generalizing p named with
  | nil => exact ⟨rfl, rfl⟩
  | cons o owned ih =>
    obtain ⟨-, horders, hcount⟩ := name_frame (X := X) books p named o
    obtain ⟨horders', hcount'⟩ := ih (p.name books named o).1 (p.name books named o).2
    exact ⟨horders'.trans horders, hcount'.trans hcount⟩

theorem onReconcile_shrinks {P : UInt64 → Prop} (p : OrderPath) (books : Book.Books)
    (requestId : UInt64) : Shrinks X P P p (p.onReconcile books requestId) := by
  unfold OrderPath.onReconcile
  dsimp only
  obtain ⟨horders, hcount⟩ := foldl_name_frame (X := X) books p.owned p 0
  generalize p.owned.foldl (fun (q : OrderPath × Nat) o => q.1.name books q.2 o) (p, 0) = answer
    at horders hcount
  obtain ⟨p₁, named⟩ := answer
  have hkept : Shrinks X P P p { p₁ with
      owned := p.owned.filter fun o => (OrderPath.lookUp books o.exchangeOrderId).isSome } :=
    ⟨horders, List.filter_sublist,
      Nat.add_le_add (ownedFor_sublist List.filter_sublist) (Nat.le_of_eq hcount)⟩
  refine hkept.trans (.emit _ ?_)
  simp [ends, endsOrder]

theorem dispatch_took {m : OrderMessage}
    (hfresh : ∀ o ∈ p.owned, o.exchangeOrderId ≠ x.engine.nextOrderId)
    (hX : ∀ c, m = .cancelOrder c → c.clientOrderId ≠ X)
    (h : p.dispatch env x m = .ok (p', x')) : Took X p p' x.engine x'.engine m := by
  cases m with
  | newOrder m => exact onNewOrder_took hfresh h
  | cancelOrder c =>
    obtain ⟨hshrinks, hnext⟩ := onCancel_shrinks (hX c rfl) h
    exact hshrinks.took hnext
  | reconcileRequest requestId =>
    cases h
    exact (onReconcile_shrinks p _ requestId).took rfl

end Path

end MarketData.Trading
