import MarketData.Matching.Owners

/-!
# `Matching/Told.lean` — what becomes of the fills of resting orders

A fill of a client's resting order is noted by the engine if the order is watched, and reported by
the next `catchUp`. The order is watched from the `catchUp` after the one it came to rest behind. As
long as no order is hit before that, and none that found the table full is hit at all, every fill of
a client's order is reported once to its owner, or counted, or waits for the next `catchUp`
(`accounted_of_watched`).

## Four lists that add up

Fills come in as `struck`, in the order in which they happened, and each has to be found again,
once, in one of the places it can go to. `Accounted` says so with multiplicities: reported, counted
by the engine for want of room, counted by `pump` for want of room in the ring, or waiting. That
rules out a fill that is told twice as well as one that is not told.

`Watching` is the invariant: an order of the table is watched, or is on the list of those that will
be. `Watches` is the condition, on the state before a step and the orders the step would hit
(`hits`), and **a hit on an order that is not yet watched is what it excludes**. `onePass` is such a
run: an order rests and is hit by the next message of the same pass.
-/

set_option autoImplicit false

namespace MarketData.Matching

open MarketData.Wire MarketData.Book

/-- The report of a fill while the order rested, as its owner gets it. -/
def OrderPath.passiveReport (o : Owned) (f : PassiveFill) : ExecReport :=
  ⟨o.clientOrderId, f.restingOrderId, f.tradeId, f.price, f.quantity, f.leaves, f.symbolId, f.side,
    if f.leaves = 0 then .fill else .partialFill, .notRejected⟩

/-- `r` reports `f` to the owner of the order. -/
def Reports (arrived : List Owned) (f : PassiveFill) (r : ExecReport) : Prop :=
  ∃ o ∈ arrived, o.exchangeOrderId = f.restingOrderId ∧ r = OrderPath.passiveReport o f

namespace OrderPath

variable {arrived : List Owned}

/-- What became of some fills that were to be reported. -/
structure Reported (arrived : List Owned) (p p' : OrderPath) (fs : List PassiveFill) : Prop where
  exists_split : ∃ told untold rs, fs.Perm (told ++ untold) ∧ List.Forall₂ (Reports arrived) told rs ∧
    p'.reports.items = p.reports.items ++ rs ∧
    p'.reportsDropped = p.reportsDropped + untold.length

theorem Reported.nil (p : OrderPath) : Reported arrived p p [] :=
  ⟨[], [], [], .nil, .nil, (List.append_nil _).symm, rfl⟩

theorem Reported.append {p p' p'' : OrderPath} {fs fs' : List PassiveFill}
    (h : Reported arrived p p' fs) (h' : Reported arrived p' p'' fs') :
    Reported arrived p p'' (fs ++ fs') := by
  obtain ⟨told, untold, rs, hperm, htold, hitems, hdropped⟩ := h
  obtain ⟨told', untold', rs', hperm', htold', hitems', hdropped'⟩ := h'
  refine ⟨told ++ told', untold ++ untold', rs ++ rs', ?_, List.rel_append htold htold', ?_, ?_⟩
  · refine (hperm.append hperm').trans (List.perm_iff_count.mpr fun f => ?_)
    simp only [List.count_append]
    omega
  · rw [hitems', hitems, List.append_assoc]
  · rw [hdropped', hdropped, List.length_append]
    omega

/-- One fill that was counted. -/
theorem Reported.dropped {p p' : OrderPath} (f : PassiveFill) (hreports : p'.reports = p.reports)
    (hdropped : p'.reportsDropped = p.reportsDropped + 1) : Reported arrived p p' [f] :=
  ⟨[], [f], [], .refl _, .nil, by rw [hreports, List.append_nil], hdropped⟩

/-- One fill is reported to the owner, or counted. -/
theorem reportPassiveFill_reported (p : OrderPath) (f : PassiveFill) (howned : p.owned ⊆ arrived) :
    Reported arrived p (p.reportPassiveFill f) [f] := by
  unfold reportPassiveFill
  split
  · exact .dropped f rfl rfl
  · rename_i o hfind
    have hid : o.exchangeOrderId = f.restingOrderId := by
      simpa using List.find?_some hfind
    have hmem := howned (List.mem_of_find?_eq_some hfind)
    have hemit : Reported arrived p (p.emit (passiveReport o f)) [f] := by
      unfold emit
      split
      · rename_i reports hpush
        refine ⟨[f], [], [passiveReport o f], .refl _, .cons ⟨o, hmem, hid, rfl⟩ .nil, ?_, rfl⟩
        rw [Fifo.push_some hpush]
      · exact .dropped f rfl rfl
    show Reported arrived p (if f.leaves = 0 then (p.emit (passiveReport o f)).forget f.restingOrderId
      else p.emit (passiveReport o f)) [f]
    generalize p.emit (passiveReport o f) = q at hemit
    obtain ⟨told, untold, rs, hperm, htold, hitems, hdropped⟩ := hemit
    split
    · exact ⟨told, untold, rs, hperm, htold, hitems, hdropped⟩
    · exact ⟨told, untold, rs, hperm, htold, hitems, hdropped⟩

theorem foldl_reportPassiveFill_reported (fs : List PassiveFill) (p : OrderPath)
    (howned : p.owned ⊆ arrived) :
    Reported arrived p (fs.foldl reportPassiveFill p) fs := by
  induction fs generalizing p with
  | nil => exact .nil p
  | cons f fs ih =>
    have hfirst := reportPassiveFill_reported p f howned
    have hsub := (foldl_reportPassiveFill_owned [f] p).subset
    exact hfirst.append (ih (p.reportPassiveFill f) (List.Subset.trans hsub howned))

/-- What the reports leave of the table: orders that are done are no longer in it. -/
theorem foldl_reportPassiveFill_finished (fs : List PassiveFill) (p : OrderPath)
    (h : ∀ o ∈ p.owned, o.exchangeOrderId ∉ p.finished) :
    (fs.foldl reportPassiveFill p).toWatch = p.toWatch ∧
    (∀ o ∈ (fs.foldl reportPassiveFill p).owned,
      o.exchangeOrderId ∉ (fs.foldl reportPassiveFill p).finished) ∧
    ∀ id ∈ (fs.foldl reportPassiveFill p).finished,
      id ∈ p.finished ∨ ∃ f ∈ fs, f.restingOrderId = id := by
  induction fs generalizing p with
  | nil => exact ⟨rfl, h, fun _ hid => .inl hid⟩
  | cons f fs ih =>
    obtain ⟨htoWatch, hcases⟩ := reportPassiveFill_table p f
    have hfirst : (∀ o ∈ (p.reportPassiveFill f).owned,
          o.exchangeOrderId ∉ (p.reportPassiveFill f).finished) ∧
        ∀ id ∈ (p.reportPassiveFill f).finished, id ∈ p.finished ∨ f.restingOrderId = id := by
      rcases hcases with ⟨howned, hfinished⟩ | ⟨-, howned, hfinished⟩
      · rw [howned, hfinished]
        exact ⟨h, fun _ hid => .inl hid⟩
      · rw [howned, hfinished]
        refine ⟨fun o ho hid => ?_, fun id hid => ?_⟩
        · obtain ⟨ho, hne⟩ := List.mem_filter.mp ho
          rcases List.mem_append.mp hid with hid | hid
          · exact h o ho hid
          · exact of_decide_eq_true hne (List.mem_singleton.mp hid)
        · rcases List.mem_append.mp hid with hid | hid
          · exact .inl hid
          · exact .inr (List.mem_singleton.mp hid).symm
    obtain ⟨htoWatch', hleft, hdone⟩ := ih (p.reportPassiveFill f) hfirst.1
    refine ⟨htoWatch'.trans htoWatch, hleft, fun id hid => ?_⟩
    rcases hdone id hid with hid | ⟨g, hg, rfl⟩
    · rcases hfirst.2 id hid with hid | rfl
      · exact .inl hid
      · exact .inr ⟨f, List.mem_cons_self, rfl⟩
    · exact .inr ⟨g, List.mem_cons_of_mem _ hg, rfl⟩

/-- **Everything that was noted is reported or counted** by the next `catchUp`. -/
theorem catchUp_reported (p : OrderPath) (x : Exchange) (howned : p.owned ⊆ arrived) :
    Reported arrived p (p.catchUp x).1 x.engine.passiveFills := by
  rw [catchUp_path]
  have hfold := foldl_reportPassiveFill_reported (x.engine.passiveFills.take fillsPerReport)
    { p with toWatch := [], finished := [] } howned
  obtain ⟨told, untold, rs, hperm, htold, hitems, hdropped⟩ := hfold
  refine ⟨told, untold ++ x.engine.passiveFills.drop fillsPerReport, rs, ?_, htold, hitems, ?_⟩
  · have hsplit := hperm.append_right (x.engine.passiveFills.drop fillsPerReport)
    rwa [List.take_append_drop, List.append_assoc] at hsplit
  · show _ + (x.engine.passiveFills.length - fillsPerReport) = _
    rw [hdropped, List.length_append, List.length_drop]
    exact Nat.add_assoc _ _ _

end OrderPath

namespace Desk

/-! ## Who is watched -/

/-- Every order of the table is watched, or is to be from the next `catchUp` on. -/
structure Watching (s : Desk) : Prop where
  watched : ∀ id ∈ s.exchange.engine.watched, id ∈ s.arrived.map Owned.exchangeOrderId
  toWatch : ∀ id ∈ s.path.toWatch, id ∈ s.arrived.map Owned.exchangeOrderId
  finished : ∀ id ∈ s.path.finished, id < s.exchange.engine.nextOrderId
  owned : ∀ o ∈ s.path.owned, o.exchangeOrderId ∈ s.exchange.engine.watched ∨
    o.exchangeOrderId ∈ s.path.toWatch
  unfinished : ∀ o ∈ s.path.owned, o.exchangeOrderId ∉ s.path.finished

/-- The fills of resting orders that a step would make. -/
def hits (s : Desk) : Input → List PassiveFill
  | .take =>
    match s.path.orders.items.head? with
    | some m => s.exchange.struckByMessage m
    | none => []
  | .flow c => s.exchange.struckBy c
  | _ => []

/-- The orders of clients that the step fills are in the table, and are not among those that are to
be watched only from the next `catchUp` on. -/
def Watches (s : Desk) (i : Input) : Prop :=
  ∀ f ∈ s.ofClients (s.hits i),
    f.restingOrderId ∈ s.path.owned.map Owned.exchangeOrderId ∧ f.restingOrderId ∉ s.path.toWatch

instance (s : Desk) (i : Input) : Decidable (s.Watches i) :=
  inferInstanceAs (Decidable (∀ f ∈ s.ofClients (s.hits i), _ ∧ _))

variable {env : Env} {s s' : Desk}

/-- Then the engine sees exactly the fills of clients' orders. -/
theorem Watching.seen_eq (h : s.Watching) {i : Input} (hi : s.Watches i) :
    s.exchange.engine.seen (s.hits i) = s.ofClients (s.hits i) := by
  refine List.filter_congr fun f hf => ?_
  rw [Bool.eq_iff_iff, List.contains_iff_mem, List.contains_iff_mem]
  constructor
  · exact h.watched f.restingOrderId
  · intro hclient
    obtain ⟨howned, hnot⟩ := hi f (List.mem_filter.mpr ⟨hf, List.contains_iff_mem.mpr hclient⟩)
    obtain ⟨o, ho, hid⟩ := List.mem_map.mp howned
    have hwatched := h.owned o ho
    rw [hid] at hwatched
    exact hwatched.resolve_right hnot

theorem Watching.forgets {path : OrderPath} (h : s.Watching) (howned : path.owned ⊆ s.path.owned)
    (htoWatch : path.toWatch = s.path.toWatch) (hfinished : path.finished = s.path.finished) :
    Watching { s with path } := by
  refine ⟨h.watched, ?_, ?_, ?_, ?_⟩
  · show ∀ id ∈ path.toWatch, _
    rw [htoWatch]
    exact h.toWatch
  · show ∀ id ∈ path.finished, _
    rw [hfinished]
    exact h.finished
  · intro o ho
    show _ ∨ _ ∈ path.toWatch
    rw [htoWatch]
    exact h.owned o (howned ho)
  · intro o ho
    show _ ∉ path.finished
    rw [hfinished]
    exact h.unfinished o (howned ho)

theorem Watching.moves {exchange : Exchange} {struck : List PassiveFill} (h : s.Watching)
    (hwatched : exchange.engine.watched = s.exchange.engine.watched)
    (hlt : ∀ id, id < s.exchange.engine.nextOrderId → id < exchange.engine.nextOrderId) :
    Watching { s with exchange, struck } := by
  refine ⟨?_, h.toWatch, fun id hid => hlt id (h.finished id hid), ?_, h.unfinished⟩
  · show ∀ id ∈ exchange.engine.watched, _
    rw [hwatched]
    exact h.watched
  · show ∀ o ∈ s.path.owned, _ ∈ exchange.engine.watched ∨ _
    rw [hwatched]
    exact h.owned

/-- More orders may have arrived than the table has. -/
theorem Watching.arrived {arrived : List Owned} (h : s.Watching) (hsub : s.arrived ⊆ arrived) :
    Watching { s with arrived } :=
  ⟨fun id hid => List.map_subset _ hsub (h.watched id hid),
    fun id hid => List.map_subset _ hsub (h.toWatch id hid), h.finished, h.owned, h.unfinished⟩

theorem Watching.submitted {p : OrderPath} {m : NewOrder} {side : Side} {x' : Exchange}
    {outcome : SubmitOutcome} {fills : List Fill} {struck : List PassiveFill} (h : s.Watching)
    (hs : s.Sound) (howned : p.owned = s.path.owned) (htoWatch : p.toWatch = s.path.toWatch)
    (hfinished : p.finished = s.path.finished)
    (hids : s.exchange.engine.nextOrderId.toNat + 1 < 2 ^ 64)
    (hsubmit : s.exchange.submitReported env m.symbolId side m.price m.quantity false =
      .ok (x', outcome, fills)) :
    Watching { s with
      path := p.reportOutcome m side outcome fills
      exchange := x'
      arrived := s.arrived ++
        if 0 < outcome.resting then [⟨outcome.orderId, m.clientOrderId⟩] else []
      struck } := by
  obtain ⟨os, hos⟩ := hs.engine.reps m.symbolId
  have hm := (Exchange.submitReported_moves hos hsubmit).1
  have hn := Exchange.submitReported_numbers hsubmit
  have hmoved : Watching { s with exchange := x', struck } := h.moves hm.watched
    fun id hid => Engine.Sound.lt_next hn (fun _ => hids) (.inl hid)
  have harrived := hmoved.arrived (List.subset_append_left s.arrived
    (if 0 < outcome.resting then [⟨outcome.orderId, m.clientOrderId⟩] else []))
  by_cases hkept : 0 < outcome.resting ∧ p.owned.length < maxOwned
  · obtain ⟨hrests, hroom⟩ := hkept
    obtain ⟨howned', htoWatch', hfinished'⟩ := OrderPath.reportOutcome_remembers m
      side fills hrests hroom
    rw [howned] at howned'
    rw [htoWatch] at htoWatch'
    rw [hfinished] at hfinished'
    rw [if_pos hrests] at harrived ⊢
    refine ⟨harrived.watched, ?_, ?_, ?_, ?_⟩
    · show ∀ id ∈ (p.reportOutcome m side outcome fills).toWatch, _
      rw [htoWatch']
      intro id hid
      rcases List.mem_append.mp hid with hid | hid
      · exact harrived.toWatch id hid
      · rw [List.mem_singleton.mp hid, List.map_append]
        exact List.mem_append_right _ (List.mem_singleton_self _)
    · show ∀ id ∈ (p.reportOutcome m side outcome fills).finished, _
      rw [hfinished']
      exact harrived.finished
    · show ∀ o ∈ (p.reportOutcome m side outcome fills).owned, _ ∨
        _ ∈ (p.reportOutcome m side outcome fills).toWatch
      rw [howned', htoWatch']
      intro o ho
      rcases List.mem_append.mp ho with ho | ho
      · exact (harrived.owned o ho).imp id (List.mem_append_left _)
      · rw [List.mem_singleton.mp ho]
        exact .inr (List.mem_append_right _ (List.mem_singleton_self _))
    · show ∀ o ∈ (p.reportOutcome m side outcome fills).owned,
        _ ∉ (p.reportOutcome m side outcome fills).finished
      rw [howned', hfinished']
      intro o ho hid
      rcases List.mem_append.mp ho with ho | ho
      · exact h.unfinished o ho hid
      · have hlt := h.finished _ hid
        rw [List.mem_singleton.mp ho, (Exchange.submitted hsubmit).orderId] at hlt
        exact absurd hlt (UInt64.lt_irrefl _)
  · have hsame := OrderPath.reportOutcome_sameTable (p := p) m side fills
      (fun hpos hroom => hkept ⟨hpos, hroom⟩)
    refine harrived.forgets ?_ (hsame.toWatch.trans htoWatch) (hsame.finished.trans hfinished)
    rw [hsame.owned, howned]
    exact List.Subset.refl _

theorem Watching.took {m : OrderMessage} {orders : Fifo OrderMessage} (h : s.Watching) (hs : s.Sound)
    (hids : s.IdsLeft .take) (hpop : s.path.orders.pop = some (m, orders))
    (htook : Took env s { s.path with orders } m s') : s'.Watching := by
  have hcanceled : ∀ {symbolId : UInt16} {orderId : UInt64} {x' : Exchange} {answer : Option UInt32},
      s.exchange.cancelReported env symbolId orderId = .ok (x', answer) →
      Watching { s with exchange := x' } := by
    intro symbolId orderId x' answer hcancel
    refine h.moves (Exchange.cancelReported_moves hcancel).watched fun id hid => ?_
    rwa [(Exchange.canceled hcancel).spares.next]
  cases htook with
  | refused hside =>
    obtain ⟨-, howned, htoWatch, hfinished⟩ := OrderPath.SameTable.emit { s.path with orders }
      ⟨_, 0, 0, 0, 0, 0, _, .bid, .rejected, .unknownSymbol⟩
    refine h.forgets ?_ htoWatch hfinished
    rw [OrderPath.emitReject, howned]
    exact List.Subset.refl _
  | submitted hside hsubmit => exact h.submitted hs rfl rfl rfl (hids.take hpop hside) hsubmit
  | canceled hcancel =>
    rename_i c x' remaining
    have hmoved := hcanceled hcancel
    obtain ⟨-, howned, htoWatch, hfinished⟩ := OrderPath.SameTable.emit
      (({ s.path with orders } : OrderPath).forget c.origClientOrderId)
      ⟨c.clientOrderId, c.origClientOrderId, 0, 0, remaining, 0, c.symbolId, c.side.getD .bid,
        .canceled, .notRejected⟩
    have hbelow : c.origClientOrderId < x'.engine.nextOrderId := by
      rw [(Exchange.canceled hcancel).spares.next]
      exact hs.engine.below c.symbolId _ ((Exchange.canceled hcancel).found.symm.trans rfl)
    refine ⟨hmoved.watched, ?_, ?_, ?_, ?_⟩
    · show ∀ id ∈ (OrderPath.emit _ _).toWatch, _
      rw [htoWatch]
      exact hmoved.toWatch
    · show ∀ id ∈ (OrderPath.emit _ _).finished, _
      rw [hfinished]
      intro id hid
      rcases List.mem_append.mp hid with hid | hid
      · exact hmoved.finished id hid
      · rw [List.mem_singleton.mp hid]
        exact hbelow
    · show ∀ o ∈ (OrderPath.emit _ _).owned, _ ∨ _ ∈ (OrderPath.emit _ _).toWatch
      rw [howned, htoWatch]
      exact fun o ho => hmoved.owned o (List.mem_filter.mp ho).1
    · show ∀ o ∈ (OrderPath.emit _ _).owned, _ ∉ (OrderPath.emit _ _).finished
      rw [howned, hfinished]
      intro o ho hid
      obtain ⟨ho, hne⟩ := List.mem_filter.mp ho
      rcases List.mem_append.mp hid with hid | hid
      · exact h.unfinished o ho hid
      · exact of_decide_eq_true hne (List.mem_singleton.mp hid)
  | unknown hcancel =>
    rename_i c x'
    obtain ⟨-, howned, htoWatch, hfinished⟩ := OrderPath.SameTable.emit { s.path with orders }
      ⟨c.clientOrderId, c.origClientOrderId, 0, 0, 0, 0, c.symbolId, c.side.getD .bid,
        .rejected, .unknownOrder⟩
    refine (hcanceled hcancel).forgets ?_ htoWatch hfinished
    rw [howned]
    exact List.Subset.refl _
  | reconciled =>
    rename_i requestId
    obtain ⟨howned, htoWatch, hfinished⟩ := OrderPath.onReconcile_table { s.path with orders }
      s.exchange.engine.books requestId
    refine h.forgets ?_ htoWatch hfinished
    rw [howned]
    exact List.filter_subset_self _

theorem Watching.catchUp (h : s.Watching) (hs : s.Sound) : s.catchUp.Watching := by
  obtain ⟨watched, hengine, hold, hnew⟩ := OrderPath.catchUp_engine s.path s.exchange
  have hengine : s.catchUp.exchange.engine = { s.exchange.engine with watched, passiveFills := [] } :=
    hengine
  have hpath : s.catchUp.path = (s.path.catchUp s.exchange).1 := rfl
  rw [OrderPath.catchUp_path] at hpath
  obtain ⟨htoWatch, hleft, hdone⟩ := OrderPath.foldl_reportPassiveFill_finished
    (s.exchange.engine.passiveFills.take fillsPerReport) { s.path with toWatch := [], finished := [] }
    (fun _ _ hid => (nomatch hid))
  have hsub := (OrderPath.foldl_reportPassiveFill_owned
    (s.exchange.engine.passiveFills.take fillsPerReport)
    { s.path with toWatch := [], finished := [] }).subset
  refine ⟨?_, ?_, ?_, ?_, ?_⟩
  · rw [hengine]
    intro id hid
    rcases hold id hid with hid | hid
    · exact h.watched id hid
    · exact h.toWatch id hid
  · rw [hpath]
    intro id hid
    rw [show (OrderPath.drop _ _).toWatch = [] from htoWatch] at hid
    cases hid
  · rw [hpath, hengine]
    intro id hid
    rcases hdone id hid with hid | ⟨f, hf, rfl⟩
    · cases hid
    · exact (hs.engine.passive f (List.mem_of_mem_take hf)).1
  · rw [hpath, hengine]
    intro o ho
    exact .inl (hnew _ (h.owned o (hsub ho)) (h.unfinished o (hsub ho)))
  · rw [hpath]
    exact hleft

theorem Watching.step {i : Input} (h : s.Watching) (hs : s.Sound) (hids : s.IdsLeft i)
    (hstep : s.step env i = .ok s') : s'.Watching := by
  cases i with
  | arrives m =>
    cases hstep
    exact h.forgets (List.Subset.refl _) rfl rfl
  | read =>
    unfold Desk.step at hstep
    dsimp only at hstep
    split at hstep
    · cases hstep
      exact h
    · cases hstep
      exact h.forgets (List.Subset.refl _) rfl rfl
  | catchUp =>
    cases hstep
    exact h.catchUp hs
  | take =>
    rcases take_took hstep with rfl | ⟨m, orders, hpop, htook⟩
    · exact h
    · exact h.took hs hids hpop htook
  | flow c =>
    obtain ⟨x', hcall, hstep⟩ := bind_eq_ok hstep
    cases hstep
    obtain ⟨new, hm, hn⟩ := Exchange.call_moves hs.engine.reps hcall
    exact h.moves hm.watched fun id hid => Engine.Sound.lt_next hn (hids.flow hcall) (.inl hid)

/-! ## What becomes of the fills -/

/-- **Every fill of a client's resting order is accounted for**: it was reported once to its owner, or
counted by the engine, or counted by `pump`, or it waits for the next `catchUp`. -/
structure Accounted (s : Desk) : Prop where
  exists_split : ∃ reported uncollected unreported : List PassiveFill,
    s.struck.Perm (reported ++ uncollected ++ unreported ++ s.exchange.engine.passiveFills) ∧
    List.Forall₂ (Reports s.arrived) reported s.told ∧
    s.exchange.engine.passiveFillsDropped = UInt64.ofNat uncollected.length ∧
    s.untold = unreported.length

/-- A step that fills nothing. -/
theorem Accounted.frame (h : s.Accounted) (hstruck : s'.struck = s.struck) (htold : s'.told = s.told)
    (huntold : s'.untold = s.untold) (harrived : s.arrived ⊆ s'.arrived)
    (hpassive : s'.exchange.engine.passiveFills = s.exchange.engine.passiveFills)
    (hdropped : s'.exchange.engine.passiveFillsDropped = s.exchange.engine.passiveFillsDropped) :
    s'.Accounted := by
  obtain ⟨reported, uncollected, unreported, hperm, hreports, hcounted, hcount⟩ := h
  refine ⟨reported, uncollected, unreported, ?_, ?_, hdropped.trans hcounted, huntold.trans hcount⟩
  · rwa [hstruck, hpassive]
  · rw [htold]
    refine hreports.imp fun f r hr => ?_
    obtain ⟨o, ho, hid, heq⟩ := hr
    exact ⟨o, harrived ho, hid, heq⟩

/-- The fills of a call are noted or counted, where the engine sees all those of clients' orders. -/
theorem Accounted.moves {fs : List PassiveFill} {new : Option (UInt16 × UInt64)} (h : s.Accounted)
    (hm : Moves s.exchange.engine s'.exchange.engine fs new)
    (hseen : s.exchange.engine.seen fs = s.ofClients fs)
    (hstruck : s'.struck = s.struck ++ s.ofClients fs) (htold : s'.told = s.told)
    (huntold : s'.untold = s.untold) (harrived : s.arrived ⊆ s'.arrived) : s'.Accounted := by
  obtain ⟨reported, uncollected, unreported, hperm, hreports, hcounted, hcount⟩ := h
  refine ⟨reported, uncollected ++ (s.ofClients fs).drop s.exchange.engine.room, unreported, ?_, ?_,
    ?_, huntold.trans hcount⟩
  · rw [hstruck, hm.noted, hseen]
    refine (hperm.append_right _).trans (List.perm_iff_count.mpr fun f => ?_)
    have hsplit := congrArg (List.count f)
      (List.take_append_drop s.exchange.engine.room (s.ofClients fs))
    simp only [List.count_append] at hsplit ⊢
    omega
  · rw [htold]
    refine hreports.imp fun f r hr => ?_
    obtain ⟨o, ho, hid, heq⟩ := hr
    exact ⟨o, harrived ho, hid, heq⟩
  · rw [hm.dropped, hseen, hcounted, List.length_append, List.length_drop, UInt64.ofNat_add]

theorem Accounted.catchUp (h : s.Accounted) (hs : s.Sound) : s.catchUp.Accounted := by
  obtain ⟨watched, hengine, -⟩ := OrderPath.catchUp_engine s.path s.exchange
  have hengine : s.catchUp.exchange.engine = { s.exchange.engine with watched, passiveFills := [] } :=
    hengine
  obtain ⟨reported, uncollected, unreported, hperm, hreports, hcounted, hcount⟩ := h
  obtain ⟨told, untold, rs, hperm', htold, hitems, hdropped⟩ :=
    OrderPath.catchUp_reported s.path s.exchange hs.owned.subset
  refine ⟨reported ++ told, uncollected, unreported ++ untold, ?_, ?_, ?_, ?_⟩
  · rw [hengine, List.append_nil]
    refine (hperm.trans (hperm'.append_left _)).trans (List.perm_iff_count.mpr fun f => ?_)
    simp only [List.count_append]
    omega
  · show List.Forall₂ _ _ (s.told ++ (s.path.catchUp s.exchange).1.reports.items.drop
      s.path.reports.items.length)
    rw [hitems, List.drop_left]
    exact List.rel_append hreports htold
  · rw [hengine]
    exact hcounted
  · show s.untold + ((s.path.catchUp s.exchange).1.reportsDropped - s.path.reportsDropped) = _
    rw [hdropped, hcount, List.length_append]
    omega

theorem Accounted.took {m : OrderMessage} {orders : Fifo OrderMessage} (h : s.Accounted)
    (hs : s.Sound) (hw : s.Watching) (hc : s.Watches .take)
    (hpop : s.path.orders.pop = some (m, orders))
    (htook : Took env s { s.path with orders } m s') : s'.Accounted := by
  cases htook with
  | refused hside => exact h.frame rfl rfl rfl (List.Subset.refl _) rfl rfl
  | submitted hside hsubmit =>
    rename_i m side x' outcome fills
    obtain ⟨os, hos⟩ := hs.engine.reps m.symbolId
    have hm := (Exchange.submitReported_moves hos hsubmit).1
    have hhits : s.hits .take = s.exchange.strikes m.symbolId side m.price m.quantity := by
      unfold hits
      rw [(Fifo.pop_some hpop).1, List.head?_cons]
      obtain ⟨clientOrderId, price, quantity, symbolId, side'⟩ := m
      dsimp only at hside
      rw [hside]
      rfl
    have hseen := hw.seen_eq hc
    rw [hhits] at hseen
    exact h.moves hm hseen rfl rfl rfl (List.subset_append_left _ _)
  | canceled hcancel =>
    obtain ⟨hpassive, hdropped⟩ := (Exchange.cancelReported_moves hcancel).same
    exact h.frame rfl rfl rfl (List.Subset.refl _) hpassive hdropped
  | unknown hcancel =>
    obtain ⟨hpassive, hdropped⟩ := (Exchange.cancelReported_moves hcancel).same
    exact h.frame rfl rfl rfl (List.Subset.refl _) hpassive hdropped
  | reconciled => exact h.frame rfl rfl rfl (List.Subset.refl _) rfl rfl

theorem Accounted.step {i : Input} (h : s.Accounted) (hs : s.Sound) (hw : s.Watching)
    (hc : s.Watches i) (hstep : s.step env i = .ok s') : s'.Accounted := by
  cases i with
  | arrives m =>
    cases hstep
    exact h.frame rfl rfl rfl (List.Subset.refl _) rfl rfl
  | read =>
    unfold Desk.step at hstep
    dsimp only at hstep
    split at hstep
    · cases hstep
      exact h
    · cases hstep
      exact h.frame rfl rfl rfl (List.Subset.refl _) rfl rfl
  | catchUp =>
    cases hstep
    exact h.catchUp hs
  | take =>
    rcases take_took hstep with rfl | ⟨m, orders, hpop, htook⟩
    · exact h
    · exact h.took hs hw hc hpop htook
  | flow c =>
    obtain ⟨x', hcall, hstep⟩ := bind_eq_ok hstep
    cases hstep
    obtain ⟨new, hm, -⟩ := Exchange.call_moves hs.engine.reps hcall
    exact h.moves hm (hw.seen_eq hc) rfl rfl rfl (List.Subset.refl _)

/-- **In every state that is reached** by steps that hit only orders that are watched, and as long as
ids are left, every fill of a client's resting order is accounted for; and the next `catchUp` leaves
none waiting. -/
theorem accounted_of_watched {symbols : List UInt16} {batchSize : UInt16} {maxDatagramBytes : Nat}
    {shadow : Option Books} {orders reports : Nat} {is : List Input}
    (hc : Run.AlongRuns (Desk.step env) (fun s i => s.IdsLeft i ∧ s.Watches i)
      (Desk.new symbols batchSize maxDatagramBytes shadow orders reports) is)
    (hrun : Run.runs (Desk.step env)
      (Desk.new symbols batchSize maxDatagramBytes shadow orders reports) is = .ok s) :
    s.Accounted ∧ s.catchUp.Accounted ∧ s.catchUp.exchange.engine.passiveFills = [] ∧
      s.catchUp.struck = s.struck := by
  have hinv : s.Sound ∧ s.Watching ∧ s.Accounted := by
    refine hc.invariant (fun s => s.Sound ∧ s.Watching ∧ s.Accounted) ?_ ⟨sound_new .., ?_, ?_⟩ hrun
    · intro s i s' hinv hcond hstep
      obtain ⟨hs, hw, ha⟩ := hinv
      exact ⟨hs.step hcond.1 hstep, hw.step hs hcond.1 hstep, ha.step hs hw hcond.2 hstep⟩
    · exact ⟨fun _ h => (nomatch h), fun _ h => (nomatch h), fun _ h => (nomatch h),
        fun _ h => (nomatch h), fun _ h => (nomatch h)⟩
    · exact ⟨[], [], [], .nil, .nil, rfl, rfl⟩
  obtain ⟨hs, -, ha⟩ := hinv
  obtain ⟨watched, hengine, -⟩ := OrderPath.catchUp_engine s.path s.exchange
  refine ⟨ha, ha.catchUp hs, ?_, rfl⟩
  show (s.path.catchUp s.exchange).2.engine.passiveFills = []
  rw [hengine]

/-- Five to sell at 100, from client order 1. -/
def sellFive : OrderMessage := .newOrder ⟨1, 100, 5, 1, some .ask⟩

/-- Five to buy at 100, from client order 2. -/
def buyFive : OrderMessage := .newOrder ⟨2, 100, 5, 1, some .bid⟩

/-- The two in one pass, and the `catchUp` of the next. -/
def onePass : List Input :=
  [.arrives sellFive, .arrives buyFive, .catchUp, .take, .take, .catchUp]

/-- One pass for each. -/
def twoPasses : List Input :=
  [.arrives sellFive, .catchUp, .take, .arrives buyFive, .catchUp, .take, .catchUp]

/-- In a pass of its own, the fill of the seller is reported. -/
theorem accounted_in_two_passes :
    ∃ s, Run.runs (Desk.step Env.lossless) (Desk.new [1] 8 512 none 4 8) twoPasses = .ok s ∧
      s.struck.length = 1 ∧ s.told.map ExecReport.clientOrderId = [1] ∧ s.Accounted := by
  have hrun : (Run.runs (Desk.step Env.lossless) (Desk.new [1] 8 512 none 4 8) twoPasses).map
      (fun s => (s.struck.length, s.told.map ExecReport.clientOrderId)) = .ok (1, [1]) := by
    decide +kernel
  obtain ⟨s, hs, hviews⟩ := map_eq_ok hrun
  obtain ⟨hstruck, htold⟩ := Prod.mk.inj hviews
  exact ⟨s, hs, hstruck, htold, (accounted_of_watched (by decide +kernel) hs).1⟩

/-- In the same pass it is neither reported nor counted. -/
theorem fill_in_one_pass_unaccounted :
    ∃ s, Run.runs (Desk.step Env.lossless) (Desk.new [1] 8 512 none 4 8) onePass = .ok s ∧
      s.exchange.engine.passiveFills = [] ∧ ¬s.Accounted := by
  have hrun : (Run.runs (Desk.step Env.lossless) (Desk.new [1] 8 512 none 4 8) onePass).map
      (fun s => (s.struck.length, s.told.length, s.untold, s.exchange.engine.passiveFillsDropped,
        s.exchange.engine.passiveFills)) = .ok (1, 0, 0, 0, []) := by decide +kernel
  obtain ⟨s, hs, hviews⟩ := map_eq_ok hrun
  simp only [Prod.mk.injEq] at hviews
  obtain ⟨hstruck, htold, huntold, hdropped, hpassive⟩ := hviews
  refine ⟨s, hs, hpassive, fun h => ?_⟩
  obtain ⟨reported, uncollected, unreported, hperm, hreports, hcounted, hcount⟩ := h
  have hlength := hperm.length_eq
  simp only [List.length_append, hpassive, List.length_nil] at hlength
  have hreported := hreports.length_eq
  rw [hdropped] at hcounted
  have hone : uncollected.length = 1 := by omega
  rw [hone] at hcounted
  exact absurd hcounted (by decide)

end Desk

end MarketData.Matching
