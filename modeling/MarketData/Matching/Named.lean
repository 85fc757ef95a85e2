import MarketData.Matching.Owners

/-!
# `Matching/Named.lean` — which orders a reconciliation names

`owned` is the only place where the engine has the owner of an order. It is complete with respect to
the books as long as every order that rests finds room in it (`named_of_remembered`). Where the
table is full the order rests and is acknowledged all the same, and no reconciliation names it
(`order_4097_not_named`).

## A run of 4097 orders

That the table can fill up is shown by a run, and the run is not computed. `Piled` says what the
process has become after `n` rounds, in each of which an order arrives, is taken, rests and is
acknowledged, with its book, its table and its ring as functions of `n`. One round is a lemma, and
the run an induction; the last round is the one in which `remember` finds no room.

What is positive is proved for the same process with anything going on in it: `Complete` is kept by
every step that finds room (`Remembers`), cancels, fills and the generator's own orders among them,
and **an order that is complete in this sense has exactly one line in an answer**, with what the
book says of it and the id of its owner.

Whether an answer gets to the gateway is not asked here (`Trading/Reconciliation.lean`).
-/

set_option autoImplicit false

namespace MarketData.Matching

open MarketData.Wire MarketData.Book

/-! ## The answer to a request -/

namespace OrderPath

variable {books : Books}

/-- The orders on a book are those that are looked up, and there. -/
theorem lookUp_sound {id : UInt64} {t : UInt16} {o : RestingOrder}
    (h : lookUp books id = some (t, o)) : (books.book t).get id = some o := by
  obtain ⟨⟨symbolId, b⟩, hmem, hfound⟩ := List.exists_of_findSome?_eq_some h
  obtain ⟨o', hget, heq⟩ := Option.map_eq_some_iff.mp hfound
  obtain ⟨rfl, rfl⟩ := Prod.mk.inj heq
  have hbook : books.get symbolId = some b :=
    Std.TreeMap.mem_toList_iff_getElem?_eq_some.mp hmem
  rw [BookSet.book, hbook]
  exact hget

theorem lookUp_complete (hfresh : books.fresh = ReferenceBook.new) {id : UInt64} {t : UInt16}
    (h : ((books.book t).get id).isSome = true) : (lookUp books id).isSome = true := by
  unfold BookSet.book at h
  cases hget : books.get t with
  | none =>
    rw [hget, Option.getD_none, hfresh] at h
    simp [ReferenceBook.get, ReferenceBook.new] at h
  | some b =>
    rw [hget, Option.getD_some] at h
    refine List.findSome?_isSome_iff.mpr ⟨(t, b), ?_, ?_⟩
    · exact Std.TreeMap.mem_toList_iff_getElem?_eq_some.mpr hget
    · rw [Option.isSome_map]
      exact h

/-- The line about an order that is on a book. -/
def statusLine (o : Owned) (t : UInt16) (r : RestingOrder) : ExecReport :=
  ⟨o.clientOrderId, o.exchangeOrderId, 0, r.price, r.quantity, r.quantity, t, r.side, .orderStatus,
    .notRejected⟩

/-- The line about an order of the table, if it is on a book. -/
def lineOf (books : Books) (o : Owned) : Option ExecReport :=
  (lookUp books o.exchangeOrderId).map fun (t, r) => statusLine o t r

theorem foldl_name_reports (books : Books) (owned : List Owned) (p : OrderPath) (named : Nat)
    (hroom : p.reports.items.length + (owned.filterMap (lineOf books)).length ≤
      p.reports.capacity) :
    (owned.foldl (fun (p, named) o => p.name books named o) (p, named)).1.reports =
        { p.reports with items := p.reports.items ++ owned.filterMap (lineOf books) } ∧
      (owned.foldl (fun (p, named) o => p.name books named o) (p, named)).2 =
        named + (owned.filterMap (lineOf books)).length := by
  induction owned generalizing p named with
  | nil => simp
  | cons o owned ih =>
    rw [List.foldl_cons]
    unfold name
    cases hfound : lookUp books o.exchangeOrderId with
    | none =>
      have hline : lineOf books o = none := by rw [lineOf, hfound, Option.map_none]
      rw [List.filterMap_cons_none hline] at hroom ⊢
      exact ih p named hroom
    | some found =>
      obtain ⟨t, r⟩ := found
      have hline : lineOf books o = some (statusLine o t r) := by rw [lineOf, hfound, Option.map_some]
      rw [List.filterMap_cons_some hline, List.length_cons] at hroom
      have hpush : p.reports.push (statusLine o t r) =
          some { p.reports with items := p.reports.items ++ [statusLine o t r] } :=
        if_pos (by omega)
      dsimp only
      rw [statusLine] at hpush
      rw [hpush]
      dsimp only
      obtain ⟨hreports, hnamed⟩ := ih
        { p with reports := { p.reports with items := p.reports.items ++ [statusLine o t r] } }
        (named + 1) (by rw [List.length_append, List.length_singleton]; dsimp only; omega)
      rw [List.filterMap_cons_some hline, List.length_cons]
      refine ⟨hreports.trans ?_, hnamed.trans (by omega)⟩
      simp

/-- The end of an answer of that many lines. -/
def statusComplete (requestId : UInt64) (lines : Nat) : ExecReport :=
  ⟨requestId, 0, 0, 0, UInt32.ofNat lines, 0, 0, .bid, .statusComplete, .notRejected⟩

/-- With room in the ring, the answer to a request is a line for every order of the table that is on
a book, and the number of them. -/
theorem onReconcile_reports (p : OrderPath) (requestId : UInt64) (hbounded : p.owned.length < 2 ^ 32)
    (hroom : p.reports.items.length + (p.owned.filterMap (lineOf books)).length <
      p.reports.capacity) :
    (p.onReconcile books requestId).reports.items =
      p.reports.items ++ p.owned.filterMap (lineOf books) ++
        [statusComplete requestId (p.owned.filterMap (lineOf books)).length] := by
  obtain ⟨hreports, hnamed⟩ := foldl_name_reports books p.owned p 0 (by omega)
  unfold onReconcile
  generalize p.owned.foldl (fun (p, named) o => p.name books named o) (p, 0) = r
    at hreports hnamed ⊢
  obtain ⟨q, named⟩ := r
  dsimp only at hreports hnamed ⊢
  have hle := List.length_filterMap_le (lineOf books) p.owned
  have hsmall : min named (2 ^ 32 - 1) = (p.owned.filterMap (lineOf books)).length := by omega
  unfold emit
  dsimp only
  rw [hsmall, hreports, Fifo.push, if_pos (by rw [List.length_append]; exact hroom)]
  rfl

end OrderPath

namespace Desk

variable {env : Env} {s s' : Desk}

/-! ## Every order can be named -/

/-- Every order of the path that is on a book is in the table. -/
def Complete (s : Desk) : Prop :=
  ∀ o ∈ s.arrived, s.exchange.engine.Rests o.exchangeOrderId → o ∈ s.path.owned

/-- The order that is waiting to be taken next. -/
def nextOrder (s : Desk) : Option NewOrder :=
  match s.path.orders.items.head? with
  | some (.newOrder m) => some m
  | _ => none

/-- An order that will rest finds room in the table. -/
def Remembers (s : Desk) : Input → Prop
  | .take => ∀ m ∈ s.nextOrder, ∀ side ∈ m.side,
      available (s.exchange.engine.books.book m.symbolId) side m.price < m.quantity.toNat →
      s.path.owned.length < maxOwned
  | _ => True

instance (s : Desk) : (i : Input) → Decidable (s.Remembers i)
  | .take => inferInstanceAs (Decidable (∀ m ∈ s.nextOrder, ∀ side ∈ m.side, _ → _))
  | .arrives _ | .read | .catchUp | .flow _ => .isTrue trivial

/-- Where nothing comes to rest, the table may forget what is on no book. -/
theorem Complete.of_rests {s' : Desk} (h : s.Complete) (harrived : s'.arrived = s.arrived)
    (hrests : ∀ o ∈ s.arrived, s'.exchange.engine.Rests o.exchangeOrderId →
      s.exchange.engine.Rests o.exchangeOrderId)
    (howned : ∀ o ∈ s.path.owned, s'.exchange.engine.Rests o.exchangeOrderId → o ∈ s'.path.owned) :
    s'.Complete := by
  intro o ho hon
  rw [harrived] at ho
  exact howned o (h o ho (hrests o ho hon)) hon

/-- An order that was on the books under an old id is one that rested before. -/
theorem rests_of_moves {e e' : Engine} {fs : List PassiveFill} {new : Option (UInt16 × UInt64)}
    (hm : Moves e e' fs new) (hn : Exchange.Numbers e e' new) {id : UInt64}
    (hid : id < e.nextOrderId) (h : e'.Rests id) : e.Rests id := by
  obtain ⟨t, ht⟩ := h
  rcases hm.rests t id ht with ⟨hold, -⟩ | hnew
  · exact ⟨t, hold⟩
  · rw [(hn.new t id hnew).1] at hid
    exact absurd hid (UInt64.lt_irrefl _)

theorem Complete.submitted {p : OrderPath} {m : NewOrder} {side : Side} {x' : Exchange}
    {outcome : SubmitOutcome} {fills : List Fill} {struck : List PassiveFill} (h : s.Complete)
    (hs : s.Sound) (hp : p.owned = s.path.owned)
    (hroom : available (s.exchange.engine.books.book m.symbolId) side m.price < m.quantity.toNat →
      s.path.owned.length < maxOwned)
    (hsubmit : s.exchange.submitReported env m.symbolId side m.price m.quantity false =
      .ok (x', outcome, fills)) :
    Complete { s with
      path := p.reportOutcome m side outcome fills
      exchange := x'
      arrived := s.arrived ++
        if 0 < outcome.resting then [⟨outcome.orderId, m.clientOrderId⟩] else []
      struck } := by
  obtain ⟨os, hos⟩ := hs.engine.reps m.symbolId
  have hm := (Exchange.submitReported_moves hos hsubmit).1
  have hn := Exchange.submitReported_numbers hsubmit
  have hresting := Exchange.submitReported_resting hos hsubmit
  have hold : ∀ o ∈ s.arrived, x'.engine.Rests o.exchangeOrderId → o ∈ s.path.owned :=
    fun o ho hon => h o ho (rests_of_moves hm hn (hs.below o ho) hon)
  by_cases hrests : 0 < outcome.resting
  · rw [if_pos hrests]
    have hfits : p.owned.length < maxOwned := by
      rw [hp]
      apply hroom
      rw [← Nat.not_le, ← hresting]
      exact UInt32.pos_iff_ne_zero.mp hrests
    obtain ⟨howned, -⟩ := OrderPath.reportOutcome_remembers m side fills hrests hfits
    intro o ho hon
    show o ∈ (p.reportOutcome m side outcome fills).owned
    rw [howned, hp]
    rcases List.mem_append.mp ho with ho | ho
    · exact List.mem_append_left _ (hold o ho hon)
    · exact List.mem_append_right _ ho
  · rw [if_neg hrests, List.append_nil]
    have hsame := OrderPath.reportOutcome_sameTable (p := p) m side fills
      (fun hpos => absurd hpos hrests)
    intro o ho hon
    show o ∈ (p.reportOutcome m side outcome fills).owned
    rw [hsame.owned, hp]
    exact hold o ho hon

theorem Complete.took {m : OrderMessage} {orders : Fifo OrderMessage} (h : s.Complete)
    (hs : s.Sound) (hroom : s.Remembers .take) (hpop : s.path.orders.pop = some (m, orders))
    (htook : Took env s { s.path with orders } m s') : s'.Complete := by
  cases htook with
  | refused hside =>
    refine h.of_rests rfl (fun _ _ hon => hon) fun o ho _ => ?_
    show o ∈ (OrderPath.emit _ _).owned
    rwa [(OrderPath.SameTable.emit _ _).owned]
  | submitted hside hsubmit =>
    refine h.submitted hs rfl (hroom _ ?_ _ hside) hsubmit
    rw [nextOrder, (Fifo.pop_some hpop).1, List.head?_cons]
    rfl
  | canceled hcancel =>
    have hcanceled := Exchange.canceled hcancel
    refine h.of_rests rfl (fun o _ => hcanceled.spares.rests _) fun o ho hon => ?_
    show o ∈ (OrderPath.emit _ _).owned
    rw [(OrderPath.SameTable.emit _ _).owned]
    refine List.mem_filter.mpr ⟨ho, decide_eq_true fun heq => ?_⟩
    -- The order that was canceled was on that book and is on no other.
    obtain ⟨t, ht⟩ := hon
    rw [hcanceled.books] at ht
    split at ht
    · cases ht
    · rename_i hother
      have hfound := hcanceled.found.symm.trans Option.isSome_some
      rw [← heq] at hfound
      exact hother ⟨hs.engine.apart _ _ _ hfound ht, heq.symm⟩
  | unknown hcancel =>
    refine h.of_rests rfl (fun o _ => (Exchange.canceled hcancel).spares.rests _) fun o ho _ => ?_
    show o ∈ (OrderPath.emit _ _).owned
    rwa [(OrderPath.SameTable.emit _ _).owned]
  | reconciled =>
    refine h.of_rests rfl (fun _ _ hon => hon) fun o ho hon => ?_
    obtain ⟨t, ht⟩ := hon
    show o ∈ (OrderPath.onReconcile _ _ _).owned
    rw [(OrderPath.onReconcile_table _ _ _).1]
    exact List.mem_filter.mpr ⟨ho, OrderPath.lookUp_complete hs.engine.fresh ht⟩

theorem Complete.catchUp (h : s.Complete) (hs : s.Sound) : s.catchUp.Complete := by
  obtain ⟨watched, hengine, -⟩ := OrderPath.catchUp_engine s.path s.exchange
  have hrests : ∀ id, s.catchUp.exchange.engine.Rests id → s.exchange.engine.Rests id := by
    rintro id ⟨t, ht⟩
    refine ⟨t, ?_⟩
    have hbooks : s.catchUp.exchange.engine.books = s.exchange.engine.books := by
      show (s.path.catchUp s.exchange).2.engine.books = _
      rw [hengine]
    rwa [hbooks] at ht
  refine h.of_rests rfl (fun o _ => hrests _) fun o ho hon => ?_
  show o ∈ (s.path.catchUp s.exchange).1.owned
  rw [OrderPath.catchUp_path]
  refine OrderPath.mem_foldl_reportPassiveFill (p := { s.path with toWatch := [], finished := [] }) ho
    fun f hf hzero heq => ?_
  exact (hs.engine.passive f (List.mem_of_mem_take hf)).2 hzero (heq ▸ hrests _ hon)

theorem Complete.step {i : Input} (h : s.Complete) (hs : s.Sound) (hroom : s.Remembers i)
    (hstep : s.step env i = .ok s') : s'.Complete := by
  cases i with
  | arrives m =>
    cases hstep
    exact h
  | read =>
    unfold Desk.step at hstep
    dsimp only at hstep
    split at hstep
    · cases hstep
      exact h
    · cases hstep
      exact h
  | catchUp =>
    cases hstep
    exact h.catchUp hs
  | take =>
    rcases take_took hstep with rfl | ⟨m, orders, hpop, htook⟩
    · exact h
    · exact h.took hs hroom hpop htook
  | flow c =>
    obtain ⟨x', hcall, hstep⟩ := bind_eq_ok hstep
    cases hstep
    obtain ⟨new, hm, hn⟩ := Exchange.call_moves hs.engine.reps hcall
    exact h.of_rests rfl (fun o ho => rests_of_moves hm hn (hs.below o ho)) fun _ ho _ => ho

/-- **Every resting order of the path can be named**: it is in the table, and the answer to a
request has exactly one line for it, with what the book says of it and the id its owner gave it, and
none for another. -/
structure Named (s : Desk) : Prop where
  owned : ∀ o ∈ s.arrived, s.exchange.engine.Rests o.exchangeOrderId → o ∈ s.path.owned
  answered : ∃ lines : List ExecReport,
    (lines.map ExecReport.exchangeOrderId).Nodup ∧
    (∀ line, line ∈ lines ↔ ∃ o ∈ s.arrived, ∃ t r,
      (s.exchange.engine.books.book t).get o.exchangeOrderId = some r ∧
        line = OrderPath.statusLine o t r) ∧
    ∀ requestId, s.path.reports.items.length + lines.length < s.path.reports.capacity →
      ∃ marker, (s.path.onReconcile s.exchange.engine.books requestId).reports.items =
          s.path.reports.items ++ lines ++ [marker] ∧
        marker.execType = .statusComplete ∧ marker.clientOrderId = requestId ∧
        marker.quantity.toNat = lines.length

/-- The lines are those of the orders that are on a book. -/
theorem mem_lines (h : s.Complete) (hs : s.Sound) (line : ExecReport) :
    line ∈ s.path.owned.filterMap (OrderPath.lineOf s.exchange.engine.books) ↔
      ∃ o ∈ s.arrived, ∃ t r, (s.exchange.engine.books.book t).get o.exchangeOrderId = some r ∧
        line = OrderPath.statusLine o t r := by
  have hfresh := hs.engine.fresh
  rw [List.mem_filterMap]
  constructor
  · rintro ⟨o, ho, hline⟩
    obtain ⟨⟨t, r⟩, hfound, rfl⟩ := Option.map_eq_some_iff.mp hline
    exact ⟨o, hs.owned.subset ho, t, r, OrderPath.lookUp_sound hfound, rfl⟩
  · rintro ⟨o, ho, t, r, hget, rfl⟩
    have hon : ((s.exchange.engine.books.book t).get o.exchangeOrderId).isSome = true := by
      rw [hget]
      rfl
    refine ⟨o, h o ho ⟨t, hon⟩, ?_⟩
    obtain ⟨⟨t', r'⟩, hfound⟩ := Option.isSome_iff_exists.mp (OrderPath.lookUp_complete hfresh hon)
    have hget' := OrderPath.lookUp_sound hfound
    obtain rfl := hs.engine.apart t t' _ hon (by rw [hget']; rfl)
    obtain rfl := Option.some.inj (hget.symm.trans hget')
    rw [OrderPath.lineOf, hfound]
    rfl

theorem Complete.named (h : s.Complete) (hs : s.Sound) : s.Named := by
  refine ⟨h, s.path.owned.filterMap (OrderPath.lineOf s.exchange.engine.books), ?_,
    mem_lines h hs, fun requestId hroom => ?_⟩
  · have hids : ((s.path.owned.filterMap (OrderPath.lineOf s.exchange.engine.books)).map
        ExecReport.exchangeOrderId).Sublist (s.path.owned.map Owned.exchangeOrderId) := by
      induction s.path.owned with
      | nil => exact List.Sublist.refl _
      | cons o owned ih =>
        cases hline : OrderPath.lineOf s.exchange.engine.books o with
        | none =>
          rw [List.filterMap_cons_none hline]
          exact ih.cons _
        | some line =>
          rw [List.filterMap_cons_some hline, List.map_cons, List.map_cons]
          obtain ⟨found, -, rfl⟩ := Option.map_eq_some_iff.mp hline
          exact ih.cons_cons _
    exact hids.nodup ((hs.owned.map _).nodup hs.once)
  · have hbounded : s.path.owned.length < 2 ^ 32 :=
      Nat.lt_of_le_of_lt hs.bounded (by decide)
    refine ⟨_, OrderPath.onReconcile_reports s.path requestId hbounded hroom, rfl, rfl, ?_⟩
    have hle := List.length_filterMap_le (OrderPath.lineOf s.exchange.engine.books) s.path.owned
    exact UInt32.toNat_ofNat_of_lt' (Nat.lt_of_le_of_lt hle hbounded)

/-- **In every state that is reached** by steps that find room in the table, and as long as ids are
left, every resting order of the path can be named. -/
theorem named_of_remembered {symbols : List UInt16} {batchSize : UInt16} {maxDatagramBytes : Nat}
    {shadow : Option Books} {orders reports : Nat} {is : List Input}
    (hc : Run.AlongRuns (Desk.step env) (fun s i => s.IdsLeft i ∧ s.Remembers i)
      (Desk.new symbols batchSize maxDatagramBytes shadow orders reports) is)
    (hrun : Run.runs (Desk.step env)
      (Desk.new symbols batchSize maxDatagramBytes shadow orders reports) is = .ok s) : s.Named := by
  have hinv : s.Sound ∧ s.Complete := by
    refine hc.invariant (fun s => s.Sound ∧ s.Complete) ?_ ⟨sound_new .., ?_⟩ hrun
    · intro s i s' hinv hcond hstep
      exact ⟨hinv.1.step hcond.1 hstep, hinv.2.step hinv.1 hcond.2 hstep⟩
    · intro o ho
      cases ho
  exact hinv.2.named hinv.1

end Desk

/-! ## A full table -/

namespace FeedPublisher

/-- A publisher that sends every message by itself, checks nothing and has room for one. -/
structure Ready (p : FeedPublisher) : Prop where
  batchSize : p.batchSize = 1
  shadow : p.shadow = none
  room : packetHeaderLen + 64 ≤ p.buf.length
  pos : p.count = 0 → p.pos = packetHeaderLen

variable {env : Env} {p : FeedPublisher}

theorem sendArm_ready (h : p.shadow = none) (hroom : packetHeaderLen + 64 ≤ p.buf.length)
    (henv : ∀ n, env.sendOk n = true) (channel : UInt8) (drop : Bool) (len : Nat) :
    ∃ p', sendArm env p channel drop len = .ok p' ∧ p'.shadow = none ∧
      p'.buf.length = p.buf.length ∧ p'.batchSize = p.batchSize := by
  unfold sendArm
  split
  · exact ⟨p, rfl, h, rfl, rfl⟩
  · have hpatch : patchPacketChannel p.buf channel = .ok (putU8 p.buf 6 channel) :=
      if_neg (by omega)
    rw [hpatch]
    show ∃ p', send env _ channel _ = .ok p' ∧ _
    unfold send
    dsimp only
    rw [if_pos (henv _)]
    refine ⟨_, rfl, ?_⟩
    split
    · exact ⟨h, Bytes.length_putNat .., rfl⟩
    · exact ⟨h, Bytes.length_putNat .., rfl⟩

theorem flush_ready (h : p.Ready) (henv : ∀ n, env.sendOk n = true) :
    ∃ p', flush env p = .ok p' ∧ p'.Ready ∧ p'.count = 0 := by
  unfold flush
  split
  · rename_i hzero
    exact ⟨p, rfl, h, hzero⟩
  · have hroom := h.room
    have hheader : encodePacketHeader p.buf 0 0 p.firstSeq
        (env.clock (p.datagrams + p.snapshotDatagrams)) =
          .ok (packetHeaderBlock 0 0 p.firstSeq
            (env.clock (p.datagrams + p.snapshotDatagrams)) ++ p.buf.drop packetHeaderLen) :=
      if_neg (by omega)
    generalize hbuf : packetHeaderBlock 0 0 p.firstSeq
      (env.clock (p.datagrams + p.snapshotDatagrams)) ++ p.buf.drop packetHeaderLen = buf at hheader
    have hlength : buf.length = p.buf.length := by
      rw [← hbuf, List.length_append, length_packetHeaderBlock, List.length_drop]
      rw [packetHeaderLen] at hroom ⊢
      omega
    have hpatch : patchMessageCount buf p.count = .ok (putU16 buf 4 p.count) := if_neg (by omega)
    have hpatched : (putU16 buf 4 p.count).length = p.buf.length :=
      (Bytes.length_putNat ..).trans hlength
    obtain ⟨p₁, hsend₁, hshadow₁, hlength₁, hbatch₁⟩ := sendArm_ready
      (p := { p with buf := putU16 buf 4 p.count }) h.shadow (hpatched ▸ hroom) henv 0
      (env.drops p.datagrams).1 p.pos
    have hlength₁ : p₁.buf.length = p.buf.length := hlength₁.trans hpatched
    obtain ⟨p₂, hsend₂, hshadow₂, hlength₂, hbatch₂⟩ := sendArm_ready hshadow₁
      (hlength₁ ▸ hroom) henv 1 (env.drops p.datagrams).2 p.pos
    simp only [hheader, wireToIo, hpatch, hsend₁, hsend₂, hshadow₂, selfCheck, bind, Except.bind]
    refine ⟨_, rfl, ⟨?_, rfl, ?_, fun _ => rfl⟩, rfl⟩
    · exact hbatch₂.trans (hbatch₁.trans h.batchSize)
    · show packetHeaderLen + 64 ≤ p₂.buf.length
      rw [hlength₂, hlength₁]
      exact hroom

theorem emit_ready (env : Env) (h : p.Ready) (henv : ∀ n, env.sendOk n = true) (block : Buf)
    (hblock : block.length ≤ 64) :
    ∃ seq p', emit env p (encodeBlock block) = .ok (seq, p') ∧ p'.Ready := by
  have hstart : ∃ p₁, startDatagram env p = .ok p₁ ∧ p₁.Ready ∧ p₁.count = 0 := by
    unfold startDatagram
    rw [h.batchSize]
    split
    · obtain ⟨p₁, hflush, hready, hcount⟩ := flush_ready h henv
      rw [hflush]
      refine ⟨{ p₁ with firstSeq := p₁.nextSeq }, ?_, ⟨hready.1, hready.2, hready.3, hready.4⟩, hcount⟩
      show Except.ok (if p₁.count = 0 then _ else _) = _
      rw [if_pos hcount]
    · rename_i hle
      have hcount : p.count = 0 := by
        rw [UInt16.le_iff_toNat_le] at hle
        rw [← UInt16.toNat_inj]
        simp only [UInt16.toNat_one, UInt16.toNat_zero] at hle ⊢
        omega
      refine ⟨{ p with firstSeq := p.nextSeq }, ?_, ⟨h.1, h.2, h.3, h.4⟩, hcount⟩
      show Except.ok (if p.count = 0 then _ else _) = _
      rw [if_pos hcount]
  obtain ⟨p₁, hstart, hready, hcount⟩ := hstart
  have hroom := hready.room
  have hpos := hready.pos hcount
  have hencode : encodeBlock block (p₁.buf.drop p₁.pos) =
      .ok (block ++ (p₁.buf.drop p₁.pos).drop block.length, block.length) := by
    refine if_neg ?_
    rw [List.length_drop, hpos]
    omega
  unfold emit
  simp only [hstart, hencode, bind, Except.bind]
  refine ⟨_, _, rfl, hready.batchSize, hready.shadow, ?_, fun hzero => ?_⟩
  · show _ ≤ (p₁.buf.take p₁.pos ++ (block ++ (p₁.buf.drop p₁.pos).drop block.length)).length
    rw [List.length_append, List.length_append, List.length_take, List.length_drop,
      List.length_drop, hpos]
    omega
  · change p₁.count + 1 = 0 at hzero
    rw [hcount] at hzero
    exact absurd hzero (by decide)

end FeedPublisher

/-- `n` bids of one each, in the order of their ids. -/
def pile (n : Nat) : List RestingOrder :=
  (List.range n).map fun i => ⟨UInt64.ofNat (i + 1), 100, 1, .bid⟩

theorem pile_succ (n : Nat) : pile (n + 1) = pile n ++ [⟨UInt64.ofNat (n + 1), 100, 1, .bid⟩] := by
  rw [pile, List.range_succ, List.map_append]
  rfl

theorem front_pile (n : Nat) : Arrivals.front (pile n) .ask = none := by
  cases hfront : Arrivals.front (pile n) .ask with
  | none => rfl
  | some found =>
    obtain ⟨o, ho, -, hside, -⟩ := (Arrivals.front_eq_some hfront).1
    obtain ⟨i, -, rfl⟩ := List.mem_map.mp ho
    cases hside

theorem lookup_pile {n : Nat} (hn : n + 1 < 2 ^ 64) :
    Arrivals.lookup (pile n) (UInt64.ofNat (n + 1)) = none := by
  refine List.find?_eq_none.mpr fun o ho => ?_
  obtain ⟨i, hi, rfl⟩ := List.mem_map.mp ho
  have hlt := List.mem_range.mp hi
  rw [decide_eq_true_eq, ← UInt64.toNat_inj, UInt64.toNat_ofNat', UInt64.toNat_ofNat',
    Nat.mod_eq_of_lt (by omega), Nat.mod_eq_of_lt hn]
  omega

theorem Exchange.publish_pile {x : Exchange} {n : Nat} (hn : n + 1 < 2 ^ 64)
    (hready : x.feed.Ready) (hreps : Reps (x.engine.books.book 1) (pile n)) :
    ∃ x', x.publish Env.lossless 1 (.add (UInt64.ofNat (n + 1)) .bid 100 1) = .ok x' ∧
      x'.feed.Ready ∧ x'.engine.nextOrderId = x.engine.nextOrderId ∧
      x'.engine.passiveFills = x.engine.passiveFills ∧
      Reps (x'.engine.books.book 1) (pile (n + 1)) := by
  obtain ⟨hresult, hreps'⟩ := hreps.step (.add (UInt64.ofNat (n + 1)) .bid 100 1)
  rw [Arrivals.step, if_neg (by decide), lookup_pile hn, if_neg (by simp)] at hresult hreps'
  rw [← pile_succ] at hreps'
  change Except.map _ ((x.engine.books.book 1).add (UInt64.ofNat (n + 1)) .bid 100 1).1 = _
    at hresult
  change Reps ((x.engine.books.book 1).add (UInt64.ofNat (n + 1)) .bid 100 1).2 _ at hreps'
  obtain ⟨seq, p', hemit, hready'⟩ := FeedPublisher.emit_ready Env.lossless hready
    (fun _ => rfl) (addOrderBlock (UInt64.ofNat (n + 1)) 100 1 1 .bid)
    (by simp [addOrderBlock, rootBlock, writeMessageHeader, messageHeaderLen, putU64, putI64, putU32,
      putU16, putU8])
  have haddOrder : x.feed.addOrder Env.lossless (UInt64.ofNat (n + 1)) 100 1 1 .bid =
      .ok (seq, p') := hemit
  unfold publish Engine.publish
  dsimp only
  generalize (x.engine.books.book 1).add (UInt64.ofNat (n + 1)) .bid 100 1 = r at hresult hreps' ⊢
  obtain ⟨result, b⟩ := r
  cases result with
  | error e => cases hresult
  | ok u =>
    simp only [Engine.store, haddOrder, bind, Except.bind]
    refine ⟨_, rfl, hready', rfl, rfl, ?_⟩
    rw [BookSet.book_put, if_pos rfl]
    exact hreps'

/-- One more bid comes to rest on the pile. -/
theorem Exchange.submit_pile {x : Exchange} {n : Nat} (hn : n + 1 < 2 ^ 64) (hready : x.feed.Ready)
    (hnext : x.engine.nextOrderId = UInt64.ofNat (n + 1))
    (hreps : Reps (x.engine.books.book 1) (pile n)) :
    ∃ x', x.submitReported Env.lossless 1 .bid 100 1 false =
        .ok (x', ⟨UInt64.ofNat (n + 1), 0, 1⟩, []) ∧
      x'.feed.Ready ∧ x'.engine.nextOrderId = UInt64.ofNat (n + 2) ∧
      x'.engine.passiveFills = x.engine.passiveFills ∧
      Reps (x'.engine.books.book 1) (pile (n + 1)) := by
  -- Nothing is met.
  have hturn : ∀ y : Exchange, Reps (y.engine.books.book 1) (pile n) → ∀ orderId,
      y.matchTurn Env.lossless ⟨orderId, 1, .bid, 100⟩ 1 =
        .ok (y.mapEngine fun e => e.getOrCreate 1, none) := by
    intro y hy orderId
    unfold matchTurn
    dsimp only
    rw [(reps_getOrCreate hy).front_eq, show Arrivals.front (pile n) (opposite .bid) = none from
      front_pile n]
  have hloop : matchLoop Env.lossless ⟨x.engine.nextOrderId, 1, .bid, 100⟩
      ((x.engine.books.book 1).len + 1)
      (x.mapEngine fun e => { e with nextOrderId := e.nextOrderId + 1 }) 1 =
        .ok ((x.mapEngine fun e => { e with nextOrderId := e.nextOrderId + 1 }).mapEngine
          fun e => e.getOrCreate 1, 1, []) := by
    rw [matchLoop, if_neg (by decide),
      hturn (x.mapEngine fun e => { e with nextOrderId := e.nextOrderId + 1 }) hreps]
    rfl
  -- What is left of it rests.
  have hcreated := reps_getOrCreate
    (x := x.mapEngine fun e => { e with nextOrderId := e.nextOrderId + 1 }) hreps
  obtain ⟨x', hpublish, hready', hnext', hpassive, hreps'⟩ := publish_pile
    (x := (x.mapEngine fun e => { e with nextOrderId := e.nextOrderId + 1 }).mapEngine
      fun e => e.getOrCreate 1) hn hready hcreated
  refine ⟨x', ?_, hready', ?_, hpassive, hreps'⟩
  · unfold submitReported
    have hrest : ∀ orderId, orderId = UInt64.ofNat (n + 1) →
        ((x.mapEngine fun e => { e with nextOrderId := e.nextOrderId + 1 }).mapEngine
          fun e => e.getOrCreate 1).rest Env.lossless ⟨orderId, 1, .bid, 100⟩ 1 false = .ok x' := by
      rintro orderId rfl
      unfold rest
      rw [if_neg (by decide), hpublish]
      rfl
    dsimp only [mapEngine] at hloop hrest ⊢
    simp only [hloop, hrest _ hnext, bind, Except.bind]
    rw [hnext]
    rfl
  · rw [hnext']
    show x.engine.nextOrderId + 1 = _
    rw [hnext, ← UInt64.ofNat_one, ← UInt64.ofNat_add]

namespace Desk

/-- Order number `n` of the risk service: one to buy at 100. -/
def buyOne (n : Nat) : OrderMessage := .newOrder ⟨UInt64.ofNat (n + 1), 100, 1, 1, some .bid⟩

/-- The risk service sends `n` orders, the engine makes a pass for each of them, and the risk service
takes the report. -/
def rounds : Nat → List Input
  | 0 => []
  | n + 1 => rounds n ++ [.arrives (buyOne n), .catchUp, .take, .read]

/-- `n` orders are on the book, these messages wait in the ring, and there was nothing else. -/
structure Piled (s : Desk) (n : Nat) (waiting : List OrderMessage) : Prop where
  ready : s.exchange.feed.Ready
  next : s.exchange.engine.nextOrderId = UInt64.ofNat (n + 1)
  reps : Reps (s.exchange.engine.books.book 1) (pile n)
  passive : s.exchange.engine.passiveFills = []
  orders : s.path.orders = ⟨4, waiting⟩
  sound : s.Sound
  arrived : s.arrived.map Owned.exchangeOrderId = (pile n).map RestingOrder.orderId

namespace Piled

variable {s : Desk} {n : Nat} {waiting : List OrderMessage}

theorem catchUp (h : s.Piled n waiting) : s.catchUp.Piled n waiting := by
  obtain ⟨watched, hengine, -⟩ := OrderPath.catchUp_engine s.path s.exchange
  have hengine : s.catchUp.exchange.engine = { s.exchange.engine with watched, passiveFills := [] } :=
    hengine
  have hpath : s.catchUp.path = (s.path.catchUp s.exchange).1 := rfl
  rw [OrderPath.catchUp_path, h.passive] at hpath
  refine ⟨h.ready, ?_, ?_, ?_, ?_, h.sound.catchUp, h.arrived⟩
  · rw [hengine]
    exact h.next
  · rw [hengine]
    exact h.reps
  · rw [hengine]
  · rw [hpath]
    exact h.orders

theorem take (hn : n + 2 < 2 ^ 64) (h : s.Piled n [buyOne n]) :
    ∃ s', s.take Env.lossless = .ok s' ∧ s'.Piled (n + 1) [] := by
  have hids : s.IdsLeft .take := by
    intro _
    rw [h.next, UInt64.toNat_ofNat_of_lt' (by simp only [UInt64.size]; omega)]
    exact hn
  obtain ⟨x', hsubmit, hready, hnext, hpassive, hreps⟩ :=
    Exchange.submit_pile (by omega) h.ready h.next h.reps
  have hpop : s.path.orders.pop = some (buyOne n, ⟨4, []⟩) := by
    rw [h.orders]
    rfl
  have htake : ∃ s', s.take Env.lossless = .ok s' ∧ s'.exchange = x' ∧ s'.path.orders = ⟨4, []⟩ ∧
      s'.arrived = s.arrived ++ [⟨UInt64.ofNat (n + 1), UInt64.ofNat (n + 1)⟩] := by
    unfold Desk.take
    rw [hpop]
    dsimp only [buyOne, OrderPath.dispatch, OrderPath.onNewOrder]
    simp only [hsubmit, bind, Except.bind, Exchange.restedBy, if_pos (by decide : (0 : UInt32) < 1)]
    refine ⟨_, rfl, rfl, ?_, rfl⟩
    have hemit := fun p r => (OrderPath.SameTable.emit p r).orders
    show (OrderPath.emit _ _).orders = _
    rw [hemit]
    unfold OrderPath.remember
    split <;> rfl
  obtain ⟨s', htake, rfl, horders, harrived⟩ := htake
  have hsound : s'.Sound := h.sound.step hids (i := .take) htake
  refine ⟨s', htake, hready, hnext, hreps, hpassive.trans h.passive, horders, hsound, ?_⟩
  rw [harrived, pile_succ, List.map_append, List.map_append, h.arrived]
  rfl

/-- One more round, one more order. -/
theorem round (hn : n + 2 < 2 ^ 64) (h : s.Piled n []) :
    ∃ s', Run.runs (Desk.step Env.lossless) s [.arrives (buyOne n), .catchUp, .take, .read] = .ok s' ∧
      s'.Piled (n + 1) [] := by
  have harrives : Piled { s with path := { s.path with
      orders := (s.path.orders.push (buyOne n)).getD s.path.orders } } n [buyOne n] := by
    refine ⟨h.ready, h.next, h.reps, h.passive, ?_, h.sound.forgets (List.Sublist.refl _), h.arrived⟩
    show (s.path.orders.push (buyOne n)).getD s.path.orders = _
    rw [h.orders]
    rfl
  obtain ⟨s₁, htake, hpiled⟩ := harrives.catchUp.take hn
  have hread : ∃ s', s₁.step Env.lossless .read = .ok s' ∧ s'.Piled (n + 1) [] := by
    unfold Desk.step
    dsimp only
    split
    · exact ⟨s₁, rfl, hpiled⟩
    · exact ⟨_, rfl, hpiled.ready, hpiled.next, hpiled.reps, hpiled.passive, hpiled.orders,
        hpiled.sound.forgets (List.Sublist.refl _), hpiled.arrived⟩
  obtain ⟨s', hread, hpiled'⟩ := hread
  refine ⟨s', ?_, hpiled'⟩
  rw [Run.runs_cons rfl, Run.runs_cons rfl, Run.runs_cons htake, Run.runs_cons hread]
  rfl

theorem rounds (n : Nat) (hn : n + 1 < 2 ^ 64) :
    ∃ s, Run.runs (Desk.step Env.lossless) (Desk.new [1] 1 512 none 4 4) (Desk.rounds n) = .ok s ∧
      s.Piled n [] := by
  induction n with
  | zero =>
    refine ⟨_, rfl, ⟨rfl, rfl, ?_, fun _ => rfl⟩, rfl, Reps.new, rfl, rfl, sound_new .., rfl⟩
    show packetHeaderLen + 64 ≤ (List.replicate 512 0).length
    rw [List.length_replicate, packetHeaderLen]
    norm_num
  | succ n ih =>
    obtain ⟨s, hrun, hpiled⟩ := ih (by omega)
    obtain ⟨s', hround, hpiled'⟩ := hpiled.round hn
    exact ⟨s', (Run.runs_append hrun).trans hround, hpiled'⟩

/-- All the orders are on the book, and the table is too small for them. -/
theorem not_named (h : s.Piled n waiting) (hn : maxOwned < n) : ¬s.Named := by
  intro hnamed
  have hsub : s.arrived ⊆ s.path.owned := by
    intro o ho
    apply hnamed.owned o ho
    have hid : o.exchangeOrderId ∈ (pile n).map RestingOrder.orderId := by
      rw [← h.arrived]
      exact List.mem_map_of_mem ho
    obtain ⟨r, hr, heq⟩ := List.mem_map.mp hid
    refine ⟨1, ?_⟩
    rw [← heq, h.reps.get_of_mem hr]
    rfl
  have hlength := congrArg List.length h.arrived
  rw [List.length_map, List.length_map, pile, List.length_map, List.length_range] at hlength
  have hle := (List.subperm_of_subset h.sound.once.of_map hsub).length_le
  have hbounded := h.sound.bounded
  omega

end Piled

/-- One order, and a request. -/
theorem named_one_order :
    ∃ s, Run.runs (Desk.step Env.lossless) (Desk.new [1] 1 512 none 4 4) (rounds 1) = .ok s ∧
      s.arrived = [⟨1, 1⟩] ∧ s.Named := by
  have hrun : (Run.runs (Desk.step Env.lossless) (Desk.new [1] 1 512 none 4 4) (rounds 1)).map
      (fun s => s.arrived) = .ok [⟨1, 1⟩] := by decide +kernel
  obtain ⟨s, hs, harrived⟩ := map_eq_ok hrun
  exact ⟨s, hs, harrived, named_of_remembered (by decide +kernel) hs⟩

/-- **One order too many**: order 4097 is acknowledged and on the book, and it is not in the table. -/
theorem order_4097_not_named :
    ∃ s, Run.runs (Desk.step Env.lossless) (Desk.new [1] 1 512 none 4 4) (rounds 4097) = .ok s ∧
      ¬s.Named := by
  obtain ⟨s, hrun, hpiled⟩ := Piled.rounds 4097 (by norm_num)
  exact ⟨s, hrun, hpiled.not_named (Nat.lt_succ_self _)⟩

end Desk

end MarketData.Matching
