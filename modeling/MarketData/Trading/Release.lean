import MarketData.Trading.Exposure

/-!
# `Trading/Release.lean` — a canceled order is never released

The books of the risk service over whole runs. What `tokens` lacks against `held` never shrinks
(`Tracked.step`), and a cancel that takes order `X` off the book leaves it lacking one. No later
step, whatever it is, closes `X` at the risk service again.

## A deficit that is kept

To close `X`, the service has to take a report that ends `X`, and such a report is a token. After
the cancel there is an open id and no token for it. The invariant of `Trading/Exposure.lean` says
that tokens cannot be made, so there never will be one; and this is the argument for **every
continuation of every run**, without a look at what the steps are.

`Tracked` collects what the counting rests on: the ids the engine gives out are new each time, the
table of open orders is sound, and no cancel carries `X` as its own id. A cancel that does would be
answered under `X`, which would close it, by accident.

`Released` asks that neither the service nor the gateway count the order any more. The gateway's
half follows the same reports, and is not needed for the negative result.
-/

set_option autoImplicit false

namespace MarketData.Trading

open MarketData.Wire MarketData.Gateway MarketData.Risk MarketData.Matching
open MarketData.Risk.RiskEngine (IsOpen Tabled endsOrder)

variable {X : UInt64}

theorem held_le_one (risk : RiskEngine) : held X risk ≤ 1 := by
  unfold held
  split <;> simp

theorem held_eq_one {risk : RiskEngine} : held X risk = 1 ↔ risk.IsOpen X := by
  unfold held
  split <;> simp [*]

theorem held_mono {risk risk' : RiskEngine} (h : risk.IsOpen X → risk'.IsOpen X) :
    held X risk ≤ held X risk' := by
  unfold held
  split
  · rename_i hopen
    rw [if_pos (h hopen)]
  · exact Nat.zero_le _

/-! ## The risk service -/

namespace Service

variable {v : Risk.Service}

/-- What the service makes of one message toward the engine. -/
structure Handled (X : UInt64) (v v' : Risk.Service) (m : OrderMessage) : Prop where
  tabled : Tabled v'.engine
  requests : ∀ c, .cancelOrder c ∈ v'.accepted.items →
    .cancelOrder c ∈ v.accepted.items ∨ m = .cancelOrder c
  balance : v'.accepted.items.countP (asks X) + held X v.engine ≤
    v.accepted.items.countP (asks X) + held X v'.engine

/-- Nothing is forwarded and no order is closed. -/
theorem Handled.of_kept {v' : Risk.Service} {m : OrderMessage} (htabled : Tabled v'.engine)
    (haccepted : v'.accepted = v.accepted) (hopen : v.engine.IsOpen X → v'.engine.IsOpen X) :
    Handled X v v' m := by
  refine ⟨htabled, fun c hc => .inl (haccepted ▸ hc), ?_⟩
  rw [haccepted]
  exact Nat.add_le_add_left (held_mono hopen) _

/-- Something that is not an order is forwarded. -/
theorem Handled.of_forwarded {v' : Risk.Service} {m : OrderMessage} (htabled : Tabled v'.engine)
    (hm : asks X m = false) (haccepted : v.accepted.push m = some v'.accepted)
    (hopen : v.engine.IsOpen X → v'.engine.IsOpen X) : Handled X v v' m := by
  have hitems := congrArg Fifo.items (Fifo.push_some haccepted)
  refine ⟨htabled, fun c hc => ?_, ?_⟩
  · rw [hitems] at hc
    rcases List.mem_append.mp hc with hc | hc
    · exact .inl hc
    · exact .inr (List.mem_singleton.mp hc).symm
  · rw [hitems, List.countP_append, List.countP_singleton, hm]
    exact Nat.add_le_add_left (held_mono hopen) _

theorem onNewOrder_handled (h : Tabled v.engine) (m : NewOrder) :
    Handled X v (v.onNewOrder m) (.newOrder m) := by
  unfold Risk.Service.onNewOrder
  dsimp only
  obtain ⟨htabled, hnew, hopen⟩ :=
    h.onNewOrder m.clientOrderId m.symbolId (m.side.getD .bid) m.price m.quantity
  generalize v.engine.onNewOrder m.clientOrderId m.symbolId (m.side.getD .bid) m.price m.quantity
    = answer at htabled hnew hopen
  obtain ⟨decision, engine⟩ := answer
  dsimp only at htabled hnew hopen ⊢
  split
  · rename_i haccepted
    split
    · -- The order goes on: the id is opened and the token is in the ring.
      rename_i accepted hpush
      have hitems := congrArg Fifo.items (Fifo.push_some hpush)
      refine ⟨htabled, fun c hc => ?_, ?_⟩
      · rw [hitems] at hc
        rcases List.mem_append.mp hc with hc | hc
        · exact .inl hc
        · cases List.mem_singleton.mp hc
      · show accepted.items.countP (asks X) + _ ≤ _ + held X engine
        rw [hitems, List.countP_append, List.countP_singleton]
        by_cases hX : m.clientOrderId = X
        · have hbefore : held X v.engine = 0 := by
            rw [held, if_neg (hX ▸ hnew haccepted)]
          have hafter : held X engine = 1 :=
            held_eq_one.mpr ((hopen X).mpr (.inr ⟨haccepted, hX.symm⟩))
          simp [asks, hX, hbefore, hafter]
        · have hmono : held X v.engine ≤ held X engine := held_mono fun ho => (hopen X).mpr (.inl ho)
          simpa [asks, hX] using hmono
    · -- No room: what was opened is closed again.
      obtain ⟨htabled', hopen'⟩ := htabled.onExecReport m.clientOrderId 0 .rejected 0 0 0
      refine .of_kept htabled' rfl fun ho => (hopen' X).mpr ⟨(hopen X).mpr (.inl ho), ?_⟩
      rintro ⟨-, rfl⟩
      exact hnew haccepted ho
  · exact .of_kept htabled rfl fun ho => (hopen X).mpr (.inl ho)

theorem onCancel_handled (h : Tabled v.engine) (c : CancelOrder) :
    Handled X v (v.onCancel c) (.cancelOrder c) := by
  unfold Risk.Service.onCancel
  dsimp only
  obtain ⟨htabled, hopen⟩ := h.onCancel c.clientOrderId c.origClientOrderId
  generalize v.engine.onCancel c.clientOrderId c.origClientOrderId = answer at htabled hopen
  obtain ⟨decision, engine⟩ := answer
  dsimp only at htabled hopen ⊢
  have hsame : v.engine.IsOpen X → engine.IsOpen X := by
    rintro ⟨o, ho, hid⟩
    exact ⟨o, hopen ▸ ho, hid⟩
  split
  · split
    · rename_i accepted hpush
      exact .of_forwarded htabled rfl hpush hsame
    · exact .of_kept htabled rfl hsame
  · exact .of_kept htabled rfl hsame

theorem handleOrder_handled (h : Tabled v.engine) (m : OrderMessage) :
    Handled X v (v.handleOrder m) m := by
  cases m with
  | newOrder m => exact onNewOrder_handled h m
  | cancelOrder c => exact onCancel_handled h c
  | reconcileRequest requestId =>
    show Handled X v { v with accepted := (v.accepted.push _).getD v.accepted } _
    cases hpush : v.accepted.push (.reconcileRequest requestId) with
    | none => exact .of_kept h rfl id
    | some accepted => exact .of_forwarded h rfl hpush id

/-- A report closes an id only if it ends that order. -/
theorem handleReport_balance (h : Tabled v.engine) (d : ExecReport) :
    Tabled (v.handleReport d).engine ∧ (v.handleReport d).accepted = v.accepted ∧
      held X v.engine ≤ held X (v.handleReport d).engine + if ends X d = true then 1 else 0 := by
  unfold Risk.Service.handleReport
  dsimp only
  split
  · exact ⟨h, rfl, Nat.le_add_right _ _⟩
  · obtain ⟨htabled, hopen⟩ := h.onExecReport d.clientOrderId d.exchangeOrderId d.execType d.price
      d.quantity d.leavesQuantity
    refine ⟨htabled, rfl, ?_⟩
    by_cases hends : ends X d = true
    · rw [if_pos hends]
      exact (held_le_one _).trans (Nat.le_add_left _ _)
    · rw [if_neg hends]
      refine held_mono fun ho => (hopen X).mpr ⟨ho, ?_⟩
      rintro ⟨hend, hid⟩
      exact hends (by simp [ends, hid, hend])

end Service

/-! ## Every step -/

/-- The client asks for no cancel under the id `X`. -/
def Step.Avoids (X : UInt64) : Step → Prop
  | .request m _ _ => m.msgType = ['F'] → ∀ v ∈ m.find Tag.clOrdId, (fromChars v).getD 0 ≠ X
  | _ => True

/-- What the count of tokens rests on: the table of open orders is sound, the engine's ids are
new each time, and no cancel goes by the name of `X`. -/
structure Tracked (X : UInt64) (n : Nat) (s : System) : Prop where
  tabled : Tabled s.risk
  owned : ∀ o ∈ s.path.owned, o.exchangeOrderId.toNat < s.exchange.engine.nextOrderId.toNat
  issued : s.exchange.engine.nextOrderId.toNat ≤ n
  requests : ∀ c, .cancelOrder c ∈ s.router.orders.items → c.clientOrderId ≠ X
  accepted : ∀ c, .cancelOrder c ∈ s.path.orders.items → c.clientOrderId ≠ X

/-- From `s` to `s'` no token came up that the risk service does not hold open. -/
def Balanced (X : UInt64) (s s' : System) : Prop :=
  tokens X s'.path s'.exchange.engine + held X s.risk ≤
    tokens X s.path s.exchange.engine + held X s'.risk

namespace Tracked

variable {env : Env} {n : Nat} {s s' : System}

theorem mono (h : Tracked X n s) : Tracked X (n + 1) s :=
  ⟨h.tabled, h.owned, Nat.le_succ_of_le h.issued, h.requests, h.accepted⟩

theorem fresh (h : Tracked X n s) :
    ∀ o ∈ s.path.owned, o.exchangeOrderId ≠ s.exchange.engine.nextOrderId := by
  intro o ho heq
  have hlt := h.owned o ho
  rw [heq] at hlt
  exact Nat.lt_irrefl _ hlt

theorem toNat_next (h : Tracked X n s) (hn : n + 1 < 2 ^ 64) :
    (s.exchange.engine.nextOrderId + 1).toNat = s.exchange.engine.nextOrderId.toNat + 1 := by
  have hissued := h.issued
  rw [UInt64.toNat_add, UInt64.toNat_one, Nat.mod_eq_of_lt (by omega)]

/-- The engine's side of a step: ids go up by at most one, and one that is new is the next. -/
theorem advance (h : Tracked X n s) (hn : n + 1 < 2 ^ 64) {path : OrderPath} {exchange : Exchange}
    (hnext : exchange.engine.nextOrderId = s.exchange.engine.nextOrderId ∨
      exchange.engine.nextOrderId = s.exchange.engine.nextOrderId + 1)
    (howned : ∀ o ∈ path.owned, o ∈ s.path.owned ∨
      (o.exchangeOrderId = s.exchange.engine.nextOrderId ∧
        exchange.engine.nextOrderId = s.exchange.engine.nextOrderId + 1))
    (haccepted : ∀ c, .cancelOrder c ∈ path.orders.items → c.clientOrderId ≠ X) :
    Tracked X (n + 1) { s with path, exchange } := by
  have hsucc := h.toNat_next hn
  have hissued := h.issued
  refine ⟨h.tabled, fun o ho => ?_, ?_, h.requests, haccepted⟩
  · show o.exchangeOrderId.toNat < exchange.engine.nextOrderId.toNat
    rcases howned o ho with ho | ⟨hid, hnew⟩
    · have hlt := h.owned o ho
      rcases hnext with hnext | hnext <;> rw [hnext] <;> omega
    · rw [hid, hnew, hsucc]
      exact Nat.lt_succ_self _
  · show exchange.engine.nextOrderId.toNat ≤ n + 1
    rcases hnext with hnext | hnext <;> rw [hnext] <;> omega

theorem riskOrder (h : Tracked X n s) :
    Tracked X (n + 1) s.riskOrder ∧ Balanced X s s.riskOrder := by
  unfold System.riskOrder
  unfold Fifo.pop
  cases hitems : s.router.orders.items with
  | nil => exact ⟨h.mono, Nat.le_refl _⟩
  | cons m rest =>
    have hhandled := Service.handleOrder_handled (X := X) (v := s.service) h.tabled m
    refine ⟨⟨hhandled.tabled, h.owned, Nat.le_succ_of_le h.issued, fun c hc => ?_, fun c hc => ?_⟩, ?_⟩
    · refine h.requests c ?_
      rw [hitems]
      exact List.mem_cons_of_mem _ hc
    · rcases hhandled.requests c hc with hc | rfl
      · exact h.accepted c hc
      · refine h.requests c ?_
        rw [hitems]
        exact List.mem_cons_self
    · have hbalance := hhandled.balance
      unfold Balanced tokens
      simp only [System.service, System.putService] at hbalance ⊢
      omega

theorem riskReport (h : Tracked X n s) :
    Tracked X (n + 1) s.riskReport ∧ Balanced X s s.riskReport := by
  unfold System.riskReport
  unfold Fifo.pop
  cases hitems : s.path.reports.items with
  | nil => exact ⟨h.mono, Nat.le_refl _⟩
  | cons d rest =>
    obtain ⟨htabled, haccepted, hbalance⟩ :=
      Service.handleReport_balance (X := X) (v := s.service) h.tabled d
    refine ⟨⟨htabled, h.owned, Nat.le_succ_of_le h.issued, h.requests, fun c hc => ?_⟩, ?_⟩
    · refine h.accepted c ?_
      have horders : (s.service.handleReport d).accepted = s.path.orders := haccepted
      rw [← horders]
      exact hc
    · unfold Balanced tokens
      simp only [System.service, System.putService] at haccepted hbalance ⊢
      rw [haccepted, hitems, List.countP_cons]
      omega

theorem catchUp (h : Tracked X n s) (hn : n + 1 < 2 ^ 64) :
    Tracked X (n + 1) { s with
        path := (s.path.catchUp s.exchange).1
        exchange := (s.path.catchUp s.exchange).2 } ∧
      Balanced X s { s with
        path := (s.path.catchUp s.exchange).1
        exchange := (s.path.catchUp s.exchange).2 } := by
  obtain ⟨hnext, hshrinks⟩ := Path.catchUp_shrinks (X := X) s.path s.exchange
  refine ⟨h.advance hn (.inl hnext) (fun o ho => .inl (hshrinks.owned.subset ho)) ?_, ?_⟩
  · rw [hshrinks.orders]
    exact h.accepted
  · have hcount := hshrinks.count
    unfold Balanced tokens
    dsimp only
    rw [hshrinks.orders]
    omega

theorem take (h : Tracked X n s) (hn : n + 1 < 2 ^ 64) (htake : s.take env = .ok s') :
    Tracked X (n + 1) s' ∧ Balanced X s s' := by
  unfold System.take Fifo.pop at htake
  cases hitems : s.path.orders.items with
  | nil =>
    rw [hitems] at htake
    cases htake
    exact ⟨h.mono, Nat.le_refl _⟩
  | cons m rest =>
    rw [hitems] at htake
    obtain ⟨⟨path, exchange⟩, hdispatch, htake⟩ := bind_eq_ok htake
    cases htake
    have hother : ∀ c, m = .cancelOrder c → c.clientOrderId ≠ X := by
      rintro c rfl
      apply h.accepted c
      rw [hitems]
      exact List.mem_cons_self
    have hfresh : ∀ o ∈ ({ s.path with orders := ⟨s.path.orders.capacity, rest⟩ } : OrderPath).owned,
        o.exchangeOrderId ≠ s.exchange.engine.nextOrderId := h.fresh
    have htook := Path.dispatch_took (X := X) hfresh hother hdispatch
    refine ⟨h.advance hn htook.next htook.owned fun c hc => ?_, ?_⟩
    · refine h.accepted c ?_
      rw [htook.orders] at hc
      rw [hitems]
      exact List.mem_cons_of_mem _ hc
    · have hcount := htook.count
      unfold Balanced tokens
      dsimp only at hcount ⊢
      rw [htook.orders, hitems, List.countP_cons]
      dsimp only
      omega

theorem flow (h : Tracked X n s) (hn : n + 1 < 2 ^ 64) {c : Matching.Call} {exchange : Exchange}
    (hcall : s.exchange.call env c = .ok exchange) :
    Tracked X (n + 1) { s with exchange } ∧ Balanced X s { s with exchange } := by
  obtain ⟨hnext, hworking⟩ := Exchange.call_working hcall
  refine ⟨h.advance hn hnext (fun o ho => .inl ho) h.accepted, ?_⟩
  have hmono : ownedFor X s.path.owned exchange.engine.Working ≤
      ownedFor X s.path.owned s.exchange.engine.Working := by
    apply ownedFor_mono
    intro o ho hid
    rcases hworking _ hid with hid | heq
    · exact hid
    · exact absurd heq (h.fresh o ho)
  unfold Balanced tokens
  dsimp only
  omega

/-- **Every step** keeps the count sound and in balance. -/
theorem step (h : Tracked X n s) (hn : n + 1 < 2 ^ 64) {t : Step} (ht : t.Avoids X)
    (hstep : s.step env t = .ok s') : Tracked X (n + 1) s' ∧ Balanced X s s' := by
  cases t with
  | request m durable durable' =>
    cases hstep
    refine ⟨⟨h.tabled, h.owned, Nat.le_succ_of_le h.issued, fun c hc => ?_, h.accepted⟩, Nat.le_refl _⟩
    obtain ⟨ms, hsent, hitems⟩ :=
      OrderRouter.onApplication_sentOn s.router m durable durable'
    rcases List.mem_append.mp (hitems ▸ hc) with hc | hc
    · exact h.requests c hc
    · cases hsent with
      | nothing => cases hc
      | order o => cases List.mem_singleton.mp hc
      | cancel c' htype hid _ hc' =>
        cases List.mem_singleton.mp hc
        rw [hc']
        exact ht htype _ hid
  | reconcile =>
    cases hstep
    refine ⟨⟨h.tabled, h.owned, Nat.le_succ_of_le h.issued, fun c hc => ?_, h.accepted⟩, Nat.le_refl _⟩
    obtain ⟨ms, hsent, hitems⟩ := OrderRouter.requestReconciliation_sentOn s.router
    rcases List.mem_append.mp (hitems ▸ hc) with hc | hc
    · exact h.requests c hc
    · rcases hsent with rfl | ⟨id, rfl⟩
      · cases hc
      · cases List.mem_singleton.mp hc
  | riskOrder =>
    cases hstep
    exact h.riskOrder
  | riskReport =>
    cases hstep
    exact h.riskReport
  | catchUp =>
    cases hstep
    exact h.catchUp hn
  | take => exact h.take hn hstep
  | flow c =>
    obtain ⟨exchange, hcall, hstep⟩ := bind_eq_ok hstep
    cases hstep
    exact h.flow hn hcall
  | report durable =>
    cases hstep
    refine ⟨⟨h.tabled, h.owned, Nat.le_succ_of_le h.issued, fun c hc => h.requests c ?_, h.accepted⟩,
      Nat.le_refl _⟩
    rw [← OrderRouter.orders_pump s.router durable]
    exact hc

/-- A whole run. -/
theorem run (h : Tracked X n s) {ts : List Step} (hn : n + ts.length < 2 ^ 64)
    (hts : ∀ t ∈ ts, t.Avoids X) (hrun : s.run env ts = .ok s') :
    Tracked X (n + ts.length) s' ∧ Balanced X s s' := by
  induction ts generalizing s n with
  | nil =>
    cases hrun
    exact ⟨h, Nat.le_refl _⟩
  | cons t ts ih =>
    obtain ⟨s₁, hstep, hrun⟩ := bind_eq_ok hrun
    rw [List.length_cons] at hn
    obtain ⟨h₁, hbalanced⟩ := h.step (by omega) (hts t List.mem_cons_self) hstep
    obtain ⟨h', hbalanced'⟩ :=
      ih h₁ (by omega) (fun t ht => hts t (List.mem_cons_of_mem _ ht)) hrun
    rw [List.length_cons, Nat.add_comm ts.length, ← Nat.add_assoc]
    refine ⟨h', ?_⟩
    unfold Balanced at hbalanced hbalanced' ⊢
    omega

end Tracked

/-! ## A cancel -/

/-- The engine takes a cancel request of the id `R`, and an order it holds for `X` is off its book
afterwards. -/
structure Removes (env : Env) (X R : UInt64) (s s' : System) : Prop where
  request : ∃ c rest, s.path.orders.items = .cancelOrder c :: rest ∧ c.clientOrderId = R
  took : s.take env = .ok s'
  removed : ∃ o ∈ s.path.owned, o.clientOrderId = X ∧ ∃ symbolId,
    ((s.exchange.engine.books.book symbolId).get o.exchangeOrderId).isSome = true ∧
      (s'.exchange.engine.books.book symbolId).get o.exchangeOrderId = none

variable {env : Env} {s s' : System} {R : UInt64}

/-- A cancel uses up the token of the order it removes. -/
theorem Removes.tokens_lt (h : Removes env X R s s') (hR : R ≠ X) :
    tokens X s'.path s'.exchange.engine + 1 ≤ tokens X s.path s.exchange.engine ∧
      s'.risk = s.risk := by
  obtain ⟨⟨c, rest, hitems, rfl⟩, htook, o, ho, hX, symbolId, hrests, hgone⟩ := h
  unfold System.take Fifo.pop at htook
  rw [hitems] at htook
  obtain ⟨⟨path, exchange⟩, hdispatch, htook⟩ := bind_eq_ok htook
  cases htook
  refine ⟨?_, rfl⟩
  obtain ⟨⟨x₁, answer⟩, hcancel, hdispatch⟩ := bind_eq_ok hdispatch
  have hcanceled := Exchange.canceled hcancel
  -- What left the book is the order the request names.
  have hnamed : c.symbolId = symbolId ∧ c.origClientOrderId = o.exchangeOrderId := by
    by_contra hne
    have hexchange : exchange = x₁ := by
      cases answer <;> cases hdispatch <;> rfl
    dsimp only at hgone
    rw [hexchange, hcanceled.books, if_neg hne] at hgone
    rw [hgone] at hrests
    cases hrests
  cases answer with
  | none =>
    have hfound := hcanceled.found
    rw [hnamed.1, hnamed.2, hrests] at hfound
    cases hfound
  | some remaining =>
    cases hdispatch
    generalize hp : ({ s.path with orders := ⟨s.path.orders.capacity, rest⟩ } : OrderPath) = p
    have howned : p.owned = s.path.owned := by rw [← hp]
    have horders : p.orders.items = rest := by rw [← hp]
    have hreports : p.reports = s.path.reports := by rw [← hp]
    generalize hd : (⟨c.clientOrderId, c.origClientOrderId, 0, 0, remaining, 0, c.symbolId,
      c.side.getD .bid, .canceled, .notRejected⟩ : ExecReport) = d
    have hother : ends X d = false := by
      rw [← hd]
      simp [ends, hR]
    obtain ⟨howned', horders', -⟩ := Path.emit_frame (X := X) (p.forget c.origClientOrderId) d
    have hreports' := Path.emit_other (p.forget c.origClientOrderId) hother
    have hforget := ownedFor_forget (P := s.exchange.engine.Working) ho hX (.inl ⟨symbolId, hrests⟩)
    have hmono : ownedFor X
        (s.path.owned.filter fun x => x.exchangeOrderId ≠ o.exchangeOrderId)
        exchange.engine.Working ≤ _ := ownedFor_mono fun _ _ => hcanceled.spares.working
    have hleft : ((p.forget c.origClientOrderId).emit d).owned =
        s.path.owned.filter fun x => x.exchangeOrderId ≠ o.exchangeOrderId := by
      rw [howned', ← hnamed.2, ← howned]
      rfl
    have hcount : ((p.forget c.origClientOrderId).emit d).reports.items.countP (ends X) ≤
        s.path.reports.items.countP (ends X) := hreports ▸ hreports'
    unfold tokens
    dsimp only
    rw [hleft, horders', hitems, List.countP_cons]
    show p.orders.items.countP (asks X) + _ + _ + 1 ≤ _
    rw [horders]
    omega

/-- Neither the risk service nor the gateway counts `X` any more. -/
def Released (X : UInt64) (s : System) : Prop :=
  ¬ s.risk.IsOpen X ∧ ∀ r ∈ s.router.store.live, r.clientOrderId ≠ X

theorem tracked_new (symbols : List SymbolMapping) (cfg : RiskConfig) (ids : List UInt16)
    (batchSize : UInt16) (maxDatagramBytes : Nat) (shadow : Option Book.Books) (capacity : Nat) :
    Tracked X 1 (.new symbols cfg (.new ids batchSize maxDatagramBytes shadow) capacity) :=
  ⟨RiskEngine.tabled_new cfg, fun _ h => (nomatch h), Nat.le_refl _, fun _ h => (nomatch h),
    fun _ h => (nomatch h)⟩

/-- **A canceled order is never released.** In every run of the three processes, and whatever its
reports are, once the engine has taken order `X` off its book on a cancel request the risk service
counts `X` as open for as long as the run goes on. -/
theorem canceled_order_never_released {symbols : List SymbolMapping} {cfg : RiskConfig}
    {ids : List UInt16} {batchSize : UInt16} {maxDatagramBytes : Nat} {shadow : Option Book.Books}
    {capacity : Nat} {ts ts' : List Step} {s'' : System}
    (hlength : ts.length + ts'.length + 2 < 2 ^ 64)
    (hids : ∀ t ∈ ts ++ ts', t.Avoids X)
    (hrun : (System.new symbols cfg (.new ids batchSize maxDatagramBytes shadow) capacity).run env
      ts = .ok s)
    (hremoves : Removes env X R s s') (hrun' : s'.run env ts' = .ok s'') :
    s''.risk.IsOpen X ∧ ¬ Released X s'' := by
  have hopen : s''.risk.IsOpen X := by
    obtain ⟨htracked, hbefore⟩ :=
      (tracked_new symbols cfg ids batchSize maxDatagramBytes shadow capacity).run (by omega)
        (fun t ht => hids t (List.mem_append_left _ ht)) hrun
    have hR : R ≠ X := by
      obtain ⟨c, rest, hitems, rfl⟩ := hremoves.request
      apply htracked.accepted c
      rw [hitems]
      exact List.mem_cons_self
    obtain ⟨hlt, hrisk⟩ := hremoves.tokens_lt hR
    obtain ⟨htracked', -⟩ := htracked.take (by omega) hremoves.took
    obtain ⟨-, hafter⟩ := htracked'.run (by omega) (fun t ht => hids t (List.mem_append_right _ ht))
      hrun'
    -- At the start there was neither a token nor an open order.
    have hnone : tokens X (System.new symbols cfg (.new ids batchSize maxDatagramBytes shadow)
        capacity).path (System.new symbols cfg (.new ids batchSize maxDatagramBytes shadow)
        capacity).exchange.engine = 0 := rfl
    unfold Balanced at hbefore hafter
    rw [hnone] at hbefore
    rw [hrisk] at hafter
    have hone := held_le_one (X := X) s''.risk
    exact held_eq_one.mp (by omega)
  exact ⟨hopen, fun hreleased => hreleased.1 hopen⟩

/-! ## One order, one cancel -/

/-- One symbol, `AB`, with wide limits. -/
def oneSymbol : System :=
  .new [⟨['A', 'B'], 1⟩]
    { symbols := fun _ => ⟨true, 1000, 1000000, 1000, 0, 0⟩, symbolCount := 2, maxOpenOrders := 4 }
    (.new [1] 8 512 none) 8

/-- Five to buy at 0.0100, under the id 1. -/
def buyFive : FixMessage :=
  ⟨[(Tag.msgType, ['D']), (Tag.clOrdId, ['1']), (Tag.symbol, ['A', 'B']), (Tag.side, ['1']),
    (Tag.orderQty, ['5']), (Tag.price, ['0', '.', '0', '1'])]⟩

/-- Request 2: cancel order 1. -/
def cancelFirst : FixMessage :=
  ⟨[(Tag.msgType, ['F']), (Tag.clOrdId, ['2']), (Tag.origClOrdId, ['1']),
    (Tag.symbol, ['A', 'B']), (Tag.side, ['1'])]⟩

/-- The order goes to the engine and is acknowledged; the cancel gets as far as the engine. -/
def untilCancel : List Step :=
  [.request buyFive true true, .riskOrder, .catchUp, .take, .riskReport, .report true,
    .request cancelFirst true true, .riskOrder, .catchUp]

/-- The report of the cancel goes back through the risk service to the gateway. -/
def reported : List Step := [.riskReport, .report true]

theorem avoids_untilCancel : ∀ t ∈ untilCancel ++ reported, t.Avoids 1 := by
  have hrequests : ∀ m ∈ [buyFive, cancelFirst], m.msgType = ['F'] →
      ∀ v ∈ m.find Tag.clOrdId, (fromChars v).getD 0 ≠ 1 := by decide +kernel
  intro t ht
  simp only [untilCancel, reported, List.cons_append, List.nil_append, List.mem_cons,
    List.not_mem_nil, or_false] at ht
  rcases ht with rfl | rfl | rfl | rfl | rfl | rfl | rfl | rfl | rfl | rfl | rfl
  · exact hrequests buyFive (by simp)
  any_goals trivial
  · exact hrequests cancelFirst (by simp)

/-- The run up to the request and through it: what the engine holds before and after. -/
theorem untilCancel_reaches : ∃ s s', oneSymbol.run Env.lossless untilCancel = .ok s ∧
    s.path.orders.items = [.cancelOrder ⟨2, 1, 1, some .bid⟩] ∧ s.path.owned = [⟨1, 1⟩] ∧
    ((s.exchange.engine.books.book 1).get 1).isSome = true ∧ s.take Env.lossless = .ok s' ∧
    (s'.exchange.engine.books.book 1).get 1 = none := by
  have hrun : (oneSymbol.run Env.lossless untilCancel).map
      (fun s => (s.path.orders.items, s.path.owned,
        ((s.exchange.engine.books.book 1).get 1).isSome,
        (s.take Env.lossless).map fun s' => ((s'.exchange.engine.books.book 1).get 1).isSome)) =
      .ok ([.cancelOrder ⟨2, 1, 1, some .bid⟩], [⟨1, 1⟩], true, .ok false) := by decide +kernel
  obtain ⟨s, hs, hviews⟩ := map_eq_ok hrun
  simp only [Prod.mk.injEq] at hviews
  obtain ⟨hitems, howned, hrests, htaken⟩ := hviews
  obtain ⟨s', hs', hgone⟩ := map_eq_ok htaken
  exact ⟨s, s', hs, hitems, howned, hrests, hs', by simpa using hgone⟩

theorem canceled_order_never_released_after_one_cancel :
    ∃ s s' s'', oneSymbol.run Env.lossless untilCancel = .ok s ∧
      Removes Env.lossless 1 2 s s' ∧ s'.run Env.lossless reported = .ok s'' ∧
      s''.risk.IsOpen 1 ∧ ¬ Released 1 s'' := by
  obtain ⟨s, s', hs, hitems, howned, hrests, htaken, hgone⟩ := untilCancel_reaches
  have hremoves : Removes Env.lossless 1 2 s s' :=
    ⟨⟨_, [], hitems, rfl⟩, htaken, ⟨1, 1⟩, howned ▸ List.mem_singleton_self _, rfl, 1, hrests, hgone⟩
  have hrun : ((oneSymbol.run Env.lossless untilCancel).bind fun s =>
      (s.take Env.lossless).bind fun s' => s'.run Env.lossless reported).isOk = true := by
    decide +kernel
  rw [hs] at hrun
  simp only [Except.bind, hremoves.took] at hrun
  cases hreported : s'.run Env.lossless reported with
  | error e =>
    rw [hreported] at hrun
    cases hrun
  | ok s'' =>
    exact ⟨s, s', s'', hs, hremoves, hreported,
      canceled_order_never_released (by decide) avoids_untilCancel hs hremoves hreported⟩

/-- Order 1 is canceled and its report processed by the risk service and the gateway; both rings
back are empty, and both still have order 1. -/
theorem canceled_order_still_counted :
    (oneSymbol.run Env.lossless (untilCancel ++ .take :: reported)).map
      (fun s => (((s.exchange.engine.books.book 1).get 1).isSome,
        s.path.reports.items ++ s.router.reports.items,
        s.risk.openOrders.map OpenOrder.clientOrderId, (s.risk.state 1).pendingBuy,
        s.router.store.live.map OrderRecord.clientOrderId)) =
      .ok (false, [], [1], 5, [1]) := by decide +kernel

end MarketData.Trading
