import MarketData.Matching.Desk

/-!
# `Matching/Owners.lean` — the owners of the orders on the books

What `take` does with a message (`take_took`), and what every step keeps: the ids on the books were
given out, each to one order of one symbol, and everything in `owned` came to rest over the path
under an id of its own (`Sound`). Only the 64-bit counter of order ids can end that.

## One id, one order

Two invariants that need each other. The engine's says that an id on a book was given out and is on
no other book; the path's says that an entry of the table is about an order that came to rest, with
the owner it had. An order that has gone may stay in the table for a while, so **an entry's order
need not be on a book**; but no other order has its id, and that is what keeps an owner from being
told of someone else's fill.

`Took` lists what becomes of a message, and what the engine's part of that is goes through
`call_moves` (`Matching/Struck.lean`), so that no proof here follows a matching loop. The counter of
ids wraps in the source; a run is followed for as long as `IdsLeft`.
-/

set_option autoImplicit false

namespace MarketData.Matching

open MarketData.Wire MarketData.Book

/-! ## What a message does -/

namespace Desk

/-- What is done with a message, by a path that has taken it off the ring. -/
inductive Took (env : Env) (s : Desk) (p : OrderPath) : OrderMessage → Desk → Prop where
  | refused {m : NewOrder} (hside : m.side = none) :
      Took env s p (.newOrder m)
        { s with path := p.emitReject m.clientOrderId m.symbolId .bid .unknownSymbol }
  | submitted {m : NewOrder} {side : Side} {x' : Exchange} {outcome : SubmitOutcome}
      {fills : List Fill} (hside : m.side = some side)
      (hsubmit : s.exchange.submitReported env m.symbolId side m.price m.quantity false =
        .ok (x', outcome, fills)) :
      Took env s p (.newOrder m)
        { s with
          path := p.reportOutcome m side outcome fills
          exchange := x'
          arrived := s.arrived ++
            if 0 < outcome.resting then [⟨outcome.orderId, m.clientOrderId⟩] else []
          struck := s.struck ++
            s.ofClients (s.exchange.strikes m.symbolId side m.price m.quantity) }
  | canceled {m : CancelOrder} {x' : Exchange} {remaining : UInt32}
      (hcancel : s.exchange.cancelReported env m.symbolId m.origClientOrderId =
        .ok (x', some remaining)) :
      Took env s p (.cancelOrder m)
        { s with
          path := (p.forget m.origClientOrderId).emit ⟨m.clientOrderId, m.origClientOrderId, 0, 0,
            remaining, 0, m.symbolId, m.side.getD .bid, .canceled, .notRejected⟩
          exchange := x' }
  | unknown {m : CancelOrder} {x' : Exchange}
      (hcancel : s.exchange.cancelReported env m.symbolId m.origClientOrderId = .ok (x', none)) :
      Took env s p (.cancelOrder m)
        { s with
          path := p.emit ⟨m.clientOrderId, m.origClientOrderId, 0, 0, 0, 0, m.symbolId,
            m.side.getD .bid, .rejected, .unknownOrder⟩
          exchange := x' }
  | reconciled {requestId : UInt64} :
      Took env s p (.reconcileRequest requestId)
        { s with path := p.onReconcile s.exchange.engine.books requestId }

variable {env : Env} {s s' : Desk}

/-- **What `take` does**: nothing on an empty ring, and else what the message asks for. -/
theorem take_took (h : s.take env = .ok s') :
    s' = s ∨ ∃ m orders, s.path.orders.pop = some (m, orders) ∧
      Took env s { s.path with orders } m s' := by
  unfold take at h
  split at h
  · cases h
    exact .inl rfl
  rename_i m orders hpop
  refine .inr ⟨m, orders, hpop, ?_⟩
  obtain ⟨⟨path, exchange⟩, hdispatch, h⟩ := bind_eq_ok h
  cases h
  cases m with
  | newOrder m =>
    obtain ⟨clientOrderId, price, quantity, symbolId, side⟩ := m
    cases side with
    | none =>
      cases hdispatch
      simp only [Exchange.restedBy, Exchange.struckByMessage, ofClients, List.filter_nil,
        List.append_nil]
      exact .refused rfl
    | some side =>
      obtain ⟨⟨x', outcome, fills⟩, hsubmit, hdispatch⟩ := bind_eq_ok hdispatch
      cases hdispatch
      simp only [Exchange.restedBy, Exchange.struckByMessage, hsubmit]
      exact .submitted rfl hsubmit
  | cancelOrder m =>
    simp only [Exchange.restedBy, Exchange.struckByMessage, ofClients, List.filter_nil,
      List.append_nil]
    obtain ⟨⟨x', answer⟩, hcancel, hdispatch⟩ := bind_eq_ok hdispatch
    cases answer with
    | none =>
      cases hdispatch
      exact .unknown hcancel
    | some remaining =>
      cases hdispatch
      exact .canceled hcancel
  | reconcileRequest requestId =>
    cases hdispatch
    simp only [Exchange.restedBy, Exchange.struckByMessage, ofClients, List.filter_nil,
      List.append_nil]
    exact .reconciled

end Desk

/-! ## Ids -/

/-- The ids on the books are ids that were given out, each to one order of one symbol, and an order
whose last fill was noted is gone. -/
structure Engine.Sound (e : Engine) : Prop where
  fresh : e.books.fresh = ReferenceBook.new
  reps : ∀ t, ∃ os, Reps (e.books.book t) os
  below : ∀ t id, ((e.books.book t).get id).isSome = true → id < e.nextOrderId
  apart : ∀ t t' id, ((e.books.book t).get id).isSome = true →
    ((e.books.book t').get id).isSome = true → t = t'
  passive : ∀ f ∈ e.passiveFills, f.restingOrderId < e.nextOrderId ∧
    (f.leaves = 0 → ¬e.Rests f.restingOrderId)

namespace Engine.Sound

variable {e e' : Engine} {fs : List PassiveFill} {new : Option (UInt16 × UInt64)}

theorem lt_next (hn : Exchange.Numbers e e' new)
    (hids : e'.nextOrderId ≠ e.nextOrderId → e.nextOrderId.toNat + 1 < 2 ^ 64) {id : UInt64}
    (hid : id < e.nextOrderId ∨ id = e.nextOrderId ∧ e'.nextOrderId = e.nextOrderId + 1) :
    id < e'.nextOrderId := by
  by_cases hsame : e'.nextOrderId = e.nextOrderId
  · rcases hid with hlt | ⟨rfl, hnext⟩
    · rwa [hsame]
    · have hwrap : e.nextOrderId + 1 = e.nextOrderId := hnext.symm.trans hsame
      rw [UInt64.add_eq_left] at hwrap
      exact absurd hwrap (by decide)
  · have hnext := hn.next.resolve_left hsame
    have hfits := hids hsame
    rw [hnext, UInt64.lt_iff_toNat_lt, UInt64.toNat_add, UInt64.toNat_one,
      Nat.mod_eq_of_lt hfits]
    rcases hid with hlt | ⟨rfl, -⟩
    · have := UInt64.lt_iff_toNat_lt.mp hlt
      omega
    · omega

/-- **Every call keeps that**, as long as ids are left. -/
theorem moves (h : e.Sound) (hm : Moves e e' fs new) (hn : Exchange.Numbers e e' new)
    (hids : e'.nextOrderId ≠ e.nextOrderId → e.nextOrderId.toNat + 1 < 2 ^ 64) : e'.Sound := by
  have hlt : ∀ id, id < e.nextOrderId → id < e'.nextOrderId :=
    fun id hid => lt_next hn hids (.inl hid)
  -- The id of the order that comes to rest is on no book yet.
  have hunused : ∀ t t' id, new = some (t, id) → ((e.books.book t').get id).isSome = true → False := by
    intro t t' id hnew hid
    have hlt := h.below t' id hid
    rw [(hn.new t id hnew).1] at hlt
    exact absurd hlt (UInt64.lt_irrefl _)
  refine ⟨hm.fresh.trans h.fresh, hm.reps h.reps, ?_, ?_, ?_⟩
  · intro t id hid
    rcases hm.rests t id hid with ⟨hold, -⟩ | hnew
    · exact hlt id (h.below t id hold)
    · exact lt_next hn hids (.inr (hn.new t id hnew))
  · intro t t' id hid hid'
    rcases hm.rests t id hid with ⟨hold, -⟩ | hnew
    · rcases hm.rests t' id hid' with ⟨hold', -⟩ | hnew'
      · exact h.apart t t' id hold hold'
      · exact (hunused t' t id hnew' hold).elim
    · rcases hm.rests t' id hid' with ⟨hold', -⟩ | hnew'
      · exact (hunused t t' id hnew hold').elim
      · exact congrArg Prod.fst (Option.some.inj (hnew.symm.trans hnew'))
  · intro f hf
    rw [hm.noted] at hf
    rcases List.mem_append.mp hf with hf | hf
    · obtain ⟨hbelow, hgone⟩ := h.passive f hf
      refine ⟨hlt _ hbelow, fun hzero => ?_⟩
      rintro ⟨t, ht⟩
      rcases hm.rests t _ ht with ⟨hold, -⟩ | hnew
      · exact hgone hzero ⟨t, hold⟩
      · rw [(hn.new t _ hnew).1] at hbelow
        exact absurd hbelow (UInt64.lt_irrefl _)
    · have hf := (List.mem_filter.mp (List.mem_of_mem_take hf)).1
      have hhit := hm.hit f hf
      refine ⟨hlt _ (h.below _ _ hhit), fun hzero => ?_⟩
      rintro ⟨t, ht⟩
      rcases hm.rests t _ ht with ⟨hold, hleft⟩ | hnew
      · exact hleft f hf (h.apart _ _ _ hhit hold) rfl hzero
      · exact hunused t _ _ hnew hhit

end Engine.Sound

/-! ## The table -/

namespace Desk

/-- Everything in the table came to rest over the path, under an id of its own. -/
structure Sound (s : Desk) : Prop where
  engine : s.exchange.engine.Sound
  below : ∀ o ∈ s.arrived, o.exchangeOrderId < s.exchange.engine.nextOrderId
  once : (s.arrived.map Owned.exchangeOrderId).Nodup
  owned : s.path.owned.Sublist s.arrived
  bounded : s.path.owned.length ≤ maxOwned

/-- The step gives out an order id. -/
def submits (s : Desk) : Input → Bool
  | .take => s.path.orders.items.head?.any fun m =>
    match m with
    | .newOrder m => m.side.isSome
    | _ => false
  | .flow (.submit ..) | .flow (.submitReported ..) => true
  | _ => false

/-- The engine has not come to its last order id. -/
def IdsLeft (s : Desk) (i : Input) : Prop :=
  s.submits i = true → s.exchange.engine.nextOrderId.toNat + 1 < 2 ^ 64

instance (s : Desk) (i : Input) : Decidable (s.IdsLeft i) :=
  inferInstanceAs (Decidable (_ → _))

variable {env : Env} {s s' : Desk}

/-- A step that brings no order, where only the table changes. -/
theorem Sound.forgets {path : OrderPath} (h : s.Sound) (howned : path.owned.Sublist s.path.owned) :
    Sound { s with path } :=
  ⟨h.engine, h.below, h.once, howned.trans h.owned, howned.length_le.trans h.bounded⟩

/-- A call that brings no order of the path. -/
theorem Sound.moves {exchange : Exchange} {fs struck : List PassiveFill}
    {new : Option (UInt16 × UInt64)} (h : s.Sound)
    (hm : Moves s.exchange.engine exchange.engine fs new)
    (hn : Exchange.Numbers s.exchange.engine exchange.engine new)
    (hids : exchange.engine.nextOrderId ≠ s.exchange.engine.nextOrderId →
      s.exchange.engine.nextOrderId.toNat + 1 < 2 ^ 64) :
    Sound { s with exchange, struck } :=
  ⟨h.engine.moves hm hn hids,
    fun o ho => Engine.Sound.lt_next hn hids (.inl (h.below o ho)), h.once, h.owned, h.bounded⟩

/-- An order of the path that comes to rest is new to the table. -/
theorem Sound.arrives {path : OrderPath} {exchange : Exchange} {fs struck : List PassiveFill}
    {t : UInt16} {o : Owned} (h : s.Sound)
    (hm : Moves s.exchange.engine exchange.engine fs (some (t, o.exchangeOrderId)))
    (hn : Exchange.Numbers s.exchange.engine exchange.engine (some (t, o.exchangeOrderId)))
    (hids : exchange.engine.nextOrderId ≠ s.exchange.engine.nextOrderId →
      s.exchange.engine.nextOrderId.toNat + 1 < 2 ^ 64)
    (howned : path.owned = s.path.owned ++ [o] ∧ s.path.owned.length < maxOwned ∨
      path.owned = s.path.owned) :
    Sound { s with path, exchange, arrived := s.arrived ++ [o], struck } := by
  obtain ⟨hid, hnext⟩ := hn.new t _ rfl
  refine ⟨h.engine.moves hm hn hids, fun o' ho' => ?_, ?_, ?_, ?_⟩
  · rcases List.mem_append.mp ho' with ho' | ho'
    · exact Engine.Sound.lt_next hn hids (.inl (h.below o' ho'))
    · rw [List.mem_singleton.mp ho']
      exact Engine.Sound.lt_next hn hids (.inr ⟨hid, hnext⟩)
  · rw [List.map_append, List.map_singleton]
    refine h.once.append (List.nodup_singleton _) ?_
    rw [List.disjoint_singleton]
    intro hmem
    obtain ⟨o', ho', heq⟩ := List.mem_map.mp hmem
    have hlt := h.below o' ho'
    rw [heq, hid] at hlt
    exact absurd hlt (UInt64.lt_irrefl _)
  · rcases howned with ⟨howned, -⟩ | howned
    · show path.owned.Sublist _
      rw [howned]
      exact h.owned.append (List.Sublist.refl _)
    · show path.owned.Sublist _
      rw [howned]
      exact h.owned.trans (List.sublist_append_left _ _)
  · rcases howned with ⟨howned, hroom⟩ | howned
    · show path.owned.length ≤ maxOwned
      rw [howned, List.length_append, List.length_singleton]
      exact hroom
    · show path.owned.length ≤ maxOwned
      rw [howned]
      exact h.bounded

/-- The id that an order gets, where ids are left. -/
theorem IdsLeft.take {m : NewOrder} {orders : Fifo OrderMessage} {side : Side}
    (h : s.IdsLeft .take) (hpop : s.path.orders.pop = some (.newOrder m, orders))
    (hside : m.side = some side) : s.exchange.engine.nextOrderId.toNat + 1 < 2 ^ 64 := by
  apply h
  unfold submits
  dsimp only
  rw [(Fifo.pop_some hpop).1, List.head?_cons, Option.any_some]
  dsimp only
  rw [hside]
  rfl

/-- A call that gives out an id finds one left. -/
theorem IdsLeft.flow {c : Call} {x' : Exchange} (h : s.IdsLeft (.flow c))
    (hcall : s.exchange.call env c = .ok x')
    (hne : x'.engine.nextOrderId ≠ s.exchange.engine.nextOrderId) :
    s.exchange.engine.nextOrderId.toNat + 1 < 2 ^ 64 := by
  cases c with
  | submit => exact h rfl
  | submitReported => exact h rfl
  | cancel =>
    obtain ⟨⟨x₁, answer⟩, hcancel, rfl⟩ := map_eq_ok hcall
    exact absurd (Exchange.canceled hcancel).spares.next hne
  | amend => exact absurd (Exchange.amend_spares hcall).next hne
  | flushOnTimer =>
    obtain ⟨p, -, rfl⟩ := map_eq_ok hcall
    exact absurd rfl hne

theorem Sound.submitted {p : OrderPath} {m : NewOrder} {side : Side} {x' : Exchange}
    {outcome : SubmitOutcome} {fills : List Fill} {struck : List PassiveFill} (h : s.Sound)
    (hp : p.owned = s.path.owned) (hids : s.exchange.engine.nextOrderId.toNat + 1 < 2 ^ 64)
    (hsubmit : s.exchange.submitReported env m.symbolId side m.price m.quantity false =
      .ok (x', outcome, fills)) :
    Sound { s with
      path := p.reportOutcome m side outcome fills
      exchange := x'
      arrived := s.arrived ++
        if 0 < outcome.resting then [⟨outcome.orderId, m.clientOrderId⟩] else []
      struck } := by
  obtain ⟨os, hos⟩ := h.engine.reps m.symbolId
  have hm := (Exchange.submitReported_moves hos hsubmit).1
  have hn := Exchange.submitReported_numbers hsubmit
  by_cases hrests : 0 < outcome.resting
  · rw [if_neg (UInt32.pos_iff_ne_zero.mp hrests)] at hm hn
    rw [if_pos hrests]
    apply h.arrives (o := ⟨outcome.orderId, m.clientOrderId⟩) hm hn (fun _ => hids)
    by_cases hroom : p.owned.length < maxOwned
    · have howned := (OrderPath.reportOutcome_remembers m side fills hrests hroom).1
      rw [hp] at howned hroom
      exact .inl ⟨howned, hroom⟩
    · have hsame := OrderPath.reportOutcome_sameTable m side fills
        (fun _ : 0 < outcome.resting => hroom)
      exact .inr (hsame.owned.trans hp)
  · rw [if_pos (by simpa using hrests)] at hm hn
    rw [if_neg hrests, List.append_nil]
    have hsame := OrderPath.reportOutcome_sameTable (p := p) m side fills
      (fun hpos => absurd hpos hrests)
    have hmoved : Sound { s with exchange := x', struck } := h.moves hm hn fun _ => hids
    exact hmoved.forgets (by rw [hsame.owned, hp])

theorem Sound.took {m : OrderMessage} {orders : Fifo OrderMessage} (h : s.Sound)
    (hids : s.IdsLeft .take) (hpop : s.path.orders.pop = some (m, orders))
    (htook : Took env s { s.path with orders } m s') : s'.Sound := by
  cases htook with
  | refused hside =>
    refine h.forgets ?_
    rw [OrderPath.emitReject, (OrderPath.SameTable.emit _ _).owned]
  | submitted hside hsubmit => exact h.submitted rfl (hids.take hpop hside) hsubmit
  | canceled hcancel =>
    refine (h.moves (Exchange.cancelReported_moves hcancel)
      (.same (Exchange.canceled hcancel).spares.next)
      fun hne => absurd (Exchange.canceled hcancel).spares.next hne).forgets ?_
    rw [(OrderPath.SameTable.emit _ _).owned]
    exact List.filter_sublist
  | unknown hcancel =>
    refine (h.moves (Exchange.cancelReported_moves hcancel)
      (.same (Exchange.canceled hcancel).spares.next)
      fun hne => absurd (Exchange.canceled hcancel).spares.next hne).forgets ?_
    rw [(OrderPath.SameTable.emit _ _).owned]
  | reconciled =>
    refine h.forgets ?_
    rw [(OrderPath.onReconcile_table _ _ _).1]
    exact List.filter_sublist

theorem Sound.catchUp (h : s.Sound) : s.catchUp.Sound := by
  obtain ⟨watched, hengine, -⟩ := OrderPath.catchUp_engine s.path s.exchange
  have howned : s.catchUp.path.owned.Sublist s.path.owned := by
    show (s.path.catchUp s.exchange).1.owned.Sublist _
    rw [OrderPath.catchUp_path]
    exact OrderPath.foldl_reportPassiveFill_owned _ _
  have hengine : s.catchUp.exchange.engine = { s.exchange.engine with watched, passiveFills := [] } :=
    hengine
  refine ⟨?_, ?_, h.once, howned.trans h.owned, howned.length_le.trans h.bounded⟩
  · rw [hengine]
    exact ⟨h.engine.fresh, h.engine.reps, h.engine.below, h.engine.apart, fun _ hf => (nomatch hf)⟩
  · rw [hengine]
    exact h.below

theorem Sound.step {i : Input} (h : s.Sound) (hids : s.IdsLeft i) (hstep : s.step env i = .ok s') :
    s'.Sound := by
  cases i with
  | arrives m =>
    cases hstep
    exact h.forgets (List.Sublist.refl _)
  | read =>
    unfold Desk.step at hstep
    dsimp only at hstep
    split at hstep
    · cases hstep
      exact h
    · cases hstep
      exact h.forgets (List.Sublist.refl _)
  | catchUp =>
    cases hstep
    exact h.catchUp
  | take =>
    rcases take_took hstep with rfl | ⟨m, orders, hpop, htook⟩
    · exact h
    · exact h.took hids hpop htook
  | flow c =>
    obtain ⟨x', hcall, hstep⟩ := bind_eq_ok hstep
    cases hstep
    obtain ⟨new, hm, hn⟩ := Exchange.call_moves h.engine.reps hcall
    exact h.moves hm hn (hids.flow hcall)

theorem sound_new (symbols : List UInt16) (batchSize : UInt16) (maxDatagramBytes : Nat)
    (shadow : Option Books) (orders reports : Nat) :
    (Desk.new symbols batchSize maxDatagramBytes shadow orders reports).Sound := by
  refine ⟨⟨rfl, fun t => ⟨[], Reps.new⟩, ?_, ?_, fun _ hf => (nomatch hf)⟩, fun _ ho => (nomatch ho),
    List.nodup_nil, List.Sublist.refl _, Nat.zero_le _⟩
  · intro t id hid
    simp [Desk.new, Exchange.new, Engine.new, BookSet.book, BookSet.get, Books.new,
      ReferenceBook.get, ReferenceBook.new] at hid
  · intro t t' id hid
    simp [Desk.new, Exchange.new, Engine.new, BookSet.book, BookSet.get, Books.new,
      ReferenceBook.get, ReferenceBook.new] at hid

end Desk

end MarketData.Matching
