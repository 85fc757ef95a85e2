import MarketData.Book.ReferenceArrivals
import MarketData.Matching.Reproduction

/-!
# `Matching/Resting.lean` — which orders a call leaves on the books

A call of the engine puts at most one new order on a book, the one it was made for, under the
next id. Everything else it does takes orders off, makes them smaller or moves them. `Spares`
says that of a stretch of the engine's work that rests nothing new; a fill it notes is a fill
of an order that rested before.

## A relation that composes

`Spares` is about two states of an engine and not about a call, so it is carried through a matching
loop turn by turn, and through anything that publishes. Only the last step of a submitted order is
not of that kind, and `Submitted` is `Spares` with that one exception: an order that was not working
before and is now is the one that was submitted.

`Working` counts an order as long as it is on a book *or* a fill that finished it has yet to be
reported. In between nobody has it but the list of fills, and an account that lets go of it there
would let go too early (`Trading/Exposure.lean`).
-/

set_option autoImplicit false

namespace MarketData.Book.ReferenceBook

open MarketData.Wire

variable {b b' : ReferenceBook} {orderId : UInt64}

theorem get_add {side : Side} {price : Int64} {quantity : UInt32} {u : Unit}
    (h : b.add orderId side price quantity = (.ok u, b')) (id : UInt64) :
    b'.get id = if orderId = id then some ⟨orderId, price, quantity, side⟩ else b.get id := by
  unfold add at h
  split at h
  · cases h
  split at h
  · cases h
  cases h
  simp [get, Std.TreeMap.getElem?_insert]

theorem get_delete {order : RestingOrder} (h : b.delete orderId = (.ok order, b')) (id : UInt64) :
    b'.get id = if orderId = id then none else b.get id := by
  unfold delete at h
  split at h
  · cases h
  cases h
  simp [get, Std.TreeMap.getElem?_erase]

theorem isSome_get_reduce {newQuantity : UInt32} {u : Unit}
    (h : b.reduce orderId newQuantity = (.ok u, b')) (id : UInt64) :
    (b'.get id).isSome = (b.get id).isSome := by
  unfold reduce at h
  split at h
  · cases h
  rename_i order hget
  split at h
  · cases h
  split at h
  · cases h
  cases h
  by_cases heq : orderId = id
  · subst heq
    simp [get, hget]
  · simp [get, Std.TreeMap.getElem?_insert, heq]

theorem isSome_get_replace {newPrice : Int64} {newQuantity : UInt32} {u : Unit}
    (h : b.replace orderId newPrice newQuantity = (.ok u, b')) (id : UInt64) :
    (b'.get id).isSome = (b.get id).isSome := by
  unfold replace at h
  split at h
  · cases h
  split at h
  · cases h
  rename_i order hget
  cases h
  by_cases heq : orderId = id
  · subst heq
    simp [get, hget]
  · simp [get, Std.TreeMap.getElem?_insert, heq]

end MarketData.Book.ReferenceBook

namespace MarketData.Matching

open MarketData.Wire MarketData.Book

/-- The order is on some symbol's book. -/
def Engine.Rests (e : Engine) (id : UInt64) : Prop :=
  ∃ symbolId, ((e.books.book symbolId).get id).isSome = true

/-- The order is on a book, or a fill that finished it has yet to be reported. -/
def Engine.Working (e : Engine) (id : UInt64) : Prop :=
  e.Rests id ∨ ∃ f ∈ e.passiveFills, f.restingOrderId = id ∧ f.leaves = 0

/-- From `e` to `e'` nothing new came to rest. -/
structure Spares (e e' : Engine) : Prop where
  rests : ∀ id, e'.Rests id → e.Rests id
  passive : ∀ f ∈ e'.passiveFills, f ∈ e.passiveFills ∨ e.Rests f.restingOrderId
  next : e'.nextOrderId = e.nextOrderId

namespace Spares

variable {e e' e'' : Engine}

theorem refl (e : Engine) : Spares e e := ⟨fun _ h => h, fun _ h => .inl h, rfl⟩

theorem trans (h : Spares e e') (h' : Spares e' e'') : Spares e e'' := by
  refine ⟨fun id hid => h.rests id (h'.rests id hid), fun f hf => ?_, h'.next.trans h.next⟩
  cases h'.passive f hf with
  | inl hmem => exact h.passive f hmem
  | inr hrests => exact .inr (h.rests _ hrests)

theorem working (h : Spares e e') {id : UInt64} (hid : e'.Working id) : e.Working id := by
  rcases hid with hrests | ⟨f, hf, rfl, hzero⟩
  · exact .inl (h.rests id hrests)
  · cases h.passive f hf with
    | inl hmem => exact .inr ⟨f, hmem, rfl, hzero⟩
    | inr hrests => exact .inl hrests

/-- A step that leaves the books as they are, up to one that is created, and notes no fill. -/
theorem of_agree (hbooks : e'.books.Agree e.books) (hpassive : e'.passiveFills = e.passiveFills)
    (hnext : e'.nextOrderId = e.nextOrderId) : Spares e e' := by
  refine ⟨?_, fun f hf => .inl (hpassive ▸ hf), hnext⟩
  rintro id ⟨t, ht⟩
  exact ⟨t, hbooks t ▸ ht⟩

theorem getOrCreate (e : Engine) (symbolId : UInt16) : Spares e (e.getOrCreate symbolId) :=
  of_agree (BookSet.agree_put_self _ _) rfl rfl

theorem modifySymbol (e : Engine) (symbolId : UInt16) (f : SymbolState → SymbolState) :
    Spares e (e.modifySymbol symbolId f) := by
  unfold Engine.modifySymbol
  split
  · exact refl e
  · exact of_agree (.refl _) rfl rfl

/-- A fill may be noted of any order that rested at the start. -/
theorem noted (h : Spares e e') {f : PassiveFill} (hrests : e.Rests f.restingOrderId) :
    Spares e (e'.recordPassiveFill f) := by
  unfold Engine.recordPassiveFill
  split
  · split
    · refine ⟨h.rests, fun g hg => ?_, h.next⟩
      rcases List.mem_append.mp hg with hg | hg
      · exact h.passive g hg
      · rw [List.mem_singleton.mp hg]
        exact .inr hrests
    · exact ⟨h.rests, h.passive, h.next⟩
  · exact h

end Spares

/-- What an operation on one symbol's book does to what rests, where it puts nothing new there. -/
theorem Engine.rests_put {e : Engine} {symbolId : UInt16} {b : ReferenceBook}
    (h : ∀ id, (b.get id).isSome = true → ((e.books.book symbolId).get id).isSome = true)
    {id : UInt64} (hid : ∃ t, (((e.books.put symbolId b).book t).get id).isSome = true) :
    e.Rests id := by
  obtain ⟨t, ht⟩ := hid
  rw [BookSet.book_put] at ht
  split at ht
  · exact ⟨symbolId, h id ht⟩
  · exact ⟨t, ht⟩

/-- The changes that put nothing new on a book. -/
def Change.Spares : Change → Prop
  | .add .. => False
  | _ => True

/-- Such a change keeps orders on the book or takes them off. -/
theorem Change.Makes.isSome_of_spares {b b' : ReferenceBook} {change : Change}
    (h : change.Makes b b') (hchange : change.Spares) (id : UInt64)
    (hid : (b'.get id).isSome = true) : (b.get id).isSome = true := by
  cases change with
  | add => exact hchange.elim
  | reduce =>
    obtain ⟨u, hreduce⟩ := h
    rwa [← ReferenceBook.isSome_get_reduce hreduce id]
  | replace =>
    obtain ⟨u, hreplace⟩ := h
    rwa [← ReferenceBook.isSome_get_replace hreplace id]
  | delete =>
    obtain ⟨order, hdelete⟩ := h
    rw [ReferenceBook.get_delete hdelete id] at hid
    split at hid
    · cases hid
    · exact hid
  | trade => exact h ▸ hid

variable {env : Env}

theorem Engine.publish_spares {e e' : Engine} {p p' : FeedPublisher} {symbolId : UInt16}
    {change : Change} {seq : UInt64} (hchange : change.Spares)
    (h : e.publish env p symbolId change = .ok (seq, e', p')) : Matching.Spares e e' := by
  obtain ⟨b, hmakes, rfl⟩ := Engine.publish_makes h
  exact ⟨fun id hid => Engine.rests_put (hmakes.isSome_of_spares hchange) hid,
    fun f hf => .inl hf, rfl⟩

/-- Resting an order puts that one on a book and nothing else. -/
theorem Engine.publish_add {e e' : Engine} {p p' : FeedPublisher} {symbolId : UInt16}
    {orderId seq : UInt64} {side : Side} {price : Int64} {quantity : UInt32}
    (h : e.publish env p symbolId (.add orderId side price quantity) = .ok (seq, e', p')) :
    (∀ id, e'.Rests id → e.Rests id ∨ id = orderId) ∧ e'.passiveFills = e.passiveFills ∧
      e'.nextOrderId = e.nextOrderId := by
  obtain ⟨b, ⟨u, hadd⟩, rfl⟩ := Engine.publish_makes h
  refine ⟨?_, rfl, rfl⟩
  rintro id ⟨t, ht⟩
  rw [BookSet.book_put] at ht
  split at ht
  · rw [ReferenceBook.get_add hadd id] at ht
    split at ht
    · rename_i heq
      exact .inr heq.symm
    · exact .inl ⟨symbolId, ht⟩
  · exact .inl ⟨t, ht⟩

/-! ## Calls -/

namespace Exchange

variable {x x' : Exchange} {o : Aggressor}

theorem publish_spares {symbolId : UInt16} {change : Change} (hchange : change.Spares)
    (h : x.publish env symbolId change = .ok x') : Spares x.engine x'.engine := by
  obtain ⟨⟨seq, e', p'⟩, hpublish, h⟩ := bind_eq_ok h
  obtain rfl := Except.ok.inj h
  exact Engine.publish_spares hchange hpublish

theorem fillResting_spares {bestPrice : Int64} {restingId : UInt64} {resting : RestingOrder}
    {remaining remaining' : UInt32} {fill : Fill} (hrests : x.engine.Rests restingId)
    (h : x.fillResting env o bestPrice restingId resting remaining = .ok (x', remaining', fill)) :
    Spares x.engine x'.engine ∧ fill.leaves = remaining' := by
  obtain ⟨x₁, htrade, h⟩ := bind_eq_ok h
  obtain ⟨x₂, hchange, h⟩ := bind_eq_ok h
  have htraded : Spares x.engine x₁.engine := by
    obtain ⟨hr, hp, hn⟩ := publish_spares (by trivial) htrade
    exact ⟨hr, hp, hn⟩
  have hspares : (fillChange o restingId resting (min remaining resting.quantity)).Spares := by
    unfold fillChange
    split <;> trivial
  have hchanged := htraded.trans (publish_spares hspares hchange)
  have hremoved : ∀ P : Prop, ∀ _ : Decidable P, Spares x₂.engine
      (if P then x₂.mapEngine fun e => e.removeLive o.symbolId restingId else x₂).engine := by
    intro P _
    split
    · exact .modifySymbol _ _ _
    · exact .refl _
  cases h
  exact ⟨(hchanged.trans (hremoved _ _)).noted hrests, rfl⟩

theorem matchTurn_spares {remaining : UInt32} {turn : Option (UInt32 × Fill)}
    (h : x.matchTurn env o remaining = .ok (x', turn)) :
    Spares x.engine x'.engine ∧ ∀ taken ∈ turn, taken.2.leaves = taken.1 := by
  unfold matchTurn at h
  dsimp only at h
  have hcreated := Spares.getOrCreate x.engine o.symbolId
  split at h
  · cases h
    exact ⟨hcreated, fun _ h => (nomatch h)⟩
  · split at h
    · split at h
      · cases h
      · rename_i resting hget
        obtain ⟨⟨x₂, remaining₂, fill⟩, hfill, h⟩ := bind_eq_ok h
        cases h
        obtain ⟨hspares, hleaves⟩ := fillResting_spares ⟨o.symbolId, by rw [hget]; rfl⟩ hfill
        refine ⟨hcreated.trans hspares, fun taken htaken => ?_⟩
        obtain rfl := Option.some.inj htaken
        exact hleaves
    · cases h
      exact ⟨hcreated, fun _ h => (nomatch h)⟩

/-- A loop that fills nothing leaves the quantity as it was. -/
theorem matchLoop_nil {fuel : Nat} {remaining remaining' : UInt32}
    (h : matchLoop env o fuel x remaining = .ok (x', remaining', [])) :
    remaining = remaining' := by
  cases fuel with
  | zero =>
    cases h
    rfl
  | succ fuel =>
    unfold matchLoop at h
    split at h
    · cases h
      rfl
    · obtain ⟨⟨x₁, turn⟩, -, h⟩ := bind_eq_ok h
      cases turn with
      | none =>
        cases h
        rfl
      | some taken =>
        obtain ⟨⟨x₂, remaining₂, fills₂⟩, -, h⟩ := bind_eq_ok h
        cases h

/-- The matching loop rests nothing, and its last fill says what is left of the order. -/
theorem matchLoop_spares {fuel : Nat} {remaining remaining' : UInt32} {fills : List Fill}
    (h : matchLoop env o fuel x remaining = .ok (x', remaining', fills)) :
    Spares x.engine x'.engine ∧ ∀ f ∈ fills.getLast?, f.leaves = remaining' := by
  induction fuel generalizing x remaining fills with
  | zero =>
    cases h
    exact ⟨.refl _, fun _ h => (nomatch h)⟩
  | succ fuel ih =>
    unfold matchLoop at h
    split at h
    · cases h
      exact ⟨.refl _, fun _ h => (nomatch h)⟩
    · obtain ⟨⟨x₁, turn⟩, hturn, h⟩ := bind_eq_ok h
      obtain ⟨hspares, hleaves⟩ := matchTurn_spares hturn
      cases turn with
      | none =>
        cases h
        exact ⟨hspares, fun _ h => (nomatch h)⟩
      | some taken =>
        obtain ⟨⟨x₂, remaining₂, fills₂⟩, hloop, h⟩ := bind_eq_ok h
        cases h
        obtain ⟨hspares₂, hlast⟩ := ih hloop
        refine ⟨hspares.trans hspares₂, fun f hf => ?_⟩
        cases hfills : fills₂.getLast? with
        | some g =>
          rw [List.getLast?_cons, hfills] at hf
          obtain rfl := Option.some.inj hf
          exact hlast g hfills
        | none =>
          -- Nothing after this turn: the loop ended with what the turn left.
          rw [List.getLast?_eq_none_iff] at hfills
          subst hfills
          rw [List.getLast?_singleton, Option.mem_some_iff] at hf
          rw [← hf, hleaves taken rfl]
          exact matchLoop_nil hloop

/-- What a submitted order does to what is working: it is the only order that can be new, and
only if some of it rests. -/
structure Submitted (x x' : Exchange) (outcome : SubmitOutcome) (fills : List Fill) : Prop where
  orderId : outcome.orderId = x.engine.nextOrderId
  next : x'.engine.nextOrderId = x.engine.nextOrderId + 1
  working : ∀ id, x'.engine.Working id →
    x.engine.Working id ∨ (id = outcome.orderId ∧ 0 < outcome.resting)
  leaves : ∀ f ∈ fills.getLast?, f.leaves = outcome.resting

theorem rest_working {remaining : UInt32} {generatorMayRecycle : Bool}
    (h : x.rest env o remaining generatorMayRecycle = .ok x') :
    x'.engine.nextOrderId = x.engine.nextOrderId ∧ ∀ id, x'.engine.Working id →
      x.engine.Working id ∨ (id = o.orderId ∧ 0 < remaining) := by
  unfold rest at h
  split at h
  · cases h
    exact ⟨rfl, fun _ hid => .inl hid⟩
  rename_i hpos
  obtain ⟨x₁, hpublish, h⟩ := bind_eq_ok h
  obtain ⟨⟨seq, e', p'⟩, hadd, hx₁⟩ := bind_eq_ok hpublish
  obtain rfl := Except.ok.inj hx₁
  obtain ⟨hrests, hpassive, hnext⟩ := Engine.publish_add hadd
  obtain rfl := Except.ok.inj h
  -- Whether the generator may act on it again changes neither the books nor the fills.
  have hpushed : Spares e' (if generatorMayRecycle = true then
      ({ engine := e', feed := p', checkpoints := x.checkpoints ++ [⟨seq, e'.books⟩] } :
        Exchange).mapEngine fun e => e.pushLive o.symbolId o.orderId
      else { engine := e', feed := p', checkpoints := x.checkpoints ++ [⟨seq, e'.books⟩] }).engine := by
    split
    · exact .modifySymbol _ _ _
    · exact .refl _
  refine ⟨hpushed.next.trans hnext, fun id hid => ?_⟩
  rcases hpushed.working hid with hid | ⟨f, hf, hid⟩
  · rcases hrests id hid with hid | rfl
    · exact .inl (.inl hid)
    · exact .inr ⟨rfl, UInt32.pos_iff_ne_zero.mpr hpos⟩
  · exact .inl (.inr ⟨f, hpassive ▸ hf, hid⟩)

theorem submitted {symbolId : UInt16} {side : Side} {price : Int64} {quantity : UInt32}
    {generatorMayRecycle : Bool} {outcome : SubmitOutcome} {fills : List Fill}
    (h : x.submitReported env symbolId side price quantity generatorMayRecycle =
      .ok (x', outcome, fills)) : Submitted x x' outcome fills := by
  obtain ⟨⟨x₁, remaining, fills₁⟩, hloop, h⟩ := bind_eq_ok h
  obtain ⟨x₂, hrest, h⟩ := bind_eq_ok h
  obtain ⟨hspares, hleaves⟩ := matchLoop_spares hloop
  obtain ⟨hnext, hworking⟩ := rest_working hrest
  cases h
  refine ⟨rfl, hnext.trans hspares.next, fun id hid => ?_, hleaves⟩
  rcases hworking id hid with hid | hid
  · exact .inl (hspares.working hid)
  · exact .inr hid

/-- A cancel takes the order of that id off the book of that symbol, if it is there. -/
structure Canceled (x x' : Exchange) (symbolId : UInt16) (orderId : UInt64)
    (answer : Option UInt32) : Prop where
  found : answer.isSome = ((x.engine.books.book symbolId).get orderId).isSome
  books : ∀ t id, (x'.engine.books.book t).get id =
    if symbolId = t ∧ orderId = id then none else (x.engine.books.book t).get id
  spares : Spares x.engine x'.engine

theorem canceled {symbolId : UInt16} {orderId : UInt64} {answer : Option UInt32}
    (h : x.cancelReported env symbolId orderId = .ok (x', answer)) :
    Canceled x x' symbolId orderId answer := by
  unfold cancelReported at h
  dsimp only at h
  have hcreated := Spares.getOrCreate x.engine symbolId
  have hagree : (x.engine.getOrCreate symbolId).books.Agree x.engine.books :=
    BookSet.agree_put_self _ _
  split at h
  · rename_i hget
    cases h
    have hget : (x.engine.books.book symbolId).get orderId = none := hagree symbolId ▸ hget
    refine ⟨by rw [hget]; rfl, fun t id => ?_, hcreated⟩
    show ((x.engine.getOrCreate symbolId).books.book t).get id = _
    rw [hagree t]
    split
    · rename_i heq
      rw [← heq.1, ← heq.2, hget]
    · rfl
  · rename_i resting hget
    obtain ⟨x₁, hpublish, h⟩ := bind_eq_ok h
    have hspares := publish_spares (by trivial) hpublish
    obtain ⟨⟨seq, e', p'⟩, hdelete, hx₁⟩ := bind_eq_ok hpublish
    obtain rfl := Except.ok.inj hx₁
    obtain ⟨b, ⟨order, hb⟩, rfl⟩ := Engine.publish_makes hdelete
    cases h
    have hget : (x.engine.books.book symbolId).get orderId = some resting :=
      hagree symbolId ▸ hget
    refine ⟨by rw [hget]; rfl, fun t id => ?_, (hcreated.trans hspares).trans (.modifySymbol _ _ _)⟩
    have hbook := BookSet.book_put (x.engine.getOrCreate symbolId).books symbolId t b
    simp only [mapEngine, Engine.removeLive, Engine.books_modifySymbol] at hb ⊢
    rw [hbook]
    by_cases ht : symbolId = t
    · rw [if_pos ht, ReferenceBook.get_delete hb id, hagree symbolId, ← ht]
      simp
    · rw [if_neg ht, if_neg (fun h => ht h.1), hagree t]

theorem amend_spares {symbolId : UInt16} {orderId : UInt64} {newPrice : Option Int64}
    {newQuantity : UInt32} (h : x.amend env symbolId orderId newPrice newQuantity = .ok x') :
    Spares x.engine x'.engine := by
  unfold amend at h
  dsimp only at h
  have hcreated := Spares.getOrCreate x.engine symbolId
  split at h
  · cases h
    exact hcreated
  · refine hcreated.trans (publish_spares ?_ h)
    unfold amendChange
    split <;> trivial

/-- Whatever is called: nothing but the order of the next id can be new. -/
theorem call_working {c : Call} (h : x.call env c = .ok x') :
    (x'.engine.nextOrderId = x.engine.nextOrderId ∨
      x'.engine.nextOrderId = x.engine.nextOrderId + 1) ∧
    ∀ id, x'.engine.Working id → x.engine.Working id ∨ id = x.engine.nextOrderId := by
  have hsubmitted : ∀ {symbolId : UInt16} {side : Side} {price : Int64} {quantity : UInt32}
      {mayRecycle : Bool},
      (x.submitReported env symbolId side price quantity mayRecycle).map (·.1) = .ok x' →
      (x'.engine.nextOrderId = x.engine.nextOrderId ∨
        x'.engine.nextOrderId = x.engine.nextOrderId + 1) ∧
      ∀ id, x'.engine.Working id → x.engine.Working id ∨ id = x.engine.nextOrderId := by
    intro symbolId side price quantity mayRecycle h
    cases hsub : x.submitReported env symbolId side price quantity mayRecycle with
    | error e =>
      rw [hsub] at h
      cases h
    | ok answer =>
      rw [hsub] at h
      cases h
      have hs := submitted hsub
      refine ⟨.inr hs.next, fun id hid => ?_⟩
      rcases hs.working id hid with hid | ⟨rfl, -⟩
      · exact .inl hid
      · exact .inr hs.orderId
  cases c with
  | submit => exact hsubmitted h
  | submitReported => exact hsubmitted h
  | cancel symbolId orderId =>
    cases hcancel : x.cancelReported env symbolId orderId with
    | error e =>
      rw [call, cancel, hcancel] at h
      cases h
    | ok answer =>
      rw [call, cancel, hcancel] at h
      cases h
      have hspares := (canceled hcancel).spares
      exact ⟨.inl hspares.next, fun id hid => .inl (hspares.working hid)⟩
  | amend =>
    have hspares := amend_spares h
    exact ⟨.inl hspares.next, fun id hid => .inl (hspares.working hid)⟩
  | flushOnTimer =>
    cases hflush : x.feed.flushOnTimer env with
    | error e =>
      rw [call, hflush] at h
      cases h
    | ok p =>
      rw [call, hflush] at h
      cases h
      exact ⟨.inl rfl, fun id hid => .inl hid⟩

end Exchange

end MarketData.Matching
