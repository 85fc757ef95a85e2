import MarketData.Matching.Meeting
import MarketData.Matching.Resting

/-!
# `Matching/Struck.lean` — the fills as the resting side sees them

Every fill of a submitted order is also a fill of the order it met. `strikes` reads these off the
book before the order is submitted, whoever is told of them; the engine notes those of watched
orders, as far as there is room (`submitReported_moves`). `Moves` says what a call does to the
engine in these terms: which resting orders it fills, which order it puts on a book, and what it
notes.

## What a call does, in one relation

The accounts of clients' orders ask three things of a call of the engine, whatever the call was: who
was hit, who came to rest, what was noted. `Moves` answers all three, and is the only thing the
later modules know of a call. It is proved for a change, then for a turn of the loop, then for the
loop, and then for each of the calls (`call_moves`).

The notes are what the code keeps, and `strikes` is what there was to note; **the two differ by who
is watched and by how much room there is**, and by nothing else. The difference is the subject of
`Matching/Told.lean`.
-/

set_option autoImplicit false

namespace MarketData.Matching

open MarketData.Wire MarketData.Book

/-- The fills of resting orders that an order of that quantity meets one after the other. -/
def strikes (symbolId : UInt16) (side : Side) :
    UInt32 → UInt64 → List RestingOrder → List PassiveFill
  | _, _, [] => []
  | remaining, tradeId, r :: rs =>
    if remaining = 0 then []
    else
      let fill := min remaining r.quantity
      ⟨r.orderId, tradeId, r.price, fill, r.quantity - fill, symbolId, opposite side⟩ ::
        strikes symbolId side (remaining - fill) (tradeId + 1) rs

theorem strikes_zero (symbolId : UInt16) (side : Side) (tradeId : UInt64) (rs : List RestingOrder) :
    strikes symbolId side 0 tradeId rs = [] := by
  cases rs with
  | nil => rfl
  | cons r rs => rw [strikes, if_pos rfl]

/-- The fills of resting orders that a submitted order would make. -/
def Exchange.strikes (x : Exchange) (symbolId : UInt16) (side : Side) (price : Int64)
    (quantity : UInt32) : List PassiveFill :=
  Matching.strikes symbolId side quantity x.engine.nextTradeId
    (meeting (x.engine.books.book symbolId) side price)

/-- The fills of resting orders that a call would make. -/
def Exchange.struckBy (x : Exchange) : Call → List PassiveFill
  | .submit symbolId side price quantity => x.strikes symbolId side price quantity
  | .submitReported symbolId side price quantity _ => x.strikes symbolId side price quantity
  | .cancel .. | .amend .. | .flushOnTimer => []

namespace Engine

/-- The fills of orders that somebody watches. -/
def seen (e : Engine) (fs : List PassiveFill) : List PassiveFill :=
  fs.filter fun f => e.watched.contains f.restingOrderId

/-- The fills there is still room to note. -/
def room (e : Engine) : Nat := maxPassiveFills - e.passiveFills.length

theorem nextTradeId_modifySymbol (e : Engine) (symbolId : UInt16) (f : SymbolState → SymbolState) :
    (e.modifySymbol symbolId f).nextTradeId = e.nextTradeId := by
  unfold modifySymbol
  split <;> rfl

theorem nextTradeId_recordPassiveFill (e : Engine) (f : PassiveFill) :
    (e.recordPassiveFill f).nextTradeId = e.nextTradeId := by
  unfold recordPassiveFill
  split
  · split <;> rfl
  · rfl

/-- One fill is noted if its order is watched, and counted if there is no room. -/
theorem recordPassiveFill_noted (e : Engine) (f : PassiveFill) :
    (e.recordPassiveFill f).watched = e.watched ∧
    (e.recordPassiveFill f).passiveFills = e.passiveFills ++ (e.seen [f]).take e.room ∧
    (e.recordPassiveFill f).passiveFillsDropped =
      e.passiveFillsDropped + UInt64.ofNat ((e.seen [f]).length - e.room) := by
  unfold recordPassiveFill room
  by_cases hwatched : e.watched.contains f.restingOrderId = true
  · have hseen : e.seen [f] = [f] := List.filter_eq_self.mpr (by simpa using hwatched)
    rw [if_pos hwatched, hseen]
    by_cases hroom : e.passiveFills.length < maxPassiveFills
    · have hone : [f].length ≤ maxPassiveFills - e.passiveFills.length := by
        rw [List.length_singleton]
        omega
      rw [if_pos hroom, List.take_of_length_le hone, Nat.sub_eq_zero_of_le hone]
      exact ⟨rfl, rfl, (UInt64.add_zero _).symm⟩
    · rw [if_neg hroom, Nat.sub_eq_zero_of_le (Nat.not_lt.mp hroom), List.take_zero,
        List.append_nil]
      exact ⟨rfl, rfl, rfl⟩
  · have hseen : e.seen [f] = [] := List.filter_eq_nil_iff.mpr (by simpa using hwatched)
    rw [if_neg hwatched, hseen, List.take_nil, List.append_nil, List.length_nil, Nat.zero_sub]
    exact ⟨rfl, rfl, (UInt64.add_zero _).symm⟩

end Engine

/-- From `e` to `e'` the resting orders are filled as `fs` says, `new` comes to rest, if it is one,
and nothing else does. -/
structure Moves (e e' : Engine) (fs : List PassiveFill) (new : Option (UInt16 × UInt64)) :
    Prop where
  watched : e'.watched = e.watched
  fresh : e'.books.fresh = e.books.fresh
  reps : (∀ t, ∃ os, Reps (e.books.book t) os) → ∀ t, ∃ os, Reps (e'.books.book t) os
  hit : ∀ f ∈ fs, ((e.books.book f.symbolId).get f.restingOrderId).isSome = true
  rests : ∀ t id, ((e'.books.book t).get id).isSome = true →
    (((e.books.book t).get id).isSome = true ∧
      ∀ f ∈ fs, f.symbolId = t → f.restingOrderId = id → f.leaves ≠ 0) ∨ new = some (t, id)
  noted : e'.passiveFills = e.passiveFills ++ (e.seen fs).take e.room
  dropped : e'.passiveFillsDropped =
    e.passiveFillsDropped + UInt64.ofNat ((e.seen fs).length - e.room)

namespace Moves

variable {e e' e'' : Engine} {fs fs' : List PassiveFill} {new : Option (UInt16 × UInt64)}

/-- The books are the same, up to one that is created, and nothing is noted. -/
theorem of_agree (hbooks : e'.books.Agree e.books) (hfresh : e'.books.fresh = e.books.fresh)
    (hwatched : e'.watched = e.watched) (hpassive : e'.passiveFills = e.passiveFills)
    (hdropped : e'.passiveFillsDropped = e.passiveFillsDropped) : Moves e e' [] none where
  watched := hwatched
  fresh := hfresh
  reps h t := hbooks t ▸ h t
  hit _ hf := nomatch hf
  rests t id hid := .inl ⟨hbooks t ▸ hid, fun _ hf => nomatch hf⟩
  noted := by simp [hpassive, Engine.seen]
  dropped := by simp [hdropped, Engine.seen]

theorem refl (e : Engine) : Moves e e [] none := of_agree (.refl _) rfl rfl rfl rfl

theorem trans (h : Moves e e' fs none) (h' : Moves e' e'' fs' new) :
    Moves e e'' (fs ++ fs') new := by
  have hseen : e'.seen fs' = e.seen fs' := by
    unfold Engine.seen
    rw [h.watched]
  have happend : e.seen (fs ++ fs') = e.seen fs ++ e.seen fs' := List.filter_append ..
  -- What is left of the room after the fills that were noted first.
  have hroom : e'.room = e.room - (e.seen fs).length := by
    unfold Engine.room
    rw [h.noted, List.length_append, List.length_take, Engine.room]
    omega
  refine ⟨h'.watched.trans h.watched, h'.fresh.trans h.fresh, fun hreps => h'.reps (h.reps hreps),
    ?_, ?_, ?_, ?_⟩
  · intro f hf
    rcases List.mem_append.mp hf with hf | hf
    · exact h.hit f hf
    · rcases h.rests _ _ (h'.hit f hf) with hrests | hnew
      · exact hrests.1
      · cases hnew
  · intro t id hid
    rcases h'.rests t id hid with ⟨hmid, hleft'⟩ | hnew
    · rcases h.rests t id hmid with ⟨hold, hleft⟩ | hnew
      · refine .inl ⟨hold, fun f hf => ?_⟩
        rcases List.mem_append.mp hf with hf | hf
        · exact hleft f hf
        · exact hleft' f hf
      · cases hnew
    · exact .inr hnew
  · rw [h'.noted, h.noted, hseen, hroom, happend, List.take_append, List.append_assoc]
  · have hlost : (e.seen fs).length - e.room + ((e.seen fs').length - e'.room) =
        (e.seen fs ++ e.seen fs').length - e.room := by
      rw [hroom, List.length_append]
      omega
    rw [h'.dropped, h.dropped, hseen, happend, UInt64.add_assoc, ← UInt64.ofNat_add, hlost]

/-- Where nothing is filled, nothing is noted. -/
theorem same (h : Moves e e' [] new) :
    e'.passiveFills = e.passiveFills ∧ e'.passiveFillsDropped = e.passiveFillsDropped := by
  rw [h.noted, h.dropped]
  simp [Engine.seen]

/-- The order that came to rest stays where nothing else happens. -/
theorem after (h : Moves e e' fs new) (h' : Moves e' e'' [] none) : Moves e e'' fs new := by
  refine ⟨h'.watched.trans h.watched, h'.fresh.trans h.fresh, fun hreps => h'.reps (h.reps hreps),
    h.hit, fun t id hid => ?_, h'.same.1.trans h.noted, h'.same.2.trans h.dropped⟩
  rcases h'.rests t id hid with ⟨hmid, -⟩ | hnew
  · exact h.rests t id hmid
  · cases hnew

/-- A change to the book of one symbol. -/
theorem put {symbolId : UInt16} {b : ReferenceBook}
    (hreps : ∀ os, Reps (e.books.book symbolId) os → ∃ os', Reps b os')
    (hget : ∀ id, (b.get id).isSome = true →
      ((e.books.book symbolId).get id).isSome = true ∨ new = some (symbolId, id)) :
    Moves e { e with books := e.books.put symbolId b } [] new := by
  refine ⟨rfl, rfl, fun h t => ?_, fun _ hf => (nomatch hf), fun t id hid => ?_, ?_, ?_⟩
  · rw [BookSet.book_put]
    split
    · obtain ⟨os, hos⟩ := h symbolId
      exact hreps os hos
    · exact h t
  · rw [BookSet.book_put] at hid
    split at hid
    · rename_i heq
      subst heq
      rcases hget id hid with hold | hnew
      · exact .inl ⟨hold, fun _ hf => (nomatch hf)⟩
      · exact .inr hnew
    · exact .inl ⟨hid, fun _ hf => (nomatch hf)⟩
  · simp [Engine.seen]
  · simp [Engine.seen]

theorem getOrCreate (e : Engine) (symbolId : UInt16) : Moves e (e.getOrCreate symbolId) [] none :=
  of_agree (BookSet.agree_put_self _ _) rfl rfl rfl rfl

theorem modifySymbol (e : Engine) (symbolId : UInt16) (f : SymbolState → SymbolState) :
    Moves e (e.modifySymbol symbolId f) [] none := by
  unfold Engine.modifySymbol
  split
  · exact refl e
  · exact of_agree (.refl _) rfl rfl rfl rfl

/-- A fill is noted of an order that rested at the start, and is gone if nothing is left of it. -/
theorem noting (h : Moves e e' [] none) {f : PassiveFill}
    (hhit : ((e.books.book f.symbolId).get f.restingOrderId).isSome = true)
    (hgone : f.leaves = 0 → (e'.books.book f.symbolId).get f.restingOrderId = none) :
    Moves e (e'.recordPassiveFill f) [f] none := by
  obtain ⟨hpassive, hdropped⟩ := h.same
  have hbooks := Engine.books_recordPassiveFill e' f
  obtain ⟨hwatched, hnoted, hcounted⟩ := Engine.recordPassiveFill_noted e' f
  have hseen : e'.seen [f] = e.seen [f] := by
    unfold Engine.seen
    rw [h.watched]
  have hroom : e'.room = e.room := by
    unfold Engine.room
    rw [hpassive]
  refine ⟨hwatched.trans h.watched, by rw [hbooks, h.fresh], ?_, ?_, ?_, ?_, ?_⟩
  · rw [hbooks]
    exact h.reps
  · intro g hg
    rw [List.mem_singleton.mp hg]
    exact hhit
  · intro t id hid
    rw [hbooks] at hid
    rcases h.rests t id hid with ⟨hold, -⟩ | hnew
    · refine .inl ⟨hold, fun g hg ht hid' hzero => ?_⟩
      rw [List.mem_singleton] at hg
      subst hg ht hid'
      rw [hgone hzero] at hid
      cases hid
    · cases hnew
  · rw [hnoted, hpassive, hseen, hroom]
  · rw [hcounted, hdropped, hseen, hroom]

end Moves

/-! ## Calls -/

/-- The order a change puts on a book. -/
def Change.comes (symbolId : UInt16) : Change → Option (UInt16 × UInt64)
  | .add orderId .. => some (symbolId, orderId)
  | _ => none

variable {env : Env}

theorem Change.Makes.moves {e : Engine} {symbolId : UInt16} {change : Change} {b : ReferenceBook}
    (h : change.Makes (e.books.book symbolId) b) :
    Moves e { e with books := e.books.put symbolId b } [] (change.comes symbolId) := by
  refine .put (fun os hos => ?_) fun id hid => ?_
  · cases hop : change.op with
    | none =>
      cases change with
      | trade => exact ⟨os, h ▸ hos⟩
      | _ => cases hop
    | some op =>
      rw [h.step hop]
      exact ⟨_, (hos.step op).2⟩
  · by_cases hspares : change.Spares
    · exact .inl (h.isSome_of_spares hspares id hid)
    · cases change with
      | add =>
        obtain ⟨u, hadd⟩ := h
        rw [ReferenceBook.get_add hadd id] at hid
        split at hid
        · rename_i heq
          exact .inr (by rw [Change.comes, heq])
        · exact .inl hid
      | _ => exact absurd trivial hspares

namespace Exchange

variable {x x' : Exchange} {o : Aggressor} {os : List RestingOrder}

theorem publish_makes {symbolId : UInt16} {change : Change}
    (h : x.publish env symbolId change = .ok x') :
    ∃ b, change.Makes (x.engine.books.book symbolId) b ∧
      x'.engine = { x.engine with books := x.engine.books.put symbolId b } := by
  obtain ⟨⟨seq, e', p'⟩, hpublish, h⟩ := bind_eq_ok h
  obtain rfl := Except.ok.inj h
  exact Engine.publish_makes hpublish

theorem publish_moves {symbolId : UInt16} {change : Change}
    (h : x.publish env symbolId change = .ok x') :
    Moves x.engine x'.engine [] (change.comes symbolId) ∧
      x'.engine.nextTradeId = x.engine.nextTradeId := by
  obtain ⟨b, hmakes, hengine⟩ := publish_makes h
  rw [hengine]
  exact ⟨hmakes.moves, rfl⟩

theorem comes_fillChange (o : Aggressor) (restingId : UInt64) (resting : RestingOrder)
    (fill : UInt32) : (fillChange o restingId resting fill).comes o.symbolId = none := by
  unfold fillChange
  split <;> rfl

/-- An order that is filled to the end is taken off. -/
theorem fillChange_gone {restingId : UInt64} {resting : RestingOrder} {fill : UInt32}
    (hall : fill = resting.quantity)
    (h : x.publish env o.symbolId (fillChange o restingId resting fill) = .ok x') :
    (x'.engine.books.book o.symbolId).get restingId = none := by
  rw [fillChange, if_pos hall] at h
  obtain ⟨b, ⟨order, hdelete⟩, hengine⟩ := publish_makes h
  rw [hengine, BookSet.book_put, if_pos rfl, ReferenceBook.get_delete hdelete, if_pos rfl]

/-- **One fill**: the resting order is hit, and gone where nothing is left of it. -/
theorem fillResting_moves {bestPrice : Int64} {restingId : UInt64} {resting : RestingOrder}
    {remaining remaining' : UInt32} {fill : Fill}
    (hget : (x.engine.books.book o.symbolId).get restingId = some resting)
    (h : x.fillResting env o bestPrice restingId resting remaining = .ok (x', remaining', fill)) :
    x'.engine.nextTradeId = x.engine.nextTradeId + 1 ∧
    remaining' = remaining - min remaining resting.quantity ∧
    fill = ⟨x.engine.nextTradeId, bestPrice, min remaining resting.quantity, remaining'⟩ ∧
    Moves x.engine x'.engine [⟨restingId, x.engine.nextTradeId, bestPrice,
      min remaining resting.quantity, resting.quantity - min remaining resting.quantity, o.symbolId,
      opposite o.side⟩] none := by
  obtain ⟨x₁, htrade, h⟩ := bind_eq_ok h
  obtain ⟨x₂, hchange, h⟩ := bind_eq_ok h
  have hgone := fun hall => fillChange_gone hall hchange
  obtain ⟨htrade, htradeId⟩ := publish_moves htrade
  obtain ⟨hchange, htradeId'⟩ := publish_moves hchange
  rw [comes_fillChange] at hchange
  have hcounted : Moves x.engine { x.engine with nextTradeId := x.engine.nextTradeId + 1 } [] none :=
    .of_agree (.refl _) rfl rfl rfl rfl
  have hchanged := (hcounted.trans htrade).trans hchange
  -- Whether the generator is told changes nothing that is noted.
  have hremoved : ∀ P : Prop, ∀ _ : Decidable P, ∀ e : Engine,
      e = (if P then x₂.mapEngine fun e => e.removeLive o.symbolId restingId else x₂).engine →
      Moves x₂.engine e [] none ∧ e.books = x₂.engine.books ∧
        e.nextTradeId = x₂.engine.nextTradeId := by
    rintro P _ e rfl
    split
    · exact ⟨.modifySymbol _ _ _, Engine.books_modifySymbol _ _ _,
        Engine.nextTradeId_modifySymbol _ _ _⟩
    · exact ⟨.refl _, rfl, rfl⟩
  cases h
  obtain ⟨hmoves, hbooks, hids⟩ := hremoved _ _ _ rfl
  refine ⟨?_, rfl, rfl, (hchanged.trans hmoves).noting ?_ fun hzero => ?_⟩
  · show (Engine.recordPassiveFill _ _).nextTradeId = _
    rw [Engine.nextTradeId_recordPassiveFill, hids, htradeId', htradeId]
    rfl
  · rw [hget]
    rfl
  · have hall := congrArg (· + min remaining resting.quantity) hzero
    simp only [UInt32.sub_add_cancel, UInt32.zero_add] at hall
    rw [hbooks]
    exact hgone hall.symm

/-- The fills of an order, and of the orders it met, are the same trades. -/
def SameTrades (fills : List Fill) (fs : List PassiveFill) : Prop :=
  (fills.map fun f => (f.tradeId, f.price, f.quantity)) =
    fs.map fun f => (f.tradeId, f.price, f.quantity)

/-- **The loop hits the orders that are met**, one after the other. -/
theorem matchLoop_moves {fuel : Nat} {remaining remaining' : UInt32} {fills : List Fill}
    (hreps : Reps (x.engine.books.book o.symbolId) os)
    (hfuel : (x.engine.books.book o.symbolId).len < fuel)
    (h : matchLoop env o fuel x remaining = .ok (x', remaining', fills)) :
    Moves x.engine x'.engine (Matching.strikes o.symbolId o.side remaining x.engine.nextTradeId
        (met o.side o.price os)) none ∧
      SameTrades fills (Matching.strikes o.symbolId o.side remaining x.engine.nextTradeId
        (met o.side o.price os)) := by
  induction fuel generalizing x remaining fills os with
  | zero => exact absurd hfuel (Nat.not_lt_zero _)
  | succ fuel ih =>
    unfold matchLoop at h
    split at h
    · rename_i hzero
      cases h
      rw [hzero, strikes_zero]
      exact ⟨.refl _, rfl⟩
    rename_i hpos
    obtain ⟨⟨x₁, turn⟩, hturn, h⟩ := bind_eq_ok h
    have hshrinks := @matchTurn_shrinks env x x₁ o remaining
    have hcreated := Moves.getOrCreate x.engine o.symbolId
    rcases matchTurn_cases hreps hturn with ⟨rfl, rfl, hmet⟩ |
      ⟨resting, rest, remaining₁, fill, rfl, hmet, hmem, hrest, hfill⟩
    · cases h
      rw [hmet]
      exact ⟨hcreated, rfl⟩
    obtain ⟨⟨x₂, remaining₂, fills₂⟩, hloop, h⟩ := bind_eq_ok h
    cases h
    obtain ⟨-, -, os', hreps', hfilled⟩ := fillResting_filled (reps_getOrCreate hreps) hmem hfill
    obtain ⟨htradeId, hleft, hfill, hmoves⟩ :=
      fillResting_moves ((reps_getOrCreate hreps).get_of_mem hmem) hfill
    have hturned := hcreated.trans hmoves
    -- What the rest of the loop hits: nothing where the order is used up.
    have hloop' : Moves x₁.engine x'.engine (Matching.strikes o.symbolId o.side remaining₁
          x₁.engine.nextTradeId rest) none ∧
        SameTrades fills₂ (Matching.strikes o.symbolId o.side remaining₁ x₁.engine.nextTradeId
          rest) := by
      by_cases hzero : remaining₁ = 0
      · rw [hzero, matchLoop_done] at hloop
        cases hloop
        rw [hzero, strikes_zero]
        exact ⟨.refl _, rfl⟩
      · have hlen := (hshrinks hturn).resolve_left hzero
        cases hfilled with
        | all hle hless =>
          have hih := ih hreps' (by omega) hloop
          rwa [hrest] at hih
        | part hlt hquantity hused => exact absurd (UInt32.toNat_inj.mp hused) hzero
    rw [hmet, Matching.strikes, if_neg hpos]
    subst hleft hfill
    rw [htradeId] at hloop'
    exact ⟨hturned.trans hloop'.1, congrArg _ hloop'.2⟩

theorem rest_moves {remaining : UInt32} {generatorMayRecycle : Bool}
    (h : x.rest env o remaining generatorMayRecycle = .ok x') :
    Moves x.engine x'.engine [] (if remaining = 0 then none else some (o.symbolId, o.orderId)) := by
  unfold rest at h
  split at h
  · rename_i hzero
    cases h
    rw [if_pos hzero]
    exact .refl _
  · rename_i hpos
    obtain ⟨x₁, hpublish, h⟩ := bind_eq_ok h
    obtain ⟨hadded, -⟩ := publish_moves hpublish
    rw [if_neg hpos]
    obtain rfl := Except.ok.inj h
    split
    · exact hadded.after (.modifySymbol _ _ _)
    · exact hadded

/-- **What a submitted order does**: it hits the orders it meets, it comes to rest if something of
it is left, and its fills are the fills of the orders it met. -/
theorem submitReported_moves {symbolId : UInt16} {side : Side} {price : Int64} {quantity : UInt32}
    {generatorMayRecycle : Bool} {outcome : SubmitOutcome} {fills : List Fill}
    (hreps : Reps (x.engine.books.book symbolId) os)
    (h : x.submitReported env symbolId side price quantity generatorMayRecycle =
      .ok (x', outcome, fills)) :
    Moves x.engine x'.engine (x.strikes symbolId side price quantity)
        (if outcome.resting = 0 then none else some (symbolId, outcome.orderId)) ∧
      SameTrades fills (x.strikes symbolId side price quantity) := by
  obtain ⟨⟨x₁, remaining, fills₁⟩, hloop, h⟩ := bind_eq_ok h
  obtain ⟨x₂, hrest, h⟩ := bind_eq_ok h
  cases h
  have hnumbered : Moves x.engine { x.engine with nextOrderId := x.engine.nextOrderId + 1 } [] none :=
    .of_agree (.refl _) rfl rfl rfl rfl
  obtain ⟨hmatched, hsame⟩ := matchLoop_moves hreps (Nat.lt_succ_self _) hloop
  unfold strikes
  rw [meeting_eq hreps]
  have hmoves := (hnumbered.trans hmatched).trans (rest_moves hrest)
  rw [List.append_nil] at hmoves
  exact ⟨hmoves, hsame⟩

theorem cancelReported_moves {symbolId : UInt16} {orderId : UInt64} {answer : Option UInt32}
    (h : x.cancelReported env symbolId orderId = .ok (x', answer)) :
    Moves x.engine x'.engine [] none := by
  unfold cancelReported at h
  dsimp only at h
  have hcreated := Moves.getOrCreate x.engine symbolId
  split at h
  · cases h
    exact hcreated
  · obtain ⟨x₁, hpublish, h⟩ := bind_eq_ok h
    cases h
    exact (hcreated.trans (publish_moves hpublish).1).trans (.modifySymbol _ _ _)

theorem amend_moves {symbolId : UInt16} {orderId : UInt64} {newPrice : Option Int64}
    {newQuantity : UInt32} (h : x.amend env symbolId orderId newPrice newQuantity = .ok x') :
    Moves x.engine x'.engine [] none := by
  unfold amend at h
  dsimp only at h
  have hcreated := Moves.getOrCreate x.engine symbolId
  split at h
  · cases h
    exact hcreated
  · rename_i resting _
    have hcomes : ∀ price, (amendChange resting orderId price newQuantity).comes symbolId = none := by
      intro price
      unfold amendChange
      split <;> rfl
    obtain ⟨hmoves, -⟩ := publish_moves h
    rw [hcomes] at hmoves
    exact hcreated.trans hmoves

/-- The order that a call puts on a book has the next id, and that id is then used. -/
structure Numbers (e e' : Engine) (new : Option (UInt16 × UInt64)) : Prop where
  new : ∀ t id, new = some (t, id) → id = e.nextOrderId ∧ e'.nextOrderId = e.nextOrderId + 1
  next : e'.nextOrderId = e.nextOrderId ∨ e'.nextOrderId = e.nextOrderId + 1

theorem Numbers.same {e e' : Engine} (h : e'.nextOrderId = e.nextOrderId) : Numbers e e' none :=
  ⟨fun _ _ h => (nomatch h), .inl h⟩

theorem submitReported_numbers {symbolId : UInt16} {side : Side} {price : Int64}
    {quantity : UInt32} {generatorMayRecycle : Bool} {outcome : SubmitOutcome} {fills : List Fill}
    (h : x.submitReported env symbolId side price quantity generatorMayRecycle =
      .ok (x', outcome, fills)) : Numbers x.engine x'.engine
        (if outcome.resting = 0 then none else some (symbolId, outcome.orderId)) := by
  have hsubmitted := submitted h
  refine ⟨fun t id hnew => ?_, .inr hsubmitted.next⟩
  split at hnew
  · cases hnew
  · cases hnew
    exact ⟨hsubmitted.orderId, hsubmitted.next⟩

/-- **What a call of the engine does.** -/
theorem call_moves {c : Call} (hreps : ∀ t, ∃ os, Reps (x.engine.books.book t) os)
    (h : x.call env c = .ok x') :
    ∃ new, Moves x.engine x'.engine (x.struckBy c) new ∧ Numbers x.engine x'.engine new := by
  cases c with
  | submit symbolId side price quantity =>
    obtain ⟨⟨x₁, outcome, fills⟩, hsubmit, rfl⟩ := map_eq_ok h
    obtain ⟨os, hos⟩ := hreps symbolId
    exact ⟨_, (submitReported_moves hos hsubmit).1, submitReported_numbers hsubmit⟩
  | submitReported symbolId side price quantity generatorMayRecycle =>
    obtain ⟨⟨x₁, outcome, fills⟩, hsubmit, rfl⟩ := map_eq_ok h
    obtain ⟨os, hos⟩ := hreps symbolId
    exact ⟨_, (submitReported_moves hos hsubmit).1, submitReported_numbers hsubmit⟩
  | cancel symbolId orderId =>
    obtain ⟨⟨x₁, answer⟩, hcancel, rfl⟩ := map_eq_ok h
    exact ⟨none, cancelReported_moves hcancel, .same (canceled hcancel).spares.next⟩
  | amend => exact ⟨none, amend_moves h, .same (amend_spares h).next⟩
  | flushOnTimer =>
    obtain ⟨p, hflush, rfl⟩ := map_eq_ok h
    exact ⟨none, .refl _, .same rfl⟩

end Exchange

end MarketData.Matching
