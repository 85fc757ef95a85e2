import MarketData.Matching.Owners
import MarketData.Matching.Steady

/-!
# `Matching/Flows.lean` — an engine on a steady feed

What the engine announces rebuilds its books, so the self-check never has a reason to object
(`Flows`). A call on an engine whose feed can send then either succeeds or is refused by the book
(`Refused`), and the book of an engine with ids left refuses no more than an amend to a quantity of
zero (`call_succeeds`).

## Two things that could stop each other

The publisher can only refuse a message if the messages so far do not rebuild the books, and the
engine can only announce a wrong message if the publisher let it change a book and then failed. So
the two have to be carried along together: `Flows` says of an engine and a publisher that what was
announced so far rebuilds the books there are, *and* that nothing is in the way of the next message.
A change is checked by the book before it is announced, and what is announced is what was done; with
that each call keeps both.

What remains are the refusals of a book. An id that was given out once is on no book twice, so it is
only the quantity of an amend that a caller can get wrong.
-/

set_option autoImplicit false

namespace MarketData.Matching

open MarketData.Wire MarketData.Book FeedPublisher

/-- An error that is not the feed's. -/
def Refused (e : IoError) : Prop := ¬e.OfFeed

/-- The engine announced `ms`, they rebuild its books, and nothing is in the way of the next. -/
structure Flows (batchSize : UInt16) (maxBytes : Nat) (x : Exchange) (ms : List Message) :
    Prop where
  flowing : Flowing batchSize maxBytes x.feed ms
  apply : Apply ms
  books : (replayed Books.new (numbered 1 ms)).Agree x.engine.books

def Flow (batchSize : UInt16) (maxBytes : Nat) (x : Exchange) : Prop :=
  ∃ ms, Flows batchSize maxBytes x ms

variable {env : Env} {batchSize : UInt16} {maxBytes : Nat} {x x' : Exchange} {ms : List Message}

/-! ## One change -/

/-- The change, made to the engine's book of the symbol. -/
def Engine.made (e : Engine) (symbolId : UInt16) : Change → Except IoError Engine
  | .add orderId side price quantity =>
    e.store symbolId ((e.books.book symbolId).add orderId side price quantity)
  | .reduce orderId _ _ newQuantity =>
    e.store symbolId ((e.books.book symbolId).reduce orderId newQuantity)
  | .replace orderId _ newPrice newQuantity =>
    e.store symbolId ((e.books.book symbolId).replace orderId newPrice newQuantity)
  | .delete orderId _ => e.store symbolId ((e.books.book symbolId).delete orderId)
  | .trade .. => .ok (e.getOrCreate symbolId)

/-- A publish makes the change and emits one message that fits an empty datagram. -/
theorem Engine.publish_eq (env : Env) (symbolId : UInt16) (change : Change) :
    ∃ block, Decodes block (change.message symbolId) ∧ block.length ≤ 48 ∧
      ∀ (e : Engine) (p : FeedPublisher), e.publish env p symbolId change =
        (e.made symbolId change >>= fun e' =>
          FeedPublisher.emit env p (encodeBlock block) >>= fun r => .ok (r.1, e', r.2)) := by
  cases change with
  | add orderId side price quantity =>
    refine ⟨_, decodes_addOrder orderId price quantity symbolId side, ?_, fun e p => rfl⟩
    simp [addOrderBlock, rootBlock, writeMessageHeader, messageHeaderLen]
  | reduce orderId side price newQuantity =>
    refine ⟨_, decodes_modifyOrder orderId price newQuantity symbolId side .reduce, ?_,
      fun e p => rfl⟩
    simp [modifyOrderBlock, rootBlock, writeMessageHeader, messageHeaderLen]
  | replace orderId side newPrice newQuantity =>
    refine ⟨_, decodes_modifyOrder orderId newPrice newQuantity symbolId side .replace, ?_,
      fun e p => rfl⟩
    simp [modifyOrderBlock, rootBlock, writeMessageHeader, messageHeaderLen]
  | delete orderId side =>
    refine ⟨_, decodes_deleteOrder orderId symbolId side, ?_, fun e p => rfl⟩
    simp [deleteOrderBlock, rootBlock, writeMessageHeader, messageHeaderLen]
  | trade tradeId aggressorOrderId restingOrderId price quantity aggressorSide =>
    refine ⟨_, decodes_trade tradeId aggressorOrderId restingOrderId price quantity symbolId
      aggressorSide, ?_, fun e p => rfl⟩
    simp [tradeBlock, rootBlock, writeMessageHeader, messageHeaderLen]

theorem Engine.made_error {e : Engine} {symbolId : UInt16} {change : Change} {err : IoError}
    (h : e.made symbolId change = .error err) : Refused err := by
  have hstore : ∀ {α : Type} {r : Except BookError α × ReferenceBook},
      e.store symbolId r = .error err → Refused err := by
    intro α r hr
    obtain ⟨refusal, -, rfl⟩ := Engine.store_error hr
    exact id
  cases change with
  | trade => cases h
  | add => exact hstore h
  | reduce => exact hstore h
  | replace => exact hstore h
  | delete => exact hstore h

/-- The message of a change does what the change does. -/
theorem Engine.made_announces {e e' : Engine} {symbolId : UInt16} {change : Change}
    (h : e.made symbolId change = .ok e') :
    Announces (change.message symbolId) e.books e'.books := by
  have hop := opOf_message symbolId change
  cases change with
  | add orderId side price quantity =>
    obtain ⟨a, b, hadd, rfl⟩ := Engine.store_ok h
    exact announces_of_op hop rfl hadd
  | reduce orderId side price newQuantity =>
    obtain ⟨a, b, hreduce, rfl⟩ := Engine.store_ok h
    exact announces_of_op hop rfl hreduce
  | replace orderId side newPrice newQuantity =>
    obtain ⟨a, b, hreplace, rfl⟩ := Engine.store_ok h
    exact announces_of_op hop rfl hreplace
  | delete orderId side =>
    obtain ⟨order, b, hdelete, rfl⟩ := Engine.store_ok h
    exact announces_of_op hop rfl hdelete
  | trade =>
    cases h
    intro books hagree
    exact ⟨books, rfl, hagree.trans (BookSet.agree_put_self e.books symbolId).symm⟩

theorem apply_append {m : Message} (h : Apply ms)
    (hm : (applyMessage (replayed Books.new (numbered 1 ms)) m).1 = .ok ()) : Apply (ms ++ [m]) := by
  intro a ha
  rw [numbered_append, replay_append] at ha
  rcases List.mem_append.mp ha with ha | ha
  · exact h a ha
  · rw [List.mem_singleton.mp ha]
    exact hm

/-- **A publish** is refused by the book, or announces what was done to it. -/
theorem Flow.publish (hsend : ∀ n, env.sendOk n = true) (hroom : largestDatagram ≤ maxBytes)
    (hx : Flow batchSize maxBytes x) (symbolId : UInt16) (change : Change) :
    Ends (Flow batchSize maxBytes) Refused (x.publish env symbolId change) := by
  obtain ⟨ms, hx⟩ := hx
  obtain ⟨block, hm, hblock, hpublish⟩ := Engine.publish_eq env symbolId change
  unfold Exchange.publish
  rw [hpublish]
  cases hmade : x.engine.made symbolId change with
  | error e => exact Engine.made_error hmade
  | ok e' =>
    obtain ⟨seq, p', hemit, hflowing⟩ := hx.flowing.emit hsend hroom hx.apply hm hblock
    obtain ⟨books', happly, hagree⟩ := Engine.made_announces hmade _ hx.books
    show Ends _ _ ((FeedPublisher.emit env x.feed (encodeBlock block) >>= _) >>= _)
    rw [hemit]
    refine ⟨ms ++ [change.message symbolId], hflowing, ?_, ?_⟩
    · exact apply_append hx.apply (by rw [happly])
    · rw [numbered_append, replayed_append]
      show (applyMessage _ (change.message symbolId)).2.Agree e'.books
      rw [happly]
      exact hagree

/-- What the engine does beside the feed may create a book and nothing else. -/
theorem Flow.mapEngine {f : Engine → Engine} (hx : Flow batchSize maxBytes x)
    (hf : (f x.engine).books.Agree x.engine.books) :
    Flow batchSize maxBytes (x.mapEngine f) := by
  obtain ⟨ms, hx⟩ := hx
  exact ⟨ms, hx.flowing, hx.apply, hx.books.trans hf.symm⟩

theorem Flow.getOrCreate (hx : Flow batchSize maxBytes x) (symbolId : UInt16) :
    Flow batchSize maxBytes (x.mapEngine fun e => e.getOrCreate symbolId) :=
  hx.mapEngine (BookSet.agree_put_self _ _)

theorem Flow.modifySymbol (hx : Flow batchSize maxBytes x) (symbolId : UInt16)
    (f : SymbolState → SymbolState) :
    Flow batchSize maxBytes (x.mapEngine fun e => e.modifySymbol symbolId f) := by
  apply hx.mapEngine
  rw [Engine.books_modifySymbol]
  exact .refl _

theorem Flow.recordPassiveFill (hx : Flow batchSize maxBytes x) (fill : PassiveFill) :
    Flow batchSize maxBytes (x.mapEngine fun e => e.recordPassiveFill fill) := by
  apply hx.mapEngine
  rw [Engine.books_recordPassiveFill]
  exact .refl _

/-! ## Calls -/

section Calls

variable (hsend : ∀ n, env.sendOk n = true) (hroom : largestDatagram ≤ maxBytes) {o : Aggressor}

include hsend hroom

theorem Flow.fillResting (hx : Flow batchSize maxBytes x) (bestPrice : Int64)
    (restingId : UInt64) (resting : RestingOrder) (remaining : UInt32) :
    Ends (fun r => Flow batchSize maxBytes r.1) Refused
      (x.fillResting env o bestPrice restingId resting remaining) := by
  unfold Exchange.fillResting
  apply Ends.bind (Flow.publish hsend hroom (hx.mapEngine (.refl _)) _ _)
  intro x₁ hx₁
  apply Ends.bind (Flow.publish hsend hroom hx₁ _ _)
  intro x₂ hx₂
  have hremoved : ∀ P : Prop, ∀ _ : Decidable P, Flow batchSize maxBytes
      (if P then x₂.mapEngine fun e => e.removeLive o.symbolId restingId else x₂) := by
    intro P _
    split
    · exact hx₂.modifySymbol _ _
    · exact hx₂
  exact (hremoved _ _).recordPassiveFill _

/-- The front that is no order on the book is an error that is not the feed's. -/
theorem Flow.matchTurn (hx : Flow batchSize maxBytes x) (remaining : UInt32) :
    Ends (fun r => Flow batchSize maxBytes r.1) Refused (x.matchTurn env o remaining) := by
  have hx₁ := hx.getOrCreate o.symbolId
  unfold Exchange.matchTurn
  dsimp only
  split
  · exact hx₁
  · split
    · split
      · exact id
      · apply Ends.bind (Flow.fillResting hsend hroom hx₁ _ _ _ _)
        rintro ⟨x₂, remaining₂, fill⟩ hx₂
        exact hx₂
    · exact hx₁

theorem Flow.matchLoop (fuel : Nat) (hx : Flow batchSize maxBytes x) (remaining : UInt32) :
    Ends (fun r => Flow batchSize maxBytes r.1) Refused
      (Exchange.matchLoop env o fuel x remaining) := by
  induction fuel generalizing x remaining with
  | zero => exact hx
  | succ fuel ih =>
    unfold Exchange.matchLoop
    split
    · exact hx
    · apply Ends.bind (Flow.matchTurn hsend hroom hx remaining)
      rintro ⟨x₁, turn⟩ hx₁
      cases turn with
      | none => exact hx₁
      | some taken =>
        obtain ⟨remaining₁, fill⟩ := taken
        apply Ends.bind (ih hx₁ remaining₁)
        rintro ⟨x₂, remaining₂, fills⟩ hx₂
        exact hx₂

theorem Flow.rest (hx : Flow batchSize maxBytes x) (remaining : UInt32)
    (generatorMayRecycle : Bool) :
    Ends (Flow batchSize maxBytes) Refused (x.rest env o remaining generatorMayRecycle) := by
  unfold Exchange.rest
  split
  · exact hx
  · apply Ends.bind (Flow.publish hsend hroom hx _ _)
    intro x₁ hx₁
    cases generatorMayRecycle with
    | true => exact hx₁.modifySymbol _ _
    | false => exact hx₁

theorem Flow.submitReported (hx : Flow batchSize maxBytes x) (symbolId : UInt16) (side : Side)
    (price : Int64) (quantity : UInt32) (generatorMayRecycle : Bool) :
    Ends (fun r => Flow batchSize maxBytes r.1) Refused
      (x.submitReported env symbolId side price quantity generatorMayRecycle) := by
  unfold Exchange.submitReported
  apply Ends.bind (Flow.matchLoop hsend hroom _ (hx.mapEngine (.refl _)) quantity)
  rintro ⟨x₁, remaining, fills⟩ hx₁
  apply Ends.bind (Flow.rest hsend hroom hx₁ remaining generatorMayRecycle)
  intro x₂ hx₂
  exact hx₂

theorem Flow.cancelReported (hx : Flow batchSize maxBytes x) (symbolId : UInt16)
    (orderId : UInt64) :
    Ends (fun r => Flow batchSize maxBytes r.1) Refused
      (x.cancelReported env symbolId orderId) := by
  have hx₁ := hx.getOrCreate symbolId
  unfold Exchange.cancelReported
  dsimp only
  split
  · exact hx₁
  · apply Ends.bind (Flow.publish hsend hroom hx₁ _ _)
    intro x₂ hx₂
    exact hx₂.modifySymbol _ _

theorem Flow.amend (hx : Flow batchSize maxBytes x) (symbolId : UInt16) (orderId : UInt64)
    (newPrice : Option Int64) (newQuantity : UInt32) :
    Ends (Flow batchSize maxBytes) Refused
      (x.amend env symbolId orderId newPrice newQuantity) := by
  have hx₁ := hx.getOrCreate symbolId
  unfold Exchange.amend
  dsimp only
  split
  · exact hx₁
  · exact Flow.publish hsend hroom hx₁ _ _

/-- The engine announced what rebuilds its books, and all of it is flushed. -/
def Settled (batchSize : UInt16) (maxBytes : Nat) (x : Exchange) : Prop :=
  ∃ ms, Steady batchSize maxBytes x.feed ms [] ∧ Apply ms ∧
    (replayed Books.new (numbered 1 ms)).Agree x.engine.books

omit hsend hroom in
theorem Settled.flow (hx : Settled batchSize maxBytes x) : Flow batchSize maxBytes x := by
  obtain ⟨ms, hsteady, happly, hbooks⟩ := hx
  exact ⟨ms, ⟨ms, [], (List.append_nil ms).symm, hsteady⟩, happly, hbooks⟩

theorem Flow.flush (hx : Flow batchSize maxBytes x) :
    ∃ p, FeedPublisher.flush env x.feed = .ok p ∧
      Settled batchSize maxBytes { x with feed := p } := by
  obtain ⟨ms, ⟨flushed, pending, rfl, hsteady⟩, happly, hbooks⟩ := hx
  obtain ⟨p, hflush, hp, -⟩ := hsteady.flush hsend hroom happly
  exact ⟨p, hflush, flushed ++ pending, hp, happly, hbooks⟩

/-- **A call** on an engine whose feed can send fails only where the book refuses. -/
theorem Flow.call (hx : Flow batchSize maxBytes x) (c : Call) :
    Ends (Flow batchSize maxBytes) Refused (x.call env c) := by
  cases c with
  | submit symbolId side price quantity =>
    exact (Flow.submitReported hsend hroom hx symbolId side price quantity true).map fun _ h => h
  | submitReported symbolId side price quantity generatorMayRecycle =>
    exact (Flow.submitReported hsend hroom hx symbolId side price quantity
      generatorMayRecycle).map fun _ h => h
  | cancel symbolId orderId =>
    exact (Flow.cancelReported hsend hroom hx symbolId orderId).map fun _ h => h
  | amend symbolId orderId newPrice newQuantity =>
    exact Flow.amend hsend hroom hx symbolId orderId newPrice newQuantity
  | flushOnTimer =>
    obtain ⟨p, hflush, hp⟩ := Flow.flush hsend hroom hx
    show Ends _ _ ((FeedPublisher.flush env x.feed).map _)
    rw [hflush]
    exact hp.flow

/-- A heartbeat says nothing about the books. -/
theorem Flow.heartbeat (hx : Flow batchSize maxBytes x) (lastSequence : UInt64) :
    ∃ seq p, x.feed.heartbeat env lastSequence = .ok (seq, p) ∧
      Flow batchSize maxBytes { x with feed := p } := by
  obtain ⟨ms, hx⟩ := hx
  obtain ⟨seq, p, hemit, hp⟩ := hx.flowing.emit hsend hroom hx.apply
    (decodes_heartbeat lastSequence) (by simp [heartbeatBlock, rootBlock, writeMessageHeader,
      messageHeaderLen])
  refine ⟨seq, p, hemit, ms ++ [.heartbeat lastSequence], hp, apply_append hx.apply rfl, ?_⟩
  rw [numbered_append, replayed_append]
  exact hx.books

theorem Flow.publishSnapshot (hx : Flow batchSize maxBytes x) :
    ∃ p cycle, x.feed.publishSnapshot env x.engine.books = .ok (p, cycle) ∧
      Settled batchSize maxBytes { x with feed := p } := by
  obtain ⟨ms, ⟨flushed, pending, rfl, hsteady⟩, happly, hbooks⟩ := hx
  obtain ⟨p, cycle, hcycle, hp⟩ :=
    hsteady.publishSnapshot hsend hroom happly x.engine.books
  exact ⟨p, cycle, hcycle, flushed ++ pending, hp, happly, hbooks⟩

end Calls

/-! ## What the book refuses -/

namespace Exchange

/-- An operation on an order that rests, to a quantity that is left, is no operation to refuse. -/
theorem step_resting {b : ReferenceBook} {os : List RestingOrder} (hreps : Reps b os)
    {orderId : UInt64} {resting : RestingOrder} (hget : b.get orderId = some resting) :
    (∃ a, (Arrivals.step os (.delete orderId)).1 = .ok a) ∧
      ∀ price quantity, quantity ≠ 0 →
        (∃ a, (Arrivals.step os (.replace orderId price quantity)).1 = .ok a) ∧
        (quantity < resting.quantity → ∃ a, (Arrivals.step os (.reduce orderId quantity)).1 = .ok a) := by
  have hlookup : Arrivals.lookup os orderId = some resting := (hreps.orders orderId).symm.trans hget
  refine ⟨?_, fun price quantity hleft => ⟨?_, fun hless => ?_⟩⟩
  · rw [Arrivals.step, hlookup]
    exact ⟨_, rfl⟩
  · rw [Arrivals.step, if_neg hleft, hlookup]
    exact ⟨_, rfl⟩
  · rw [Arrivals.step, hlookup]
    dsimp only
    rw [if_neg hleft, if_neg (UInt32.not_lt.mpr (UInt32.le_of_lt hless))]
    exact ⟨_, rfl⟩

variable {e : IoError}

/-- The next id is on no book, so the remainder of an order finds its place. -/
theorem submitReported_unrefused (hs : x.engine.Sound) {symbolId : UInt16} {side : Side}
    {price : Int64} {quantity : UInt32} {generatorMayRecycle : Bool}
    (h : x.submitReported env symbolId side price quantity generatorMayRecycle = .error e) :
    e.OfFeed := by
  obtain ⟨os, hos⟩ := hs.reps symbolId
  rcases submitReported_error hos h with hfeed | ⟨-, r, hr, hid⟩
  · exact hfeed
  · have hrests : ((x.engine.books.book symbolId).get x.engine.nextOrderId).isSome = true := by
      rw [← hid, hos.get_of_mem hr]
      rfl
    exact absurd (hs.below symbolId _ hrests) (UInt64.lt_irrefl _)

theorem cancelReported_unrefused (hs : x.engine.Sound) {symbolId : UInt16} {orderId : UInt64}
    (h : x.cancelReported env symbolId orderId = .error e) : e.OfFeed := by
  obtain ⟨os, hos⟩ := hs.reps symbolId
  have hcreated := reps_getOrCreate hos
  unfold cancelReported at h
  dsimp only at h
  split at h
  · cases h
  · rename_i resting hget
    rcases bind_eq_error h with hdelete | ⟨x₁, -, h⟩
    · refine publish_error hcreated (fun op hop => ?_) hdelete
      cases hop
      exact (step_resting hcreated hget).1
    · cases h

theorem amend_unrefused (hs : x.engine.Sound) {symbolId : UInt16} {orderId : UInt64}
    {newPrice : Option Int64} {newQuantity : UInt32} (hleft : newQuantity ≠ 0)
    (h : x.amend env symbolId orderId newPrice newQuantity = .error e) : e.OfFeed := by
  obtain ⟨os, hos⟩ := hs.reps symbolId
  have hcreated := reps_getOrCreate hos
  unfold amend at h
  dsimp only at h
  split at h
  · cases h
  · rename_i resting hget
    refine publish_error hcreated (fun op hop => ?_) h
    obtain ⟨hreplace, hreduce⟩ := (step_resting hcreated hget).2
      (newPrice.getD resting.price) newQuantity hleft
    unfold amendChange at hop
    split at hop
    · rename_i hsmaller
      cases hop
      exact hreduce hsmaller.2
    · cases hop
      exact hreplace

end Exchange

/-- No order is amended to nothing. -/
def Call.Leaves : Call → Prop
  | .amend _ _ _ newQuantity => newQuantity ≠ 0
  | _ => True

/-- **A call succeeds** on an engine with sound books and a feed that can send. -/
theorem call_succeeds (hsend : ∀ n, env.sendOk n = true) (hroom : largestDatagram ≤ maxBytes)
    (hx : Flow batchSize maxBytes x) (hs : x.engine.Sound) {c : Call} (hc : c.Leaves) :
    ∃ x', x.call env c = .ok x' ∧ Flow batchSize maxBytes x' := by
  have hends := Flow.call hsend hroom hx c
  apply hends.ok_of_not
  intro e he hrefused
  apply hrefused
  cases c with
  | submit => exact Exchange.submitReported_unrefused hs (map_eq_error he)
  | submitReported => exact Exchange.submitReported_unrefused hs (map_eq_error he)
  | cancel => exact Exchange.cancelReported_unrefused hs (map_eq_error he)
  | amend => exact Exchange.amend_unrefused hs hc he
  | flushOnTimer => exact FeedPublisher.flush_error (map_eq_error he)

end MarketData.Matching
