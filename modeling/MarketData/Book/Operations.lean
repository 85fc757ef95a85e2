import MarketData.Book.Arrivals

/-!
# `Book/Operations.lean` — messages as book operations

What `apply_message` does with a message of the live feed, as the one operation it asks of one
symbol's book. Which books the consumer keeps makes no difference to that.

`applyMessage` matches on the message, reads a side or a reason from its raw byte, creates the
symbol's book and calls one of four methods, and a consumer's proof that went through it would
repeat that for every message and for either kind of book. `opOf` names the operation once, `none`
for a message that asks for none, and `applyMessage_of_op` says that a message **is** its operation,
on the book of its symbol and on no other.

## What it does not cover

A snapshot fragment is not one operation but as many adds as it carries, on one book, and may stop
half way; `Book/Rebuild.lean` is about those. A message whose side or reason byte is none of the
defined ones asks for no operation and is an error; for a modify the symbol's book has been created
by then, which shows only in the set's visit order.

`placedBy` picks out the price at which a message puts an order, which is all that the grid of a
symbol has to say about it.
-/

set_option autoImplicit false

namespace MarketData.Book

open MarketData.Wire

/-- The price at which an operation puts an order on the book. -/
def Op.placed : Op → Option Int64
  | .add _ _ price _ => some price
  | .replace _ newPrice _ => some newPrice
  | _ => none

/-- The operation a message asks one symbol's book for. -/
def opOf : Message → Option (UInt16 × Op)
  | .addOrder d =>
    d.side.toOption.map fun side => (d.symbolId, .add d.orderId side d.price d.quantity)
  | .modifyOrder d => d.reason.toOption.map fun
    | .reduce => (d.symbolId, .reduce d.orderId d.newQuantity)
    | .replace => (d.symbolId, .replace d.orderId d.newPrice d.newQuantity)
  | .deleteOrder d => some (d.symbolId, .delete d.orderId)
  | _ => none

/-- The symbol and the price at which a message puts an order on a book. -/
def placedBy (m : Message) : Option (UInt16 × Int64) :=
  (opOf m).bind fun (symbolId, op) => op.placed.map fun price => (symbolId, price)

def isSnapshot : Message → Bool
  | .snapshot _ => true
  | _ => false

/-! ## Applying -/

theorem onBook_step {B α : Type} (books : BookSet B) (symbolId : UInt16)
    (f : B → Except BookError α × B) (g : α → Option RestingOrder) :
    ((onBook books symbolId f).1 = .ok () ↔
      ((f (books.book symbolId)).1.map g).toOption.isSome) ∧
    ∀ t, (onBook books symbolId f).2.book t =
      if symbolId = t then (f (books.book symbolId)).2 else books.book t := by
  unfold onBook
  cases f (books.book symbolId) with
  | mk result b =>
    cases result with
    | ok a => exact ⟨⟨fun _ => rfl, fun _ => rfl⟩, fun t => BookSet.book_put ..⟩
    | error e => exact ⟨⟨fun h => (nomatch h), fun h => (nomatch h)⟩, fun t => BookSet.book_put ..⟩

variable {B : Type} [OrderBook B]

/-- **A message is its operation**, on the book of its symbol and on no other. -/
theorem applyMessage_of_op (books : BookSet B) {m : Message} {symbolId : UInt16} {op : Op}
    (h : opOf m = some (symbolId, op)) :
    ((applyMessage books m).1 = .ok () ↔
      (OrderBook.step (books.book symbolId) op).1.toOption.isSome) ∧
    ∀ t, (applyMessage books m).2.book t =
      if symbolId = t then (OrderBook.step (books.book symbolId) op).2 else books.book t := by
  cases m with
  | addOrder d =>
    simp only [applyMessage]
    simp only [opOf] at h
    cases hside : d.side with
    | error e =>
      rw [hside] at h
      cases h
    | ok side =>
      rw [hside] at h
      cases h
      exact onBook_step books d.symbolId (fun b => OrderBook.add b d.orderId side d.price d.quantity)
        fun _ => none
  | modifyOrder d =>
    -- the book is created before the reason is read
    have hcreated := BookSet.agree_put_self books d.symbolId
    simp only [applyMessage]
    simp only [opOf] at h
    generalize books.put d.symbolId (books.book d.symbolId) = books' at hcreated ⊢
    cases hreason : d.reason with
    | error e =>
      rw [hreason] at h
      cases h
    | ok reason =>
      rw [hreason] at h
      cases reason with
      | reduce =>
        cases h
        have hstep := onBook_step books' d.symbolId
          (fun b => OrderBook.reduce b d.orderId d.newQuantity) fun _ => none
        simp only [hcreated d.symbolId] at hstep
        exact ⟨hstep.1, fun t => (hcreated t) ▸ hstep.2 t⟩
      | replace =>
        cases h
        have hstep := onBook_step books' d.symbolId
          (fun b => OrderBook.replace b d.orderId d.newPrice d.newQuantity) fun _ => none
        simp only [hcreated d.symbolId] at hstep
        exact ⟨hstep.1, fun t => (hcreated t) ▸ hstep.2 t⟩
  | deleteOrder d =>
    cases h
    exact onBook_step books d.symbolId (fun b => OrderBook.delete b d.orderId) some
  | trade d => cases h
  | snapshot d => cases h
  | heartbeat lastSequence => cases h
  | sequenceReset newSequence => cases h

/-- A message without an operation is refused or not for what it says, and changes no book. -/
theorem applyMessage_of_none {B' : Type} [OrderBook B'] (books : BookSet B) (books' : BookSet B')
    {m : Message} (h : opOf m = none) (hplain : isSnapshot m = false) :
    (applyMessage books m).1 = (applyMessage books' m).1 ∧ (applyMessage books m).2.Agree books := by
  cases m with
  | addOrder d =>
    simp only [opOf] at h
    simp only [applyMessage]
    cases hside : d.side with
    | error e => exact ⟨rfl, .refl books⟩
    | ok side =>
      rw [hside] at h
      cases h
  | modifyOrder d =>
    simp only [opOf] at h
    simp only [applyMessage]
    cases hreason : d.reason with
    | error e => exact ⟨rfl, BookSet.agree_put_self books d.symbolId⟩
    | ok reason =>
      rw [hreason] at h
      cases h
  | deleteOrder d => cases h
  | trade d => exact ⟨rfl, .refl books⟩
  | snapshot d => cases hplain
  | heartbeat lastSequence => exact ⟨rfl, .refl books⟩
  | sequenceReset newSequence => exact ⟨rfl, .refl books⟩

end MarketData.Book
