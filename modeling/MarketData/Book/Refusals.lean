import MarketData.Book.MboRebuild

/-!
# `Book/Refusals.lean` — what the two books refuse

Apart from the limits of its size (`BookError.forCapacity`), what the fast book refuses can be
read off the orders it holds, and the same is true of the reference book. `refusal` says what
either refuses; the two differ in one place, a reduce to nothing of an order that does not rest,
which the reference book looks up before it reads the quantity and the fast book after.

## Two kinds of refusal

A refusal **for the arguments** (nothing asked for, an id that rests already or does not rest, a
reduce that would not reduce) is found before the book is touched, and the book afterwards is equal
to the book before. A refusal **for want of room** comes later, and the window may have moved.
`Refuses` says of an operation which of the two it can end in, and `step_refuses` that `refusal`
tells them apart from nothing but the orders the book finds by id.

The rest of the development relies on that in two ways: an operation that `refusal` names needs no
hypothesis about the tick arithmetic, and it is neutral in every run.

## The one disagreement

With both defects present, a zero quantity for an unknown id, each book reports the defect it finds
first. `refuse_alike_iff` is exact: over any two books with equal lookups, and every operation, the
errors agree unless it is that one.
-/

set_option autoImplicit false

namespace MarketData.Book

open MarketData.Wire (Side)

/-- What the fast book refuses an operation for, where it is not for want of room. -/
def refusal (get : UInt64 → Option RestingOrder) : Op → Option BookError
  | .add orderId _ _ quantity =>
    if quantity = 0 then some (.zeroQuantity orderId)
    else if (get orderId).isSome then some (.duplicateOrderId orderId) else none
  | .delete orderId => if (get orderId).isSome then none else some (.unknownOrderId orderId)
  | .reduce orderId newQuantity =>
    if newQuantity = 0 then some (.zeroQuantity orderId)
    else match get orderId with
      | none => some (.unknownOrderId orderId)
      | some o =>
        if o.quantity < newQuantity then
          some (.reduceWouldIncrease orderId o.quantity newQuantity)
        else none
  | .replace orderId _ newQuantity =>
    if newQuantity = 0 then some (.zeroQuantity orderId)
    else if (get orderId).isSome then none else some (.unknownOrderId orderId)
  | .clear => none

namespace MboBook

variable {b b' : MboBook} {orderId : UInt64} {price : Int64} {e : BookError}

theorem get_isSome : (b.get orderId).isSome = (b.mapFind orderId).isSome := Option.isSome_map

theorem slotFor_error (h : b.slotFor orderId price = (.error e, b')) : e.forCapacity = true := by
  unfold slotFor rebase at h
  split at h
  · cases h
  · cases h
    rfl
  · split at h
    · rename_i hrebase
      split at hrebase
      · cases hrebase
        cases h
        rfl
      · cases hrebase
    · split at h
      · cases h
      · cases h
        rfl

theorem takeNode_error (h : b.takeNode orderId = (.error e, b')) : e.forCapacity = true := by
  unfold takeNode at h
  split at h
  · cases h
    rfl
  · cases h

/-- An operation on `b` is refused for the error and leaves the book as it is, or it is refused at
most for want of room. -/
def Refuses {α : Type} (b : MboBook) (r : Except BookError α × MboBook) :
    Option BookError → Prop
  | some e => r = (.error e, b)
  | none => ∀ e, r.1 = .error e → e.forCapacity = true

theorem Refuses.map {α β : Type} {r : Except BookError α × MboBook} {o : Option BookError}
    (h : Refuses b r o) (f : α → β) : Refuses b (r.1.map f, r.2) o := by
  cases o with
  | some e =>
    have hr : r = (.error e, b) := h
    rw [hr]
    rfl
  | none =>
    intro e he
    apply h
    cases hr : r.1 with
    | error e' =>
      rw [hr] at he
      cases he
      rfl
    | ok a =>
      rw [hr] at he
      cases he

theorem add_refuses (b : MboBook) (orderId : UInt64) (side : Side) (price : Int64)
    (quantity : UInt32) : Refuses b (b.add orderId side price quantity)
      (refusal b.get (.add orderId side price quantity)) := by
  rw [refusal, get_isSome]
  unfold add
  by_cases hq : quantity = 0
  · rw [if_pos hq, if_pos hq]
    rfl
  rw [if_neg hq, if_neg hq]
  by_cases hfind : (b.mapFind orderId).isSome = true
  · rw [if_pos hfind, if_pos hfind]
    rfl
  rw [if_neg hfind, if_neg hfind]
  intro e h
  cases hslot : b.slotFor orderId price with
  | mk found b₁ =>
    rw [hslot] at h
    cases found with
    | error e' =>
      cases h
      exact slotFor_error hslot
    | ok slot =>
      dsimp only at h
      cases htake : b₁.takeNode orderId with
      | mk taken b₂ =>
        rw [htake] at h
        cases taken with
        | error e' =>
          cases h
          exact takeNode_error htake
        | ok node => cases h

theorem delete_refuses (b : MboBook) (orderId : UInt64) :
    Refuses b (b.delete orderId) (refusal b.get (.delete orderId)) := by
  rw [refusal, get_isSome]
  unfold delete
  cases b.mapFind orderId with
  | none => rfl
  | some mapI =>
    intro e h
    cases h

theorem reduce_refuses (b : MboBook) (orderId : UInt64) (newQuantity : UInt32) :
    Refuses b (b.reduce orderId newQuantity) (refusal b.get (.reduce orderId newQuantity)) := by
  rw [refusal, get]
  unfold reduce
  by_cases hq : newQuantity = 0
  · rw [if_pos hq, if_pos hq]
    rfl
  rw [if_neg hq, if_neg hq]
  cases b.mapFind orderId with
  | none => rfl
  | some mapI =>
    dsimp only [Option.map_some, Node.order]
    by_cases hlt : (b.nodes (b.map mapI).node).quantity < newQuantity
    · rw [if_pos hlt, if_pos hlt]
      rfl
    · rw [if_neg hlt, if_neg hlt]
      intro e h
      cases h

theorem replace_refuses (b : MboBook) (orderId : UInt64) (newPrice : Int64) (newQuantity : UInt32) :
    Refuses b (b.replace orderId newPrice newQuantity)
      (refusal b.get (.replace orderId newPrice newQuantity)) := by
  rw [refusal, get_isSome]
  unfold replace
  by_cases hq : newQuantity = 0
  · rw [if_pos hq, if_pos hq]
    rfl
  rw [if_neg hq, if_neg hq]
  cases b.mapFind orderId with
  | none => rfl
  | some mapI =>
    intro e h
    dsimp only at h
    cases hslot : b.slotFor orderId newPrice with
    | mk found b₁ =>
      rw [hslot] at h
      cases found with
      | error e' =>
        cases h
        exact slotFor_error hslot
      | ok slot => cases h

/-- **What the fast book refuses** can be read off the orders it holds: it refuses that and stays
as it is, and whatever else it refuses is for want of room. -/
theorem step_refuses (b : MboBook) (op : Op) :
    Refuses b (OrderBook.step b op) (refusal b.get op) := by
  cases op with
  | add orderId side price quantity => exact (add_refuses b orderId side price quantity).map _
  | delete orderId => exact (delete_refuses b orderId).map _
  | reduce orderId newQuantity => exact (reduce_refuses b orderId newQuantity).map _
  | replace orderId newPrice newQuantity =>
    exact (replace_refuses b orderId newPrice newQuantity).map _
  | clear =>
    intro e h
    cases h

theorem step_error_iff (b : MboBook) (op : Op) (hroom : e.forCapacity = false) :
    (OrderBook.step b op).1 = .error e ↔ refusal b.get op = some e := by
  have hrefuses := step_refuses b op
  cases hop : refusal b.get op with
  | some e' =>
    rw [hop] at hrefuses
    rw [show OrderBook.step b op = (.error e', b) from hrefuses]
    simp
  | none =>
    rw [hop] at hrefuses
    refine iff_of_false (fun h => ?_) (by simp)
    rw [hrefuses e h] at hroom
    cases hroom

end MboBook

/-! ## The same error -/

/-- What the reference book refuses: it looks an order up before it reads the new quantity of a
reduce. -/
def ReferenceBook.refusal (r : ReferenceBook) : Op → Option BookError
  | .reduce orderId newQuantity =>
    if (r.get orderId).isSome then MarketData.Book.refusal r.get (.reduce orderId newQuantity)
    else some (.unknownOrderId orderId)
  | op => MarketData.Book.refusal r.get op

theorem ReferenceBook.step_error_iff (r : ReferenceBook) (op : Op) (e : BookError) :
    (OrderBook.step r op).1 = .error e ↔ r.refusal op = some e := by
  cases op with
  | add orderId side price quantity =>
    show (r.add orderId side price quantity).1.map _ = .error e ↔
      MarketData.Book.refusal r.get (.add orderId side price quantity) = some e
    have hcontains : (r.get orderId).isSome = r.orders.contains orderId :=
      Std.TreeMap.contains_eq_isSome_getElem?.symm
    rw [MarketData.Book.refusal, hcontains, add]
    by_cases hq : quantity = 0
    · rw [if_pos hq, if_pos hq]
      simp [Except.map]
    rw [if_neg hq, if_neg hq]
    by_cases hfound : r.orders.contains orderId = true
    · rw [if_pos hfound, if_pos hfound]
      simp [Except.map]
    · rw [if_neg hfound, if_neg hfound]
      simp [Except.map]
  | delete orderId =>
    show (r.delete orderId).1.map _ = .error e ↔
      MarketData.Book.refusal r.get (.delete orderId) = some e
    rw [MarketData.Book.refusal, get, delete]
    cases r.orders[orderId]? with
    | none => simp [Except.map]
    | some order => simp [Except.map]
  | reduce orderId newQuantity =>
    show (r.reduce orderId newQuantity).1.map _ = .error e ↔ r.refusal _ = some e
    rw [refusal, MarketData.Book.refusal, get, reduce]
    cases r.orders[orderId]? with
    | none => simp [Except.map]
    | some order =>
      rw [if_pos (by rfl)]
      dsimp only
      by_cases hq : newQuantity = 0
      · rw [if_pos hq, if_pos hq]
        simp [Except.map]
      rw [if_neg hq, if_neg hq]
      by_cases hlt : order.quantity < newQuantity
      · rw [if_pos hlt, if_pos hlt]
        simp [Except.map]
      · rw [if_neg hlt, if_neg hlt]
        simp [Except.map]
  | replace orderId newPrice newQuantity =>
    show (r.replace orderId newPrice newQuantity).1.map _ = .error e ↔
      MarketData.Book.refusal r.get (.replace orderId newPrice newQuantity) = some e
    rw [MarketData.Book.refusal, get, replace]
    by_cases hq : newQuantity = 0
    · rw [if_pos hq, if_pos hq]
      simp [Except.map]
    rw [if_neg hq, if_neg hq]
    cases r.orders[orderId]? with
    | none => simp [Except.map]
    | some order => simp [Except.map]
  | clear =>
    refine iff_of_false (fun h => ?_) fun h => ?_
    · cases h
    · cases h

/-- None of these is for want of room. -/
theorem refusal_forCapacity {get : UInt64 → Option RestingOrder} {op : Op} {e : BookError}
    (h : refusal get op = some e) : e.forCapacity = false := by
  cases op with
  | add orderId side price quantity =>
    rw [refusal] at h
    split at h
    · cases h
      rfl
    · split at h <;> cases h
      rfl
  | delete orderId =>
    rw [refusal] at h
    split at h <;> cases h
    rfl
  | reduce orderId newQuantity =>
    rw [refusal] at h
    split at h
    · cases h
      rfl
    · split at h
      · cases h
        rfl
      · split at h <;> cases h
        rfl
  | replace orderId newPrice newQuantity =>
    rw [refusal] at h
    split at h
    · cases h
      rfl
    · split at h <;> cases h
      rfl
  | clear => cases h

theorem ReferenceBook.refusal_forCapacity (r : ReferenceBook) {op : Op} {e : BookError}
    (h : r.refusal op = some e) : e.forCapacity = false := by
  unfold ReferenceBook.refusal at h
  split at h
  · split at h
    · exact Book.refusal_forCapacity h
    · cases h
      rfl
  · exact Book.refusal_forCapacity h

/-- Apart from the limits of the fast book's size, the two refuse the operation with the same
error, or neither refuses it. -/
def RefuseAlike (b : MboBook) (r : ReferenceBook) (op : Op) : Prop :=
  ∀ e, e.forCapacity = false →
    ((OrderBook.step b op).1 = .error e ↔ (OrderBook.step r op).1 = .error e)

/-- **Two books that hold the same orders refuse alike**, but for a reduce to nothing of an order
that does not rest. -/
theorem refuse_alike_iff (b : MboBook) (r : ReferenceBook) (hget : ∀ orderId, b.get orderId =
    r.get orderId) (op : Op) :
    RefuseAlike b r op ↔ ∀ orderId, op = .reduce orderId 0 → (b.get orderId).isSome = true := by
  have hsame : b.get = r.get := funext hget
  have halike : RefuseAlike b r op ↔ refusal r.get op = r.refusal op := by
    unfold RefuseAlike
    constructor
    · intro h
      refine Option.ext fun e => ?_
      cases hroom : e.forCapacity with
      | false =>
        have halike := h e hroom
        rwa [b.step_error_iff op hroom, r.step_error_iff, hsame] at halike
      | true =>
        refine iff_of_false (fun hop => ?_) fun hop => ?_
        · rw [refusal_forCapacity hop] at hroom
          cases hroom
        · rw [r.refusal_forCapacity hop] at hroom
          cases hroom
    · intro h e hroom
      rw [b.step_error_iff op hroom, r.step_error_iff, hsame, h]
  rw [halike, hsame]
  cases op with
  | reduce orderId newQuantity =>
    rw [ReferenceBook.refusal]
    cases hfound : r.get orderId with
    | some o =>
      refine iff_of_true (by simp) ?_
      rintro orderId' ⟨⟩
      rw [hfound]
      rfl
    | none =>
      rw [refusal, hfound]
      constructor
      · rintro hrefusal orderId' ⟨⟩
        cases hrefusal
      · intro hsome
        have hq : newQuantity ≠ 0 := by
          rintro rfl
          have hsome := hsome orderId rfl
          rw [hfound] at hsome
          cases hsome
        rw [if_neg hq]
        rfl
  | add => exact iff_of_true rfl fun _ h => nomatch h
  | delete => exact iff_of_true rfl fun _ h => nomatch h
  | replace => exact iff_of_true rfl fun _ h => nomatch h
  | clear => exact iff_of_true rfl fun _ h => nomatch h

/-- With one order on the books, they refuse a reduce of it to nothing alike. -/
theorem refuse_alike_iff_one_order :
    let p := (Both.new ⟨8, 4, 100, 5⟩).step (.add 1 .bid 100 10)
    RefuseAlike p.fast p.reference (.reduce 1 0) ∧
      ¬ RefuseAlike p.fast p.reference (.reduce 7 0) := by
  intro p
  have hnew : (Both.new ⟨8, 4, 100, 5⟩).Inv :=
    ⟨[], _, MboBook.whole_new ⟨by decide, by decide⟩, Reps.new⟩
  have hinv : p.Inv := (hnew.step (by decide +kernel)).1
  have hone : (p.fast.get 1).isSome = true := by decide +kernel
  have hseven : p.fast.get 7 = none := by decide +kernel
  refine ⟨(refuse_alike_iff p.fast p.reference hinv.alike.get (.reduce 1 0)).mpr ?_, fun h => ?_⟩
  · rintro orderId ⟨⟩
    exact hone
  · have hsome := (refuse_alike_iff p.fast p.reference hinv.alike.get (.reduce 7 0)).mp h 7 rfl
    rw [hseven] at hsome
    cases hsome

/-- A reduce to nothing on empty books. -/
theorem refuse_differently_unknown_zero :
    (OrderBook.step (MboBook.new ⟨8, 4, 100, 5⟩) (.reduce 7 0)).1 = .error (.zeroQuantity 7) ∧
    (OrderBook.step ReferenceBook.new (.reduce 7 0)).1 = .error (.unknownOrderId 7) ∧
    ¬ RefuseAlike (MboBook.new ⟨8, 4, 100, 5⟩) ReferenceBook.new (.reduce 7 0) := by
  have hfast : (OrderBook.step (MboBook.new ⟨8, 4, 100, 5⟩) (.reduce 7 0)).1 =
      .error (.zeroQuantity 7) := rfl
  have hreference : (OrderBook.step ReferenceBook.new (.reduce 7 0)).1 =
      .error (.unknownOrderId 7) := rfl
  refine ⟨hfast, hreference, fun h => ?_⟩
  have hsame := (h (.zeroQuantity 7) rfl).mp hfast
  rw [hreference] at hsame
  cases hsame

end MarketData.Book
