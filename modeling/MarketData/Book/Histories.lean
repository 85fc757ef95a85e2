import MarketData.Book.Digest
import MarketData.Book.FastBooks
import MarketData.Book.MboBounds

/-!
# `Book/Histories.lean` — what happens to a set of books

A set of books is asked for operations on one symbol's book, creates a book when it is first asked
for one, and is emptied, as a whole or symbol by symbol. Of all that only the operations that are
*taken* leave anything behind: the orders of a symbol are what the operations taken for it make of
an empty list (`Keeps.run`), whichever books keep them.

## `Keeps`: one induction for both books

The two implementations need the same induction over a history, and differ only in what it is for
a book to hold orders (`Reps` for the reference book, `Holds` for the fast one) and in which
operations it may be given (any, or those whose tick arithmetic does not overflow). `Keeps` is that
pair with three laws: a book that holds orders shows them, a step of a fit operation holds what the
operation makes of the orders if it was taken and what was there if it was not, and clearing leaves
none. Everything else about histories is proved from the laws.

An operation that is refused may still have touched the book, the fast one's window for instance;
the second law is where that is said to leave no trace. It does not say that the *next* operation is
answered alike. For the fast book that needs the bounds as well, and is in `Book/MboRoom.lean`.

A deed names a symbol and an operation, not a message of the feed; how messages become operations is
`Book/Operations.lean`.
-/

set_option autoImplicit false

namespace MarketData.Book

open MarketData.Wire (Side)
open MarketData.Run
open Arrivals

/-- What a set of books is asked for. -/
inductive Deed where
  | on (symbolId : UInt16) (op : Op)
  /-- `get_or_create`, and nothing done with the book. -/
  | touch (symbolId : UInt16)
  | clearAll
  | clearSymbol (symbolId : UInt16)
  deriving DecidableEq

section Deeds

variable {B : Type} [OrderBook B]

def BookSet.deed (s : BookSet B) : Deed → BookSet B
  | .on symbolId op => s.put symbolId (OrderBook.step (s.book symbolId) op).2
  | .touch symbolId => s.put symbolId (s.book symbolId)
  | .clearAll => s.clearAll
  | .clearSymbol symbolId => s.clearSymbol symbolId

/-- What a deed does to one symbol's book, if it is not refused. -/
def BookSet.takes (s : BookSet B) (t : UInt16) : Deed → List Op
  | .on symbolId op =>
    if symbolId = t ∧ (OrderBook.step (s.book symbolId) op).1.toOption.isSome then [op] else []
  | .touch _ => []
  | .clearAll => [.clear]
  | .clearSymbol symbolId => if symbolId = t then [.clear] else []

/-- The operations on a symbol's book that were taken. -/
def BookSet.taken (s : BookSet B) (t : UInt16) : List Deed → List Op
  | [] => []
  | d :: ds => s.takes t d ++ (s.deed d).taken t ds

/-- The resting orders after operations that were taken. -/
def ordersAfter (os : List RestingOrder) (ops : List Op) : List RestingOrder :=
  ops.foldl (fun os op => (Arrivals.step os op).2) os

/-! ## Books that keep their orders -/

/-- An implementation of books: what it is for a book to hold orders, and which operations it is
fit for. -/
structure Keeps (H : B → List RestingOrder → Prop) (Fits : B → Op → Prop) : Prop where
  shows : ∀ {b os}, H b os → Shows b os
  step : ∀ {b os op}, H b os → Fits b op → H (OrderBook.step b op).2
    (if (OrderBook.step b op).1.toOption.isSome then (Arrivals.step os op).2 else os)
  clear : ∀ {b os}, H b os → H (OrderBook.clear b) []

/-- The operation of a deed is one the symbol's book is fit for. -/
def FitsDeed (Fits : B → Op → Prop) (s : BookSet B) : Deed → Prop
  | .on symbolId op => Fits (s.book symbolId) op
  | _ => True

variable {H : B → List RestingOrder → Prop} {Fits : B → Op → Prop} {s : BookSet B}

theorem BookSet.fresh_deed (s : BookSet B) (d : Deed) : (s.deed d).fresh = s.fresh := by
  cases d with
  | on symbolId op => rfl
  | touch symbolId => rfl
  | clearAll => rfl
  | clearSymbol symbolId =>
    show (s.clearSymbol symbolId).fresh = s.fresh
    unfold clearSymbol
    split <;> rfl

theorem BookSet.book_clearSymbol (s : BookSet B) (symbolId t : UInt16) :
    (s.clearSymbol symbolId).book t =
      if symbolId = t then ((s.get symbolId).map OrderBook.clear).getD s.fresh else s.book t := by
  unfold clearSymbol
  cases hget : s.get symbolId with
  | none =>
    dsimp only
    split
    · rename_i heq
      rw [← heq, book, hget]
      rfl
    · rfl
  | some b => exact book_put s symbolId t (OrderBook.clear b)

/-- **One deed** leaves each symbol with what the operation taken for it makes of its orders. -/
theorem Keeps.deed (law : Keeps H Fits) (hfresh : H s.fresh []) {os : UInt16 → List RestingOrder}
    (h : ∀ t, H (s.book t) (os t)) {d : Deed} (hfits : FitsDeed Fits s d) (t : UInt16) :
    H ((s.deed d).book t) (ordersAfter (os t) (s.takes t d)) := by
  cases d with
  | on symbolId op =>
    unfold BookSet.deed BookSet.takes
    dsimp only
    rw [BookSet.book_put]
    by_cases heq : symbolId = t
    · subst heq
      have hstep := law.step (h symbolId) hfits
      rw [if_pos rfl]
      split at hstep
      · rename_i hok
        rw [if_pos ⟨rfl, hok⟩]
        exact hstep
      · rename_i hrefused
        rw [if_neg fun hboth => hrefused hboth.2]
        exact hstep
    · rw [if_neg heq, if_neg fun hboth => heq hboth.1]
      exact h t
  | touch symbolId =>
    rw [show (s.deed (.touch symbolId)).book t = s.book t from BookSet.agree_put_self s symbolId t]
    exact h t
  | clearAll =>
    show H (s.clearAll.book t) []
    rw [BookSet.book_clearAll]
    cases hget : s.get t with
    | none => exact hfresh
    | some b =>
      have hbook := h t
      rw [BookSet.book, hget] at hbook
      exact law.clear hbook
  | clearSymbol symbolId =>
    show H ((s.clearSymbol symbolId).book t) (ordersAfter (os t) (if symbolId = t then [.clear] else []))
    rw [BookSet.book_clearSymbol]
    by_cases heq : symbolId = t
    · subst heq
      rw [if_pos rfl, if_pos rfl]
      cases hget : s.get symbolId with
      | none => exact hfresh
      | some b =>
        have hbook := h symbolId
        rw [BookSet.book, hget] at hbook
        exact law.clear hbook
    · rw [if_neg heq, if_neg heq]
      exact h t

/-- **A whole history.** -/
theorem Keeps.run (law : Keeps H Fits) (hfresh : H s.fresh []) {os : UInt16 → List RestingOrder}
    (h : ∀ t, H (s.book t) (os t)) {ds : List Deed}
    (hfits : Along BookSet.deed (FitsDeed Fits) s ds) (t : UInt16) :
    H ((ds.foldl BookSet.deed s).book t) (ordersAfter (os t) (s.taken t ds)) := by
  induction ds generalizing s os with
  | nil => exact h t
  | cons d ds ih =>
    have hnext := ih (s := s.deed d) (by rw [BookSet.fresh_deed]; exact hfresh)
      (fun t => law.deed hfresh h hfits.1 t) hfits.2
    rw [BookSet.taken, ordersAfter, List.foldl_append]
    exact hnext

theorem BookSet.fresh_run (s : BookSet B) (ds : List Deed) :
    (ds.foldl BookSet.deed s).fresh = s.fresh := by
  induction ds generalizing s with
  | nil => rfl
  | cons d ds ih => rw [List.foldl_cons, ih, fresh_deed]

end Deeds

/-! ## The two implementations -/

theorem Arrivals.step_of_refused {os : List RestingOrder} {op : Op}
    (h : ¬(Arrivals.step os op).1.toOption.isSome) : (Arrivals.step os op).2 = os := by
  unfold Arrivals.step at h ⊢
  cases op with
  | add orderId side price quantity =>
    dsimp only at h ⊢
    split_ifs at h ⊢ with hquantity hdup
    · rfl
    · rfl
    · exact absurd rfl h
  | delete orderId =>
    dsimp only at h ⊢
    cases hlookup : lookup os orderId with
    | none => rfl
    | some o =>
      rw [hlookup] at h
      exact absurd rfl h
  | reduce orderId newQuantity =>
    dsimp only at h ⊢
    cases hlookup : lookup os orderId with
    | none => rfl
    | some o =>
      rw [hlookup] at h
      dsimp only at h ⊢
      split_ifs at h ⊢
      · rfl
      · rfl
      · exact absurd rfl h
  | replace orderId newPrice newQuantity =>
    dsimp only at h ⊢
    cases hlookup : lookup os orderId with
    | none => split <;> rfl
    | some o =>
      rw [hlookup] at h
      dsimp only at h ⊢
      split_ifs at h ⊢
      · rfl
      · exact absurd rfl h
  | clear => exact absurd rfl h

theorem keeps_reference : Keeps Reps fun _ _ => True where
  shows h := h.shows
  step {b os op} h _ := by
    obtain ⟨hanswer, hreps⟩ := h.step op
    split
    · exact hreps
    · rename_i hrefused
      rw [hanswer] at hrefused
      rw [show (Arrivals.step os op).2 = os from Arrivals.step_of_refused hrefused] at hreps
      exact hreps
  clear h := (h.step .clear).2

namespace MboBook

theorem keeps : Keeps Holds Spared where
  shows h := h.shows
  step {b os op} h hspared := by
    obtain ⟨hanswer, hholds, -⟩ := h.step hspared
    rw [hanswer]
    cases hr : (b.bounds.step os op).1 with
    | error e =>
      rw [Bounds.step_of_error hr] at hholds
      exact hholds
    | ok a =>
      rw [Bounds.step_of_ok hr] at hholds
      exact hholds
  clear h := h.clear.1

end MboBook

end MarketData.Book
