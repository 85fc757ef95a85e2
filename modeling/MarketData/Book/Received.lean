import MarketData.Book.Histories
import MarketData.Book.Operations
import MarketData.Book.Rebuild

/-!
# `Book/Received.lean` — what the fragments received so far have put on the books

`Book/Rebuild.lean` is about a whole cycle and says that it applies. A consumer does not know
whether what it has is a whole cycle: it empties its books at the flag of a first fragment and
appends whatever comes after, and ends where a flag says so. What is true of its books at every
moment in between is that they hold **the orders of the fragments received**, each symbol's in the
order they came (`Received`), whatever fragments these were.

## Nothing is said about success

A fragment may be refused, in the middle of its orders, and the consumer then gives the cycle up.
So the lemmas here start from a fragment that did apply, where those of `Book/Rebuild.lean` conclude
that it does; they need no room in the books and no order of the fragments. What they need instead
is that a book takes an order only if it is a new one with a quantity (`Strict`), which is where the
list of what was received and the list of what is held could come apart.

## Two reference books with one list

`Twin` is for what happens after a cycle. The books of a consumer and those of the publisher are not
equal, since their maps were filled in another order, but each holds the same list, and a message
does the same to both. Equal answers alone would not carry over from one message to the next.
-/

set_option autoImplicit false

namespace MarketData.Book

open MarketData.Wire
open Arrivals

/-! ## One entry -/

theorem Side.toU8_of_fromU8 {v : UInt8} {s : Side} (h : Side.fromU8 v = .ok s) : s.toU8 = v := by
  unfold Side.fromU8 at h
  split at h
  · rename_i hv
    cases h
    exact hv.symm
  · split at h
    · rename_i hv
      cases h
      exact hv.symm
    · cases h

theorem RestingOrder.entry_of_side {e : SnapshotOrder} {s : Side} (h : e.side = .ok s) :
    RestingOrder.entry ⟨e.orderId, e.price, e.quantity, s⟩ = e := by
  obtain ⟨orderId, price, quantity, sideRaw⟩ := e
  rw [RestingOrder.entry, Side.toU8_of_fromU8 h]

theorem RestingOrder.entry_injective : Function.Injective RestingOrder.entry := by
  rintro ⟨orderId, price, quantity, side⟩ ⟨orderId', price', quantity', side'⟩ h
  simp only [RestingOrder.entry, SnapshotOrder.mk.injEq] at h
  obtain ⟨rfl, rfl, rfl, hside⟩ := h
  have hsame := congrArg Side.fromU8 hside
  rw [Side.fromU8_toU8, Side.fromU8_toU8] at hsame
  cases hsame
  rfl

section Fragments

variable {B : Type} [OrderBook B]

/-- Books that take an operation only if the orders on them allow it. -/
structure Strict (H : B → List RestingOrder → Prop) (Fits : B → Op → Prop) : Prop
    extends Keeps H Fits where
  allowed : ∀ {b os op}, H b os → Fits b op → (OrderBook.step b op).1.toOption.isSome →
    (Arrivals.step os op).1.toOption.isSome

/-- The orders of a fragment are adds the symbol's book is fit for, one after the other. -/
def FitsOrders (Fits : B → Op → Prop) : B → List SnapshotOrder → Prop
  | _, [] => True
  | b, e :: orders => ∀ side, e.side = .ok side →
    Fits b (.add e.orderId side e.price e.quantity) ∧
      FitsOrders Fits (OrderBook.add b e.orderId side e.price e.quantity).2 orders

/-- The books a fragment goes to. -/
def BookSet.opened (books : BookSet B) (d : Snapshot) : BookSet B :=
  if d.cycleStart then books.clearAll else books

/-- The fragment's orders are adds its symbol's book is fit for. -/
def FitsFragment (Fits : B → Op → Prop) (books : BookSet B) (d : Snapshot) : Prop :=
  FitsOrders Fits ((books.opened d).book d.symbolId) d.orders

/-- Every book holds some orders, and a new one none. -/
structure Intact (H : B → List RestingOrder → Prop) (books : BookSet B) : Prop where
  fresh : H books.fresh []
  books : ∀ symbolId, ∃ os, H (books.book symbolId) os

/-- Every book holds what the fragments carry for its symbol. -/
def Received (H : B → List RestingOrder → Prop) (books : BookSet B) (ds : List Snapshot) : Prop :=
  ∀ symbolId, ∃ os, os.map RestingOrder.entry = entriesFor ds symbolId ∧
    H (books.book symbolId) os

variable {H : B → List RestingOrder → Prop} {Fits : B → Op → Prop} {books books' : BookSet B}

/-- An order that was added is behind those that were there. -/
theorem Strict.add (law : Strict H Fits) {b : B} {os : List RestingOrder} (h : H b os)
    {orderId : UInt64} {side : Side} {price : Int64} {quantity : UInt32}
    (hfits : Fits b (.add orderId side price quantity))
    (hok : (OrderBook.add b orderId side price quantity).1 = .ok ()) :
    H (OrderBook.add b orderId side price quantity).2 (os ++ [⟨orderId, price, quantity, side⟩]) := by
  have hsome : (OrderBook.step b (.add orderId side price quantity)).1.toOption.isSome = true := by
    show ((OrderBook.add b orderId side price quantity).1.map fun _ => none).toOption.isSome = true
    rw [hok]
    rfl
  have hstep := law.step h hfits
  have hallowed := law.allowed h hfits hsome
  rw [if_pos hsome] at hstep
  unfold Arrivals.step at hallowed hstep
  dsimp only at hallowed hstep
  split at hallowed
  · cases hallowed
  · rename_i hquantity
    rw [if_neg hquantity] at hstep
    split at hallowed
    · cases hallowed
    · rename_i hnew
      rw [if_neg hnew] at hstep
      exact hstep

/-- The orders of a fragment that was applied are behind those that were there. -/
theorem Strict.addSnapshotOrders (law : Strict H Fits) {symbolId : UInt16}
    {orders : List SnapshotOrder} {b b' : B} {os : List RestingOrder} (h : H b os)
    (hfits : FitsOrders Fits b orders) (hok : addSnapshotOrders symbolId orders b = (.ok (), b')) :
    ∃ more, more.map RestingOrder.entry = orders ∧ H b' (os ++ more) := by
  induction orders generalizing b os with
  | nil =>
    cases hok
    exact ⟨[], rfl, by rw [List.append_nil]; exact h⟩
  | cons e orders ih =>
    rw [MarketData.Book.addSnapshotOrders] at hok
    cases hside : e.side with
    | error err =>
      rw [hside] at hok
      cases hok
    | ok side =>
      rw [hside] at hok
      dsimp only at hok
      obtain ⟨hadd, hrest⟩ := hfits side hside
      have hnext := law.add h hadd
      generalize OrderBook.add b e.orderId side e.price e.quantity = added at hok hrest hnext
      obtain ⟨result, b₁⟩ := added
      cases result with
      | error err =>
        cases err <;> cases hok
      | ok u =>
        obtain ⟨more, hmore, hb'⟩ := ih (hnext rfl) hrest hok
        refine ⟨⟨e.orderId, e.price, e.quantity, side⟩ :: more, ?_, ?_⟩
        · rw [List.map_cons, hmore, RestingOrder.entry_of_side hside]
        · rw [List.append_cons]
          exact hb'

/-- Emptied books have received nothing. -/
theorem Intact.clearAll (law : Keeps H Fits) (h : Intact H books) : Received H books.clearAll [] := by
  intro symbolId
  refine ⟨[], rfl, ?_⟩
  rw [BookSet.book_clearAll]
  cases hget : books.get symbolId with
  | none => exact h.fresh
  | some b =>
    obtain ⟨os, hos⟩ := h.books symbolId
    rw [BookSet.book, hget] at hos
    exact law.clear hos

/-- **A fragment that applied has been received.** -/
theorem Received.message (law : Strict H Fits) {ds : List Snapshot} (h : Received H books ds)
    {d : Snapshot} (hfits : FitsOrders Fits (books.book d.symbolId) d.orders)
    (hok : applyMessage books (.snapshot d) = (.ok (), books')) : Received H books' (ds ++ [d]) := by
  obtain ⟨os, hos, hbook⟩ := h d.symbolId
  rw [applyMessage, applySnapshotOrders] at hok
  dsimp only at hok
  obtain ⟨hresult, rfl⟩ := Prod.mk.inj hok
  obtain ⟨more, hmore, hnext⟩ := law.addSnapshotOrders hbook hfits (Prod.ext hresult rfl)
  intro symbolId
  rw [BookSet.book_put, entriesFor_append, entriesFor_singleton]
  by_cases heq : d.symbolId = symbolId
  · subst heq
    rw [if_pos rfl, if_pos rfl]
    exact ⟨os ++ more, by rw [List.map_append, hos, hmore], hnext⟩
  · rw [if_neg heq, if_neg heq, List.append_nil]
    exact h symbolId

/-- The first fragment of a cycle is all that the books hold then. -/
theorem Intact.start (law : Strict H Fits) (h : Intact H books) {d : Snapshot}
    (hstart : d.cycleStart = true) (hfits : FitsFragment Fits books d)
    (hok : applyFragment books d = (.ok (), books')) : Received H books' [d] := by
  rw [applyFragment, if_pos hstart] at hok
  rw [FitsFragment, BookSet.opened, if_pos hstart] at hfits
  exact (h.clearAll law.toKeeps).message law hfits hok

/-- Every other one is added to what they hold. -/
theorem Received.fragment (law : Strict H Fits) {ds : List Snapshot} (h : Received H books ds)
    {d : Snapshot} (hstart : d.cycleStart = false) (hfits : FitsFragment Fits books d)
    (hok : applyFragment books d = (.ok (), books')) : Received H books' (ds ++ [d]) := by
  rw [applyFragment, if_neg (by simp [hstart])] at hok
  rw [FitsFragment, BookSet.opened, if_neg (by simp [hstart])] at hfits
  exact h.message law hfits hok

omit [OrderBook B] in
/-- The entries received are the orders held. -/
theorem Received.holds {ds : List Snapshot} (h : Received H books ds)
    {target : UInt16 → List RestingOrder}
    (hentries : ∀ symbolId, entriesFor ds symbolId = (target symbolId).map RestingOrder.entry)
    (symbolId : UInt16) : H (books.book symbolId) (target symbolId) := by
  obtain ⟨os, hos, hbook⟩ := h symbolId
  rw [hentries] at hos
  rw [← List.map_injective_iff.mpr RestingOrder.entry_injective hos]
  exact hbook

end Fragments

/-! ## The two kinds of books -/

theorem strict_reference : Strict Reps fun _ _ => True where
  toKeeps := keeps_reference
  allowed h _ hsome := (h.step _).1 ▸ hsome

theorem MboBook.strict : Strict MboBook.Holds MboBook.Spared where
  toKeeps := MboBook.keeps
  allowed {b os op} h hspared hsome := by
    rw [(h.step hspared).1, Bounds.step] at hsome
    split at hsome
    · cases hsome
    · rename_i hargs
      obtain ⟨a, ha⟩ := Bounds.arrivals_ok hargs
      rw [ha]
      rfl

theorem fitsOrders_reference (b : ReferenceBook) (orders : List SnapshotOrder) :
    FitsOrders (fun _ _ => True) b orders := by
  induction orders generalizing b with
  | nil => trivial
  | cons e orders ih => exact fun side _ => ⟨trivial, ih _⟩

/-! ## Messages on reference books -/

theorem BookSet.fresh_applyMessage {B : Type} [OrderBook B] (books : BookSet B) (m : Message) :
    (applyMessage books m).2.fresh = books.fresh := by
  have hon : ∀ {α : Type} (books : BookSet B) (symbolId : UInt16) (op : B → Except BookError α × B),
      (onBook books symbolId op).2.fresh = books.fresh := by
    intro α books symbolId op
    unfold onBook
    dsimp only
    split <;> rfl
  cases m with
  | addOrder d =>
    unfold applyMessage
    dsimp only
    split
    · rfl
    · exact hon _ _ _
  | modifyOrder d =>
    unfold applyMessage
    dsimp only
    split
    · rfl
    · exact hon _ _ _
    · exact hon _ _ _
  | deleteOrder d => exact hon _ _ _
  | trade => rfl
  | snapshot d => rfl
  | heartbeat => rfl
  | sequenceReset => rfl

/-- The two books hold one list of orders. -/
def TwinBooks (b b' : ReferenceBook) : Prop := ∃ os, Reps b os ∧ Reps b' os

/-- The two sets hold one list of orders for every symbol. -/
def Twin (s t : Books) : Prop := ∀ symbolId, TwinBooks (s.book symbolId) (t.book symbolId)

/-- A book does not remember in which order its levels were filled. -/
theorem Reps.of_inQueueOrder {b : ReferenceBook} {os : List RestingOrder} (hos : Valid os)
    (h : Reps b (inQueueOrder os)) : Reps b os where
  valid := hos
  orders orderId := by rw [h.orders, hos.lookup_perm (inQueueOrder_perm os)]
  size := by rw [h.size, (inQueueOrder_perm os).length_eq]
  levels s price := by rw [h.levels, queue_inQueueOrder]

namespace TwinBooks

variable {b b' : ReferenceBook}

theorem step (h : TwinBooks b b') (op : Op) :
    (OrderBook.step b op).1 = (OrderBook.step b' op).1 ∧
      TwinBooks (OrderBook.step b op).2 (OrderBook.step b' op).2 := by
  obtain ⟨os, hb, hb'⟩ := h
  obtain ⟨hanswer, hreps⟩ := hb.step op
  obtain ⟨hanswer', hreps'⟩ := hb'.step op
  exact ⟨hanswer.trans hanswer'.symm, _, hreps, hreps'⟩

/-- The orders of a fragment are added to both, up to the same one. -/
theorem addSnapshotOrders (h : TwinBooks b b') (symbolId : UInt16) (orders : List SnapshotOrder) :
    TwinBooks (addSnapshotOrders symbolId orders b).2 (addSnapshotOrders symbolId orders b').2 := by
  induction orders generalizing b b' with
  | nil => exact h
  | cons e orders ih =>
    rw [MarketData.Book.addSnapshotOrders, MarketData.Book.addSnapshotOrders]
    cases e.side with
    | error err => exact h
    | ok side =>
      obtain ⟨hanswer, hnext⟩ := h.step (.add e.orderId side e.price e.quantity)
      unfold OrderBook.step at hanswer hnext
      dsimp only at hanswer hnext ⊢
      generalize OrderBook.add b e.orderId side e.price e.quantity = r at hanswer hnext ⊢
      generalize OrderBook.add b' e.orderId side e.price e.quantity = r' at hanswer hnext ⊢
      obtain ⟨result, b₁⟩ := r
      obtain ⟨result', b₁'⟩ := r'
      cases result with
      | ok u =>
        cases result' with
        | ok u' => exact ih hnext
        | error err' => cases hanswer
      | error err =>
        cases result' with
        | ok u' => cases hanswer
        | error err' =>
          cases hanswer
          cases err <;> exact hnext

end TwinBooks

namespace Twin

variable {s t : Books}

theorem sameView (h : Twin s t) (symbolId : UInt16) :
    SameView (s.book symbolId) (t.book symbolId) := by
  obtain ⟨os, hs, ht⟩ := h symbolId
  exact hs.shows.sameView ht.shows

/-- **A message does the same to both.** -/
theorem applyMessage (h : Twin s t) (m : Message) :
    Twin (applyMessage s m).2 (applyMessage t m).2 := by
  cases hop : opOf m with
  | some found =>
    obtain ⟨symbolId, op⟩ := found
    intro symbolId'
    rw [(applyMessage_of_op s hop).2, (applyMessage_of_op t hop).2]
    split
    · exact ((h symbolId).step op).2
    · exact h symbolId'
  | none =>
    cases hsnap : isSnapshot m with
    | false =>
      intro symbolId
      rw [(applyMessage_of_none s t hop hsnap).2 symbolId,
        (applyMessage_of_none t s hop hsnap).2 symbolId]
      exact h symbolId
    | true =>
      cases m with
      | snapshot d =>
        intro symbolId
        rw [MarketData.Book.applyMessage, MarketData.Book.applyMessage, applySnapshotOrders,
          applySnapshotOrders]
        dsimp only
        rw [BookSet.book_put, BookSet.book_put]
        split
        · exact (h d.symbolId).addSnapshotOrders d.symbolId d.orders
        · exact h symbolId
      | addOrder d => cases hsnap
      | modifyOrder d => cases hsnap
      | deleteOrder d => cases hsnap
      | trade d => cases hsnap
      | heartbeat n => cases hsnap
      | sequenceReset n => cases hsnap

theorem clearAll (hfresh : s.fresh = ReferenceBook.new) :
    Twin s.clearAll s.clearAll := by
  intro symbolId
  exact ⟨[], BookSet.reps_clearAll hfresh symbolId, BookSet.reps_clearAll hfresh symbolId⟩

theorem new : Twin Books.new Books.new := fun _ => ⟨[], Reps.new, Reps.new⟩

/-- A set that is its own twin holds some orders for every symbol. -/
theorem intact (h : Twin s s) (hfresh : s.fresh = ReferenceBook.new) : Intact Reps s where
  fresh := hfresh ▸ Reps.new
  books symbolId := by
    obtain ⟨os, hos, -⟩ := h symbolId
    exact ⟨os, hos⟩

end Twin

end MarketData.Book
