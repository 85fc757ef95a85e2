import MarketData.Book.Reference

/-!
# `Book/Apply.lean` — turning a decoded message into a book change

`crates/book/src/apply.rs`, over the set of every symbol's book (`BookSet` of `view.rs`, with
`Books` and `FastBooks` as its two instances: a set creates a symbol's book the first time it is
asked for it). A trade moves nothing; a snapshot fragment adds its orders in wire order.

Every function here answers a result **and** the set afterwards, errors included. That is not a
convenience: `get_or_create` puts a book into the set before the operation on it is tried, and a
snapshot fragment that fails at its third order has already added two. A model that answered
`Except ApplyError (BookSet B)` would forget both, and the digest of a consumer that skipped a
message would come out wrong.

## One set, two kinds of books

`BookSet B` is generic in the book, as the source's trait is, so that `apply_message` is translated
once. It keeps the books in an ordered map, which is what `Books` is; that `FastBooks` keeps a
sorted vector makes no difference to any of the functions here, and `Book/DigestAgrees.lean` is
where the vector is held against the map. `Agree` is the equality that matters to a consumer: a
symbol without a book counts as one with a fresh book, since nothing that is asked of a set can tell
them apart except the visit order of the digest.

`replay` and `replayed` are not functions of the source but folds of `applyMessage` over a stream;
they are what the claims about a consumer's books are stated with.
-/

set_option autoImplicit false

namespace MarketData.Book

open MarketData.Wire

/-- Why a message could not be applied. -/
inductive ApplyError where
  | book (symbolId : UInt16) (error : BookError)
  | wire (error : WireError)
  | snapshotOverlap (symbolId : UInt16) (orderId : UInt64)
  deriving DecidableEq, Repr

/-- Every symbol's book, and the book a symbol starts with. -/
structure BookSet (B : Type) where
  books : Std.TreeMap UInt16 B := ∅
  fresh : B

namespace BookSet

variable {B : Type}

def get (s : BookSet B) (symbolId : UInt16) : Option B := s.books[symbolId]?

/-- The book `get_or_create` hands out. -/
def book (s : BookSet B) (symbolId : UInt16) : B := (s.get symbolId).getD s.fresh

/-- Puts back the book `get_or_create` handed out, as it is after the caller changed it. -/
def put (s : BookSet B) (symbolId : UInt16) (b : B) : BookSet B :=
  { s with books := s.books.insert symbolId b }

/-- `for_each_symbol`, `iter`: in symbol-id order. -/
def toList (s : BookSet B) : List (UInt16 × B) := s.books.toList

/-- Empties every book. -/
def clearAll [OrderBook B] (s : BookSet B) : BookSet B :=
  { s with books := s.books.map fun _ b => OrderBook.clear b }

/-- Empties one symbol's book, if there is one. -/
def clearSymbol [OrderBook B] (s : BookSet B) (symbolId : UInt16) : BookSet B :=
  match s.get symbolId with
  | none => s
  | some b => s.put symbolId (OrderBook.clear b)

theorem book_put (s : BookSet B) (symbolId symbolId' : UInt16) (b : B) :
    (s.put symbolId b).book symbolId' = if symbolId = symbolId' then b else s.book symbolId' := by
  simp only [book, get, put, Std.TreeMap.getElem?_insert, Std.LawfulEqCmp.compare_eq_iff_eq]
  split <;> rfl

/-- The two sets hold the same book for every symbol, a symbol without a book counting as one
with a fresh book. -/
def Agree (s t : BookSet B) : Prop := ∀ symbolId, s.book symbolId = t.book symbolId

theorem Agree.refl (s : BookSet B) : s.Agree s := fun _ => rfl

theorem Agree.put {s t : BookSet B} (h : s.Agree t) (symbolId : UInt16) (b : B) :
    (s.put symbolId b).Agree (t.put symbolId b) := by
  intro symbolId'
  rw [book_put, book_put, h symbolId']

/-- Creating a symbol's book is not visible. -/
theorem agree_put_self (s : BookSet B) (symbolId : UInt16) :
    (s.put symbolId (s.book symbolId)).Agree s := by
  intro symbolId'
  rw [book_put]
  split
  · rename_i heq
    rw [heq]
  · rfl

theorem Agree.symm {s t : BookSet B} (h : s.Agree t) : t.Agree s := fun symbolId =>
  (h symbolId).symm

theorem Agree.trans {s t u : BookSet B} (h : s.Agree t) (h' : t.Agree u) : s.Agree u :=
  fun symbolId => (h symbolId).trans (h' symbolId)

end BookSet

/-- `Books` (`reference.rs`). -/
abbrev Books := BookSet ReferenceBook

def Books.new : Books := { fresh := ReferenceBook.new }

section Apply

variable {B : Type} [OrderBook B]

/-- Runs a book operation on a symbol's book and files its error under the symbol. -/
def onBook {α : Type} (books : BookSet B) (symbolId : UInt16)
    (op : B → Except BookError α × B) : Except ApplyError Unit × BookSet B :=
  let (result, b) := op (books.book symbolId)
  match result with
  | .ok _ => (.ok (), books.put symbolId b)
  | .error e => (.error (.book symbolId e), books.put symbolId b)

/-- The `for` loop of `apply_snapshot_orders`, over the symbol's own book. -/
def addSnapshotOrders (symbolId : UInt16) :
    List SnapshotOrder → B → Except ApplyError Unit × B
  | [], b => (.ok (), b)
  | order :: orders, b =>
    match order.side with
    | .error e => (.error (.wire e), b)
    | .ok side =>
      match OrderBook.add b order.orderId side order.price order.quantity with
      | (.ok _, b) => addSnapshotOrders symbolId orders b
      | (.error (.duplicateOrderId orderId), b) =>
        (.error (.snapshotOverlap symbolId orderId), b)
      | (.error e, b) => (.error (.book symbolId e), b)

def applySnapshotOrders (books : BookSet B) (d : Snapshot) : Except ApplyError Unit × BookSet B :=
  let (result, b) := addSnapshotOrders d.symbolId d.orders (books.book d.symbolId)
  (result, books.put d.symbolId b)

/-- Applies a snapshot as the start of a fresh book for its symbol. -/
def applySnapshot (books : BookSet B) (d : Snapshot) : Except ApplyError Unit × BookSet B :=
  applySnapshotOrders (books.clearSymbol d.symbolId) d

/-- Applies one message. -/
def applyMessage (books : BookSet B) : Message → Except ApplyError Unit × BookSet B
  | .addOrder d =>
    match d.side with
    | .error e => (.error (.wire e), books)
    | .ok side => onBook books d.symbolId fun b => OrderBook.add b d.orderId side d.price d.quantity
  | .modifyOrder d =>
    -- The book is looked up, and so created, before the reason is read.
    let books := books.put d.symbolId (books.book d.symbolId)
    match d.reason with
    | .error e => (.error (.wire e), books)
    | .ok .reduce => onBook books d.symbolId fun b => OrderBook.reduce b d.orderId d.newQuantity
    | .ok .replace =>
      onBook books d.symbolId fun b => OrderBook.replace b d.orderId d.newPrice d.newQuantity
  | .deleteOrder d => onBook books d.symbolId fun b => OrderBook.delete b d.orderId
  | .trade _ => (.ok (), books)
  | .heartbeat _ => (.ok (), books)
  | .sequenceReset _ => (.ok (), books)
  | .snapshot d => applySnapshotOrders books d

/-- What a consumer has after a message: the sequence, whether the message applied, the books. -/
structure Applied (B : Type) where
  sequence : UInt64
  result : Except ApplyError Unit
  books : BookSet B

/-- The books after each message of a stream. -/
def replay (books : BookSet B) : List (UInt64 × Message) → List (Applied B)
  | [] => []
  | (sequence, m) :: rest =>
    let applied := applyMessage books m
    ⟨sequence, applied.1, applied.2⟩ :: replay applied.2 rest

/-- The books after a whole stream. -/
def replayed (books : BookSet B) : List (UInt64 × Message) → BookSet B
  | [] => books
  | (_, m) :: rest => replayed (applyMessage books m).2 rest

theorem replay_append (books : BookSet B) (ms ms' : List (UInt64 × Message)) :
    replay books (ms ++ ms') = replay books ms ++ replay (replayed books ms) ms' := by
  induction ms generalizing books with
  | nil => rfl
  | cons m ms ih =>
    show _ :: replay _ (ms ++ ms') = _
    rw [ih]
    rfl

theorem replayed_append (books : BookSet B) (ms ms' : List (UInt64 × Message)) :
    replayed books (ms ++ ms') = replayed (replayed books ms) ms' := by
  induction ms generalizing books with
  | nil => rfl
  | cons m ms ih =>
    rw [List.cons_append, replayed, ih]
    rfl

end Apply

end MarketData.Book
