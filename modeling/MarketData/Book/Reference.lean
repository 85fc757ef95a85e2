import Std.Data.TreeMap
import MarketData.Wire.Message

/-!
# `Book/Reference.lean` — the reference book

`crates/book/src/reference.rs` and the interface it shares with the fast book,
`crates/book/src/view.rs`. A map of resting orders by id, and for each side a map from price to
the queue of order ids at that price, oldest first. `HashMap` and `BTreeMap` are ordered maps
here; the order of the former is never observed.

A method that mutates answers its result together with the book after the call, also where the
result is an error: the fast book can change on the way to a refusal, so the shared interface
has to be able to say so. The callbacks of `for_each_level` and `for_each_order` are answered
as the list of what they are called with; a callback that stops early sees a prefix of it.

## The interface as a class

`OrderBook` is the trait of the source, method by method, and carries no laws. What an
implementation has to do is said elsewhere, by relating it to the list of its orders
(`Book/Arrivals.lean`); a law-carrying class would have to mention the fast book's limits in its
statements, and the reference book has none.

Quantities at a level are added as 64-bit words and orders counted as 32-bit ones that saturate
(`emit_level`), because that is what a level shows on the wire. `ModifyOrder` for an id that does
not rest and a `reduce` to nothing are errors, never silently ignored. The errors list those of the
fast book as well, since the source has one type for both; the reference book never answers the last
three.
-/

set_option autoImplicit false

namespace MarketData.Book

open MarketData.Wire (Side)

/-- Why a book operation was refused. The last three are the capacity limits of the fast book. -/
inductive BookError where
  | duplicateOrderId (orderId : UInt64)
  | unknownOrderId (orderId : UInt64)
  | reduceWouldIncrease (orderId : UInt64) (old new : UInt32)
  | zeroQuantity (orderId : UInt64)
  | slabFull (orderId : UInt64) (capacity : Nat)
  | priceOutOfRange (orderId : UInt64) (price : Int64)
  | priceOffGrid (orderId : UInt64) (price : Int64)
  deriving DecidableEq, Repr

structure RestingOrder where
  orderId : UInt64
  price : Int64
  quantity : UInt32
  side : Side
  deriving DecidableEq, Repr

/-- One aggregated price level. -/
structure Level where
  price : Int64
  quantity : UInt64
  orderCount : UInt32
  deriving DecidableEq, Repr

/-- `OrderBook` (`view.rs`): what every book implementation offers. -/
class OrderBook (B : Type) where
  add : B → UInt64 → Side → Int64 → UInt32 → Except BookError Unit × B
  delete : B → UInt64 → Except BookError RestingOrder × B
  reduce : B → UInt64 → UInt32 → Except BookError Unit × B
  replace : B → UInt64 → Int64 → UInt32 → Except BookError Unit × B
  get : B → UInt64 → Option RestingOrder
  len : B → Nat
  levelCount : B → Side → Nat → Nat
  forEachLevel : B → Side → Nat → List Level
  forEachOrder : B → Side → List RestingOrder
  clear : B → B

/-- A side's price levels, cheapest first. -/
abbrev Levels := Std.TreeMap Int64 (List UInt64)

structure ReferenceBook where
  orders : Std.TreeMap UInt64 RestingOrder := ∅
  bids : Levels := ∅
  asks : Levels := ∅

namespace ReferenceBook

def new : ReferenceBook := {}

def side (b : ReferenceBook) : Side → Levels
  | .bid => b.bids
  | .ask => b.asks

/-- `side_mut`, with the change to make. -/
def modifySide (b : ReferenceBook) (s : Side) (f : Levels → Levels) : ReferenceBook :=
  match s with
  | .bid => { b with bids := f b.bids }
  | .ask => { b with asks := f b.asks }

/-- `entry(price).or_default().push_back(order_id)`. -/
def pushBack (levels : Levels) (price : Int64) (orderId : UInt64) : Levels :=
  levels.insert price (levels.getD price [] ++ [orderId])

def unlink (levels : Levels) (price : Int64) (orderId : UInt64) : Levels :=
  match levels[price]? with
  | none => levels
  | some queue =>
    let queue := queue.erase orderId
    if queue.isEmpty then levels.erase price else levels.insert price queue

/-- Rests a new order at the back of its price level. -/
def add (b : ReferenceBook) (orderId : UInt64) (side : Side) (price : Int64) (quantity : UInt32) :
    Except BookError Unit × ReferenceBook :=
  if quantity = 0 then (.error (.zeroQuantity orderId), b)
  else if b.orders.contains orderId then (.error (.duplicateOrderId orderId), b)
  else
    let b := { b with orders := b.orders.insert orderId ⟨orderId, price, quantity, side⟩ }
    (.ok (), b.modifySide side fun levels => pushBack levels price orderId)

/-- Removes an order and returns what it was. -/
def delete (b : ReferenceBook) (orderId : UInt64) : Except BookError RestingOrder × ReferenceBook :=
  match b.orders[orderId]? with
  | none => (.error (.unknownOrderId orderId), b)
  | some order =>
    let b := { b with orders := b.orders.erase orderId }
    (.ok order, b.modifySide order.side fun levels => unlink levels order.price orderId)

/-- Lowers an order's quantity, keeping its place in the queue. -/
def reduce (b : ReferenceBook) (orderId : UInt64) (newQuantity : UInt32) :
    Except BookError Unit × ReferenceBook :=
  match b.orders[orderId]? with
  | none => (.error (.unknownOrderId orderId), b)
  | some order =>
    if newQuantity = 0 then (.error (.zeroQuantity orderId), b)
    else if order.quantity < newQuantity then
      (.error (.reduceWouldIncrease orderId order.quantity newQuantity), b)
    else (.ok (), { b with orders := b.orders.insert orderId { order with quantity := newQuantity } })

/-- Changes price and quantity, sending the order to the back of its level. -/
def replace (b : ReferenceBook) (orderId : UInt64) (newPrice : Int64) (newQuantity : UInt32) :
    Except BookError Unit × ReferenceBook :=
  if newQuantity = 0 then (.error (.zeroQuantity orderId), b)
  else match b.orders[orderId]? with
    | none => (.error (.unknownOrderId orderId), b)
    | some order =>
      let b := b.modifySide order.side fun levels => unlink levels order.price orderId
      let updated := { order with price := newPrice, quantity := newQuantity }
      let b := { b with orders := b.orders.insert orderId updated }
      (.ok (), b.modifySide order.side fun levels => pushBack levels newPrice orderId)

def get (b : ReferenceBook) (orderId : UInt64) : Option RestingOrder := b.orders[orderId]?

def len (b : ReferenceBook) : Nat := b.orders.size

/-- Removes every order. -/
def clear (_ : ReferenceBook) : ReferenceBook := {}

/-- The price levels of a side, best first. -/
def bestFirst (b : ReferenceBook) (s : Side) : List (Int64 × List UInt64) :=
  match s with
  | .bid => b.bids.toList.reverse
  | .ask => b.asks.toList

/-- The best price on a side, and the id at the front of its queue. -/
def front (b : ReferenceBook) (s : Side) : Option (Int64 × UInt64) := do
  let (price, queue) ← (b.bestFirst s).head?
  let id ← queue.head?
  some (price, id)

/-- `emit_level`. -/
def emitLevel (b : ReferenceBook) (price : Int64) (queue : List UInt64) : Level :=
  { price := price
    quantity := ((queue.filterMap b.get).map fun o => o.quantity.toUInt64).foldl (· + ·) 0
    orderCount := if queue.length < 2 ^ 32 then UInt32.ofNat queue.length else 4294967295 }

def levelCount (b : ReferenceBook) (s : Side) (depth : Nat) : Nat :=
  if depth = 0 then (b.side s).size else min (b.side s).size depth

/-- Aggregated levels, best first. `depth` of 0 means every level. -/
def forEachLevel (b : ReferenceBook) (s : Side) (depth : Nat) : List Level :=
  let levels := if depth = 0 then b.bestFirst s else (b.bestFirst s).take depth
  levels.map fun (price, queue) => b.emitLevel price queue

/-- `orders_in_queue_order` and `for_each_order`: best price first, oldest first within a price. -/
def ordersInQueueOrder (b : ReferenceBook) (s : Side) : List RestingOrder :=
  (b.bestFirst s).flatMap fun (_, queue) => queue.filterMap b.get

theorem len_delete {b b' : ReferenceBook} {orderId : UInt64} {order : RestingOrder}
    (h : b.delete orderId = (.ok order, b')) : b'.len + 1 = b.len := by
  unfold delete at h
  split at h
  · cases h
  · rename_i order' hget
    cases h
    have hmem : b.orders.contains orderId = true := by
      rw [Std.TreeMap.contains_eq_isSome_getElem?, hget]
      rfl
    have hsize := Std.TreeMap.size_erase (t := b.orders) (k := orderId)
    rw [if_pos hmem] at hsize
    have hpos : 0 < b.orders.size := by
      rw [Nat.pos_iff_ne_zero]
      intro hzero
      rw [Std.TreeMap.contains_of_isEmpty (by rw [Std.TreeMap.isEmpty_eq_size_eq_zero, hzero]; rfl)]
        at hmem
      cases hmem
    have hlen : ∀ s f, ({ b with orders := b.orders.erase orderId }.modifySide s f).len =
        (b.orders.erase orderId).size := by
      intro s f
      cases s <;> rfl
    rw [hlen, hsize, len]
    omega

instance : OrderBook ReferenceBook where
  add := add
  delete := delete
  reduce := reduce
  replace := replace
  get := get
  len := len
  levelCount := levelCount
  forEachLevel := forEachLevel
  forEachOrder := ordersInQueueOrder
  clear := clear

end ReferenceBook

end MarketData.Book
