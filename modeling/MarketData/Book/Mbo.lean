import MarketData.Book.Apply
import MarketData.Book.Tick
import MarketData.Lib.Probing

/-!
# `Book/Mbo.lean` — the fast book

`crates/book/src/mbo.rs`: price levels in a dense array indexed by tick offset, orders in a slab
handed out from a free list, and an open-addressed map from order ids to slab nodes. The queue of
a level and the free list are both threaded through the slab.

## How the data is represented

An array is a function from indices, beside its length where the source reads it. An update is then
a function update, and a read of another index is unchanged by one rewriting step, which is what the
proofs about links do most; nothing in the source depends on an index being out of bounds, because
every index it uses comes from a link, a slot or the map.

The 32-bit node and slot numbers are naturals, **cut to 32 bits where the source casts** (`asU32`,
`i64AsU32`). So a window of 2^32 slots is a value of the model, it misbehaves as the program would,
and results that need smaller ones have to say so. The counters of a level are machine words and
wrap. Prices are `Int64` and wrap as in a release build.

A mutating method answers its result together with the book after the call: `slot_for` may move the
window and the operation be refused afterwards, and the book is then not the one it was.

## What is left out

Statistics: nothing reads them. The map's, the levels' and the slab's allocations are taken to
succeed. The loops that follow links run on the slab's size as fuel, one more step than any queue
has; that the fuel is enough is part of what `Book/MboStore.lean` and `Book/MboShows.lean` prove.
-/

set_option autoImplicit false

namespace MarketData.Book

open MarketData.Wire (Side)
open MarketData.Probing

/-- `NIL`: no node, no slot. -/
def nil : Nat := 4294967295

/-- `x as u32`. -/
def asU32 (x : Nat) : Nat := x % 2 ^ 32

/-- `x as u32` and `x as usize` for a signed word. -/
def i64AsU32 (x : Int64) : Nat := (x.toInt % 2 ^ 32).toNat

def i64AsUsize (x : Int64) : Nat := (x.toInt % 2 ^ 64).toNat

structure Node where
  orderId : UInt64 := 0
  price : Int64 := 0
  quantity : UInt32 := 0
  side : Side := .bid
  /-- Index of the level this order rests at. -/
  slot : Nat := nil
  /-- Intrusive per-level FIFO. `next` is towards the back of the queue. -/
  next : Nat := nil
  prev : Nat := nil
  deriving DecidableEq, Repr

def Node.order (n : Node) : RestingOrder := ⟨n.orderId, n.price, n.quantity, n.side⟩

/-- One aggregated price level, and the head and tail of its order queue. -/
structure LevelCell where
  quantity : UInt64 := 0
  orders : UInt32 := 0
  head : Nat := nil
  tail : Nat := nil
  deriving DecidableEq, Repr

def LevelCell.isEmpty (c : LevelCell) : Bool := c.orders = 0

structure MapEntry where
  orderId : UInt64 := 0
  node : Nat := nil
  deriving DecidableEq, Repr

/-- How the book was sized. -/
structure MboCapacity where
  levels : Nat
  orders : Nat
  referencePrice : Int64
  tick : Int64
  deriving DecidableEq, Repr

structure MboBook where
  index : TickIndex
  bids : Nat → LevelCell := fun _ => {}
  asks : Nat → LevelCell := fun _ => {}
  nodes : Nat → Node
  /-- `nodes.len()`. -/
  slab : Nat
  /-- Head of the free list threaded through unused nodes via `next`. -/
  freeHead : Nat := 0
  map : Nat → MapEntry := fun _ => {}
  mapMask : Nat
  live : Nat := 0
  /-- Highest occupied bid slot, lowest occupied ask slot. -/
  bestBid : Option Nat := none
  bestAsk : Option Nat := none
  /-- Occupied levels per side, maintained incrementally. -/
  bidLevels : UInt32 := 0
  askLevels : UInt32 := 0

/-- `usize::next_power_of_two`. -/
def nextPowerOfTwo (n : Nat) : Nat := if n ≤ 1 then 1 else 2 ^ ((n - 1).log2 + 1)

/-- The hash of an order id, cut to the map: SplitMix64's finaliser. -/
def hashId (mask : Nat) (orderId : UInt64) : Nat :=
  let z := (orderId ^^^ (orderId >>> 30)) * 0xBF58476D1CE4E5B9
  let z := (z ^^^ (z >>> 27)) * 0x94D049BB133111EB
  (z ^^^ (z >>> 31)).toNat &&& mask

namespace MboBook

/-- A slab of unused nodes, the free list threaded through them front to back. -/
def freeNodes (orders : Nat) (i : Nat) : Node :=
  { next := if i + 1 < orders then asU32 (i + 1) else nil }

def new (cap : MboCapacity) : MboBook :=
  let levels := max cap.levels 4
  let orders := max cap.orders 4
  { index := TickIndex.centredOn cap.referencePrice cap.tick levels
    nodes := freeNodes orders
    slab := orders
    mapMask := nextPowerOfTwo (orders * 4) - 1 }

/-- Empties the book, keeping every allocation and the price window. -/
def clear (b : MboBook) : MboBook :=
  { index := b.index, nodes := freeNodes b.slab, slab := b.slab, mapMask := b.mapMask }

def len (b : MboBook) : Nat := b.live

def capacity (b : MboBook) : Nat := b.slab

/-! ## The order-id map -/

def scheme (b : MboBook) : Scheme UInt64 MapEntry :=
  { mask := b.mapMask
    home := hashId b.mapMask
    key := (·.orderId)
    vacant := fun e => e.node = nil
    empty := {} }

def mapFind (b : MboBook) (orderId : UInt64) : Option Nat := b.scheme.find b.map orderId

def mapInsert (b : MboBook) (orderId : UInt64) (node : Nat) : MboBook :=
  { b with map := b.scheme.insert b.map ⟨orderId, node⟩ }

/-- Removes the entry at `hole` by backward-shift deletion. -/
def mapRemoveAt (b : MboBook) (hole : Nat) : MboBook :=
  { b with map := b.scheme.removeAt b.map hole }

/-! ## Levels -/

def cells (b : MboBook) : Side → Nat → LevelCell
  | .bid => b.bids
  | .ask => b.asks

/-- `side_cells`, with the cell to write. -/
def setCell (b : MboBook) (s : Side) (slot : Nat) (c : LevelCell) : MboBook :=
  match s with
  | .bid => { b with bids := Function.update b.bids slot c }
  | .ask => { b with asks := Function.update b.asks slot c }

def levelOpened (b : MboBook) : Side → MboBook
  | .bid => { b with bidLevels := b.bidLevels + 1 }
  | .ask => { b with askLevels := b.askLevels + 1 }

def levelClosed (b : MboBook) : Side → MboBook
  | .bid => { b with bidLevels := b.bidLevels - 1 }
  | .ask => { b with askLevels := b.askLevels - 1 }

/-- Occupied levels on a side, capped at `depth` when `depth` is non-zero. -/
def levelCount (b : MboBook) (s : Side) (depth : Nat) : Nat :=
  let n := match s with
    | .bid => b.bidLevels.toNat
    | .ask => b.askLevels.toNat
  if depth = 0 then n else min n depth

/-- The lowest and highest occupied slots across both sides. -/
def occupiedExtent (b : MboBook) : Option Nat × Option Nat :=
  let occupied (i : Nat) : Bool := !(b.bids i).isEmpty || !(b.asks i).isEmpty
  ((List.range b.index.capacity).find? occupied,
    (List.range b.index.capacity).reverse.find? occupied)

/-- The lowest and highest occupied price, which a move of the window has to keep. -/
def keptPrices (b : MboBook) : Option (Int64 × Int64) :=
  match b.occupiedExtent with
  | (some l, some h) => some (b.index.priceAt l, b.index.priceAt h)
  | _ => none

/-- Moves the cells of one side in place by `shift` slots. Direction matters: shifting down goes
front to back, up goes back to front. -/
def shiftCells (cap : Nat) (shift : Int64) (cells : Nat → LevelCell) : Nat → LevelCell :=
  if 0 < shift then
    let s := i64AsUsize shift
    (List.range cap).foldl
      (fun cells i => Function.update cells i (if i + s < cap then cells (i + s) else {})) cells
  else if shift < 0 then
    let s := i64AsUsize (-shift)
    (List.range cap).reverse.foldl
      (fun cells i => Function.update cells i (if s ≤ i then cells (i - s) else {})) cells
  else cells

/-- Every node records its slot, so they all move too. -/
def shiftNode (shift : Int64) (n : Node) : Node :=
  if n.slot ≠ nil then { n with slot := i64AsU32 (Int64.ofNat n.slot - shift) } else n

/-- The book with its window moved. -/
def moveWindow (b : MboBook) (moved : TickIndex) (shift : Int64) : MboBook :=
  let b := { b with
    bids := shiftCells b.index.capacity shift b.bids
    asks := shiftCells b.index.capacity shift b.asks }
  let b := if shift ≠ 0 then
      { b with
        nodes := fun i => shiftNode shift (b.nodes i)
        bestBid := b.bestBid.map fun slot => i64AsUsize (Int64.ofNat slot - shift)
        bestAsk := b.bestAsk.map fun slot => i64AsUsize (Int64.ofNat slot - shift) }
    else b
  { b with index := moved }

/-- Slides the price window so `price` fits, moving everything with it. -/
def rebase (b : MboBook) (orderId : UInt64) (price : Int64) : Except BookError Unit × MboBook :=
  match b.index.rebaseFor price b.keptPrices with
  | none => (.error (.priceOutOfRange orderId price), b)
  | some (moved, shift) => (.ok (), b.moveWindow moved shift)

/-- The slot for `price`, rebasing if necessary. -/
def slotFor (b : MboBook) (orderId : UInt64) (price : Int64) : Except BookError Nat × MboBook :=
  match b.index.slot price with
  | .at i => (.ok i, b)
  | .offGrid => (.error (.priceOffGrid orderId price), b)
  | .outside =>
    match b.rebase orderId price with
    | (.error e, b) => (.error e, b)
    | (.ok _, b) =>
      match b.index.slot price with
      | .at i => (.ok i, b)
      | _ => (.error (.priceOutOfRange orderId price), b)

def noteOccupied (b : MboBook) (s : Side) (slot : Nat) : MboBook :=
  match s with
  | .bid => if b.bestBid.all (· < slot) then { b with bestBid := some slot } else b
  | .ask => if b.bestAsk.all (slot < ·) then { b with bestAsk := some slot } else b

/-- Rescans for the best price on a side after its best level emptied. -/
def rescanBest (b : MboBook) (s : Side) : MboBook :=
  match s with
  | .bid =>
    let start := b.bestBid.getD (b.index.capacity - 1)
    { b with bestBid := (List.range (start + 1)).reverse.find? fun i => !(b.bids i).isEmpty }
  | .ask =>
    let start := b.bestAsk.getD 0
    let ahead := List.range' start (b.index.capacity - start)
    { b with bestAsk := ahead.find? fun i => !(b.asks i).isEmpty }

/-- The end of a removal that may have emptied the best level of its side. -/
def rescanIfBest (b : MboBook) (s : Side) (slot : Nat) (emptied : Bool) : MboBook :=
  if emptied then
    match s with
    | .bid => if b.bestBid = some slot then b.rescanBest .bid else b
    | .ask => if b.bestAsk = some slot then b.rescanBest .ask else b
  else b

/-! ## The intrusive per-level queue -/

def setNode (b : MboBook) (i : Nat) (n : Node) : MboBook :=
  { b with nodes := Function.update b.nodes i n }

def setNext (b : MboBook) (i next : Nat) : MboBook := b.setNode i { b.nodes i with next := next }

def setPrev (b : MboBook) (i prev : Nat) : MboBook := b.setNode i { b.nodes i with prev := prev }

def linkBack (b : MboBook) (s : Side) (slot node : Nat) : MboBook :=
  let cell := b.cells s slot
  if cell.tail = nil then
    ((b.setCell s slot { cell with head := node, tail := node }).setPrev node nil).setNext node nil
  else
    (((b.setCell s slot { cell with tail := node }).setNext cell.tail node).setPrev node
      cell.tail).setNext node nil

def unlink (b : MboBook) (s : Side) (slot node : Nat) : MboBook :=
  let prev := (b.nodes node).prev
  let next := (b.nodes node).next
  let b := if prev ≠ nil then b.setNext prev next else b
  let b := if next ≠ nil then b.setPrev next prev else b
  let cell := b.cells s slot
  let cell := if cell.head = node then { cell with head := next } else cell
  let cell := if cell.tail = node then { cell with tail := prev } else cell
  ((b.setCell s slot cell).setPrev node nil).setNext node nil

/-! ## The slab -/

def takeNode (b : MboBook) (orderId : UInt64) : Except BookError Nat × MboBook :=
  if b.freeHead = nil then (.error (.slabFull orderId b.slab), b)
  else (.ok b.freeHead, { b with freeHead := (b.nodes b.freeHead).next })

def giveNode (b : MboBook) (node : Nat) : MboBook :=
  { b.setNode node { next := b.freeHead } with freeHead := node }

/-! ## The operations -/

/-- Adds to a level's aggregates. -/
def tallyIn (b : MboBook) (s : Side) (slot : Nat) (quantity : UInt32) : MboBook :=
  let cell := b.cells s slot
  b.setCell s slot { cell with
    quantity := cell.quantity + quantity.toUInt64, orders := cell.orders + 1 }

/-- Takes from a level's aggregates. -/
def tallyOut (b : MboBook) (s : Side) (slot : Nat) (quantity : UInt32) : MboBook :=
  let cell := b.cells s slot
  b.setCell s slot { cell with
    quantity := cell.quantity - quantity.toUInt64, orders := cell.orders - 1 }

/-- Rests a new order at the back of its price level. -/
def add (b : MboBook) (orderId : UInt64) (side : Side) (price : Int64) (quantity : UInt32) :
    Except BookError Unit × MboBook :=
  if quantity = 0 then (.error (.zeroQuantity orderId), b)
  else if (b.mapFind orderId).isSome then (.error (.duplicateOrderId orderId), b)
  else
    match b.slotFor orderId price with
    | (.error e, b) => (.error e, b)
    | (.ok slot, b) =>
      match b.takeNode orderId with
      | (.error e, b) => (.error e, b)
      | (.ok node, b) =>
        let b := b.setNode node
          { orderId := orderId, price := price, quantity := quantity, side := side,
            slot := asU32 slot, next := nil, prev := nil }
        let wasEmpty := (b.cells side slot).isEmpty
        let b := b.linkBack side slot node
        let b := b.tallyIn side slot quantity
        let b := if wasEmpty then b.levelOpened side else b
        let b := b.mapInsert orderId node
        let b := { b with live := b.live + 1 }
        (.ok (), b.noteOccupied side slot)

/-- Removes an order and returns what it was. -/
def delete (b : MboBook) (orderId : UInt64) : Except BookError RestingOrder × MboBook :=
  match b.mapFind orderId with
  | none => (.error (.unknownOrderId orderId), b)
  | some mapI =>
    let node := (b.map mapI).node
    let n := b.nodes node
    let b := b.unlink n.side n.slot node
    let b := b.tallyOut n.side n.slot n.quantity
    let emptied := (b.cells n.side n.slot).isEmpty
    let b := b.mapRemoveAt mapI
    let b := b.giveNode node
    let b := { b with live := b.live - 1 }
    let b := if emptied then b.levelClosed n.side else b
    (.ok n.order, b.rescanIfBest n.side n.slot emptied)

/-- Lowers an order's quantity, keeping its place in the queue. -/
def reduce (b : MboBook) (orderId : UInt64) (newQuantity : UInt32) :
    Except BookError Unit × MboBook :=
  if newQuantity = 0 then (.error (.zeroQuantity orderId), b)
  else match b.mapFind orderId with
    | none => (.error (.unknownOrderId orderId), b)
    | some mapI =>
      let node := (b.map mapI).node
      let n := b.nodes node
      if n.quantity < newQuantity then
        (.error (.reduceWouldIncrease orderId n.quantity newQuantity), b)
      else
        let b := b.setNode node { n with quantity := newQuantity }
        let cell := b.cells n.side n.slot
        (.ok (), b.setCell n.side n.slot
          { cell with quantity := cell.quantity - (n.quantity - newQuantity).toUInt64 })

/-- Changes price and quantity, sending the order to the back of its level. -/
def replace (b : MboBook) (orderId : UInt64) (newPrice : Int64) (newQuantity : UInt32) :
    Except BookError Unit × MboBook :=
  if newQuantity = 0 then (.error (.zeroQuantity orderId), b)
  else match b.mapFind orderId with
    | none => (.error (.unknownOrderId orderId), b)
    | some mapI =>
      let node := (b.map mapI).node
      let n := b.nodes node
      match b.slotFor orderId newPrice with
      | (.error e, b) => (.error e, b)
      | (.ok newSlot, b) =>
        -- Read after `slot_for`, which may have renumbered every slot.
        let oldSlot := (b.nodes node).slot
        let b := b.unlink n.side oldSlot node
        let b := b.tallyOut n.side oldSlot n.quantity
        let emptied := (b.cells n.side oldSlot).isEmpty
        let b := if emptied then b.levelClosed n.side else b
        let filled := (b.cells n.side newSlot).isEmpty
        let b := b.setNode node { b.nodes node with
          price := newPrice, quantity := newQuantity, slot := asU32 newSlot }
        let b := b.linkBack n.side newSlot node
        let b := b.tallyIn n.side newSlot newQuantity
        let b := if filled then b.levelOpened n.side else b
        let b := b.noteOccupied n.side newSlot
        (.ok (), b.rescanIfBest n.side oldSlot emptied)

/-! ## Reading it -/

def get (b : MboBook) (orderId : UInt64) : Option RestingOrder :=
  (b.mapFind orderId).map fun i => (b.nodes (b.map i).node).order

def best (b : MboBook) : Side → Option Nat
  | .bid => b.bestBid
  | .ask => b.bestAsk

/-- The best price on a side, and the order at the front of its queue. -/
def front (b : MboBook) (s : Side) : Option (Int64 × UInt64) := do
  let slot ← b.best s
  let cell := b.cells s slot
  if cell.head = nil then none
  else some (b.index.priceAt slot, (b.nodes cell.head).orderId)

/-- The slots from the best one on, in the order the walks take them. -/
def walk (b : MboBook) (s : Side) : List Nat :=
  match s, b.best s with
  | _, none => []
  | .bid, some start => (List.range (min start (b.index.capacity - 1) + 1)).reverse
  | .ask, some start => List.range' start (b.index.capacity - start)

/-- Aggregated levels, best first. `depth` of 0 means every level. -/
def forEachLevel (b : MboBook) (s : Side) (depth : Nat) : List Level :=
  let occupied := (b.walk s).filter fun i => !(b.cells s i).isEmpty
  let occupied := if depth = 0 then occupied else occupied.take depth
  occupied.map fun i =>
    { price := b.index.priceAt i
      quantity := (b.cells s i).quantity
      orderCount := (b.cells s i).orders }

/-- The orders of a queue from `node` on. No queue is longer than the slab. -/
def queueFrom (b : MboBook) : Nat → Nat → List RestingOrder
  | 0, _ => []
  | fuel + 1, node =>
    if node = nil then [] else (b.nodes node).order :: queueFrom b fuel (b.nodes node).next

/-- Every resting order on a side in queue order. -/
def forEachOrder (b : MboBook) (s : Side) : List RestingOrder :=
  (b.walk s).flatMap fun i => b.queueFrom b.slab (b.cells s i).head

instance : OrderBook MboBook where
  add := add
  delete := delete
  reduce := reduce
  replace := replace
  get := get
  len := len
  levelCount := levelCount
  forEachLevel := forEachLevel
  forEachOrder := forEachOrder
  clear := clear

/-! ## Cross-checking the structures -/

/-- Why `check_invariants` gave up. -/
inductive Drift where
  | wrongSlot (orderId : UInt64) (level slot : Nat)
  | wrongSide (orderId : UInt64)
  | wrongPrev (orderId : UInt64) (prev walked : Nat)
  | zeroQuantity (orderId : UInt64)
  | notInMap (orderId : UInt64)
  | cyclic (level : Nat)
  | wrongTail (level tail walked : Nat)
  | wrongCount (level : Nat) (claimed held : UInt32)
  | wrongQuantity (level : Nat) (claimed held : UInt64)
  | wrongLevels (s : Side) (claimed held : Nat)
  | wrongLive (live counted : Nat)
  | staleBid (cached real : Option Nat)
  | staleAsk (cached real : Option Nat)
  | wrongEntries (live entries : Nat)
  deriving DecidableEq, Repr

/-- What a walk over one level's queue has seen. -/
structure LevelWalk where
  prev : Nat := nil
  inLevel : UInt32 := 0
  quantity : UInt64 := 0

/-- The `while` loop over one level's queue; it reports a cycle once it has taken more steps than
there are nodes. -/
def checkQueue (b : MboBook) (s : Side) (level : Nat) :
    Nat → Nat → LevelWalk → Except Drift LevelWalk
  | 0, _, _ => .error (.cyclic level)
  | fuel + 1, node, w =>
    if node = nil then .ok w
    else
      let n := b.nodes node
      if n.slot ≠ level then .error (.wrongSlot n.orderId level n.slot)
      else if n.side ≠ s then .error (.wrongSide n.orderId)
      else if n.prev ≠ w.prev then .error (.wrongPrev n.orderId n.prev w.prev)
      else if n.quantity = 0 then .error (.zeroQuantity n.orderId)
      else if (b.get n.orderId).isNone then .error (.notInMap n.orderId)
      else
        let w := { prev := node, inLevel := w.inLevel + 1,
                   quantity := w.quantity + n.quantity.toUInt64 : LevelWalk }
        if b.slab < w.inLevel.toNat then .error (.cyclic level)
        else checkQueue b s level fuel n.next w

/-- One level: answers how many orders it holds. -/
def checkLevel (b : MboBook) (s : Side) (level : Nat) : Except Drift Nat := do
  let cell := b.cells s level
  let w ← b.checkQueue s level (b.slab + 1) cell.head {}
  if cell.tail ≠ w.prev then .error (.wrongTail level cell.tail w.prev)
  else if w.inLevel ≠ cell.orders then .error (.wrongCount level cell.orders w.inLevel)
  else if w.quantity ≠ cell.quantity then .error (.wrongQuantity level cell.quantity w.quantity)
  else .ok w.inLevel.toNat

/-- The levels of one side, counted up. -/
def checkLevels (b : MboBook) (s : Side) : List Nat → Nat → Except Drift Nat
  | [], counted => .ok counted
  | level :: rest, counted => do
    let inLevel ← b.checkLevel s level
    checkLevels b s rest (counted + inLevel)

def checkSide (b : MboBook) (s : Side) (counted : Nat) : Except Drift Nat := do
  let counted ← b.checkLevels s (List.range b.index.capacity) counted
  let occupied := (List.range b.index.capacity).countP fun i => !(b.cells s i).isEmpty
  if occupied ≠ b.levelCount s 0 then .error (.wrongLevels s (b.levelCount s 0) occupied)
  else .ok counted

/-- Cross-checks the structures against each other. -/
def checkInvariants (b : MboBook) : Except Drift Unit := do
  let counted ← b.checkSide .bid 0
  let counted ← b.checkSide .ask counted
  let realBid := (List.range b.index.capacity).reverse.find? fun i => !(b.bids i).isEmpty
  let realAsk := (List.range b.index.capacity).find? fun i => !(b.asks i).isEmpty
  let entries := (List.range (b.mapMask + 1)).countP fun i => (b.map i).node ≠ nil
  if counted ≠ b.live then .error (.wrongLive b.live counted)
  else if b.bestBid ≠ realBid then .error (.staleBid b.bestBid realBid)
  else if b.bestAsk ≠ realAsk then .error (.staleAsk b.bestAsk realAsk)
  else if entries ≠ b.live then .error (.wrongEntries b.live entries)
  else .ok ()

end MboBook

end MarketData.Book
