import MarketData.Matching.Feed
import MarketData.Lib.Results

/-!
# `Matching/Engine.lean` — price-time-priority matching

`crates/matching-engine/src/engine.rs`. Every change to the engine's book goes through `publish`,
which applies the change and then encodes the message that describes it. A submitted order
matches against the front of the opposite side while its price crosses, and rests what is left.

The two callbacks of a call are recorded: `on_sequence` as the list of checkpoints, each with the
sequence it was called with and the books the engine held then, and `on_fill` as the list of
fills. `EngineStats` is left out, and of the generator's per-symbol state only the list of orders
it may act on again is kept: the rest is neither read nor written here.

## Which book

The engine's own books are of the reference kind, `BTreeMap` and all; consumers keep either kind.
What a book is to the engine is a handful of calls, each of which can refuse, and `Change` has a
case for each. Putting `Change` between the engine and its book makes the two halves of `publish`,
what is done and what is announced, functions of one value, and that they do the same is one lemma
(`Matching/Reproduction.lean`).

## A loop with fuel

The matching loop runs until nothing crosses. It is given a number of turns here, and
`matchLoop_succ` says that any number above the count of resting orders makes no difference: **every
turn but the last takes an order off the book**. A turn fails if the feed does, or if the front of
the book is not on it, which is an error of the source that no reachable book runs into
(`Matching/Priority.lean`).
-/

set_option autoImplicit false

namespace MarketData.Matching

open MarketData.Wire MarketData.Book

/-- One fill against an order that was just submitted. -/
structure Fill where
  tradeId : UInt64
  /-- The resting order's price. -/
  price : Int64
  quantity : UInt32
  /-- Still unfilled after this fill. -/
  leaves : UInt32
  deriving DecidableEq, Repr

/-- A fill against an order that was already resting on the book. -/
structure PassiveFill where
  restingOrderId : UInt64
  tradeId : UInt64
  price : Int64
  quantity : UInt32
  /-- Still resting after this fill. -/
  leaves : UInt32
  symbolId : UInt16
  side : Side
  deriving DecidableEq, Repr

/-- What became of a submitted order. -/
structure SubmitOutcome where
  orderId : UInt64
  filled : UInt32
  resting : UInt32
  deriving DecidableEq, Repr

/-- A book change and the message that announces it. -/
inductive Change where
  | add (orderId : UInt64) (side : Side) (price : Int64) (quantity : UInt32)
  /-- A partial fill, or a size-down that keeps queue priority. -/
  | reduce (orderId : UInt64) (side : Side) (price : Int64) (newQuantity : UInt32)
  /-- A re-price or size-up. Loses queue priority. -/
  | replace (orderId : UInt64) (side : Side) (newPrice : Int64) (newQuantity : UInt32)
  | delete (orderId : UInt64) (side : Side)
  /-- Carries no book change of its own. -/
  | trade (tradeId aggressorOrderId restingOrderId : UInt64) (price : Int64) (quantity : UInt32)
      (aggressorSide : Side)
  deriving DecidableEq, Repr

structure SymbolState where
  id : UInt16
  /-- Ids resting that the flow generator may act on again, in insertion order. -/
  live : List UInt64 := []

/-- `Vec::swap_remove`. -/
def swapRemove (xs : List UInt64) (pos : Nat) : List UInt64 :=
  match xs.getLast? with
  | none => xs
  | some x => (xs.set pos x).dropLast

def SymbolState.removeLive (s : SymbolState) (orderId : UInt64) : SymbolState :=
  match s.live.findIdx? (· = orderId) with
  | none => s
  | some pos => { s with live := swapRemove s.live pos }

structure Engine where
  books : Books := Books.new
  symbols : List SymbolState := []
  nextOrderId : UInt64 := 1
  nextTradeId : UInt64 := 1
  /-- Resting orders somebody wants to be told about, sorted. -/
  watched : List UInt64 := []
  passiveFills : List PassiveFill := []
  passiveFillsDropped : UInt64 := 0

def opposite : Side → Side
  | .bid => .ask
  | .ask => .bid

def maxPassiveFills : Nat := 1024

namespace Engine

def new (symbols : List UInt16) : Engine :=
  { symbols := symbols.map fun id => { id := id } }

/-- Asks to be told when `orderId` is filled while resting. `watched` is sorted, so the binary
search of the source is membership. -/
def watchOrder (e : Engine) (orderId : UInt64) : Engine :=
  if e.watched.contains orderId then e
  else { e with watched := e.watched.takeWhile (· < orderId) ++ orderId ::
    e.watched.dropWhile (· < orderId) }

def unwatchOrder (e : Engine) (orderId : UInt64) : Engine :=
  { e with watched := e.watched.erase orderId }

/-- Changes the first symbol of that id, if there is one (`symbol_index`). -/
def modifySymbol (e : Engine) (symbolId : UInt16) (f : SymbolState → SymbolState) : Engine :=
  match e.symbols.findIdx? (·.id = symbolId) with
  | none => e
  | some idx => { e with symbols := e.symbols.modify idx f }

def removeLive (e : Engine) (symbolId : UInt16) (orderId : UInt64) : Engine :=
  e.modifySymbol symbolId fun s => s.removeLive orderId

def pushLive (e : Engine) (symbolId : UInt16) (orderId : UInt64) : Engine :=
  e.modifySymbol symbolId fun s => { s with live := s.live ++ [orderId] }

/-- `self.books.get_or_create(symbol_id)` where the book is only read. -/
def getOrCreate (e : Engine) (symbolId : UInt16) : Engine :=
  { e with books := e.books.put symbolId (e.books.book symbolId) }

/-- Keeps the book an operation left, or turns its refusal into an error (`book_err`). -/
def store {α : Type} (e : Engine) (symbolId : UInt16) (r : Except BookError α × ReferenceBook) :
    Except IoError Engine :=
  match r with
  | (.ok _, b) => .ok { e with books := e.books.put symbolId b }
  | (.error err, _) => .error (.book err)

/-- Notes a fill for the owner of the resting order, if somebody watches it. -/
def recordPassiveFill (e : Engine) (fill : PassiveFill) : Engine :=
  if e.watched.contains fill.restingOrderId then
    if e.passiveFills.length < maxPassiveFills then
      { e with passiveFills := e.passiveFills ++ [fill] }
    else { e with passiveFillsDropped := e.passiveFillsDropped + 1 }
  else e

variable (env : Env)

/-- Applies `change` to the book and publishes the message that describes it. Answers the sequence
the message was given. -/
def publish (e : Engine) (p : FeedPublisher) (symbolId : UInt16) (change : Change) :
    Except IoError (UInt64 × Engine × FeedPublisher) :=
  let book := e.books.book symbolId
  match change with
  | .add orderId side price quantity => do
    let e ← e.store symbolId (book.add orderId side price quantity)
    let (seq, p) ← p.addOrder env orderId price quantity symbolId side
    .ok (seq, e, p)
  | .reduce orderId side price newQuantity => do
    let e ← e.store symbolId (book.reduce orderId newQuantity)
    let (seq, p) ← p.modifyOrder env orderId price newQuantity symbolId side .reduce
    .ok (seq, e, p)
  | .replace orderId side newPrice newQuantity => do
    let e ← e.store symbolId (book.replace orderId newPrice newQuantity)
    let (seq, p) ← p.modifyOrder env orderId newPrice newQuantity symbolId side .replace
    .ok (seq, e, p)
  | .delete orderId side => do
    let e ← e.store symbolId (book.delete orderId)
    let (seq, p) ← p.deleteOrder env orderId symbolId side
    .ok (seq, e, p)
  | .trade tradeId aggressorOrderId restingOrderId price quantity aggressorSide => do
    let (seq, p) ← p.trade env tradeId aggressorOrderId restingOrderId price quantity symbolId
      aggressorSide
    .ok (seq, e.getOrCreate symbolId, p)

end Engine

/-! ## The calls -/

/-- What `on_sequence` sees: the sequence, and the books the engine holds when it is called. -/
structure Checkpoint where
  sequence : UInt64
  books : Books

/-- The engine with the feed it publishes on, and the checkpoints taken so far. -/
structure Exchange where
  engine : Engine
  feed : FeedPublisher
  checkpoints : List Checkpoint := []

/-- An order on its way into the book. -/
structure Aggressor where
  orderId : UInt64
  symbolId : UInt16
  side : Side
  price : Int64

/-- Whether a limit price crosses the best price of the opposite side. -/
def crosses (side : Side) (price bestPrice : Int64) : Bool :=
  match side with
  | .bid => bestPrice ≤ price
  | .ask => price ≤ bestPrice

namespace Exchange

variable (env : Env)

/-- A publish with the `on_sequence` that follows each. -/
def publish (x : Exchange) (symbolId : UInt16) (change : Change) : Except IoError Exchange := do
  let (seq, engine, feed) ← x.engine.publish env x.feed symbolId change
  .ok ⟨engine, feed, x.checkpoints ++ [⟨seq, engine.books⟩]⟩

def mapEngine (x : Exchange) (f : Engine → Engine) : Exchange := { x with engine := f x.engine }

/-- The change to a resting order that a fill leaves behind. -/
def fillChange (o : Aggressor) (restingId : UInt64) (resting : RestingOrder) (fill : UInt32) :
    Change :=
  if fill = resting.quantity then .delete restingId (opposite o.side)
  else .reduce restingId (opposite o.side) resting.price (resting.quantity - fill)

/-- The trade, the change to the resting order, and who is told of them. -/
def fillResting (x : Exchange) (o : Aggressor) (bestPrice : Int64) (restingId : UInt64)
    (resting : RestingOrder) (remaining : UInt32) : Except IoError (Exchange × UInt32 × Fill) := do
  let fill := min remaining resting.quantity
  let tradeId := x.engine.nextTradeId
  let x := x.mapEngine fun e => { e with nextTradeId := e.nextTradeId + 1 }
  let x ← x.publish env o.symbolId
    (.trade tradeId o.orderId restingId bestPrice fill o.side)
  let x ← x.publish env o.symbolId (fillChange o restingId resting fill)
  let x := if fill = resting.quantity then
      x.mapEngine fun e => e.removeLive o.symbolId restingId
    else x
  let x := x.mapEngine fun e => e.recordPassiveFill
    ⟨restingId, tradeId, bestPrice, fill, resting.quantity - fill, o.symbolId,
      opposite o.side⟩
  .ok (x, remaining - fill, ⟨tradeId, bestPrice, fill, remaining - fill⟩)

/-- One turn of the matching loop; `none` is its `break`. -/
def matchTurn (x : Exchange) (o : Aggressor) (remaining : UInt32) :
    Except IoError (Exchange × Option (UInt32 × Fill)) :=
  let x := x.mapEngine fun e => e.getOrCreate o.symbolId
  let book := x.engine.books.book o.symbolId
  match book.front (opposite o.side) with
  | none => .ok (x, none)
  | some (bestPrice, restingId) =>
    if crosses o.side o.price bestPrice then
      match book.get restingId with
      | none => .error (.frontNotOnBook restingId)
      | some resting => do
        let (x, remaining, fill) ← x.fillResting env o bestPrice restingId resting remaining
        .ok (x, some (remaining, fill))
    else .ok (x, none)

/-- The matching loop. Every turn but the last takes an order off the book, so a fuel above the
number of orders on it does not end the loop early (`matchLoop_succ`). -/
def matchLoop (o : Aggressor) :
    Nat → Exchange → UInt32 → Except IoError (Exchange × UInt32 × List Fill)
  | 0, x, remaining => .ok (x, remaining, [])
  | fuel + 1, x, remaining =>
    if remaining = 0 then .ok (x, remaining, [])
    else do
      let (x, turn) ← x.matchTurn env o remaining
      match turn with
      | none => .ok (x, remaining, [])
      | some (remaining, fill) => do
        let (x, remaining, fills) ← matchLoop o fuel x remaining
        .ok (x, remaining, fill :: fills)

/-- Rests what is left of a submitted order. -/
def rest (x : Exchange) (o : Aggressor) (remaining : UInt32) (generatorMayRecycle : Bool) :
    Except IoError Exchange :=
  if remaining = 0 then .ok x
  else do
    let x ← x.publish env o.symbolId (.add o.orderId o.side o.price remaining)
    .ok (if generatorMayRecycle then x.mapEngine fun e => e.pushLive o.symbolId o.orderId else x)

def submitReported (x : Exchange) (symbolId : UInt16) (side : Side) (price : Int64)
    (quantity : UInt32) (generatorMayRecycle : Bool) :
    Except IoError (Exchange × SubmitOutcome × List Fill) := do
  let o : Aggressor := ⟨x.engine.nextOrderId, symbolId, side, price⟩
  let x := x.mapEngine fun e => { e with nextOrderId := e.nextOrderId + 1 }
  let (x, remaining, fills) ← matchLoop env o ((x.engine.books.book symbolId).len + 1) x quantity
  let x ← x.rest env o remaining generatorMayRecycle
  .ok (x, ⟨o.orderId, quantity - remaining, remaining⟩, fills)

def submit (x : Exchange) (symbolId : UInt16) (side : Side) (price : Int64) (quantity : UInt32) :
    Except IoError Exchange :=
  (x.submitReported env symbolId side price quantity true).map (·.1)

/-- Answers the quantity that rested, or `none` where the book does not hold the order. -/
def cancelReported (x : Exchange) (symbolId : UInt16) (orderId : UInt64) :
    Except IoError (Exchange × Option UInt32) :=
  let x := x.mapEngine fun e => e.getOrCreate symbolId
  match (x.engine.books.book symbolId).get orderId with
  | none => .ok (x, none)
  | some resting => do
    let x ← x.publish env symbolId (.delete orderId resting.side)
    .ok (x.mapEngine fun e => e.removeLive symbolId orderId, some resting.quantity)

def cancel (x : Exchange) (symbolId : UInt16) (orderId : UInt64) : Except IoError Exchange :=
  (x.cancelReported env symbolId orderId).map (·.1)

/-- The change an amend makes: same price and smaller size keeps priority, anything else loses
it. -/
def amendChange (resting : RestingOrder) (orderId : UInt64) (newPrice : Int64)
    (newQuantity : UInt32) : Change :=
  if newPrice = resting.price ∧ newQuantity < resting.quantity then
    .reduce orderId resting.side resting.price newQuantity
  else .replace orderId resting.side newPrice newQuantity

/-- `none` for the new price leaves the price where it is. -/
def amend (x : Exchange) (symbolId : UInt16) (orderId : UInt64) (newPrice : Option Int64)
    (newQuantity : UInt32) : Except IoError Exchange :=
  let x := x.mapEngine fun e => e.getOrCreate symbolId
  match (x.engine.books.book symbolId).get orderId with
  | none => .ok x
  | some resting =>
    x.publish env symbolId
      (amendChange resting orderId (newPrice.getD resting.price) newQuantity)

end Exchange

/-! ## The matching loop ends by itself -/

theorem Engine.store_ok {α : Type} {e e' : Engine} {symbolId : UInt16}
    {r : Except BookError α × ReferenceBook} (h : e.store symbolId r = .ok e') :
    ∃ a b, r = (.ok a, b) ∧ e' = { e with books := e.books.put symbolId b } := by
  obtain ⟨result, b⟩ := r
  cases result with
  | error err => cases h
  | ok a => exact ⟨a, b, rfl, (Except.ok.inj h).symm⟩

/-- What a change makes of the book it is for. -/
def Change.Makes (b b' : ReferenceBook) : Change → Prop
  | .add orderId side price quantity => ∃ u, b.add orderId side price quantity = (.ok u, b')
  | .reduce orderId _ _ newQuantity => ∃ u, b.reduce orderId newQuantity = (.ok u, b')
  | .replace orderId _ newPrice newQuantity =>
    ∃ u, b.replace orderId newPrice newQuantity = (.ok u, b')
  | .delete orderId _ => ∃ order, b.delete orderId = (.ok order, b')
  | .trade .. => b' = b

/-- **What `publish` does to the engine**: the change is made to the book of the symbol, and
everything else is left alone. -/
theorem Engine.publish_makes {env : Env} {e e' : Engine} {p p' : FeedPublisher} {symbolId : UInt16}
    {change : Change} {seq : UInt64}
    (h : e.publish env p symbolId change = .ok (seq, e', p')) :
    ∃ b, change.Makes (e.books.book symbolId) b ∧
      e' = { e with books := e.books.put symbolId b } := by
  cases change with
  | trade =>
    obtain ⟨⟨seq₁, p₁⟩, -, h⟩ := bind_eq_ok h
    cases h
    exact ⟨e.books.book symbolId, rfl, rfl⟩
  | add =>
    obtain ⟨e₁, hstore, h⟩ := bind_eq_ok h
    obtain ⟨⟨seq₁, p₁⟩, -, h⟩ := bind_eq_ok h
    cases h
    obtain ⟨a, b, hb, he⟩ := Engine.store_ok hstore
    exact ⟨b, ⟨a, hb⟩, he⟩
  | reduce =>
    obtain ⟨e₁, hstore, h⟩ := bind_eq_ok h
    obtain ⟨⟨seq₁, p₁⟩, -, h⟩ := bind_eq_ok h
    cases h
    obtain ⟨a, b, hb, he⟩ := Engine.store_ok hstore
    exact ⟨b, ⟨a, hb⟩, he⟩
  | replace =>
    obtain ⟨e₁, hstore, h⟩ := bind_eq_ok h
    obtain ⟨⟨seq₁, p₁⟩, -, h⟩ := bind_eq_ok h
    cases h
    obtain ⟨a, b, hb, he⟩ := Engine.store_ok hstore
    exact ⟨b, ⟨a, hb⟩, he⟩
  | delete =>
    obtain ⟨e₁, hstore, h⟩ := bind_eq_ok h
    obtain ⟨⟨seq₁, p₁⟩, -, h⟩ := bind_eq_ok h
    cases h
    obtain ⟨a, b, hb, he⟩ := Engine.store_ok hstore
    exact ⟨b, ⟨a, hb⟩, he⟩

theorem Engine.publish_delete_len {env : Env} {e e' : Engine} {p p' : FeedPublisher}
    {symbolId : UInt16} {orderId : UInt64} {side : Side} {seq : UInt64}
    (h : e.publish env p symbolId (.delete orderId side) = .ok (seq, e', p')) :
    (e'.books.book symbolId).len + 1 = (e.books.book symbolId).len := by
  obtain ⟨b, ⟨order, hdelete⟩, rfl⟩ := Engine.publish_makes h
  rw [BookSet.book_put, if_pos rfl]
  exact ReferenceBook.len_delete hdelete

theorem Engine.publish_trade_book {env : Env} {e e' : Engine} {p p' : FeedPublisher}
    {symbolId : UInt16} {tradeId aggressorOrderId restingOrderId seq : UInt64} {price : Int64}
    {quantity : UInt32} {aggressorSide : Side}
    (h : e.publish env p symbolId (.trade tradeId aggressorOrderId restingOrderId price quantity
      aggressorSide) = .ok (seq, e', p')) : e'.books.book symbolId = e.books.book symbolId := by
  obtain ⟨b, rfl, rfl⟩ := Engine.publish_makes h
  exact BookSet.agree_put_self e.books symbolId symbolId

@[simp] theorem Engine.books_modifySymbol (e : Engine) (symbolId : UInt16)
    (f : SymbolState → SymbolState) : (e.modifySymbol symbolId f).books = e.books := by
  unfold Engine.modifySymbol
  split <;> rfl

@[simp] theorem Engine.books_recordPassiveFill (e : Engine) (fill : PassiveFill) :
    (e.recordPassiveFill fill).books = e.books := by
  unfold Engine.recordPassiveFill
  split
  · split <;> rfl
  · rfl

namespace Exchange

variable {env : Env} {x x' : Exchange} {o : Aggressor}

/-- A fill takes the resting order off the book, or uses the aggressor up. -/
theorem fillResting_shrinks {bestPrice : Int64} {restingId : UInt64} {resting : RestingOrder}
    {remaining remaining' : UInt32} {fill : Fill}
    (h : x.fillResting env o bestPrice restingId resting remaining = .ok (x', remaining', fill)) :
    remaining' = 0 ∨
      (x'.engine.books.book o.symbolId).len + 1 = (x.engine.books.book o.symbolId).len := by
  obtain ⟨x₁, hfirst, h⟩ := bind_eq_ok h
  obtain ⟨x₂, hsecond, h⟩ := bind_eq_ok h
  obtain ⟨⟨seq₁, e₁, p₁⟩, htrade, hx₁⟩ := bind_eq_ok hfirst
  obtain ⟨⟨seq₂, e₂, p₂⟩, hchange, hx₂⟩ := bind_eq_ok hsecond
  cases hx₁
  cases hx₂
  cases h
  by_cases hall : min remaining resting.quantity = resting.quantity
  · right
    rw [fillChange, if_pos hall] at hchange
    have hlen := Engine.publish_delete_len hchange
    rw [Engine.publish_trade_book htrade] at hlen
    simp only [if_pos hall, mapEngine, Engine.books_recordPassiveFill, Engine.removeLive,
      Engine.books_modifySymbol]
    exact hlen
  · left
    have hmin : min remaining resting.quantity = remaining := by
      have hdef : min remaining resting.quantity =
          if remaining ≤ resting.quantity then remaining else resting.quantity := rfl
      rw [hdef] at hall ⊢
      split at hall
      · rename_i hle
        rw [if_pos hle]
      · exact absurd rfl hall
    rw [hmin, UInt32.sub_self]

theorem matchTurn_shrinks {remaining remaining' : UInt32} {fill : Fill}
    (h : x.matchTurn env o remaining = .ok (x', some (remaining', fill))) :
    remaining' = 0 ∨
      (x'.engine.books.book o.symbolId).len + 1 = (x.engine.books.book o.symbolId).len := by
  unfold matchTurn at h
  dsimp only at h
  split at h
  · cases h
  · split at h
    · split at h
      · cases h
      · obtain ⟨⟨x₂, remaining₂, fill₂⟩, hfill, h⟩ := bind_eq_ok h
        cases h
        have hshrinks := fillResting_shrinks hfill
        have hsame := BookSet.agree_put_self x.engine.books o.symbolId o.symbolId
        rw [← hsame]
        exact hshrinks
    · cases h

theorem matchLoop_done (fuel : Nat) (x : Exchange) :
    matchLoop env o fuel x 0 = .ok (x, 0, []) := by
  cases fuel with
  | zero => rfl
  | succ fuel => rw [matchLoop, if_pos rfl]

/-- **The loop is not cut short**: with more fuel than there are orders on the book, the fuel
makes no difference. -/
theorem matchLoop_succ {fuel : Nat} {remaining : UInt32}
    (hfuel : (x.engine.books.book o.symbolId).len < fuel) :
    matchLoop env o (fuel + 1) x remaining = matchLoop env o fuel x remaining := by
  induction fuel generalizing x remaining with
  | zero => exact absurd hfuel (Nat.not_lt_zero _)
  | succ fuel ih =>
    rw [matchLoop, matchLoop]
    split
    · rfl
    · cases hturn : x.matchTurn env o remaining with
      | error e => rfl
      | ok answer =>
        obtain ⟨x₁, turn⟩ := answer
        cases turn with
        | none => rfl
        | some taken =>
          obtain ⟨remaining₁, fill⟩ := taken
          have hrest : matchLoop env o (fuel + 1) x₁ remaining₁ =
              matchLoop env o fuel x₁ remaining₁ := by
            cases matchTurn_shrinks hturn with
            | inl hdone => rw [hdone, matchLoop_done, matchLoop_done]
            | inr hlen => exact ih (by omega)
          show (matchLoop env o (fuel + 1) x₁ remaining₁ >>= _) = _
          rw [hrest]
          rfl

end Exchange

end MarketData.Matching
