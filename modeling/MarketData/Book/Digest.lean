import MarketData.Book.Rebuild
import MarketData.Lib.SortedVec

/-!
# `Book/Digest.lean` — the fingerprint of a set of books

`crates/book/src/digest.rs`. Two FNV-1a hashes over the symbols in the order the set visits them,
one of the best ten levels of each side and one of all of them, and a count of the orders. A symbol
without orders is passed over, whether or not the set has a book for it.

A digest depends on what is *shown*: how many orders and levels, and the levels. Two sets that show
the same for every symbol have one digest (`digest_congr`), and what a book shows depends on the
levels it holds and on nothing else (`SameLevels.shown_eq`).

## What a digest can and cannot tell apart

* **Order ids and queue positions are not in it.** Two books with the same quantity and the same
  number of orders at every price have one digest, whoever placed the orders and in whatever order
  they stand; that is why `SameLevels` speaks of sums and counts.
* **A level's order count saturates** at 2^32 - 1, so `SameLevels` asks for the number of orders as
  well as for what the levels show.
* **Nothing is proved about collisions.** Everything here goes from equal books to equal digests; a
  hash of 64 bits allows no converse, and the source does not rely on one.

The hash is computed as the source does, byte by byte over little-endian fields, so that a digest of
the model can be compared with one the program prints.
-/

set_option autoImplicit false

namespace MarketData.Book

open MarketData.Wire
open Arrivals

/-- `DIGEST_DEPTH`: levels per side covered by the `top` digest. -/
def digestDepth : Nat := 10

def fnvOffset : UInt64 := 0xcbf29ce484222325
def fnvPrime : UInt64 := 0x00000100000001b3

/-- `Fnv1a::write`. -/
def fnvWrite (h : UInt64) (bytes : Buf) : UInt64 :=
  bytes.foldl (fun h b => (h ^^^ b.toUInt64) * fnvPrime) h

/-- `to_le_bytes` of a number of `n` bytes. -/
def leBytes : Nat → Nat → Buf
  | 0, _ => []
  | n + 1, v => UInt8.ofNat v :: leBytes n (v / 256)

/-- A book fingerprint at one point in the stream. -/
structure BookDigest where
  /-- Over the best levels of each side. -/
  top : UInt64
  /-- Over every level. -/
  full : UInt64
  /-- Resting orders across all symbols. -/
  orders : UInt64
  deriving DecidableEq, Repr

def hashLevel (h : UInt64) (level : Level) : UInt64 :=
  let h := fnvWrite h (leBytes 8 level.price.toUInt64.toNat)
  let h := fnvWrite h (leBytes 8 level.quantity.toNat)
  fnvWrite h (leBytes 4 level.orderCount.toNat)

section Hash

variable {B : Type} [OrderBook B]

/-- One side: its byte, the number of its levels as a `u32`, and the levels. -/
def hashSide (b : B) (depth : Nat) (h : UInt64) (s : Side) : UInt64 :=
  let h := fnvWrite h [s.toU8]
  let h := fnvWrite h (leBytes 4 (OrderBook.levelCount b s depth))
  (OrderBook.forEachLevel b s depth).foldl hashLevel h

/-- One symbol. Present but empty is as good as absent. -/
def hashSymbol (depth : Nat) (h : UInt64) (symbol : UInt16 × B) : UInt64 :=
  if OrderBook.len symbol.2 = 0 then h
  else [Side.bid, Side.ask].foldl (hashSide symbol.2 depth)
    (fnvWrite h (leBytes 2 symbol.1.toNat))

/-- `hash_books`, over the symbols that `for_each_symbol` visits. -/
def hashBooks (symbols : List (UInt16 × B)) (depth : Nat) : UInt64 :=
  symbols.foldl (hashSymbol depth) fnvOffset

/-- `total_orders`. -/
def totalOrders (symbols : List (UInt16 × B)) : Nat :=
  (symbols.map fun e => OrderBook.len e.2).sum

/-- `BookDigest::of`. -/
def BookDigest.of (symbols : List (UInt16 × B)) : BookDigest where
  top := hashBooks symbols digestDepth
  full := hashBooks symbols 0
  orders := UInt64.ofNat (totalOrders symbols)

end Hash

/-! ## What a digest sees -/

/-- What a digest asks of a book. -/
structure Shown where
  len : Nat
  levelCount : Side → Nat → Nat
  forEachLevel : Side → Nat → List Level

def shown {B : Type} [OrderBook B] (b : B) : Shown :=
  ⟨OrderBook.len b, OrderBook.levelCount b, OrderBook.forEachLevel b⟩

section Visible

variable {B B' : Type} [OrderBook B] [OrderBook B']

/-- The symbols with orders, and what their books show. -/
def visible (symbols : List (UInt16 × B)) : List (UInt16 × Shown) :=
  (symbols.filter fun e => OrderBook.len e.2 ≠ 0).map fun e => (e.1, shown e.2)

theorem hashSymbol_congr {depth : Nat} {h : UInt64} {symbolId : UInt16} {b : B} {b' : B'}
    (hshown : shown b = shown b') :
    hashSymbol depth h (symbolId, b) = hashSymbol depth h (symbolId, b') := by
  simp only [shown, Shown.mk.injEq] at hshown
  obtain ⟨hlen, hcount, hlevels⟩ := hshown
  have hside : hashSide b depth = hashSide b' depth := by
    funext h s
    simp only [hashSide, hcount, hlevels]
  simp only [hashSymbol, hlen, hside]

theorem hashBooks_visible {symbols : List (UInt16 × B)} {symbols' : List (UInt16 × B')}
    (h : visible symbols = visible symbols') (depth : Nat) :
    hashBooks symbols depth = hashBooks symbols' depth := by
  -- a symbol without orders leaves the hash as it is
  have hskip : ∀ {C : Type} [OrderBook C] (es : List (UInt16 × C)) (start : UInt64),
      es.foldl (hashSymbol depth) start =
        (es.filter fun e => OrderBook.len e.2 ≠ 0).foldl (hashSymbol depth) start := by
    intro C _ es
    induction es with
    | nil => exact fun _ => rfl
    | cons e es ih =>
      intro start
      by_cases hempty : OrderBook.len e.2 = 0
      · rw [List.filter_cons_of_neg (by simpa using hempty), List.foldl_cons, hashSymbol,
          if_pos hempty]
        exact ih start
      · rw [List.filter_cons_of_pos (by simpa using hempty), List.foldl_cons, List.foldl_cons]
        exact ih _
  unfold hashBooks
  rw [hskip symbols, hskip symbols']
  unfold visible at h
  generalize (symbols.filter fun e => OrderBook.len e.2 ≠ 0) = es at h ⊢
  generalize (symbols'.filter fun e => OrderBook.len e.2 ≠ 0) = es' at h ⊢
  generalize fnvOffset = start
  induction es generalizing es' start with
  | nil =>
    rw [List.map_eq_nil_iff.mp (h.symm.trans List.map_nil)]
    rfl
  | cons e es ih =>
    cases es' with
    | nil => cases h
    | cons e' es' =>
      obtain ⟨hhead, htail⟩ := List.cons.inj h
      obtain ⟨symbolId, b⟩ := e
      obtain ⟨symbolId', b'⟩ := e'
      obtain ⟨rfl, hshown⟩ := Prod.mk.inj hhead
      rw [List.foldl_cons, List.foldl_cons, hashSymbol_congr hshown]
      exact ih es' htail _

theorem totalOrders_visible (symbols : List (UInt16 × B)) :
    totalOrders symbols = ((visible symbols).map fun e => e.2.len).sum := by
  unfold totalOrders visible
  induction symbols with
  | nil => rfl
  | cons e symbols ih =>
    rw [List.map_cons, List.sum_cons, ih]
    by_cases hempty : OrderBook.len e.2 = 0
    · rw [List.filter_cons_of_neg (by simpa using hempty), hempty, Nat.zero_add]
    · rw [List.filter_cons_of_pos (by simpa using hempty)]
      rfl

/-- The book of a symbol, or a fresh one. -/
def bookOf (symbols : List (UInt16 × B)) (fresh : B) (symbolId : UInt16) : B :=
  (SortedVec.get symbols symbolId).getD fresh

theorem mem_visible {symbols : List (UInt16 × B)} {fresh : B} (hsorted : SortedVec.Sorted symbols)
    (hfresh : OrderBook.len fresh = 0) {symbolId : UInt16} {view : Shown} :
    (symbolId, view) ∈ visible symbols ↔
      view = shown (bookOf symbols fresh symbolId) ∧ view.len ≠ 0 := by
  unfold visible bookOf
  simp only [List.mem_map, List.mem_filter, Prod.mk.injEq, decide_eq_true_eq, Prod.exists]
  constructor
  · intro h
    obtain ⟨symbolId', b, ⟨hmem, hlen⟩, rfl, rfl⟩ := h
    rw [hsorted.get_eq_some.mpr hmem]
    exact ⟨rfl, hlen⟩
  · intro h
    obtain ⟨rfl, hlen⟩ := h
    cases hget : SortedVec.get symbols symbolId with
    | none =>
      rw [hget] at hlen
      exact absurd hfresh hlen
    | some b =>
      rw [hget] at hlen
      exact ⟨symbolId, b, ⟨hsorted.get_eq_some.mp hget, hlen⟩, rfl, rfl⟩

/-- **A digest is a matter of what is shown.** Sets that visit their symbols in order, and show the
same for each, have the same digest, whichever empty books they have. -/
theorem digest_congr {symbols : List (UInt16 × B)} {symbols' : List (UInt16 × B')} {fresh : B}
    {fresh' : B'} (hsorted : SortedVec.Sorted symbols) (hsorted' : SortedVec.Sorted symbols')
    (hfresh : OrderBook.len fresh = 0) (hfresh' : OrderBook.len fresh' = 0)
    (h : ∀ t, shown (bookOf symbols fresh t) = shown (bookOf symbols' fresh' t)) :
    BookDigest.of symbols = BookDigest.of symbols' := by
  have hvisible : ∀ {C : Type} [OrderBook C] {es : List (UInt16 × C)}, SortedVec.Sorted es →
      SortedVec.Sorted (visible es) := by
    intro C _ es hes
    exact List.pairwise_map.mpr (List.Pairwise.sublist List.filter_sublist hes)
  have heq : visible symbols = visible symbols' := by
    refine (hvisible hsorted).unique (hvisible hsorted') fun e => ?_
    obtain ⟨symbolId, view⟩ := e
    rw [mem_visible hsorted hfresh, mem_visible hsorted' hfresh', h]
  simp only [BookDigest.of, hashBooks_visible heq, totalOrders_visible, heq]

end Visible

/-! ## The levels a book holds -/

/-- **Two books hold the same levels**: at every price the same quantity and the same number of
orders. A level shows no more than 2^32 - 1 orders, so the orders are counted as well. -/
structure SameLevels {B B' : Type} [OrderBook B] [OrderBook B'] (b : B) (b' : B') : Prop where
  levels : ∀ s, OrderBook.forEachLevel b s 0 = OrderBook.forEachLevel b' s 0
  orders : ∀ s price, (OrderBook.forEachOrder b s).countP (fun o => o.price = price) =
    (OrderBook.forEachOrder b' s).countP fun o => o.price = price

section Levels

variable {B B' : Type} [OrderBook B] [OrderBook B'] {b : B} {b' : B'}
  {os os' : List RestingOrder}

/-- The orders of the two sides are all there are. -/
theorem Arrivals.Shows.length_eq (h : Shows b os) : (OrderBook.forEachOrder b .bid).length +
    (OrderBook.forEachOrder b .ask).length = os.length := by
  rw [h.forEachOrder, h.forEachOrder, ← List.length_append]
  exact (inQueueOrder_perm os).length_eq

theorem length_eq_of_counts {xs ys : List RestingOrder}
    (h : ∀ price, xs.countP (fun o => o.price = price) = ys.countP fun o => o.price = price) :
    xs.length = ys.length := by
  have hperm : (xs.map (·.price)).Perm (ys.map (·.price)) := by
    rw [List.perm_iff_count]
    intro price
    simp only [List.count, List.countP_map]
    exact (List.countP_congr fun o _ => by simp).trans
      ((h price).trans (List.countP_congr fun o _ => by simp))
  simpa using hperm.length_eq

/-- **What a book shows** depends on the levels it holds. -/
theorem SameLevels.shown_eq (h : SameLevels b b') (hb : Shows b os) (hb' : Shows b' os') :
    shown b = shown b' := by
  have hcut : ∀ s depth, OrderBook.forEachLevel b s depth = cut depth (OrderBook.forEachLevel b s 0) ∧
      OrderBook.forEachLevel b' s depth = cut depth (OrderBook.forEachLevel b' s 0) := by
    intro s depth
    rw [hb.forEachLevel, hb.forEachLevel, hb'.forEachLevel, hb'.forEachLevel]
    unfold cut
    split <;> simp [List.map_take]
  have hlevels : ∀ s depth, OrderBook.forEachLevel b s depth = OrderBook.forEachLevel b' s depth := by
    intro s depth
    rw [(hcut s depth).1, (hcut s depth).2, h.levels s]
  have hcounts : ∀ s depth, OrderBook.levelCount b s depth = OrderBook.levelCount b' s depth := by
    intro s depth
    have hlength := congrArg List.length (hlevels s depth)
    rw [hb.forEachLevel, hb'.forEachLevel, List.length_map, List.length_map] at hlength
    rw [hb.levelCount, hb'.levelCount, hlength]
  have hlen : OrderBook.len b = OrderBook.len b' := by
    rw [hb.len, hb'.len, ← hb.length_eq, ← hb'.length_eq,
      length_eq_of_counts (h.orders .bid), length_eq_of_counts (h.orders .ask)]
  simp only [shown, Shown.mk.injEq]
  exact ⟨hlen, funext fun s => funext (hcounts s), funext fun s => funext (hlevels s)⟩

/-- Books that show the same orders hold the same levels. -/
theorem SameLevels.of_shows (hb : Shows b os) (hb' : Shows b' os) : SameLevels b b' where
  levels s := by rw [hb.forEachLevel, hb'.forEachLevel]
  orders s price := by rw [hb.forEachOrder, hb'.forEachOrder]

end Levels

end MarketData.Book
