import MarketData.Book.MboShows
import MarketData.Book.ReferenceArrivals
import MarketData.Lib.Run

/-!
# `Book/MboRefines.lean` — the fast book refines the reference book

Both books implement the resting orders of `Arrivals`: the reference book always, the fast book
up to the operations it has no room for. Held against each other, with those left out on the
reference side, they accept the same operations and answer everything alike.

## The simulation

There is no direct relation between a slab with links and a map of queues. Each is related to the
list of arrivals (`Whole` and `ordersOf` on one side, `Reps` on the other), and `Both.Inv` says that
the two lists are one. A step keeps it, because an operation on either book is the same operation on
the list; then `Alike` is read off, since **both books show that list**.

An operation the fast book refuses for want of room (`BookError.forCapacity`) is kept from the
reference book, as in the source's differential test. Everything else both get, errors included. The
two do not always refuse for the *same* reason; `Book/Refusals.lean` is about that.

## The two bounds

`MboCapacity.Addressable` bounds levels and slab by 2^32, the width of a node and of a slot number.
A slot beyond it is recorded cut to 32 bits, and the books then disagree. A slab beyond it does not
misfile anything: its free list, threaded through the same numbers, ends at `NIL` one node short of
2^32 and the rest is never handed out, so `SlabFull` comes early. Nothing is claimed for such a
slab.
-/

set_option autoImplicit false

namespace MarketData.Book

open MarketData.Wire (Side)
open MarketData.Chain
open MarketData.Probing
open MarketData.Run

/-- Slots and nodes that 32 bits can number. -/
structure MboCapacity.Addressable (cap : MboCapacity) : Prop where
  levels : cap.levels < 2 ^ 32
  orders : cap.orders < 2 ^ 32

namespace MboBook

/-! ## An empty book -/

theorem stack_freeNodes {slab : Nat} (hslab : slab < 2 ^ 32) (len start : Nat)
    (hlen : start + len = slab) (hpos : 0 < len) :
    Stack (fun i => (freeNodes slab i).next) nil start (List.range' start len) := by
  induction len generalizing start with
  | zero => exact absurd hpos (Nat.lt_irrefl 0)
  | succ len ih =>
    rw [List.range'_succ]
    refine ⟨rfl, ?_⟩
    show Stack _ nil (if start + 1 < slab then asU32 (start + 1) else nil) _
    by_cases hlast : start + 1 < slab
    · have hnext : asU32 (start + 1) = start + 1 := Nat.mod_eq_of_lt (by omega)
      rw [if_pos hlast, hnext]
      exact ih (start + 1) (by omega) (by omega)
    · have hend : len = 0 := by omega
      rw [if_neg hlast, hend]
      rfl

/-- A book without orders, over any window and slab. -/
def blank (index : TickIndex) (slab mask : Nat) : MboBook :=
  { index := index, nodes := freeNodes slab, slab := slab, mapMask := mask }

section Blank

variable {index : TickIndex} {slab mask : Nat}

theorem cells_blank (s : Side) (i : Nat) : (blank index slab mask).cells s i = {} := by
  cases s <;> rfl

theorem store_blank (hsane : index.Sane) (hcap : index.capacity < 2 ^ 32) (hslab : slab < 2 ^ 32)
    (hfour : 4 ≤ slab) : Store (blank index slab mask) [] (List.range slab) := by
  have hstack := stack_freeNodes hslab slab 0 (Nat.zero_add slab) (by omega)
  rw [← List.range_eq_range'] at hstack
  refine ⟨hsane, hcap, hslab, ?_, ?_, hstack, Arrivals.valid_nil, ?_, ?_, fun s slot _ => ?_⟩
  · rw [List.nil_append]
    exact List.nodup_range
  · intro i hi
    exact List.mem_range.mp hi
  · exact fun i hi => absurd hi List.not_mem_nil
  · exact fun i hi => absurd hi List.not_mem_nil
  · rw [cells_blank]
    exact ⟨queue_nil .., rfl, rfl⟩

theorem touch_blank : Touch (blank index slab mask) := by
  have hocc : ∀ s i, (blank index slab mask).occupied s i = false := by
    intro s i
    rw [occupied, cells_blank]
    rfl
  refine ⟨fun s => ?_, fun s => ?_⟩
  · cases s <;> exact fun i _ => hocc _ i
  · rw [List.countP_eq_zero.mpr fun i _ => by rw [hocc]; exact Bool.false_ne_true]
    cases s <;> rfl

theorem indexed_blank (hfour : 4 ≤ slab) (hpower : ∃ k, mask + 1 = 2 ^ k)
    (hroom : 4 * slab ≤ mask + 1) : Indexed (blank index slab mask) [] := by
  have hvacant : ∀ p, (blank index slab mask).scheme.vacant ((blank index slab mask).map p) ≠
      false := fun p hp => Bool.noConfusion hp
  refine ⟨hpower, hfour, hroom, ⟨fun p _ hp => ?_, fun p _ q _ hp => ?_⟩, fun e => ?_⟩
  · exact absurd hp (hvacant p)
  · exact absurd hp (hvacant p)
  · rw [mem_entries]
    constructor
    · rintro ⟨p, -, rfl, hp⟩
      exact absurd hp (hvacant p)
    · rintro ⟨i, hi, -⟩
      exact absurd hi List.not_mem_nil

theorem whole_blank (hsane : index.Sane) (hcap : index.capacity < 2 ^ 32) (hslab : slab < 2 ^ 32)
    (hfour : 4 ≤ slab) (hpower : ∃ k, mask + 1 = 2 ^ k) (hroom : 4 * slab ≤ mask + 1) :
    Whole (blank index slab mask) [] (List.range slab) := by
  refine ⟨store_blank hsane hcap hslab hfour, touch_blank, indexed_blank hfour hpower hroom,
    fun i hi => ?_, rfl⟩
  rw [List.nil_append]
  exact List.mem_range.mpr hi

end Blank

theorem nextPowerOfTwo_spec (n : Nat) : (∃ k, nextPowerOfTwo n = 2 ^ k) ∧ n ≤ nextPowerOfTwo n := by
  unfold nextPowerOfTwo
  split
  · exact ⟨⟨0, rfl⟩, by omega⟩
  · refine ⟨⟨_, rfl⟩, ?_⟩
    have hlog := Nat.lt_log2_self (n := n - 1)
    omega

theorem sane_centredOn (price tick : Int64) (capacity : Nat) (h : capacity < 2 ^ 32) :
    (TickIndex.centredOn price tick capacity).Sane ∧
    (TickIndex.centredOn price tick capacity).capacity < 2 ^ 32 := by
  have hcap : (TickIndex.centredOn price tick capacity).capacity = max capacity 2 := rfl
  refine ⟨⟨?_, ?_⟩, ?_⟩
  · show 0 < (max tick 1).toInt
    rw [TickIndex.toInt_max, Int64.toInt_one]
    omega
  · rw [hcap]
    omega
  · rw [hcap]
    omega

/-- **A new book.** -/
theorem whole_new {cap : MboCapacity} (h : cap.Addressable) :
    Whole (new cap) [] (List.range (max cap.orders 4)) := by
  have hlevels := h.levels
  have horders := h.orders
  obtain ⟨hsane, hcap⟩ := sane_centredOn cap.referencePrice cap.tick (max cap.levels 4) (by omega)
  obtain ⟨⟨k, hk⟩, hle⟩ := nextPowerOfTwo_spec (max cap.orders 4 * 4)
  refine whole_blank hsane hcap (by omega) (by omega) ⟨k, ?_⟩ ?_
  · rw [← hk]
    omega
  · omega

/-- **Clearing keeps the window and the slab, and frees every node.** -/
theorem Whole.clear {b : MboBook} {live free : List Nat} (h : Whole b live free) :
    Whole b.clear [] (List.range b.slab) :=
  whole_blank h.store.sane h.store.capacity h.store.slab h.indexed.slab h.indexed.power
    h.indexed.room

/-! ## Operation by operation -/

/-- The tick arithmetic an operation runs into does not overflow. -/
def ExactFor (b : MboBook) : Op → Prop
  | .add _ _ price _ => b.index.Exact price b.keptPrices
  | .replace _ newPrice _ => b.index.Exact newPrice b.keptPrices
  | _ => True

instance (b : MboBook) (op : Op) : Decidable (b.ExactFor op) := by
  cases op <;> unfold ExactFor <;> infer_instance

/-- The operation was refused for want of room. -/
def refusedForCapacity {α : Type} : Except BookError α → Bool
  | .error e => e.forCapacity
  | .ok _ => false

theorem NoSlot.forCapacity {b : MboBook} {orderId : UInt64} {price : Int64} {e : BookError}
    (h : NoSlot b orderId price e) : e.forCapacity = true := by
  rcases h with ⟨-, rfl⟩ | ⟨-, -, rfl⟩ <;> rfl

/-- The book after an operation, and the orders resting on it: as they were where there was no
room, else as the operation makes them. -/
structure Stepped (os : List RestingOrder) (op : Op) (r : Except BookError (Option RestingOrder))
    (b' : MboBook) (live' free' : List Nat) : Prop where
  whole : Whole b' live' free'
  refused : refusedForCapacity r = true → b'.ordersOf live' = os
  taken : refusedForCapacity r = false → r.toOption = (Arrivals.step os op).1.toOption ∧
    b'.ordersOf live' = (Arrivals.step os op).2

theorem Whole.unchanged {b : MboBook} {live free : List Nat} (h : Whole b live free) {op : Op}
    {e : BookError} (hfull : e.forCapacity = false)
    (hstep : ∃ e', Arrivals.step (b.ordersOf live) op = (.error e', b.ordersOf live)) :
    Stepped (b.ordersOf live) op (.error e) b live free := by
  obtain ⟨e', hstep⟩ := hstep
  refine ⟨h, fun hrefused => ?_, fun _ => ?_⟩
  · exact absurd (hfull.symm.trans hrefused) Bool.false_ne_true
  · rw [hstep]
    exact ⟨rfl, rfl⟩

/-- The operation on the fast book is the operation on the list, or there was no room. -/
def StepsTo (b : MboBook) (live : List Nat) (op : Op) : Prop :=
  ∃ live' free', Stepped (b.ordersOf live) op (OrderBook.step b op).1 (OrderBook.step b op).2
    live' free'

section Steps

variable {b : MboBook} {live free : List Nat} (h : Whole b live free)

include h

theorem Whole.step_add {orderId : UInt64} {side : Side} {price : Int64} {quantity : UInt32}
    (hexact : b.index.Exact price b.keptPrices) :
    b.StepsTo live (.add orderId side price quantity) := by
  show ∃ live' free', Stepped _ _ ((b.add orderId side price quantity).1.map fun _ => none)
    (b.add orderId side price quantity).2 live' free'
  have hadd := h.add orderId side quantity hexact
  generalize (b.add orderId side price quantity).1 = r at hadd
  generalize (b.add orderId side price quantity).2 = b' at hadd
  cases hadd with
  | zero hq => exact ⟨live, free, h.unchanged rfl ⟨_, if_pos hq⟩⟩
  | duplicate hq hdup =>
    refine ⟨live, free, h.unchanged rfl ⟨.duplicateOrderId orderId, ?_⟩⟩
    rw [Arrivals.step, if_neg hq, if_pos hdup]
  | noSlot hq hnew hno =>
    refine ⟨live, free, h, fun _ => rfl, fun hroom => ?_⟩
    exact absurd (hroom.symm.trans hno.forCapacity) Bool.false_ne_true
  | full hq hnew hslots hfree hwhole horders =>
    exact ⟨live, [], hwhole, fun _ => horders, fun hroom => Bool.noConfusion hroom⟩
  | added hq hnew hslots hfree hwhole horders =>
    refine ⟨_, _, hwhole, fun hroom => Bool.noConfusion hroom, fun _ => ?_⟩
    have hnew' : ¬(Arrivals.lookup (b.ordersOf live) orderId).isSome := by
      rw [hnew]
      exact Bool.false_ne_true
    rw [Arrivals.step, if_neg hq, if_neg hnew']
    exact ⟨rfl, horders⟩

theorem Whole.step_delete (orderId : UInt64) : b.StepsTo live (.delete orderId) := by
  show ∃ live' free', Stepped _ _ ((b.delete orderId).1.map some) (b.delete orderId).2 live' free'
  have hdelete := h.delete orderId
  cases hlookup : Arrivals.lookup (b.ordersOf live) orderId with
  | none =>
    rw [hlookup] at hdelete
    dsimp only at hdelete
    rw [hdelete]
    refine ⟨live, free, h.unchanged rfl ⟨.unknownOrderId orderId, ?_⟩⟩
    rw [Arrivals.step, hlookup]
  | some o =>
    rw [hlookup] at hdelete
    obtain ⟨hok, n, -, hwhole, horders⟩ := hdelete
    rw [hok]
    refine ⟨_, _, hwhole, fun hroom => Bool.noConfusion hroom, fun _ => ?_⟩
    rw [Arrivals.step, hlookup]
    exact ⟨rfl, horders⟩

/-- A reduction to nothing: the two books look at the quantity and at the id in different orders. -/
theorem Whole.step_reduce_zero (orderId : UInt64) : b.StepsTo live (.reduce orderId 0) := by
  show ∃ live' free', Stepped _ _ ((b.reduce orderId 0).1.map fun _ => none)
    (b.reduce orderId 0).2 live' free'
  have hzero : b.reduce orderId 0 = (.error (.zeroQuantity orderId), b) := rfl
  rw [hzero]
  cases hlookup : Arrivals.lookup (b.ordersOf live) orderId with
  | none =>
    refine ⟨live, free, h.unchanged rfl ⟨.unknownOrderId orderId, ?_⟩⟩
    rw [Arrivals.step, hlookup]
  | some o =>
    refine ⟨live, free, h.unchanged rfl ⟨.zeroQuantity orderId, ?_⟩⟩
    rw [Arrivals.step, hlookup]
    rfl

theorem Whole.step_reduce (orderId : UInt64) (newQuantity : UInt32) :
    b.StepsTo live (.reduce orderId newQuantity) := by
  by_cases hq : newQuantity = 0
  · rw [hq]
    exact h.step_reduce_zero orderId
  show ∃ live' free', Stepped _ _ ((b.reduce orderId newQuantity).1.map fun _ => none)
    (b.reduce orderId newQuantity).2 live' free'
  have hreduce := h.reduce orderId hq
  cases hlookup : Arrivals.lookup (b.ordersOf live) orderId with
  | none =>
    rw [hlookup] at hreduce
    dsimp only at hreduce
    rw [hreduce]
    refine ⟨live, free, h.unchanged rfl ⟨.unknownOrderId orderId, ?_⟩⟩
    rw [Arrivals.step, hlookup]
  | some o =>
    rw [hlookup] at hreduce
    dsimp only at hreduce
    by_cases hlt : o.quantity < newQuantity
    · rw [if_pos hlt] at hreduce
      rw [hreduce]
      refine ⟨live, free,
        h.unchanged rfl ⟨.reduceWouldIncrease orderId o.quantity newQuantity, ?_⟩⟩
      rw [Arrivals.step, hlookup]
      dsimp only
      rw [if_neg hq, if_pos hlt]
    · rw [if_neg hlt] at hreduce
      obtain ⟨hok, hwhole, horders⟩ := hreduce
      rw [hok]
      refine ⟨_, _, hwhole, fun hroom => Bool.noConfusion hroom, fun _ => ?_⟩
      rw [Arrivals.step, hlookup]
      dsimp only
      rw [if_neg hq, if_neg hlt]
      exact ⟨rfl, horders⟩

theorem Whole.step_replace {orderId : UInt64} {newPrice : Int64} {newQuantity : UInt32}
    (hexact : b.index.Exact newPrice b.keptPrices) :
    b.StepsTo live (.replace orderId newPrice newQuantity) := by
  show ∃ live' free', Stepped _ _ ((b.replace orderId newPrice newQuantity).1.map fun _ => none)
    (b.replace orderId newPrice newQuantity).2 live' free'
  by_cases hq : newQuantity = 0
  · have hzero : b.replace orderId newPrice newQuantity = (.error (.zeroQuantity orderId), b) :=
      if_pos hq
    rw [hzero]
    exact ⟨live, free, h.unchanged rfl ⟨_, if_pos hq⟩⟩
  have hreplace := h.replace orderId hq hexact
  cases hlookup : Arrivals.lookup (b.ordersOf live) orderId with
  | none =>
    rw [hlookup] at hreplace
    dsimp only at hreplace
    rw [hreplace]
    refine ⟨live, free, h.unchanged rfl ⟨.unknownOrderId orderId, ?_⟩⟩
    rw [Arrivals.step, if_neg hq, hlookup]
  | some o =>
    rw [hlookup] at hreplace
    dsimp only at hreplace
    generalize (b.replace orderId newPrice newQuantity).1 = r at hreplace
    generalize (b.replace orderId newPrice newQuantity).2 = b' at hreplace
    cases hreplace with
    | noSlot hno =>
      refine ⟨live, free, h, fun _ => rfl, fun hroom => ?_⟩
      exact absurd (hroom.symm.trans hno.forCapacity) Bool.false_ne_true
    | replaced hslots hn hwhole horders =>
      refine ⟨_, _, hwhole, fun hroom => Bool.noConfusion hroom, fun _ => ?_⟩
      rw [Arrivals.step, if_neg hq, hlookup]
      exact ⟨rfl, horders⟩

end Steps

/-- **An operation on the fast book is the operation on the list**, or there was no room. -/
theorem Whole.step {b : MboBook} {live free : List Nat} (h : Whole b live free) {op : Op}
    (hexact : b.ExactFor op) : b.StepsTo live op := by
  cases op with
  | add orderId side price quantity => exact h.step_add hexact
  | delete orderId => exact h.step_delete orderId
  | reduce orderId newQuantity => exact h.step_reduce orderId newQuantity
  | replace orderId newPrice newQuantity => exact h.step_replace hexact
  | clear =>
    exact ⟨[], List.range b.slab, h.clear, fun hroom => Bool.noConfusion hroom, fun _ => ⟨rfl, rfl⟩⟩

end MboBook

/-! ## Side by side -/

/-- The two books, as the differential test runs them. -/
structure Both where
  fast : MboBook
  reference : ReferenceBook

namespace Both

def new (cap : MboCapacity) : Both := ⟨MboBook.new cap, ReferenceBook.new⟩

/-- The operation on both books; what the fast book has no room for is kept from the other. -/
def step (p : Both) (op : Op) : Both :=
  { fast := (OrderBook.step p.fast op).2
    reference := if MboBook.refusedForCapacity (OrderBook.step p.fast op).1 then p.reference
      else (OrderBook.step p.reference op).2 }

/-- **The books answer everything alike.** -/
structure Alike (p : Both) : Prop where
  get : ∀ orderId, OrderBook.get p.fast orderId = OrderBook.get p.reference orderId
  len : OrderBook.len p.fast = OrderBook.len p.reference
  levelCount : ∀ s depth,
    OrderBook.levelCount p.fast s depth = OrderBook.levelCount p.reference s depth
  front : ∀ s, p.fast.front s = p.reference.front s
  forEachLevel : ∀ s depth,
    OrderBook.forEachLevel p.fast s depth = OrderBook.forEachLevel p.reference s depth
  forEachOrder : ∀ s, OrderBook.forEachOrder p.fast s = OrderBook.forEachOrder p.reference s

/-- The two books hold the same orders. -/
def Inv (p : Both) : Prop :=
  ∃ live free, p.fast.Whole live free ∧ Reps p.reference (p.fast.ordersOf live)

theorem Inv.alike {p : Both} (h : p.Inv) : p.Alike := by
  obtain ⟨live, free, hwhole, hreps⟩ := h
  have hfast := hwhole.shows
  have hreference := hreps.shows
  refine ⟨fun orderId => ?_, ?_, fun s depth => ?_, fun s => ?_, fun s depth => ?_, fun s => ?_⟩
  · rw [hfast.get, hreference.get]
  · rw [hfast.len, hreference.len]
  · rw [hfast.levelCount, hreference.levelCount]
  · rw [hwhole.front_eq, hreps.front_eq]
  · rw [hfast.forEachLevel, hreference.forEachLevel]
  · rw [hfast.forEachOrder, hreference.forEachOrder]

/-- An operation keeps the books together, and both take it or neither does. -/
theorem Inv.step {p : Both} (h : p.Inv) {op : Op} (hexact : p.fast.ExactFor op) :
    (p.step op).Inv ∧
    (MboBook.refusedForCapacity (OrderBook.step p.fast op).1 = false →
      (OrderBook.step p.fast op).1.toOption = (OrderBook.step p.reference op).1.toOption) := by
  obtain ⟨live, free, hwhole, hreps⟩ := h
  obtain ⟨live', free', hstepped⟩ := hwhole.step hexact
  obtain ⟨hanswer, hreps'⟩ := hreps.step op
  refine ⟨⟨live', free', hstepped.whole, ?_⟩, fun hroom => ?_⟩
  · unfold Both.step
    dsimp only
    split
    · rename_i hrefused
      rw [hstepped.refused hrefused]
      exact hreps
    · rename_i hroom
      rw [(hstepped.taken ((Bool.not_eq_true _).mp hroom)).2]
      exact hreps'
  · rw [(hstepped.taken hroom).1, hanswer]

end Both

/-- **The fast book refines the reference book**: along every run from empty books, where slots
and nodes fit their 32 bits and no price makes the tick arithmetic overflow, both take the same
operations with the same answers, and agree on everything after each. -/
theorem fast_book_refines_reference (cap : MboCapacity) (hcap : cap.Addressable) (ops : List Op)
    (hexact : Along Both.step (fun p op => p.fast.ExactFor op) (Both.new cap) ops) :
    Along Both.step (fun p op =>
      (MboBook.refusedForCapacity (OrderBook.step p.fast op).1 = false →
        (OrderBook.step p.fast op).1.toOption = (OrderBook.step p.reference op).1.toOption) ∧
      (p.step op).Alike) (Both.new cap) ops := by
  have hnew : (Both.new cap).Inv := ⟨[], _, MboBook.whole_new hcap, Reps.new⟩
  refine hexact.of_invariant Both.Inv ?_ ?_ hnew
  · intro p op hp hop
    exact (hp.step hop).1
  · intro p op hp hop
    obtain ⟨hinv, hanswers⟩ := hp.step hop
    exact ⟨hanswers, hinv.alike⟩

/-- A run with a window slide in an add and another in a replace, a same-level replace, a price
out of range and a full slab. -/
def slidingOps : List Op :=
  [.add 1 .bid 100 10, .add 2 .bid 100 20, .add 3 .ask 125 5, .replace 1 100 10,
    .replace 2 90 7, .add 4 .ask 130 1, .add 5 .ask 110 1, .add 6 .ask 110 1, .reduce 3 4,
    .delete 1]

theorem fast_book_refines_reference_sliding :
    Along Both.step (fun p op =>
      (MboBook.refusedForCapacity (OrderBook.step p.fast op).1 = false →
        (OrderBook.step p.fast op).1.toOption = (OrderBook.step p.reference op).1.toOption) ∧
      (p.step op).Alike) (Both.new ⟨8, 4, 100, 5⟩) slidingOps :=
  fast_book_refines_reference ⟨8, 4, 100, 5⟩ ⟨by decide, by decide⟩ slidingOps
    ⟨by decide +kernel, by decide +kernel, by decide +kernel, by decide +kernel,
      by decide +kernel, by decide +kernel, by decide +kernel, by decide +kernel,
      by decide +kernel, by decide +kernel, trivial⟩

/-- Slot 2 ^ 32 is recorded as slot 0: the cell it emptied keeps its count, the best bid its
place. -/
theorem fast_book_misplaces_wide_slots :
    let cap : MboCapacity := ⟨4294967300, 4, 0, 1⟩
    let ops : List Op := [.add 1 .bid (-2147483650) 10, .add 2 .bid 2147483646 10, .delete 2]
    Along Both.step (fun p op => p.fast.ExactFor op) (Both.new cap) ops ∧
      ¬(ops.foldl Both.step (Both.new cap)).Alike := by
  refine ⟨⟨by decide +kernel, by decide +kernel, trivial, trivial⟩, fun h => ?_⟩
  have hfront := h.front .bid
  revert hfront
  decide +kernel

end MarketData.Book
