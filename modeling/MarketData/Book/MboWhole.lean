import MarketData.Book.MboMap
import MarketData.Book.MboWindow

/-!
# `Book/MboWhole.lean` — the whole book, operation by operation

`Whole` puts the store, the caches and the map together, over one list of live nodes and one list
of free ones that between them are the slab. Every operation keeps it, and does to the orders of
the live nodes what `Arrivals.step` does, unless it is refused for want of room: a full slab, or a
price the window cannot reach.

## One lemma for each way an operation ends

An operation of the source ends in one of several places, and each of them leaves the book in its
own way. `Added` and `Replaced` list those of `add` and `replace` with all that is known there:
refused before anything was looked up, refused with the window moved or not, taken. A caller splits
on them and never unfolds the operation. For `delete` and `reduce` there are two places, found and
not found, and a match on the lookup does.

## What each part needs from the others

The store does not mention the caches or the map, and neither of those mentions the links, so a step
that only relinks keeps the other two by a frame (`SameStore`, `SameMap`). They meet in two facts:
the occupancy the caches describe is which cells have a queue, and the map has one entry for each
live node. Where the source changes them one after the other, the proofs below go through the states
in between in the same order.

A book whose arithmetic overflowed need not be `Whole` any more; every lemma that looks for a slot
has the exactness of the arithmetic as a hypothesis.
-/

set_option autoImplicit false

namespace MarketData.Book

open MarketData.Wire (Side)
open MarketData.Chain

/-- The refusals that come from how the book was sized. -/
def BookError.forCapacity : BookError → Bool
  | .slabFull .. => true
  | .priceOutOfRange .. => true
  | .priceOffGrid .. => true
  | _ => false

namespace MboBook

/-- **The representation invariant.** -/
structure Whole (b : MboBook) (live free : List Nat) : Prop where
  store : Store b live free
  touch : Touch b
  indexed : Indexed b live
  every : ∀ i < b.slab, i ∈ live ++ free
  live_eq : b.live = live.length

/-! ## What the bookkeeping leaves alone -/

structure SameStore (b b' : MboBook) : Prop where
  index : b'.index = b.index
  slab : b'.slab = b.slab
  nodes : b'.nodes = b.nodes
  cells : ∀ s, b'.cells s = b.cells s
  freeHead : b'.freeHead = b.freeHead

structure SameMap (b b' : MboBook) : Prop where
  map : b'.map = b.map
  mapMask : b'.mapMask = b.mapMask
  live : b'.live = b.live

theorem SameStore.trans {b b' b'' : MboBook} (h : SameStore b b') (h' : SameStore b' b'') :
    SameStore b b'' :=
  ⟨h'.index.trans h.index, h'.slab.trans h.slab, h'.nodes.trans h.nodes,
    fun s => (h'.cells s).trans (h.cells s), h'.freeHead.trans h.freeHead⟩

theorem SameMap.trans {b b' b'' : MboBook} (h : SameMap b b') (h' : SameMap b' b'') :
    SameMap b b'' :=
  ⟨h'.map.trans h.map, h'.mapMask.trans h.mapMask, h'.live.trans h.live⟩

theorem Frame.sameMap {b b' : MboBook} (h : Frame b b') : SameMap b b' :=
  ⟨h.map, h.mapMask, h.live⟩

theorem SameStore.occupied {b b' : MboBook} (h : SameStore b b') (s : Side) :
    b'.occupied s = b.occupied s := by
  funext i
  rw [MboBook.occupied, h.cells, MboBook.occupied]

theorem Store.sameStore {b b' : MboBook} {live free : List Nat} (h : Store b live free)
    (hs : SameStore b b') : Store b' live free :=
  h.same hs.index hs.slab hs.nodes hs.cells hs.freeHead

section Bookkeeping

variable (b : MboBook) (s : Side) (slot : Nat) (c : Bool)

theorem levelOpened_eq : ∃ x y, b.levelOpened s = { b with bidLevels := x, askLevels := y } := by
  cases s <;> exact ⟨_, _, rfl⟩

theorem levelClosed_eq : ∃ x y, b.levelClosed s = { b with bidLevels := x, askLevels := y } := by
  cases s <;> exact ⟨_, _, rfl⟩

theorem noteOccupied_eq :
    ∃ x y, b.noteOccupied s slot = { b with bestBid := x, bestAsk := y } := by
  cases s <;> simp only [noteOccupied] <;> split <;> exact ⟨_, _, rfl⟩

theorem rescanIfBest_eq :
    ∃ x y, b.rescanIfBest s slot c = { b with bestBid := x, bestAsk := y } := by
  cases c <;> cases s <;> simp only [rescanIfBest, Bool.false_eq_true, if_false, if_true]
  · exact ⟨_, _, rfl⟩
  · exact ⟨_, _, rfl⟩
  · split <;> exact ⟨_, _, rfl⟩
  · split <;> exact ⟨_, _, rfl⟩

/-- Counting a level changes the counts only. -/
theorem opened_same : SameStore b (if c then b.levelOpened s else b) ∧
    SameMap b (if c then b.levelOpened s else b) ∧
    ∀ s', (if c then b.levelOpened s else b).best s' = b.best s' := by
  obtain ⟨x, y, heq⟩ := levelOpened_eq b s
  rw [heq]
  split <;>
    exact ⟨⟨rfl, rfl, rfl, fun s => by cases s <;> rfl, rfl⟩, ⟨rfl, rfl, rfl⟩,
      fun s => by cases s <;> rfl⟩

theorem closed_same : SameStore b (if c then b.levelClosed s else b) ∧
    SameMap b (if c then b.levelClosed s else b) ∧
    ∀ s', (if c then b.levelClosed s else b).best s' = b.best s' := by
  obtain ⟨x, y, heq⟩ := levelClosed_eq b s
  rw [heq]
  split <;>
    exact ⟨⟨rfl, rfl, rfl, fun s => by cases s <;> rfl, rfl⟩, ⟨rfl, rfl, rfl⟩,
      fun s => by cases s <;> rfl⟩

/-- Noting a best price changes the best prices only. -/
theorem noteOccupied_same : SameStore b (b.noteOccupied s slot) ∧
    SameMap b (b.noteOccupied s slot) ∧
    ∀ s', (b.noteOccupied s slot).levels s' = b.levels s' := by
  obtain ⟨x, y, heq⟩ := noteOccupied_eq b s slot
  rw [heq]
  exact ⟨⟨rfl, rfl, rfl, fun s => by cases s <;> rfl, rfl⟩, ⟨rfl, rfl, rfl⟩,
    fun s => by cases s <;> rfl⟩

theorem rescanIfBest_same : SameStore b (b.rescanIfBest s slot c) ∧
    SameMap b (b.rescanIfBest s slot c) ∧
    ∀ s', (b.rescanIfBest s slot c).levels s' = b.levels s' := by
  obtain ⟨x, y, heq⟩ := rescanIfBest_eq b s slot c
  rw [heq]
  exact ⟨⟨rfl, rfl, rfl, fun s => by cases s <;> rfl, rfl⟩, ⟨rfl, rfl, rfl⟩,
    fun s => by cases s <;> rfl⟩

/-- A change of the map and of the number of orders. -/
theorem remapped_same (map : Nat → MapEntry) (n : Nat) :
    SameStore b { b with map := map, live := n } ∧
    (∀ s', ({ b with map := map, live := n } : MboBook).best s' = b.best s') ∧
    ∀ s', ({ b with map := map, live := n } : MboBook).levels s' = b.levels s' :=
  ⟨⟨rfl, rfl, rfl, fun s => by cases s <;> rfl, rfl⟩, fun s => by cases s <;> rfl,
    fun s => by cases s <;> rfl⟩

end Bookkeeping

theorem Counted.congr {b b' : MboBook} (h : Counted b) (hs : SameStore b b')
    (hlevels : ∀ s, b'.levels s = b.levels s) : Counted b' := by
  intro s
  rw [hlevels, h s, hs.index, hs.occupied]

theorem Indexed.same {b b' : MboBook} {live : List Nat} (h : Indexed b live)
    (hmap : b'.map = b.map) (hmask : b'.mapMask = b.mapMask) (hslab : b'.slab = b.slab)
    (horder : ∀ i ∈ live, (b'.nodes i).order = (b.nodes i).order) : Indexed b' live := by
  refine h.congr hmap hmask hslab fun e => ?_
  have hid : ∀ i ∈ live, (b'.nodes i).orderId = (b.nodes i).orderId := fun i hi =>
    congrArg RestingOrder.orderId (horder i hi)
  constructor
  · rintro ⟨i, hi, rfl⟩
    exact ⟨i, hi, by rw [hid i hi]⟩
  · rintro ⟨i, hi, rfl⟩
    exact ⟨i, hi, by rw [hid i hi]⟩

/-! ## Occupancy -/

section Occupancy

variable {b : MboBook} {live free : List Nat} {n : Nat}

theorem Threaded.occupied {b' : MboBook} {s : Side} {slot : Nat} {next prev : Nat → Nat}
    {cell : LevelCell} (h : Threaded b b' s slot next prev cell) (s' : Side) (i : Nat)
    (hother : ¬(s = s' ∧ slot = i)) : b'.occupied s' i = b.occupied s' i := by
  rw [MboBook.occupied, h.cells, if_neg hother, MboBook.occupied]

/-- A level with a live node on it is occupied. -/
theorem Store.occupied_of_mem (h : Store b live free) (hn : n ∈ live) :
    b.occupied (b.nodes n).side (b.nodes n).slot = true :=
  (h.occupied_iff (h.slots n hn)).mpr ⟨n, hn, rfl, rfl⟩

theorem Store.occupied_attach (h : Store (b.attach n) (live ++ [n]) free) :
    (b.attach n).occupied (b.nodes n).side (b.nodes n).slot = true := by
  have hfields := core_fields ((attach_spec b n).core n)
  have hside : ((b.attach n).nodes n).side = (b.nodes n).side :=
    congrArg RestingOrder.side hfields.1
  have hocc := h.occupied_of_mem (List.mem_append_right live (List.mem_singleton_self n))
  rw [hside, hfields.2] at hocc
  exact hocc

end Occupancy

/-! ## Adding -/

/-- A node in hand enters a book: it is linked, counted, and the caches follow. -/
theorem Whole.enter {b b' : MboBook} {live free : List Nat} {n : Nat} {wasEmpty : Bool}
    (hstore : Store b live free) (htouch : Touch b) (hn : n ∉ live ++ free) (hlt : n < b.slab)
    (hslot : (b.nodes n).slot < b.index.capacity)
    (hprice : b.index.OnGrid (b.nodes n).price (b.nodes n).slot)
    (hvalid : Arrivals.Valid (b.ordersOf (live ++ [n])))
    (hwas : wasEmpty = (b.cells (b.nodes n).side (b.nodes n).slot).isEmpty)
    (hsame : SameStore (if wasEmpty then (b.attach n).levelOpened (b.nodes n).side
      else b.attach n) b')
    (hbest : ∀ s, b'.best s = (b.attach n).best s)
    (hlevels : ∀ s, b'.levels s = (if wasEmpty then (b.attach n).levelOpened (b.nodes n).side
      else b.attach n).levels s) :
    Store (b'.noteOccupied (b.nodes n).side (b.nodes n).slot) (live ++ [n]) free ∧
    Touch (b'.noteOccupied (b.nodes n).side (b.nodes n).slot) := by
  have hspec := attach_spec b n
  have hattached := hstore.attach hn hlt hslot hprice hvalid
  have hnow := hattached.occupied_attach
  obtain ⟨hopened, -, -⟩ := opened_same (b.attach n) (b.nodes n).side wasEmpty
  obtain ⟨hnoted, -, hnotedLevels⟩ := noteOccupied_same b' (b.nodes n).side (b.nodes n).slot
  have hcounted : Counted (if wasEmpty then (b.attach n).levelOpened (b.nodes n).side
      else b.attach n) := by
    refine htouch.counted.opened hspec.frame.index hspec.frame.levels hslot hspec.occupied hnow ?_
    rw [hwas, MboBook.occupied, Bool.not_not]
  refine ⟨hattached.sameStore ((hopened.trans hsame).trans hnoted), ?_, ?_⟩
  · -- the cached prices still describe the book before, and one slot is added to it
    have hold : Best b' b.occupied := by
      intro s
      rw [hbest, hspec.frame.best, (hopened.trans hsame).index, hspec.frame.index]
      exact htouch.best s
    intro s
    rw [hnoted.index, hnoted.occupied, (hopened.trans hsame).occupied]
    have hocc : (b.attach n).occupied s =
        withSlot b.occupied (b.nodes n).side (b.nodes n).slot s := by
      funext i
      by_cases heq : (b.nodes n).side = s ∧ (b.nodes n).slot = i
      · rw [withSlot, decide_eq_true heq, Bool.or_true, ← heq.1, ← heq.2]
        exact hnow
      · rw [withSlot, decide_eq_false heq, Bool.or_false]
        exact hspec.occupied s i heq
    rw [hocc]
    refine hold.noteOccupied ?_ s
    rw [(hopened.trans hsame).index, hspec.frame.index]
    exact hslot
  · exact (hcounted.congr hsame hlevels).congr hnoted hnotedLevels

/-- What came of adding an order. -/
inductive Added (b : MboBook) (live free : List Nat) (orderId : UInt64) (side : Side)
    (price : Int64) (quantity : UInt32) : Except BookError Unit → MboBook → Prop
  | zero : quantity = 0 → Added b live free orderId side price quantity
      (.error (.zeroQuantity orderId)) b
  | duplicate : quantity ≠ 0 → (Arrivals.lookup (b.ordersOf live) orderId).isSome →
      Added b live free orderId side price quantity (.error (.duplicateOrderId orderId)) b
  | noSlot {e : BookError} : quantity ≠ 0 → Arrivals.lookup (b.ordersOf live) orderId = none →
      NoSlot b orderId price e → Added b live free orderId side price quantity (.error e) b
  | full {b' : MboBook} : quantity ≠ 0 → Arrivals.lookup (b.ordersOf live) orderId = none →
      (∀ e, ¬NoSlot b orderId price e) → free = [] → Whole b' live [] →
      b'.ordersOf live = b.ordersOf live →
      Added b live free orderId side price quantity (.error (.slabFull orderId b.slab)) b'
  | added {b' : MboBook} {n : Nat} {free' : List Nat} : quantity ≠ 0 →
      Arrivals.lookup (b.ordersOf live) orderId = none → (∀ e, ¬NoSlot b orderId price e) →
      free = n :: free' → Whole b' (live ++ [n]) free' →
      b'.ordersOf (live ++ [n]) = b.ordersOf live ++ [⟨orderId, price, quantity, side⟩] →
      Added b live free orderId side price quantity (.ok ()) b'

theorem ordersOf_append (b : MboBook) (live : List Nat) (n : Nat) :
    b.ordersOf (live ++ [n]) = b.ordersOf live ++ [(b.nodes n).order] := by
  rw [ordersOf, List.map_append]
  rfl

theorem NoSlot.error {b : MboBook} {orderId : UInt64} {price : Int64} {e : BookError}
    (h : NoSlot b orderId price e) : (b.slotFor orderId price).1 = .error e := by
  unfold slotFor rebase
  rcases h with ⟨hslot, rfl⟩ | ⟨hslot, hrebase, rfl⟩
  · rw [hslot]
  · rw [hslot, hrebase]

/-- A node in hand has been given the terms of the new order `o`, which is to rest at `slot`. -/
structure Filled (b b₃ : MboBook) (live free : List Nat) (n slot : Nat) (o : RestingOrder) :
    Prop where
  store : Store b₃ live free
  touch : Touch b₃
  order : (b₃.nodes n).order = o
  atSlot : (b₃.nodes n).slot = slot
  others : ∀ i ∈ live, (b₃.nodes i).order = (b.nodes i).order
  slab : b₃.slab = b.slab
  map : SameMap b b₃
  slot_lt : slot < b₃.index.capacity
  onGrid : b₃.index.OnGrid o.price slot

theorem Slotted.filled {b b₁ : MboBook} {live free : List Nat} {n slot : Nat} {price : Int64}
    (hs : Slotted b b₁ live (n :: free) price slot)
    (hstore : Store { b₁ with freeHead := b₁.nextOf n } live free) (hn : n ∉ live ++ free)
    (orderId : UInt64) (side : Side) (quantity : UInt32) {b₃ : MboBook}
    (hb₃ : b₃ = ({ b₁ with freeHead := b₁.nextOf n } : MboBook).setNode n
      { orderId := orderId, price := price, quantity := quantity, side := side,
        slot := asU32 slot, next := nil, prev := nil }) :
    Filled b b₃ live free n slot ⟨orderId, price, quantity, side⟩ := by
  have hslot : asU32 slot = slot :=
    Nat.mod_eq_of_lt (Nat.lt_trans hs.slot_lt hs.store.capacity)
  have hnode : b₃.nodes n =
      { orderId := orderId, price := price, quantity := quantity, side := side, slot := slot,
        next := nil, prev := nil } := by
    rw [hb₃, nodes_setNode, if_pos rfl, hslot]
  have hsame₃ : b₃.index = b₁.index ∧ b₃.slab = b₁.slab ∧ (∀ s, b₃.cells s = b₁.cells s) ∧
      (∀ s, b₃.best s = b₁.best s) ∧ (∀ s, b₃.levels s = b₁.levels s) ∧ SameMap b₁ b₃ := by
    rw [hb₃]
    exact ⟨rfl, rfl, fun s => by cases s <;> rfl, fun s => by cases s <;> rfl,
      fun s => by cases s <;> rfl, rfl, rfl, rfl⟩
  obtain ⟨hindex, hslab, hcells, hbests, hlevels, hmap⟩ := hsame₃
  have hocc : ∀ s, b₃.occupied s = b₁.occupied s := by
    intro s
    funext i
    rw [MboBook.occupied, hcells, MboBook.occupied]
  have hother : ∀ i ∈ live, b₃.nodes i = b₁.nodes i := by
    intro i hi
    rw [hb₃, nodes_setNode, if_neg]
    rintro rfl
    exact hn (List.mem_append_left _ hi)
  refine ⟨?_, ⟨fun s => ?_, fun s => ?_⟩, ?_, ?_, fun i hi => ?_, hslab.trans hs.slab, ?_, ?_, ?_⟩
  · rw [hb₃]
    exact hstore.setNode hn _
  · rw [hindex, hbests, hocc]
    exact hs.touch.best s
  · rw [hindex, hlevels, hocc]
    exact hs.touch.counted s
  · rw [hnode]
    rfl
  · rw [hnode]
  · rw [hother i hi]
    exact hs.nodes i hi
  · exact SameMap.trans ⟨hs.map, hs.mapMask, hs.live⟩ hmap
  · rw [hindex]
    exact hs.slot_lt
  · rw [hindex]
    exact hs.onGrid

section Filling

variable {b b₃ : MboBook} {live free : List Nat} {n slot : Nat} {o : RestingOrder}

theorem Filled.orders (hf : Filled b b₃ live free n slot o) :
    b₃.ordersOf (live ++ [n]) = b.ordersOf live ++ [o] := by
  rw [ordersOf_append, hf.order, ordersOf_congr hf.others]

/-- The order is found by its id once the node is attached and the id is in the map. -/
theorem Filled.indexed (hf : Filled b b₃ live free n slot o) (h : Whole b live (n :: free))
    (hlt : n < b₃.slab) (hnew : Arrivals.lookup (b.ordersOf live) o.orderId = none) {b₅ : MboBook}
    (hsame : SameStore (b₃.attach n) b₅) (hmap : SameMap (b₃.attach n) b₅) :
    Indexed (b₅.mapInsert o.orderId n) (live ++ [n]) := by
  have hspec := attach_spec b₃ n
  have horder : ∀ i, (b₅.nodes i).order = (b₃.nodes i).order := by
    intro i
    rw [hsame.nodes]
    exact (core_fields (hspec.core i)).1
  have hmap₅ : SameMap b b₅ := (hf.map.trans hspec.frame.sameMap).trans hmap
  have hnil : n ≠ nil := by
    have hsmall := hf.store.slab
    unfold nil
    omega
  refine h.indexed.mapInsert h.store hmap₅.map hmap₅.mapMask ?_ hnil hnew (fun i hi => ?_) ?_
  · rw [hsame.slab, hspec.frame.slab, hf.slab]
  · exact congrArg RestingOrder.orderId ((horder i).trans (hf.others i hi))
  · exact congrArg RestingOrder.orderId ((horder n).trans hf.order)

end Filling

/-- A node taken off the free list is filled in and enters the book. -/
theorem Whole.fill {b b₁ : MboBook} {live free : List Nat} {n slot : Nat} {orderId : UInt64}
    {side : Side} {price : Int64} {quantity : UInt32} (h : Whole b live (n :: free))
    (hs : Slotted b b₁ live (n :: free) price slot)
    (hstore : Store { b₁ with freeHead := b₁.nextOf n } live free) (hn : n ∉ live ++ free)
    (hlt : n < b₁.slab) (hq : quantity ≠ 0)
    (hnew : Arrivals.lookup (b.ordersOf live) orderId = none) {b₃ b₅ b₈ b' : MboBook}
    (hb₃ : b₃ = ({ b₁ with freeHead := b₁.nextOf n } : MboBook).setNode n
      { orderId := orderId, price := price, quantity := quantity, side := side,
        slot := asU32 slot, next := nil, prev := nil })
    (hb₅ : b₅ = (if (b₃.cells side slot).isEmpty then
      ((b₃.linkBack side slot n).tallyIn side slot quantity).levelOpened side
      else (b₃.linkBack side slot n).tallyIn side slot quantity))
    (hb₈ : b₈ = { b₅ with map := (b₅.mapInsert orderId n).map, live := b₅.live + 1 })
    (hb' : b' = b₈.noteOccupied side slot) :
    Whole b' (live ++ [n]) free ∧
      b'.ordersOf (live ++ [n]) = b.ordersOf live ++ [⟨orderId, price, quantity, side⟩] := by
  have hf := hs.filled hstore hn orderId side quantity hb₃
  have hside : side = (b₃.nodes n).side := (congrArg RestingOrder.side hf.order).symm
  have hprice : (b₃.nodes n).price = price := congrArg RestingOrder.price hf.order
  have hquantity : quantity = (b₃.nodes n).quantity :=
    (congrArg RestingOrder.quantity hf.order).symm
  have hat : slot = (b₃.nodes n).slot := hf.atSlot.symm
  have hlt₃ : n < b₃.slab := by
    rw [hf.slab, ← hs.slab]
    exact hlt
  have hvalid : Arrivals.Valid (b₃.ordersOf (live ++ [n])) := by
    rw [hf.orders]
    exact h.store.valid.append hnew hq
  have hattach : (b₃.linkBack side slot n).tallyIn side slot quantity = b₃.attach n := by
    rw [attach, ← hside, ← hat, ← hquantity]
  rw [hattach] at hb₅
  have hspec := attach_spec b₃ n
  -- the bookkeeping after the node was linked, one step at a time
  obtain ⟨hopened, hopenedMap, hopenedBest⟩ :=
    opened_same (b₃.attach n) side (b₃.cells side slot).isEmpty
  rw [← hb₅] at hopened hopenedMap hopenedBest
  obtain ⟨hre, hreBest, hreLevels⟩ :=
    remapped_same b₅ (b₅.mapInsert orderId n).map (b₅.live + 1)
  rw [← hb₈] at hre hreBest hreLevels
  obtain ⟨hstore', htouch'⟩ := Whole.enter hf.store hf.touch hn hlt₃
    (by rw [← hat]; exact hf.slot_lt) (by rw [← hat, hprice]; exact hf.onGrid) hvalid rfl
    (show SameStore _ b₈ by rw [← hside, ← hat, ← hb₅]; exact hre)
    (fun s => (hreBest s).trans (hopenedBest s))
    (fun s => by rw [← hside, ← hat, ← hb₅]; exact hreLevels s)
  rw [← hside, ← hat, ← hb'] at hstore' htouch'
  obtain ⟨hnoted, hnotedMap, -⟩ := noteOccupied_same b₈ side slot
  rw [← hb'] at hnoted hnotedMap
  have horder' : ∀ i, (b'.nodes i).order = (b₃.nodes i).order := by
    intro i
    rw [hnoted.nodes, hre.nodes, hopened.nodes]
    exact (core_fields (hspec.core i)).1
  have hslab₅ : b₅.slab = b.slab := by
    rw [hopened.slab, hspec.frame.slab, hf.slab]
  have hslab' : b'.slab = b.slab := by
    rw [hnoted.slab, hre.slab, hslab₅]
  refine ⟨⟨hstore', htouch', ?_, ?_, ?_⟩, ?_⟩
  · refine (hf.indexed h hlt₃ hnew hopened hopenedMap).congr ?_ ?_ (hslab'.trans hslab₅.symm)
      fun e => ?_
    · rw [hnotedMap.map, hb₈]
    · rw [hnotedMap.mapMask, hb₈]
      rfl
    · rw [hnoted.nodes, hre.nodes]
      rfl
  · rw [hslab']
    intro i hi
    have hmem := h.every i hi
    simp only [List.mem_append, List.mem_cons] at hmem ⊢
    tauto
  · rw [hnotedMap.live, hb₈]
    show b₅.live + 1 = _
    rw [hopenedMap.live, hspec.frame.sameMap.live, hf.map.live, h.live_eq, List.length_append,
      List.length_singleton]
  · rw [ordersOf_congr fun i _ => horder' i, hf.orders]

/-- **Adding an order.** -/
theorem Whole.add {b : MboBook} {live free : List Nat} (h : Whole b live free) (orderId : UInt64)
    (side : Side) {price : Int64} (quantity : UInt32)
    (hexact : b.index.Exact price b.keptPrices) :
    Added b live free orderId side price quantity (b.add orderId side price quantity).1
      (b.add orderId side price quantity).2 := by
  unfold MboBook.add
  by_cases hq : quantity = 0
  · rw [if_pos hq]
    exact .zero hq
  · rw [if_neg hq]
    cases hfind : b.mapFind orderId with
    | some p =>
      have hget := h.indexed.get_eq h.store orderId
      rw [MboBook.get, hfind] at hget
      refine .duplicate hq ?_
      rw [← hget]
      rfl
    | none =>
      have hnew := h.indexed.mapFind_none h.store hfind
      rw [if_neg (by simp)]
      rcases h.store.slotFor h.touch hexact orderId with ⟨slot, b₁, hslotted, hs⟩ | ⟨e, herror, hno⟩
      · have hslots : ∀ e, ¬NoSlot b orderId price e := by
          intro e hno
          have herror := hno.error
          rw [hslotted] at herror
          cases herror
        rw [hslotted]
        dsimp only
        have htake := hs.store.takeNode orderId
        cases free with
        | nil =>
          dsimp only at htake
          rw [htake, hs.slab]
          refine .full hq hnew hslots rfl ⟨hs.store, hs.touch, ?_, ?_, ?_⟩ hs.orders
          · exact h.indexed.same hs.map hs.mapMask hs.slab hs.nodes
          · rw [hs.slab]
            exact h.every
          · rw [hs.live]
            exact h.live_eq
        | cons n free' =>
          obtain ⟨htaken, hstore, hn, hlt⟩ := htake
          rw [htaken]
          dsimp only
          obtain ⟨hwhole, horders⟩ := h.fill hs hstore hn hlt hq hnew rfl rfl rfl rfl
          exact .added hq hnew hslots rfl hwhole horders
      · rw [herror]
        exact .noSlot hq hnew hno

/-! ## Removing -/

section Removing

variable {b b' : MboBook} {live free : List Nat} {n : Nat}

theorem Store.ids (h : Store b live free) : (live.map fun i => (b.nodes i).orderId).Nodup := by
  have hnodup := h.valid.ids
  rw [ordersOf, List.map_map] at hnodup
  exact hnodup

/-- Leaving a node out leaves its order out. -/
theorem Store.ordersOf_filter (h : Store b live free) (hn : n ∈ live) :
    b.ordersOf (live.filter fun i => i ≠ n) =
      Arrivals.without (b.ordersOf live) (b.nodes n).orderId := by
  rw [ordersOf, ordersOf, Arrivals.without, List.filter_map]
  congr 1
  apply List.filter_congr
  intro i hi
  rw [Function.comp_apply, decide_eq_decide]
  exact not_congr ⟨fun heq => by rw [heq]; rfl,
    fun heq => List.inj_on_of_nodup_map h.ids hi hn heq⟩

theorem Store.length_filter (h : Store b live free) (hn : n ∈ live) :
    (live.filter fun i => i ≠ n).length + 1 = live.length := by
  have hperm := perm_cons_filter (List.nodup_append.mp h.nodup).1 hn
  rw [hperm.length_eq, List.length_cons]

theorem notMem_filter (h : Store b live free) (hn : n ∈ live) :
    n ∉ (live.filter fun i => i ≠ n) ++ free := by
  intro hmem
  cases List.mem_append.mp hmem with
  | inl hmem => exact of_decide_eq_true (List.mem_filter.mp hmem).2 rfl
  | inr hmem => exact h.free_not_live hmem hn

/-- The counts after a node has left its level. -/
theorem Touch.closed (h : Touch b) (hs : Store b live free) (hn : n ∈ live) {emptied : Bool}
    (hemptied : emptied = ((b.detach n).cells (b.nodes n).side (b.nodes n).slot).isEmpty)
    (hindex : b'.index = b.index) (hcells : ∀ s, b'.cells s = (b.detach n).cells s)
    (hlevels : ∀ s, b'.levels s = b.levels s) :
    Counted (if emptied then b'.levelClosed (b.nodes n).side else b') := by
  have hocc : ∀ s, b'.occupied s = (b.detach n).occupied s := by
    intro s
    funext i
    rw [MboBook.occupied, hcells, MboBook.occupied]
  refine h.counted.closed hindex hlevels (hs.slots n hn) (fun s i hother => ?_)
    (hs.occupied_of_mem hn) ?_
  · rw [hocc]
    exact (detach_spec b n).occupied s i hother
  · rw [hemptied, hocc, MboBook.occupied, Bool.not_not]

/-- The caches after a node has left its level. -/
theorem Touch.leave (h : Touch b) (hs : Store b live free) (hn : n ∈ live) {emptied : Bool}
    (hemptied : emptied = ((b.detach n).cells (b.nodes n).side (b.nodes n).slot).isEmpty)
    (hindex : b'.index = b.index) (hcells : ∀ s, b'.cells s = (b.detach n).cells s)
    (hbest : ∀ s, b'.best s = b.best s) (hlevels : ∀ s, b'.levels s = b.levels s) :
    Touch ((if emptied then b'.levelClosed (b.nodes n).side else b').rescanIfBest
      (b.nodes n).side (b.nodes n).slot emptied) := by
  have hcounted := h.closed hs hn hemptied hindex hcells hlevels
  obtain ⟨hclosed, -, hclosedBest⟩ := closed_same b' (b.nodes n).side emptied
  generalize (if emptied then b'.levelClosed (b.nodes n).side else b') = b₁ at *
  have hocc : ∀ s, b₁.occupied s = (b.detach n).occupied s := by
    intro s
    funext i
    rw [hclosed.occupied, MboBook.occupied, hcells, MboBook.occupied]
  obtain ⟨hrescan, -, hrescanLevels⟩ :=
    rescanIfBest_same b₁ (b.nodes n).side (b.nodes n).slot emptied
  refine ⟨fun s => ?_, hcounted.congr hrescan hrescanLevels⟩
  have hold : Best b₁ b.occupied := by
    intro s
    rw [hclosedBest, hbest, hclosed.index, hindex]
    exact h.best s
  rw [hrescan.index, hrescan.occupied]
  refine hold.rescanIfBest (fun s' i hother => ?_) (fun hkept => ?_) (fun _ => ?_) s
  · rw [hocc]
    exact (detach_spec b n).occupied s' i hother
  · rw [hocc, hs.occupied_of_mem hn, MboBook.occupied, ← hemptied, hkept]
    rfl
  · exact hs.occupied_of_mem hn

end Removing

/-- **Deleting an order.** -/
theorem Whole.delete {b : MboBook} {live free : List Nat} (h : Whole b live free)
    (orderId : UInt64) :
    match Arrivals.lookup (b.ordersOf live) orderId with
    | none => b.delete orderId = (.error (.unknownOrderId orderId), b)
    | some o => (b.delete orderId).1 = .ok o ∧
        ∃ n ∈ live, Whole (b.delete orderId).2 (live.filter fun i => i ≠ n) (n :: free) ∧
          (b.delete orderId).2.ordersOf (live.filter fun i => i ≠ n) =
            Arrivals.without (b.ordersOf live) orderId := by
  have hget := h.indexed.get_eq h.store orderId
  rw [← hget]
  unfold MboBook.get MboBook.delete
  cases hfind : b.mapFind orderId with
  | none => rfl
  | some p =>
    obtain ⟨hp, hoccupied, hn, hid, hkey⟩ := h.indexed.mapFind_some h.store hfind
    simp only [Option.map_some]
    refine ⟨trivial, (b.map p).node, hn, ?_⟩
    generalize hnode : (b.map p).node = n at *
    have hdetach : (b.unlink (b.nodes n).side (b.nodes n).slot n).tallyOut (b.nodes n).side
        (b.nodes n).slot (b.nodes n).quantity = b.detach n := rfl
    rw [hdetach]
    have hspec := detach_spec b n
    have hlt := h.store.live_lt hn
    have hdetached := h.store.detach hn
    have hhand := notMem_filter h.store hn
    have hgiven := hdetached.giveNode hhand (by rw [hspec.frame.slab]; exact hlt)
    generalize hemptied : ((b.detach n).cells (b.nodes n).side (b.nodes n).slot).isEmpty = emptied
    -- the book with its map and its free list seen to, before the caches are
    generalize hb₄ : ({ ((b.detach n).mapRemoveAt p).giveNode n with
      live := (((b.detach n).mapRemoveAt p).giveNode n).live - 1 } : MboBook) = b₄
    have hsame : SameStore ((b.detach n).giveNode n) b₄ := by
      rw [← hb₄]
      exact ⟨rfl, rfl, rfl, fun s => by cases s <;> rfl, rfl⟩
    have hkept : b₄.index = b.index ∧ (∀ s, b₄.cells s = (b.detach n).cells s) ∧
        (∀ s, b₄.best s = b.best s) ∧ (∀ s, b₄.levels s = b.levels s) := by
      refine ⟨hsame.index.trans hspec.frame.index, fun s => (hsame.cells s).trans ?_,
        fun s => ?_, fun s => ?_⟩
      · cases s <;> rfl
      · rw [← hspec.frame.best s, ← hb₄]
        cases s <;> rfl
      · rw [← hspec.frame.levels s, ← hb₄]
        cases s <;> rfl
    obtain ⟨hindex, hcells, hbests, hlevels⟩ := hkept
    have htouch := h.touch.leave h.store hn hemptied.symm hindex hcells hbests hlevels
    obtain ⟨hclosed, hclosedMap, -⟩ := closed_same b₄ (b.nodes n).side emptied
    generalize (if emptied then b₄.levelClosed (b.nodes n).side else b₄) = b₅ at *
    obtain ⟨hrescan, hrescanMap, -⟩ :=
      rescanIfBest_same b₅ (b.nodes n).side (b.nodes n).slot emptied
    generalize b₅.rescanIfBest (b.nodes n).side (b.nodes n).slot emptied = b' at *
    have hsame' := (hsame.trans hclosed).trans hrescan
    have hmap' := hclosedMap.trans hrescanMap
    have hslab' : b'.slab = b.slab := hsame'.slab.trans hspec.frame.slab
    have horder : ∀ i ∈ live.filter fun i => i ≠ n,
        (b'.nodes i).order = (b.nodes i).order := by
      intro i hi
      have hne := of_decide_eq_true (List.mem_filter.mp hi).2
      rw [hsame'.nodes]
      show (((b.detach n).setNode n _).nodes i).order = _
      rw [nodes_setNode, if_neg hne]
      exact (core_fields (hspec.core i)).1
    have hremoved : Indexed ((b.detach n).mapRemoveAt p) (live.filter fun i => i ≠ n) := by
      refine h.indexed.mapRemoveAt h.store hspec.frame.map hspec.frame.mapMask hspec.frame.slab hp
        hoccupied hn (hid.trans hkey.symm) (fun i _ _ => ?_)
      exact congrArg RestingOrder.orderId (core_fields (hspec.core i)).1
    refine ⟨⟨hgiven.sameStore hsame', htouch, ?_, ?_, ?_⟩, ?_⟩
    · refine hremoved.same ?_ ?_ (hsame'.slab.trans rfl) (fun i hi => ?_)
      · rw [hmap'.map, ← hb₄]
        rfl
      · rw [hmap'.mapMask, ← hb₄]
        rfl
      · exact (horder i hi).trans (core_fields (hspec.core i)).1.symm
    · rw [hslab']
      intro i hi
      have hmem := h.every i hi
      simp only [List.mem_append, List.mem_cons, List.mem_filter, decide_eq_true_eq] at hmem ⊢
      tauto
    · rw [hmap'.live, ← hb₄]
      show (b.detach n).live - 1 = _
      rw [hspec.frame.live, h.live_eq, ← h.store.length_filter hn]
      rfl
    · rw [ordersOf_congr horder, h.store.ordersOf_filter hn, hid]

/-! ## Reducing -/

theorem occupied_lower (b : MboBook) (n : Nat) (quantity : UInt32) (s : Side) :
    (b.lower n quantity).occupied s = b.occupied s := by
  funext i
  rw [occupied, cells_lower, occupied]
  split <;> rfl

/-- **Reducing an order.** -/
theorem Whole.reduce {b : MboBook} {live free : List Nat} (h : Whole b live free)
    (orderId : UInt64) {newQuantity : UInt32} (hq : newQuantity ≠ 0) :
    match Arrivals.lookup (b.ordersOf live) orderId with
    | none => b.reduce orderId newQuantity = (.error (.unknownOrderId orderId), b)
    | some o =>
      if o.quantity < newQuantity then
        b.reduce orderId newQuantity =
          (.error (.reduceWouldIncrease orderId o.quantity newQuantity), b)
      else (b.reduce orderId newQuantity).1 = .ok () ∧
        Whole (b.reduce orderId newQuantity).2 live free ∧
        (b.reduce orderId newQuantity).2.ordersOf live =
          Arrivals.resize (b.ordersOf live) orderId newQuantity := by
  have hget := h.indexed.get_eq h.store orderId
  rw [← hget]
  unfold MboBook.get MboBook.reduce
  rw [if_neg hq]
  cases hfind : b.mapFind orderId with
  | none => rfl
  | some p =>
    obtain ⟨-, -, hn, hid, -⟩ := h.indexed.mapFind_some h.store hfind
    simp only [Option.map_some]
    generalize (b.map p).node = n at *
    have hquantity : (b.nodes n).order.quantity = (b.nodes n).quantity := rfl
    rw [hquantity]
    split
    · rfl
    · rename_i hle
      have hlower : (let b₁ := b.setNode n { b.nodes n with quantity := newQuantity }
          b₁.setCell (b.nodes n).side (b.nodes n).slot
            { b₁.cells (b.nodes n).side (b.nodes n).slot with
              quantity := (b₁.cells (b.nodes n).side (b.nodes n).slot).quantity -
                ((b.nodes n).quantity - newQuantity).toUInt64 }) = b.lower n newQuantity := rfl
      dsimp only at hlower
      rw [hlower]
      have hframe := frame_lower b n newQuantity
      have horders := ordersOf_lower h.store.valid hn newQuantity
      refine ⟨rfl, ⟨h.store.lower hn hq hle, ⟨fun s => ?_, fun s => ?_⟩, ?_, ?_, ?_⟩, ?_⟩
      · rw [hframe.index, hframe.best, occupied_lower]
        exact h.touch.best s
      · rw [hframe.index, hframe.levels, occupied_lower]
        exact h.touch.counted s
      · refine h.indexed.congr hframe.map hframe.mapMask hframe.slab fun e => ?_
        have hid' : ∀ i, ((b.lower n newQuantity).nodes i).orderId = (b.nodes i).orderId := by
          intro i
          rw [nodes_lower]
          split
          · rename_i heq
            rw [heq]
          · rfl
        simp only [hid']
      · rw [hframe.slab]
        exact h.every
      · rw [hframe.live]
        exact h.live_eq
      · rw [horders, hid]

/-! ## Replacing -/

/-- What came of replacing an order of the book. -/
inductive Replaced (b : MboBook) (live free : List Nat) (orderId : UInt64) (o : RestingOrder)
    (price : Int64) (quantity : UInt32) : Except BookError Unit → MboBook → Prop
  | noSlot {e : BookError} : NoSlot b orderId price e →
      Replaced b live free orderId o price quantity (.error e) b
  | replaced {b' : MboBook} {n : Nat} : (∀ e, ¬NoSlot b orderId price e) → n ∈ live →
      Whole b' ((live.filter fun i => i ≠ n) ++ [n]) free →
      b'.ordersOf ((live.filter fun i => i ≠ n) ++ [n]) =
        Arrivals.without (b.ordersOf live) orderId ++
          [{ o with price := price, quantity := quantity }] →
      Replaced b live free orderId o price quantity (.ok ()) b'

/-- Node `n` has left its level and been given the terms of `o`, which is to rest at `slot`. -/
structure Renewed (b b₁ b₄ : MboBook) (live free : List Nat) (n slot : Nat) (o : RestingOrder) :
    Prop where
  store : Store b₄ (live.filter fun i => i ≠ n) free
  counted : Counted b₄
  order : (b₄.nodes n).order = o
  atSlot : (b₄.nodes n).slot = slot
  others : ∀ i ∈ live.filter fun i => i ≠ n, (b₄.nodes i).order = (b.nodes i).order
  index : b₄.index = b₁.index
  slab : b₄.slab = b.slab
  occupied : ∀ s, b₄.occupied s = (b₁.detach n).occupied s
  best : ∀ s, b₄.best s = b₁.best s
  map : SameMap b b₄

theorem Slotted.renewed {b b₁ : MboBook} {live free : List Nat} {n slot : Nat} {side : Side}
    {price : Int64} (hs : Slotted b b₁ live free price slot) (hn : n ∈ live)
    (hside : side = (b₁.nodes n).side) {emptied : Bool} (quantity : UInt32) {b₃ b₄ : MboBook}
    (hemptied : emptied = ((b₁.detach n).cells side (b₁.nodes n).slot).isEmpty)
    (hb₃ : b₃ = if emptied then (b₁.detach n).levelClosed side else b₁.detach n)
    (hb₄ : b₄ = b₃.setNode n { b₃.nodes n with
      price := price, quantity := quantity, slot := asU32 slot }) :
    Renewed b b₁ b₄ live free n slot
      { (b.nodes n).order with price := price, quantity := quantity } := by
  have hslot : asU32 slot = slot :=
    Nat.mod_eq_of_lt (Nat.lt_trans hs.slot_lt hs.store.capacity)
  have hdspec := detach_spec b₁ n
  -- the node leaves
  obtain ⟨hclosed, hclosedMap, hclosedBest⟩ := closed_same (b₁.detach n) side emptied
  rw [← hb₃] at hclosed hclosedMap hclosedBest
  have hcounted₃ : Counted b₃ := by
    subst hside
    rw [hb₃]
    exact hs.touch.closed hs.store hn hemptied hdspec.frame.index (fun _ => rfl) hdspec.frame.levels
  have hstore₃ := (hs.store.detach hn).sameStore hclosed
  have horder₃ : ∀ i ∈ live, (b₃.nodes i).order = (b.nodes i).order := by
    intro i hi
    rw [hclosed.nodes]
    exact (core_fields (hdspec.core i)).1.trans (hs.nodes i hi)
  -- its new terms
  have hnode : b₄.nodes n = { b₃.nodes n with price := price, quantity := quantity, slot := slot } := by
    rw [hb₄, nodes_setNode, if_pos rfl, hslot]
  have hframe₄ : Frame b₃ b₄ := by
    rw [hb₄]
    exact frame_setNode ..
  have hocc₄ : ∀ s, b₄.occupied s = (b₁.detach n).occupied s := by
    intro s
    funext i
    rw [MboBook.occupied, hb₄, cells_setNode, hclosed.cells, MboBook.occupied]
  have hmap₁ : SameMap b b₁ := ⟨hs.map, hs.mapMask, hs.live⟩
  refine
    { store := ?_
      counted := fun s => ?_
      order := ?_
      atSlot := by rw [hnode]
      others := fun i hi => ?_
      index := (hframe₄.index.trans hclosed.index).trans hdspec.frame.index
      slab := ?_
      occupied := hocc₄
      best := fun s => by rw [hframe₄.best, hclosedBest, hdspec.frame.best]
      map := ((hmap₁.trans hdspec.frame.sameMap).trans hclosedMap).trans hframe₄.sameMap }
  · rw [hb₄]
    exact hstore₃.setNode (notMem_filter hs.store hn) _
  · rw [hframe₄.levels, hcounted₃ s, hframe₄.index, hocc₄, hclosed.occupied]
  · rw [hnode, ← horder₃ n hn]
    rfl
  · obtain ⟨hi, hne⟩ := List.mem_filter.mp hi
    rw [hb₄, nodes_setNode, if_neg (of_decide_eq_true hne)]
    exact horder₃ i hi
  · rw [hframe₄.slab, hclosed.slab, hdspec.frame.slab, hs.slab]

section Moving

variable {b b₁ b₄ : MboBook} {live free : List Nat} {n slot : Nat} {o : RestingOrder}

theorem mem_back (hn : n ∈ live) (i : Nat) :
    i ∈ (live.filter fun i => i ≠ n) ++ [n] ↔ i ∈ live := by
  rw [List.mem_append, List.mem_filter, List.mem_singleton, decide_eq_true_eq]
  constructor
  · rintro (⟨hi, -⟩ | rfl)
    · exact hi
    · exact hn
  · intro hi
    by_cases heq : i = n
    · exact Or.inr heq
    · exact Or.inl ⟨hi, heq⟩

/-- The ids are found as before when a node goes to the back. -/
theorem Whole.indexed_back (h : Whole b live free) (hn : n ∈ live) {b' : MboBook}
    (hmap : SameMap b b') (hslab : b'.slab = b.slab)
    (hid : ∀ i ∈ live, (b'.nodes i).orderId = (b.nodes i).orderId) :
    Indexed b' ((live.filter fun i => i ≠ n) ++ [n]) := by
  refine h.indexed.congr hmap.map hmap.mapMask hslab fun e => ?_
  constructor
  · rintro ⟨i, hi, rfl⟩
    have hi' := (mem_back hn i).mp hi
    exact ⟨i, hi', by rw [hid i hi']⟩
  · rintro ⟨i, hi, rfl⟩
    exact ⟨i, (mem_back hn i).mpr hi, by rw [hid i hi]⟩

theorem Renewed.orders (hr : Renewed b b₁ b₄ live free n slot o) (h : Whole b live free)
    (hn : n ∈ live) : b₄.ordersOf ((live.filter fun i => i ≠ n) ++ [n]) =
      Arrivals.without (b.ordersOf live) (b.nodes n).orderId ++ [o] := by
  rw [ordersOf_append, hr.order, ordersOf_congr hr.others, h.store.ordersOf_filter hn]

/-- The caches after the node has joined its new level: they describe the book before the node left,
one slot is added to it, and the one it left is looked at again. -/
theorem Renewed.touch {side : Side} {price : Int64}
    (hr : Renewed b b₁ b₄ live free n slot o) (hs : Slotted b b₁ live free price slot)
    (hn : n ∈ live) (hside : side = (b₁.nodes n).side) (hside₄ : (b₄.nodes n).side = side)
    (hattached : Store (b₄.attach n) ((live.filter fun i => i ≠ n) ++ [n]) free)
    {emptied filled : Bool} {b₇ b' : MboBook}
    (hemptied : emptied = ((b₁.detach n).cells side (b₁.nodes n).slot).isEmpty)
    (hfilled : filled = (b₄.cells side slot).isEmpty)
    (hb₇ : b₇ = if filled then (b₄.attach n).levelOpened side else b₄.attach n)
    (hb' : b' = (b₇.noteOccupied side slot).rescanIfBest side (b₁.nodes n).slot emptied) :
    Touch b' := by
  have haspec := attach_spec b₄ n
  rw [hside₄, hr.atSlot] at haspec
  have hnow := hattached.occupied_attach
  rw [hside₄, hr.atSlot] at hnow
  have hcounted₇ : Counted b₇ := by
    rw [hb₇]
    refine hr.counted.opened haspec.frame.index haspec.frame.levels
      (by rw [hr.index]; exact hs.slot_lt) haspec.occupied hnow ?_
    rw [hfilled, MboBook.occupied, Bool.not_not]
  obtain ⟨hopened, -, hopenedBest⟩ := opened_same (b₄.attach n) side filled
  rw [← hb₇] at hopened hopenedBest
  obtain ⟨hnoted, -, hnotedLevels⟩ := noteOccupied_same b₇ side slot
  obtain ⟨hrescan, -, hrescanLevels⟩ :=
    rescanIfBest_same (b₇.noteOccupied side slot) side (b₁.nodes n).slot emptied
  rw [← hb'] at hrescan hrescanLevels
  have hindex₇ : b₇.index = b₁.index := (hopened.index.trans haspec.frame.index).trans hr.index
  have hocc₇ : ∀ s i, b₇.occupied s i =
      if side = s ∧ slot = i then true else (b₁.detach n).occupied s i := by
    intro s i
    rw [hopened.occupied]
    split
    · rename_i heq
      rw [← heq.1, ← heq.2]
      exact hnow
    · rename_i hne
      rw [haspec.occupied s i hne, hr.occupied]
  have hwas : b₁.occupied side (b₁.nodes n).slot = true := by
    rw [hside]
    exact hs.store.occupied_of_mem hn
  have hdocc : ∀ s i, ¬(side = s ∧ (b₁.nodes n).slot = i) →
      (b₁.detach n).occupied s i = b₁.occupied s i := by
    intro s i hne
    rw [hside] at hne
    exact (detach_spec b₁ n).occupied s i hne
  refine ⟨fun s => ?_, (hcounted₇.congr hnoted hnotedLevels).congr hrescan hrescanLevels⟩
  have hold : Best b₇ b₁.occupied := by
    intro s
    rw [hopenedBest, haspec.frame.best, hr.best, hindex₇]
    exact hs.touch.best s
  have hmid : Best (b₇.noteOccupied side slot) (withSlot b₁.occupied side slot) := by
    intro s
    rw [hnoted.index]
    exact hold.noteOccupied (by rw [hindex₇]; exact hs.slot_lt) s
  rw [hrescan.index, hrescan.occupied, hb']
  refine hmid.rescanIfBest (fun s i hne => ?_) (fun hkept => ?_) (fun _ => ?_) s
  · rw [hnoted.occupied, hocc₇, withSlot]
    by_cases heq : side = s ∧ slot = i
    · rw [if_pos heq, decide_eq_true heq, Bool.or_true]
    · rw [if_neg heq, decide_eq_false heq, Bool.or_false]
      exact hdocc s i hne
  · rw [hnoted.occupied, hocc₇, withSlot, hwas, Bool.true_or]
    split
    · rfl
    · rw [MboBook.occupied, ← hemptied, hkept]
      rfl
  · rw [withSlot, hwas, Bool.true_or]

end Moving

/-- A live node leaves its level, is given its new terms, and joins another level or the same one
again, at the back. -/
theorem Whole.move {b b₁ : MboBook} {live free : List Nat} {n slot : Nat} {side : Side}
    {price : Int64} {quantity : UInt32} (h : Whole b live free)
    (hs : Slotted b b₁ live free price slot) (hn : n ∈ live) (hq : quantity ≠ 0)
    (hside : side = (b₁.nodes n).side) {emptied filled : Bool} {b₃ b₄ b₇ b' : MboBook}
    (hemptied : emptied = ((b₁.detach n).cells side (b₁.nodes n).slot).isEmpty)
    (hb₃ : b₃ = if emptied then (b₁.detach n).levelClosed side else b₁.detach n)
    (hfilled : filled = (b₃.cells side slot).isEmpty)
    (hb₄ : b₄ = b₃.setNode n { b₃.nodes n with
      price := price, quantity := quantity, slot := asU32 slot })
    (hb₇ : b₇ = if filled then
      ((b₄.linkBack side slot n).tallyIn side slot quantity).levelOpened side
      else (b₄.linkBack side slot n).tallyIn side slot quantity)
    (hb' : b' = (b₇.noteOccupied side slot).rescanIfBest side (b₁.nodes n).slot emptied) :
    Whole b' ((live.filter fun i => i ≠ n) ++ [n]) free ∧
      b'.ordersOf ((live.filter fun i => i ≠ n) ++ [n]) =
        Arrivals.without (b.ordersOf live) (b.nodes n).orderId ++
          [{ (b.nodes n).order with price := price, quantity := quantity }] := by
  have hr := hs.renewed hn hside quantity hemptied hb₃ hb₄
  have hside₄ : (b₄.nodes n).side = side := by
    rw [hside]
    exact (congrArg RestingOrder.side hr.order).trans
      (congrArg RestingOrder.side (hs.nodes n hn)).symm
  have hprice : (b₄.nodes n).price = price := congrArg RestingOrder.price hr.order
  have hquantity : (b₄.nodes n).quantity = quantity := congrArg RestingOrder.quantity hr.order
  have hvalid : Arrivals.Valid (b₄.ordersOf ((live.filter fun i => i ≠ n) ++ [n])) := by
    rw [hr.orders h hn]
    refine (h.store.valid.without _).append ?_ hq
    rw [Arrivals.lookup_without]
    exact if_pos rfl
  have hattached := hr.store.attach (notMem_filter hs.store hn)
    (by rw [hr.slab, ← hs.slab]; exact hs.store.live_lt hn)
    (by rw [hr.atSlot, hr.index]; exact hs.slot_lt)
    (by rw [hr.atSlot, hr.index, hprice]; exact hs.onGrid) hvalid
  have hattach : (b₄.linkBack side slot n).tallyIn side slot quantity = b₄.attach n := by
    rw [attach, hside₄, hr.atSlot, hquantity]
  rw [hattach] at hb₇
  have hfilled₄ : filled = (b₄.cells side slot).isEmpty := by
    rw [hfilled, hb₄, cells_setNode]
  -- the bookkeeping after the node was linked, one step at a time
  have haspec := attach_spec b₄ n
  obtain ⟨hopened, hopenedMap, -⟩ := opened_same (b₄.attach n) side filled
  rw [← hb₇] at hopened hopenedMap
  obtain ⟨hnoted, hnotedMap, -⟩ := noteOccupied_same b₇ side slot
  obtain ⟨hrescan, hrescanMap, -⟩ :=
    rescanIfBest_same (b₇.noteOccupied side slot) side (b₁.nodes n).slot emptied
  rw [← hb'] at hrescan hrescanMap
  have hsame := (hopened.trans hnoted).trans hrescan
  have hmap : SameMap b b' := (((hr.map.trans haspec.frame.sameMap).trans hopenedMap).trans
    hnotedMap).trans hrescanMap
  have hslab' : b'.slab = b.slab := by
    rw [hsame.slab, haspec.frame.slab, hr.slab]
  have horder' : ∀ i, (b'.nodes i).order = (b₄.nodes i).order := by
    intro i
    rw [hsame.nodes]
    exact (core_fields (haspec.core i)).1
  have hid' : ∀ i ∈ live, (b'.nodes i).orderId = (b.nodes i).orderId := by
    intro i hi
    by_cases heq : i = n
    · rw [heq]
      exact congrArg RestingOrder.orderId ((horder' n).trans hr.order)
    · have hmem : i ∈ live.filter fun i => i ≠ n := List.mem_filter.mpr ⟨hi, decide_eq_true heq⟩
      exact congrArg RestingOrder.orderId ((horder' i).trans (hr.others i hmem))
  refine ⟨⟨hattached.sameStore hsame,
    hr.touch hs hn hside hside₄ hattached hemptied hfilled₄ hb₇ hb',
    h.indexed_back hn hmap hslab' hid', fun i hi => ?_, ?_⟩, ?_⟩
  · rw [hslab'] at hi
    rw [List.mem_append, mem_back hn]
    exact List.mem_append.mp (h.every i hi)
  · rw [hmap.live, h.live_eq, List.length_append, List.length_singleton,
      h.store.length_filter hn]
  · rw [ordersOf_congr fun i _ => horder' i, hr.orders h hn]

/-- **Replacing an order.** -/
theorem Whole.replace {b : MboBook} {live free : List Nat} (h : Whole b live free)
    (orderId : UInt64) {newPrice : Int64} {newQuantity : UInt32} (hq : newQuantity ≠ 0)
    (hexact : b.index.Exact newPrice b.keptPrices) :
    match Arrivals.lookup (b.ordersOf live) orderId with
    | none => b.replace orderId newPrice newQuantity = (.error (.unknownOrderId orderId), b)
    | some o => Replaced b live free orderId o newPrice newQuantity
        (b.replace orderId newPrice newQuantity).1 (b.replace orderId newPrice newQuantity).2 := by
  have hget := h.indexed.get_eq h.store orderId
  rw [← hget]
  unfold MboBook.get MboBook.replace
  rw [if_neg hq]
  cases hfind : b.mapFind orderId with
  | none => rfl
  | some p =>
    obtain ⟨-, -, hn, hid, -⟩ := h.indexed.mapFind_some h.store hfind
    simp only [Option.map_some]
    generalize (b.map p).node = n at *
    rcases h.store.slotFor h.touch hexact orderId with ⟨slot, b₁, hslotted, hs⟩ | ⟨e, herror, hno⟩
    · have hslots : ∀ e, ¬NoSlot b orderId newPrice e := by
        intro e hno
        have herror := hno.error
        rw [hslotted] at herror
        cases herror
      rw [hslotted]
      have horder := hs.nodes n hn
      have hside : (b.nodes n).side = (b₁.nodes n).side :=
        (congrArg RestingOrder.side horder).symm
      have hquantity : (b.nodes n).quantity = (b₁.nodes n).quantity :=
        (congrArg RestingOrder.quantity horder).symm
      have hdetach : (b₁.unlink (b.nodes n).side (b₁.nodes n).slot n).tallyOut (b.nodes n).side
          (b₁.nodes n).slot (b.nodes n).quantity = b₁.detach n := by
        rw [hside, hquantity]
        rfl
      dsimp only
      rw [hdetach]
      obtain ⟨hwhole, horders⟩ := h.move hs hn hq hside rfl rfl rfl rfl rfl rfl
      rw [hid] at horders
      exact .replaced hslots hn hwhole horders
    · rw [herror]
      exact .noSlot hno

end MboBook

end MarketData.Book
