import MarketData.Book.Mbo
import MarketData.Book.Arrivals
import MarketData.Lib.Chain

/-!
# `Book/MboStore.lean` — the slab, its free list and the level queues

`Store` relates a book to two lists of nodes: the live ones in the order of their arrival, and
the free ones in the order they will be handed out. The queue of a level is then the live nodes
that record it, and the cell of the level gives access to exactly that queue, with its count and
its total. A node in neither list is in hand: `takeNode` and `detach` put one there, `attach` and
`giveNode` take it away again, and every operation is made of these.

## Nodes in hand

The source never has a node on two lists, but in the middle of an operation it has one on none.
Stating the invariant for a live list **and** a free list that need not cover the slab lets each of
the four primitive moves be one lemma, with the invariant before and after it, and an operation is
then a chain of two or three of them: `add` is `takeNode` and `attach`, `delete` is `detach` and
`giveNode`, `replace` is `detach` and `attach` with the price changed in between.

## Threads and cores

A node is its links and its core. Linking at the back of one queue writes three nodes, and all but
the links of those is unchanged; `Threaded` collects what one such operation writes, so that a claim
about any other queue, or about the order a node carries, does not look inside it. That queues are
disjoint is not a field of the invariant: they are filters of one list by the slot a node records.

Aggregates are sums of machine words and wrap like the cells they describe. Nothing here says that a
level's total is what its orders come to as naturals.
-/

set_option autoImplicit false

namespace MarketData.Book

open MarketData.Wire (Side)
open MarketData.Chain

namespace MboBook

/-! ## Frames -/

def levels (b : MboBook) : Side → UInt32
  | .bid => b.bidLevels
  | .ask => b.askLevels

/-- What the level queues do not touch. -/
structure Frame (b b' : MboBook) : Prop where
  index : b'.index = b.index
  slab : b'.slab = b.slab
  freeHead : b'.freeHead = b.freeHead
  map : b'.map = b.map
  mapMask : b'.mapMask = b.mapMask
  live : b'.live = b.live
  best : ∀ s, b'.best s = b.best s
  levels : ∀ s, b'.levels s = b.levels s

theorem Frame.refl (b : MboBook) : Frame b b :=
  ⟨rfl, rfl, rfl, rfl, rfl, rfl, fun _ => rfl, fun _ => rfl⟩

theorem Frame.trans {b b' b'' : MboBook} (h : Frame b b') (h' : Frame b' b'') : Frame b b'' :=
  ⟨h'.index.trans h.index, h'.slab.trans h.slab, h'.freeHead.trans h.freeHead,
    h'.map.trans h.map, h'.mapMask.trans h.mapMask, h'.live.trans h.live,
    fun s => (h'.best s).trans (h.best s), fun s => (h'.levels s).trans (h.levels s)⟩

theorem frame_setCell (b : MboBook) (s : Side) (slot : Nat) (c : LevelCell) :
    Frame b (b.setCell s slot c) := by
  cases s <;> exact ⟨rfl, rfl, rfl, rfl, rfl, rfl, fun s => by cases s <;> rfl,
    fun s => by cases s <;> rfl⟩

theorem frame_setNode (b : MboBook) (i : Nat) (n : Node) : Frame b (b.setNode i n) :=
  ⟨rfl, rfl, rfl, rfl, rfl, rfl, fun s => by cases s <;> rfl, fun s => by cases s <;> rfl⟩

theorem cells_setCell (b : MboBook) (s s' : Side) (slot slot' : Nat) (c : LevelCell) :
    (b.setCell s slot c).cells s' slot' =
      if s = s' ∧ slot = slot' then c else b.cells s' slot' := by
  cases s <;> cases s' <;>
    simp only [setCell, cells, Function.update_apply, true_and, false_and, if_false, reduceCtorEq,
      eq_comm]

@[simp] theorem nodes_setCell (b : MboBook) (s : Side) (slot : Nat) (c : LevelCell) :
    (b.setCell s slot c).nodes = b.nodes := by
  cases s <;> rfl

@[simp] theorem cells_setNode (b : MboBook) (i : Nat) (n : Node) (s : Side) :
    (b.setNode i n).cells s = b.cells s := by
  cases s <;> rfl

theorem nodes_setNode (b : MboBook) (i j : Nat) (n : Node) :
    (b.setNode i n).nodes j = if j = i then n else b.nodes j :=
  Function.update_apply ..

@[simp] theorem cells_setNext (b : MboBook) (i next : Nat) (s : Side) :
    (b.setNext i next).cells s = b.cells s := cells_setNode ..

@[simp] theorem cells_setPrev (b : MboBook) (i prev : Nat) (s : Side) :
    (b.setPrev i prev).cells s = b.cells s := cells_setNode ..

/-! ## Threads -/

def nextOf (b : MboBook) (i : Nat) : Nat := (b.nodes i).next

def prevOf (b : MboBook) (i : Nat) : Nat := (b.nodes i).prev

/-- A node without its place in a queue. -/
def core (b : MboBook) (i : Nat) : Node := { b.nodes i with next := nil, prev := nil }

section Threads

variable (b : MboBook) (i v j : Nat)

theorem nextOf_setNext : (b.setNext i v).nextOf j = if j = i then v else b.nextOf j := by
  simp only [nextOf, setNext, nodes_setNode]
  split <;> rfl

theorem prevOf_setNext : (b.setNext i v).prevOf j = b.prevOf j := by
  simp only [prevOf, setNext, nodes_setNode]
  split
  · rename_i h
    rw [h]
  · rfl

theorem nextOf_setPrev : (b.setPrev i v).nextOf j = b.nextOf j := by
  simp only [nextOf, setPrev, nodes_setNode]
  split
  · rename_i h
    rw [h]
  · rfl

theorem prevOf_setPrev : (b.setPrev i v).prevOf j = if j = i then v else b.prevOf j := by
  simp only [prevOf, setPrev, nodes_setNode]
  split <;> rfl

theorem core_setNext : (b.setNext i v).core j = b.core j := by
  simp only [core, setNext, nodes_setNode]
  split
  · rename_i h
    rw [h]
  · rfl

theorem core_setPrev : (b.setPrev i v).core j = b.core j := by
  simp only [core, setPrev, nodes_setNode]
  split
  · rename_i h
    rw [h]
  · rfl

theorem nextOf_setCell (s : Side) (slot : Nat) (c : LevelCell) :
    (b.setCell s slot c).nextOf j = b.nextOf j := by
  rw [nextOf, nodes_setCell, nextOf]

theorem prevOf_setCell (s : Side) (slot : Nat) (c : LevelCell) :
    (b.setCell s slot c).prevOf j = b.prevOf j := by
  rw [prevOf, nodes_setCell, prevOf]

theorem core_setCell (s : Side) (slot : Nat) (c : LevelCell) :
    (b.setCell s slot c).core j = b.core j := by
  rw [core, nodes_setCell, core]

end Threads

/-! ## What linking and unlinking write -/

/-- One operation on a level queue: the threads it redirects and the cell it writes. -/
structure Threaded (b b' : MboBook) (s : Side) (slot : Nat) (next prev : Nat → Nat)
    (cell : LevelCell) : Prop where
  frame : Frame b b'
  core : ∀ j, b'.core j = b.core j
  next : ∀ j, b'.nextOf j = next j
  prev : ∀ j, b'.prevOf j = prev j
  cells : ∀ s' slot', b'.cells s' slot' = if s = s' ∧ slot = slot' then cell else b.cells s' slot'

theorem linkBack_spec (b : MboBook) (s : Side) (slot node : Nat) :
    Threaded b (b.linkBack s slot node) s slot
      (fun j => if j = node then nil
        else if (b.cells s slot).tail ≠ nil ∧ j = (b.cells s slot).tail then node else b.nextOf j)
      (fun j => if j = node then (b.cells s slot).tail else b.prevOf j)
      { b.cells s slot with
        head := if (b.cells s slot).tail = nil then node else (b.cells s slot).head
        tail := node } := by
  unfold linkBack
  dsimp only
  by_cases htail : (b.cells s slot).tail = nil
  · rw [if_pos htail, if_pos htail]
    refine ⟨?_, fun j => ?_, fun j => ?_, fun j => ?_, fun s' slot' => ?_⟩
    · exact ((frame_setCell ..).trans (frame_setNode ..)).trans (frame_setNode ..)
    · rw [core_setNext, core_setPrev, core_setCell]
    · rw [nextOf_setNext, nextOf_setPrev, nextOf_setCell]
      simp only [htail, ne_eq, not_true_eq_false, false_and, if_false]
    · rw [prevOf_setNext, prevOf_setPrev, prevOf_setCell, htail]
    · rw [cells_setNext, cells_setPrev, cells_setCell]
  · rw [if_neg htail, if_neg htail]
    refine ⟨?_, fun j => ?_, fun j => ?_, fun j => ?_, fun s' slot' => ?_⟩
    · exact (((frame_setCell ..).trans (frame_setNode ..)).trans (frame_setNode ..)).trans
        (frame_setNode ..)
    · rw [core_setNext, core_setPrev, core_setNext, core_setCell]
    · rw [nextOf_setNext, nextOf_setPrev, nextOf_setNext, nextOf_setCell]
      simp only [ne_eq, htail, not_false_eq_true, true_and]
    · rw [prevOf_setNext, prevOf_setPrev, prevOf_setNext, prevOf_setCell]
    · rw [cells_setNext, cells_setPrev, cells_setNext, cells_setCell]

/-- A neighbour is redirected where there is one. -/
theorem setNext_unless_nil {b b' : MboBook} {i v : Nat}
    (h : (if i ≠ nil then b.setNext i v else b) = b') :
    Frame b b' ∧ (∀ j, b'.core j = b.core j) ∧ (∀ j, b'.prevOf j = b.prevOf j) ∧
    (∀ j, b'.nextOf j = if i ≠ nil ∧ j = i then v else b.nextOf j) ∧
    ∀ s, b'.cells s = b.cells s := by
  subst h
  split
  · rename_i hi
    refine ⟨frame_setNode .., fun j => core_setNext .., fun j => prevOf_setNext .., fun j => ?_,
      fun s => cells_setNext ..⟩
    simp only [nextOf_setNext, hi, ne_eq, not_false_eq_true, true_and]
  · rename_i hi
    exact ⟨Frame.refl b, fun _ => rfl, fun _ => rfl, fun j => by rw [if_neg (fun h => hi h.1)],
      fun _ => rfl⟩

theorem setPrev_unless_nil {b b' : MboBook} {i v : Nat}
    (h : (if i ≠ nil then b.setPrev i v else b) = b') :
    Frame b b' ∧ (∀ j, b'.core j = b.core j) ∧ (∀ j, b'.nextOf j = b.nextOf j) ∧
    (∀ j, b'.prevOf j = if i ≠ nil ∧ j = i then v else b.prevOf j) ∧
    ∀ s, b'.cells s = b.cells s := by
  subst h
  split
  · rename_i hi
    refine ⟨frame_setNode .., fun j => core_setPrev .., fun j => nextOf_setPrev .., fun j => ?_,
      fun s => cells_setPrev ..⟩
    simp only [prevOf_setPrev, hi, ne_eq, not_false_eq_true, true_and]
  · rename_i hi
    exact ⟨Frame.refl b, fun _ => rfl, fun _ => rfl, fun j => by rw [if_neg (fun h => hi h.1)],
      fun _ => rfl⟩

theorem unlink_spec (b : MboBook) (s : Side) (slot node : Nat) :
    Threaded b (b.unlink s slot node) s slot
      (fun j => if j = node then nil
        else if b.prevOf node ≠ nil ∧ j = b.prevOf node then b.nextOf node else b.nextOf j)
      (fun j => if j = node then nil
        else if b.nextOf node ≠ nil ∧ j = b.nextOf node then b.prevOf node else b.prevOf j)
      { b.cells s slot with
        head := if (b.cells s slot).head = node then b.nextOf node else (b.cells s slot).head
        tail := if (b.cells s slot).tail = node then b.prevOf node else (b.cells s slot).tail } := by
  unfold unlink
  dsimp only
  generalize hb₁ : (if (b.nodes node).prev ≠ nil then b.setNext (b.nodes node).prev
    (b.nodes node).next else b) = b₁
  generalize hb₂ : (if (b.nodes node).next ≠ nil then b₁.setPrev (b.nodes node).next
    (b.nodes node).prev else b₁) = b₂
  obtain ⟨hframe₁, hcore₁, hprev₁, hnext₁, hcells₁⟩ := setNext_unless_nil hb₁
  obtain ⟨hframe₂, hcore₂, hnext₂, hprev₂, hcells₂⟩ := setPrev_unless_nil hb₂
  refine ⟨?_, fun j => ?_, fun j => ?_, fun j => ?_, fun s' slot' => ?_⟩
  · exact (((hframe₁.trans hframe₂).trans (frame_setCell ..)).trans (frame_setNode ..)).trans
      (frame_setNode ..)
  · rw [core_setNext, core_setPrev, core_setCell, hcore₂, hcore₁]
  · rw [nextOf_setNext, nextOf_setPrev, nextOf_setCell, hnext₂, hnext₁]
    rfl
  · rw [prevOf_setNext, prevOf_setPrev, prevOf_setCell, hprev₂, hprev₁]
    rfl
  · rw [cells_setNext, cells_setPrev, cells_setCell, hcells₂, hcells₂, hcells₁, hcells₁]
    congr 1
    unfold nextOf prevOf
    split <;> split <;> rfl

/-! ## The store -/

/-- What the nodes of a queue come to. -/
def total (b : MboBook) (q : List Nat) : UInt64 :=
  (q.map fun i => (b.nodes i).quantity.toUInt64).foldl (· + ·) 0

/-- The live nodes of one level, oldest first. -/
def queueAt (b : MboBook) (live : List Nat) (s : Side) (slot : Nat) : List Nat :=
  live.filter fun i => (b.nodes i).side = s ∧ (b.nodes i).slot = slot

/-- The cell gives access to the queue, its length and its total. -/
structure CellOf (b : MboBook) (cell : LevelCell) (q : List Nat) : Prop where
  queue : Queue b.nextOf b.prevOf nil cell.head cell.tail q
  orders : cell.orders = UInt32.ofNat q.length
  quantity : cell.quantity = b.total q

def ordersOf (b : MboBook) (live : List Nat) : List RestingOrder :=
  live.map fun i => (b.nodes i).order

/-- **The store**: which nodes are live, which are free, and where the live ones rest. -/
structure Store (b : MboBook) (live free : List Nat) : Prop where
  sane : b.index.Sane
  capacity : b.index.capacity < 2 ^ 32
  slab : b.slab < 2 ^ 32
  nodup : (live ++ free).Nodup
  bounded : ∀ i ∈ live ++ free, i < b.slab
  stack : Stack b.nextOf nil b.freeHead free
  valid : Arrivals.Valid (b.ordersOf live)
  slots : ∀ i ∈ live, (b.nodes i).slot < b.index.capacity
  prices : ∀ i ∈ live, b.index.OnGrid (b.nodes i).price (b.nodes i).slot
  cells : ∀ s, ∀ slot < b.index.capacity, CellOf b (b.cells s slot) (b.queueAt live s slot)

section Congruence

variable {b b' : MboBook} {live : List Nat}

theorem core_fields {i : Nat} (h : b'.core i = b.core i) :
    (b'.nodes i).order = (b.nodes i).order ∧ (b'.nodes i).slot = (b.nodes i).slot := by
  simp only [core, Node.mk.injEq] at h
  obtain ⟨hid, hprice, hquantity, hside, hslot, -⟩ := h
  refine ⟨?_, hslot⟩
  rw [Node.order, Node.order, hid, hprice, hquantity, hside]

theorem mem_queueAt {s : Side} {slot i : Nat} :
    i ∈ b.queueAt live s slot ↔ i ∈ live ∧ (b.nodes i).side = s ∧ (b.nodes i).slot = slot := by
  rw [queueAt, List.mem_filter, decide_eq_true_iff]

theorem total_congr {q : List Nat} (h : ∀ i ∈ q, (b'.nodes i).order = (b.nodes i).order) :
    b'.total q = b.total q := by
  unfold total
  congr 1
  apply List.map_congr_left
  intro i hi
  exact congrArg (fun o => o.quantity.toUInt64) (h i hi)

theorem queueAt_congr (h : ∀ i ∈ live, b'.core i = b.core i) (s : Side) (slot : Nat) :
    b'.queueAt live s slot = b.queueAt live s slot := by
  apply List.filter_congr
  intro i hi
  obtain ⟨horder, hslot⟩ := core_fields (h i hi)
  have hside : (b'.nodes i).side = (b.nodes i).side := congrArg RestingOrder.side horder
  rw [hside, hslot]

theorem ordersOf_congr (h : ∀ i ∈ live, (b'.nodes i).order = (b.nodes i).order) :
    b'.ordersOf live = b.ordersOf live :=
  List.map_congr_left h

theorem CellOf.congr {cell : LevelCell} {q : List Nat} (h : CellOf b cell q)
    (horder : ∀ i ∈ q, (b'.nodes i).order = (b.nodes i).order)
    (hnext : ∀ i ∈ q, b'.nextOf i = b.nextOf i) (hprev : ∀ i ∈ q, b'.prevOf i = b.prevOf i) :
    CellOf b' cell q := by
  refine ⟨h.queue.congr hnext hprev, h.orders, ?_⟩
  rw [total_congr horder]
  exact h.quantity

end Congruence

section Totals

variable (b : MboBook) (q : List Nat) (n : Nat)

theorem foldl_add_start (l : List UInt64) (a : UInt64) : l.foldl (· + ·) a = a + l.foldl (· + ·) 0 := by
  induction l generalizing a with
  | nil => exact (UInt64.add_zero a).symm
  | cons x xs ih =>
    rw [List.foldl_cons, List.foldl_cons, ih, ih (0 + x), UInt64.zero_add, UInt64.add_assoc]

theorem total_append : b.total (q ++ [n]) = b.total q + (b.nodes n).quantity.toUInt64 := by
  rw [total, List.map_append, List.foldl_append]
  rfl

theorem total_cons : b.total (n :: q) = (b.nodes n).quantity.toUInt64 + b.total q := by
  rw [total, List.map_cons, List.foldl_cons, foldl_add_start, UInt64.zero_add]
  rfl

theorem total_perm {q q' : List Nat} (h : q.Perm q') : b.total q = b.total q' := by
  have hcomm : RightCommutative fun a c : UInt64 => a + c :=
    ⟨fun a c d => by rw [UInt64.add_assoc, UInt64.add_assoc, UInt64.add_comm c d]⟩
  exact (h.map _).foldl_eq 0

/-- A queue, up to order, with one of its nodes in front. -/
theorem perm_cons_filter {q : List Nat} {n : Nat} (hnodup : q.Nodup) (hn : n ∈ q) :
    q.Perm (n :: q.filter fun x => x ≠ n) := by
  have herase : q.erase n = q.filter fun x => x ≠ n := by
    rw [hnodup.erase_eq_filter]
    apply List.filter_congr
    intro x _
    by_cases heq : x = n <;> simp [heq]
  rw [← herase]
  exact List.perm_cons_erase hn

end Totals

/-! ## Nodes in hand -/

/-- Links a node at the back of the level it records, and counts it there. -/
def attach (b : MboBook) (n : Nat) : MboBook :=
  (b.linkBack (b.nodes n).side (b.nodes n).slot n).tallyIn (b.nodes n).side (b.nodes n).slot
    (b.nodes n).quantity

/-- Unlinks a node from the level it records, and counts it out. -/
def detach (b : MboBook) (n : Nat) : MboBook :=
  (b.unlink (b.nodes n).side (b.nodes n).slot n).tallyOut (b.nodes n).side (b.nodes n).slot
    (b.nodes n).quantity

/-- An operation on a level queue and its counts. -/
theorem Threaded.setCell {b b' : MboBook} {s : Side} {slot : Nat} {next prev : Nat → Nat}
    {cell : LevelCell} (h : Threaded b b' s slot next prev cell) (c : LevelCell) :
    Threaded b (b'.setCell s slot c) s slot next prev c := by
  refine ⟨h.frame.trans (frame_setCell ..), fun j => ?_, fun j => ?_, fun j => ?_,
    fun s' slot' => ?_⟩
  · rw [core_setCell, h.core]
  · rw [nextOf_setCell, h.next]
  · rw [prevOf_setCell, h.prev]
  · rw [cells_setCell, h.cells]
    split <;> rfl

theorem attach_spec (b : MboBook) (n : Nat) :
    let cell := b.cells (b.nodes n).side (b.nodes n).slot
    Threaded b (b.attach n) (b.nodes n).side (b.nodes n).slot
      (fun j => if j = n then nil else if cell.tail ≠ nil ∧ j = cell.tail then n else b.nextOf j)
      (fun j => if j = n then cell.tail else b.prevOf j)
      { quantity := cell.quantity + (b.nodes n).quantity.toUInt64
        orders := cell.orders + 1
        head := if cell.tail = nil then n else cell.head
        tail := n } := by
  intro cell
  have hlink := linkBack_spec b (b.nodes n).side (b.nodes n).slot n
  have hcell := hlink.cells (b.nodes n).side (b.nodes n).slot
  rw [if_pos ⟨rfl, rfl⟩] at hcell
  unfold attach tallyIn
  dsimp only
  rw [hcell]
  exact hlink.setCell _

theorem detach_spec (b : MboBook) (n : Nat) :
    let cell := b.cells (b.nodes n).side (b.nodes n).slot
    Threaded b (b.detach n) (b.nodes n).side (b.nodes n).slot
      (fun j => if j = n then nil
        else if b.prevOf n ≠ nil ∧ j = b.prevOf n then b.nextOf n else b.nextOf j)
      (fun j => if j = n then nil
        else if b.nextOf n ≠ nil ∧ j = b.nextOf n then b.prevOf n else b.prevOf j)
      { quantity := cell.quantity - (b.nodes n).quantity.toUInt64
        orders := cell.orders - 1
        head := if cell.head = n then b.nextOf n else cell.head
        tail := if cell.tail = n then b.prevOf n else cell.tail } := by
  intro cell
  have hunlink := unlink_spec b (b.nodes n).side (b.nodes n).slot n
  have hcell := hunlink.cells (b.nodes n).side (b.nodes n).slot
  rw [if_pos ⟨rfl, rfl⟩] at hcell
  unfold detach tallyOut
  dsimp only
  rw [hcell]
  exact hunlink.setCell _

namespace Store

variable {b : MboBook} {live free : List Nat} {n : Nat}

theorem live_lt (h : Store b live free) (hn : n ∈ live) : n < b.slab :=
  h.bounded n (List.mem_append_left _ hn)

theorem live_ne_nil (h : Store b live free) (hn : n ∈ live) : n ≠ nil := by
  have hlt := h.live_lt hn
  have hslab := h.slab
  unfold nil
  omega

theorem free_not_live (h : Store b live free) (hn : n ∈ free) : n ∉ live := fun hlive =>
  (List.nodup_append.mp h.nodup).2.2 n hlive n hn rfl

theorem length_live_le (h : Store b live free) : live.length ≤ b.slab := by
  have hsub : live ⊆ List.range b.slab := fun i hi => List.mem_range.mpr (h.live_lt hi)
  have hle := (List.subperm_of_subset (List.nodup_append.mp h.nodup).1 hsub).length_le
  rw [List.length_range] at hle
  exact hle

theorem nodup_queueAt (h : Store b live free) (s : Side) (slot : Nat) :
    (b.queueAt live s slot).Nodup :=
  (List.nodup_append.mp h.nodup).1.filter _

theorem nil_notMem_queueAt (h : Store b live free) (s : Side) (slot : Nat) :
    nil ∉ b.queueAt live s slot := fun hmem => h.live_ne_nil (mem_queueAt.mp hmem).1 rfl

theorem tail_mem (h : Store b live free) {s : Side} {slot : Nat} (hslot : slot < b.index.capacity)
    (hne : (b.cells s slot).tail ≠ nil) : (b.cells s slot).tail ∈ b.queueAt live s slot := by
  have htail := (h.cells s slot hslot).queue.tail_eq
  rw [htail] at hne ⊢
  exact getLastD_mem hne

/-- Nothing the store is about has changed, but for the free list. -/
theorem relist {b' : MboBook} {free' : List Nat} (h : Store b live free)
    (hindex : b'.index = b.index) (hslab : b'.slab = b.slab) (hnodes : b'.nodes = b.nodes)
    (hcells : ∀ s, b'.cells s = b.cells s) (hnodup : (live ++ free').Nodup)
    (hbounded : ∀ i ∈ live ++ free', i < b.slab) (hstack : Stack b.nextOf nil b'.freeHead free') :
    Store b' live free' := by
  have hnext : b'.nextOf = b.nextOf := by
    funext i
    rw [nextOf, hnodes, nextOf]
  have hcore : ∀ i, b'.core i = b.core i := by
    intro i
    rw [core, hnodes, core]
  have horder : ∀ i, (b'.nodes i).order = (b.nodes i).order := fun i => (core_fields (hcore i)).1
  constructor
  · rw [hindex]
    exact h.sane
  · rw [hindex]
    exact h.capacity
  · rw [hslab]
    exact h.slab
  · exact hnodup
  · rw [hslab]
    exact hbounded
  · rw [hnext]
    exact hstack
  · rw [ordersOf_congr fun i _ => horder i]
    exact h.valid
  · rw [hindex, hnodes]
    exact h.slots
  · rw [hindex, hnodes]
    exact h.prices
  · intro s slot hslot
    rw [hindex] at hslot
    rw [hcells, queueAt_congr fun i _ => hcore i]
    refine (h.cells s slot hslot).congr (fun i _ => horder i) (fun i _ => ?_) (fun i _ => ?_)
    · rw [hnext]
    · rw [prevOf, hnodes, prevOf]

/-- Nothing the store is about has changed. -/
theorem same {b' : MboBook} (h : Store b live free)
    (hindex : b'.index = b.index) (hslab : b'.slab = b.slab) (hnodes : b'.nodes = b.nodes)
    (hcells : ∀ s, b'.cells s = b.cells s) (hfree : b'.freeHead = b.freeHead) :
    Store b' live free :=
  h.relist hindex hslab hnodes hcells h.nodup h.bounded (by rw [hfree]; exact h.stack)

/-- A node in hand may be written to. -/
theorem setNode (h : Store b live free) (hn : n ∉ live ++ free) (x : Node) :
    Store (b.setNode n x) live free := by
  have hother : ∀ i ∈ live ++ free, (b.setNode n x).nodes i = b.nodes i := by
    intro i hi
    rw [nodes_setNode, if_neg]
    rintro rfl
    exact hn hi
  have hlive : ∀ i ∈ live, (b.setNode n x).nodes i = b.nodes i := fun i hi =>
    hother i (List.mem_append_left _ hi)
  have hcore : ∀ i ∈ live, (b.setNode n x).core i = b.core i := by
    intro i hi
    rw [core, hlive i hi, core]
  refine ⟨h.sane, h.capacity, h.slab, h.nodup, h.bounded, h.stack.congr fun i hi => ?_, ?_, ?_, ?_,
    ?_⟩
  · rw [nextOf, hother i (List.mem_append_right _ hi), nextOf]
  · rw [ordersOf_congr fun i hi => congrArg Node.order (hlive i hi)]
    exact h.valid
  · intro i hi
    rw [hlive i hi]
    exact h.slots i hi
  · intro i hi
    rw [hlive i hi]
    exact h.prices i hi
  · intro s slot hslot
    rw [queueAt_congr hcore, cells_setNode]
    refine (h.cells s slot hslot).congr ?_ ?_ ?_
    · exact fun i hi => congrArg Node.order (hlive i (mem_queueAt.mp hi).1)
    · exact fun i hi => congrArg Node.next (hlive i (mem_queueAt.mp hi).1)
    · exact fun i hi => congrArg Node.prev (hlive i (mem_queueAt.mp hi).1)

/-- **A node is taken off the free list**, where there is one. -/
theorem takeNode (h : Store b live free) (orderId : UInt64) :
    match free with
    | [] => b.takeNode orderId = (.error (.slabFull orderId b.slab), b)
    | n :: free' => b.takeNode orderId = (.ok n, { b with freeHead := b.nextOf n }) ∧
        Store { b with freeHead := b.nextOf n } live free' ∧ n ∉ live ++ free' ∧ n < b.slab := by
  cases free with
  | nil =>
    have hhead : b.freeHead = nil := h.stack
    exact if_pos hhead
  | cons n free' =>
    obtain ⟨hhead, hstack⟩ := h.stack
    have hlt : n < b.slab := h.bounded n (List.mem_append_right _ List.mem_cons_self)
    have hperm : (live ++ n :: free').Perm (n :: (live ++ free')) := List.perm_middle
    have hnodup := List.nodup_cons.mp (hperm.nodup_iff.mp h.nodup)
    refine ⟨?_, h.relist rfl rfl rfl (fun s => by cases s <;> rfl) hnodup.2 (fun i hi => ?_) hstack,
      hnodup.1, hlt⟩
    · have hne : b.freeHead ≠ nil := by
        have hslab := h.slab
        rw [hhead, nil]
        omega
      rw [MboBook.takeNode, if_neg hne, hhead]
      rfl
    · exact h.bounded i (hperm.mem_iff.mpr (List.mem_cons_of_mem _ hi))

/-- **A node in hand goes back on the free list.** -/
theorem giveNode (h : Store b live free) (hn : n ∉ live ++ free) (hlt : n < b.slab) :
    Store (b.giveNode n) live (n :: free) := by
  have hperm : (live ++ n :: free).Perm (n :: (live ++ free)) := List.perm_middle
  have hset := h.setNode hn { next := b.freeHead }
  refine hset.relist rfl rfl rfl (fun s => by cases s <;> rfl) ?_ (fun i hi => ?_) ⟨rfl, ?_⟩
  · exact hperm.nodup_iff.mpr (List.nodup_cons.mpr ⟨hn, h.nodup⟩)
  · cases List.mem_cons.mp (hperm.mem_iff.mp hi) with
    | inl heq => rw [heq]; exact hlt
    | inr hmem => exact h.bounded i hmem
  · have hnext : (b.setNode n { next := b.freeHead }).nextOf n = b.freeHead := by
      rw [nextOf, nodes_setNode, if_pos rfl]
    rw [hnext]
    exact hset.stack

/-- The parts of the store an operation on a level queue leaves alone. -/
theorem threaded {b' : MboBook} {s : Side} {slot : Nat} {next prev : Nat → Nat} {cell : LevelCell}
    {live' : List Nat} (h : Store b live free) (ht : Threaded b b' s slot next prev cell)
    (hfree : ∀ i ∈ free, next i = b.nextOf i) (hnodup : (live' ++ free).Nodup)
    (hbounded : ∀ i ∈ live' ++ free, i < b.slab) (hvalid : Arrivals.Valid (b.ordersOf live'))
    (hslots : ∀ i ∈ live', (b.nodes i).slot < b.index.capacity)
    (hprices : ∀ i ∈ live', b.index.OnGrid (b.nodes i).price (b.nodes i).slot)
    (hcell : CellOf b' cell (b.queueAt live' s slot))
    (hcells : ∀ s' slot', ¬(s = s' ∧ slot = slot') → slot' < b.index.capacity →
      b.queueAt live' s' slot' = b.queueAt live s' slot' ∧
      ∀ i ∈ b.queueAt live s' slot', next i = b.nextOf i ∧ prev i = b.prevOf i) :
    Store b' live' free := by
  have hcore : ∀ i, b'.core i = b.core i := ht.core
  have horder : ∀ i, (b'.nodes i).order = (b.nodes i).order := fun i => (core_fields (hcore i)).1
  constructor
  · rw [ht.frame.index]
    exact h.sane
  · rw [ht.frame.index]
    exact h.capacity
  · rw [ht.frame.slab]
    exact h.slab
  · exact hnodup
  · rw [ht.frame.slab]
    exact hbounded
  · rw [ht.frame.freeHead]
    exact h.stack.congr fun i hi => (ht.next i).trans (hfree i hi)
  · rw [ordersOf_congr fun i _ => horder i]
    exact hvalid
  · intro i hi
    rw [ht.frame.index, (core_fields (hcore i)).2]
    exact hslots i hi
  · intro i hi
    have hprice : (b'.nodes i).price = (b.nodes i).price :=
      congrArg RestingOrder.price (horder i)
    rw [ht.frame.index, hprice, (core_fields (hcore i)).2]
    exact hprices i hi
  · intro s' slot' hslot'
    rw [ht.frame.index] at hslot'
    rw [ht.cells, queueAt_congr fun i _ => hcore i]
    split
    · rename_i hsame
      rw [← hsame.1, ← hsame.2]
      exact hcell
    · rename_i hother
      obtain ⟨hqueue, hthreads⟩ := hcells s' slot' hother hslot'
      rw [hqueue]
      refine (h.cells s' slot' hslot').congr (fun i _ => horder i) (fun i hi => ?_)
        (fun i hi => ?_)
      · exact (ht.next i).trans (hthreads i hi).1
      · exact (ht.prev i).trans (hthreads i hi).2

/-- **A node in hand joins the level it records.** -/
theorem attach (h : Store b live free) (hn : n ∉ live ++ free) (hlt : n < b.slab)
    (hslot : (b.nodes n).slot < b.index.capacity)
    (hprice : b.index.OnGrid (b.nodes n).price (b.nodes n).slot)
    (hvalid : Arrivals.Valid (b.ordersOf (live ++ [n]))) : Store (b.attach n) (live ++ [n]) free := by
  have hspec := attach_spec b n
  have hcell := h.cells (b.nodes n).side (b.nodes n).slot hslot
  have hnlive : n ∉ live := fun hmem => hn (List.mem_append_left _ hmem)
  have htail := h.tail_mem (s := (b.nodes n).side) hslot
  -- only the level's last node and `n` itself are redirected
  have hother : ∀ i, i ≠ n → i ∉ b.queueAt live (b.nodes n).side (b.nodes n).slot →
      (if i = n then nil
        else if (b.cells (b.nodes n).side (b.nodes n).slot).tail ≠ nil ∧
            i = (b.cells (b.nodes n).side (b.nodes n).slot).tail then n else b.nextOf i) =
        b.nextOf i := by
    intro i hin hiq
    rw [if_neg hin, if_neg]
    rintro ⟨hne, rfl⟩
    exact hiq (htail hne)
  have hmem : ∀ i ∈ live ++ [n], i ∈ live ∨ i = n := by
    intro i hi
    rw [List.mem_append, List.mem_singleton] at hi
    exact hi
  have hperm : (live ++ [n] ++ free).Perm (n :: (live ++ free)) := by
    rw [List.append_assoc]
    exact List.perm_middle
  have hqueue : ∀ s' slot', b.queueAt (live ++ [n]) s' slot' = b.queueAt live s' slot' ++
      if (b.nodes n).side = s' ∧ (b.nodes n).slot = slot' then [n] else [] := by
    intro s' slot'
    rw [queueAt, List.filter_append, List.filter_singleton]
    by_cases hsame : (b.nodes n).side = s' ∧ (b.nodes n).slot = slot'
    · rw [if_pos hsame, decide_eq_true hsame]
      rfl
    · rw [if_neg hsame, decide_eq_false hsame]
      rfl
  refine h.threaded hspec (fun i hi => hother i ?_ ?_) ?_ ?_ hvalid ?_ ?_ ?_ ?_
  · rintro rfl
    exact hn (List.mem_append_right _ hi)
  · exact fun hq => h.free_not_live hi (mem_queueAt.mp hq).1
  · exact hperm.nodup_iff.mpr (List.nodup_cons.mpr ⟨hn, h.nodup⟩)
  · intro i hi
    cases List.mem_cons.mp (hperm.mem_iff.mp hi) with
    | inl heq => rw [heq]; exact hlt
    | inr hmem => exact h.bounded i hmem
  · intro i hi
    cases hmem i hi with
    | inl hlive => exact h.slots i hlive
    | inr heq => rw [heq]; exact hslot
  · intro i hi
    cases hmem i hi with
    | inl hlive => exact h.prices i hlive
    | inr heq => rw [heq]; exact hprice
  · have hown := hqueue (b.nodes n).side (b.nodes n).slot
    simp only [and_self, if_true] at hown
    rw [hown]
    refine ⟨?_, ?_, ?_⟩
    · refine hcell.queue.push (h.nodup_queueAt ..) (h.nil_notMem_queueAt _ _) ?_ ?_ ?_ ?_ ?_ ?_
      · exact fun hq => hnlive (mem_queueAt.mp hq).1
      · rw [hspec.prev, if_pos rfl]
      · rw [hspec.next, if_pos rfl]
      · intro hne
        have hcons : (b.cells (b.nodes n).side (b.nodes n).slot).tail ≠ nil := by
          rw [hcell.queue.tail_eq]
          intro heq
          apply h.nil_notMem_queueAt (b.nodes n).side (b.nodes n).slot
          rw [← heq]
          cases hq : b.queueAt live (b.nodes n).side (b.nodes n).slot with
          | nil => exact absurd hq hne
          | cons x xs => exact getLastD_cons_mem ..
        have hne' : (b.cells (b.nodes n).side (b.nodes n).slot).tail ≠ n := by
          intro heq
          exact hnlive (heq ▸ (mem_queueAt.mp (htail hcons)).1)
        rw [hspec.next, if_neg hne', if_pos ⟨hcons, rfl⟩]
      · intro x hx hne
        have hxn : x ≠ n := fun heq => hnlive (heq ▸ (mem_queueAt.mp hx).1)
        rw [hspec.next, if_neg hxn, if_neg fun hboth => hne hboth.2]
      · intro x hx
        have hxn : x ≠ n := fun heq => hnlive (heq ▸ (mem_queueAt.mp hx).1)
        rw [hspec.prev, if_neg hxn]
    · rw [List.length_append, List.length_singleton, UInt32.ofNat_add]
      exact congrArg (· + 1) hcell.orders
    · rw [total_congr fun i _ => (core_fields (hspec.core i)).1, total_append]
      exact congrArg (· + (b.nodes n).quantity.toUInt64) hcell.quantity
  · intro s' slot' hdiff hslot'
    refine ⟨by rw [hqueue, if_neg hdiff, List.append_nil], fun i hi => ?_⟩
    obtain ⟨hlive, hside, hat⟩ := mem_queueAt.mp hi
    have hin : i ≠ n := fun heq => hnlive (heq ▸ hlive)
    refine ⟨hother i hin fun hq => ?_, if_neg hin⟩
    obtain ⟨-, hside', hat'⟩ := mem_queueAt.mp hq
    exact hdiff ⟨hside'.symm.trans hside, hat'.symm.trans hat⟩

theorem queueAt_filter (b : MboBook) (live : List Nat) (n : Nat) (s : Side) (slot : Nat) :
    b.queueAt (live.filter fun i => i ≠ n) s slot =
      (b.queueAt live s slot).filter fun i => i ≠ n := by
  rw [queueAt, queueAt, List.filter_filter, List.filter_filter]
  congr 1
  funext i
  rw [Bool.and_comm]

theorem valid_filter (h : Store b live free) (p : Nat → Bool) :
    Arrivals.Valid (b.ordersOf (live.filter p)) := by
  have hsub : (b.ordersOf (live.filter p)).Sublist (b.ordersOf live) := List.filter_sublist.map _
  exact ⟨h.valid.ids.sublist (hsub.map _), fun o ho => h.valid.quantities o (hsub.subset ho)⟩

/-- **A live node leaves its level**, and is in hand. -/
theorem detach (h : Store b live free) (hn : n ∈ live) :
    Store (b.detach n) (live.filter fun i => i ≠ n) free := by
  have hspec := detach_spec b n
  have hcell := h.cells (b.nodes n).side (b.nodes n).slot (h.slots n hn)
  have hnq : n ∈ b.queueAt live (b.nodes n).side (b.nodes n).slot :=
    mem_queueAt.mpr ⟨hn, rfl, rfl⟩
  have hnil := h.nil_notMem_queueAt (b.nodes n).side (b.nodes n).slot
  have hnext : ∀ i, i ≠ n → i ∉ b.queueAt live (b.nodes n).side (b.nodes n).slot →
      (if i = n then nil
        else if b.prevOf n ≠ nil ∧ i = b.prevOf n then b.nextOf n else b.nextOf i) =
        b.nextOf i := by
    intro i hin hiq
    rw [if_neg hin, if_neg]
    rintro ⟨hne, rfl⟩
    exact hiq (hcell.queue.prev_mem hnq hne)
  have hprev : ∀ i, i ≠ n → i ∉ b.queueAt live (b.nodes n).side (b.nodes n).slot →
      (if i = n then nil
        else if b.nextOf n ≠ nil ∧ i = b.nextOf n then b.prevOf n else b.prevOf i) =
        b.prevOf i := by
    intro i hin hiq
    rw [if_neg hin, if_neg]
    rintro ⟨hne, rfl⟩
    exact hiq (hcell.queue.next_mem hnq hne)
  have hsub : (live.filter (fun i => i ≠ n) ++ free).Sublist (live ++ free) :=
    List.filter_sublist.append_right _
  have hperm := perm_cons_filter (h.nodup_queueAt (b.nodes n).side (b.nodes n).slot) hnq
  refine h.threaded hspec (fun i hi => hnext i ?_ ?_) (h.nodup.sublist hsub)
    (fun i hi => h.bounded i (hsub.subset hi)) (h.valid_filter _)
    (fun i hi => h.slots i (List.mem_filter.mp hi).1)
    (fun i hi => h.prices i (List.mem_filter.mp hi).1) ?_ ?_
  · rintro rfl
    exact h.free_not_live hi hn
  · exact fun hq => h.free_not_live hi (mem_queueAt.mp hq).1
  · rw [queueAt_filter]
    refine ⟨?_, ?_, ?_⟩
    · refine hcell.queue.remove (h.nodup_queueAt ..) hnil hnq (fun x hx hxn => ?_)
        (fun x hx hxn => ?_)
      · rw [hspec.next, if_neg hxn]
        by_cases heq : x = b.prevOf n
        · have hne : b.prevOf n ≠ nil := fun hnone => hnil (hnone ▸ heq ▸ hx)
          rw [if_pos ⟨hne, heq⟩, if_pos heq]
        · rw [if_neg fun hboth => heq hboth.2, if_neg heq]
      · rw [hspec.prev, if_neg hxn]
        by_cases heq : x = b.nextOf n
        · have hne : b.nextOf n ≠ nil := fun hnone => hnil (hnone ▸ heq ▸ hx)
          rw [if_pos ⟨hne, heq⟩, if_pos heq]
        · rw [if_neg fun hboth => heq hboth.2, if_neg heq]
    · show (b.cells (b.nodes n).side (b.nodes n).slot).orders - 1 = _
      rw [hcell.orders, hperm.length_eq, List.length_cons, UInt32.ofNat_add]
      exact UInt32.add_sub_cancel _ _
    · show (b.cells (b.nodes n).side (b.nodes n).slot).quantity -
        (b.nodes n).quantity.toUInt64 = _
      rw [total_congr fun i _ => (core_fields (hspec.core i)).1, hcell.quantity,
        total_perm b hperm, total_cons, UInt64.add_comm, UInt64.add_sub_cancel]
  · intro s' slot' hdiff _
    have hother : ∀ i ∈ b.queueAt live s' slot', i ≠ n ∧
        i ∉ b.queueAt live (b.nodes n).side (b.nodes n).slot := by
      intro i hi
      obtain ⟨-, hside, hat⟩ := mem_queueAt.mp hi
      constructor
      · rintro rfl
        exact hdiff ⟨hside, hat⟩
      · intro hq
        obtain ⟨-, hside', hat'⟩ := mem_queueAt.mp hq
        exact hdiff ⟨hside'.symm.trans hside, hat'.symm.trans hat⟩
    refine ⟨?_, fun i hi => ⟨hnext i (hother i hi).1 (hother i hi).2,
      hprev i (hother i hi).1 (hother i hi).2⟩⟩
    rw [queueAt_filter, List.filter_eq_self]
    exact fun i hi => decide_eq_true (hother i hi).1

end Store

/-- Lowers the quantity of a node, at its level too. -/
def lower (b : MboBook) (n : Nat) (quantity : UInt32) : MboBook :=
  let x := b.nodes n
  let b := b.setNode n { x with quantity := quantity }
  let cell := b.cells x.side x.slot
  b.setCell x.side x.slot
    { cell with quantity := cell.quantity - (x.quantity - quantity).toUInt64 }

theorem nodes_lower (b : MboBook) (n i : Nat) (quantity : UInt32) :
    (b.lower n quantity).nodes i =
      if i = n then { b.nodes n with quantity := quantity } else b.nodes i := by
  rw [lower, nodes_setCell, nodes_setNode]

theorem cells_lower (b : MboBook) (n : Nat) (quantity : UInt32) (s : Side) (slot : Nat) :
    (b.lower n quantity).cells s slot =
      if (b.nodes n).side = s ∧ (b.nodes n).slot = slot then
        { b.cells s slot with
          quantity := (b.cells s slot).quantity - ((b.nodes n).quantity - quantity).toUInt64 }
      else b.cells s slot := by
  rw [lower, cells_setCell, cells_setNode, cells_setNode]
  split
  · rename_i hsame
    rw [hsame.1, hsame.2]
  · rfl

theorem frame_lower (b : MboBook) (n : Nat) (quantity : UInt32) : Frame b (b.lower n quantity) :=
  (frame_setNode ..).trans (frame_setCell ..)

theorem ordersOf_lower {b : MboBook} {live : List Nat} {n : Nat}
    (hvalid : Arrivals.Valid (b.ordersOf live)) (hn : n ∈ live) (quantity : UInt32) :
    (b.lower n quantity).ordersOf live =
      Arrivals.resize (b.ordersOf live) (b.nodes n).orderId quantity := by
  rw [ordersOf, ordersOf, Arrivals.resize, List.map_map]
  apply List.map_congr_left
  intro i hi
  rw [Function.comp_apply, nodes_lower]
  by_cases heq : i = n
  · rw [if_pos heq, heq]
    exact (if_pos rfl).symm
  · rw [if_neg heq, if_neg]
    intro hid
    apply heq
    have hids : (live.map fun j => (b.nodes j).orderId).Nodup := by
      have := hvalid.ids
      rw [ordersOf, List.map_map] at this
      exact this
    exact List.inj_on_of_nodup_map hids hi hn hid

namespace Store

variable {b : MboBook} {live free : List Nat} {n : Nat}

/-- **Lowering a quantity** changes nothing but the order and its level's total. -/
theorem lower (h : Store b live free) (hn : n ∈ live) {quantity : UInt32} (hq : quantity ≠ 0)
    (hle : ¬(b.nodes n).quantity < quantity) : Store (b.lower n quantity) live free := by
  have hframe := frame_lower b n quantity
  have hfields : ∀ i, ((b.lower n quantity).nodes i).side = (b.nodes i).side ∧
      ((b.lower n quantity).nodes i).slot = (b.nodes i).slot ∧
      ((b.lower n quantity).nodes i).price = (b.nodes i).price ∧
      (b.lower n quantity).nextOf i = b.nextOf i ∧ (b.lower n quantity).prevOf i = b.prevOf i := by
    intro i
    simp only [nextOf, prevOf, nodes_lower]
    split
    · rename_i heq
      rw [heq]
      exact ⟨rfl, rfl, rfl, rfl, rfl⟩
    · exact ⟨rfl, rfl, rfl, rfl, rfl⟩
  have hqueue : ∀ s slot, (b.lower n quantity).queueAt live s slot = b.queueAt live s slot := by
    intro s slot
    unfold queueAt
    congr 1
    funext i
    rw [(hfields i).1, (hfields i).2.1]
  constructor
  · rw [hframe.index]
    exact h.sane
  · rw [hframe.index]
    exact h.capacity
  · rw [hframe.slab]
    exact h.slab
  · exact h.nodup
  · rw [hframe.slab]
    exact h.bounded
  · rw [hframe.freeHead]
    exact h.stack.congr fun i _ => (hfields i).2.2.2.1
  · rw [ordersOf_lower h.valid hn]
    exact h.valid.resize _ hq
  · intro i hi
    rw [(hfields i).2.1, hframe.index]
    exact h.slots i hi
  · intro i hi
    rw [(hfields i).2.1, (hfields i).2.2.1, hframe.index]
    exact h.prices i hi
  · intro s slot hslot
    rw [hframe.index] at hslot
    have hcell := h.cells s slot hslot
    have hthreads := hcell.queue.congr (fun i _ => (hfields i).2.2.2.1)
      (fun i _ => (hfields i).2.2.2.2)
    have hrest : ∀ q : List Nat, n ∉ q → (b.lower n quantity).total q = b.total q := by
      intro q hnq
      unfold total
      congr 1
      apply List.map_congr_left
      intro i hi
      have hin : i ≠ n := fun heq => hnq (heq ▸ hi)
      rw [nodes_lower, if_neg hin]
    rw [hqueue, cells_lower]
    split
    · rename_i hsame
      refine ⟨hthreads, hcell.orders, ?_⟩
      have hnq : n ∈ b.queueAt live s slot := mem_queueAt.mpr ⟨hn, hsame⟩
      have hperm := perm_cons_filter (h.nodup_queueAt s slot) hnq
      have hdiff : ((b.nodes n).quantity - quantity).toUInt64 =
          (b.nodes n).quantity.toUInt64 - quantity.toUInt64 := by
        have hle' : quantity ≤ (b.nodes n).quantity := UInt32.not_lt.mp hle
        have hle'' : quantity.toUInt64 ≤ (b.nodes n).quantity.toUInt64 := by
          rw [UInt64.le_iff_toNat_le, UInt32.toNat_toUInt64, UInt32.toNat_toUInt64]
          exact hle'
        apply UInt64.toNat_inj.mp
        rw [UInt32.toNat_toUInt64, UInt32.toNat_sub_of_le _ _ hle', UInt64.toNat_sub_of_le _ _ hle'',
          UInt32.toNat_toUInt64, UInt32.toNat_toUInt64]
      show (b.cells s slot).quantity - _ = _
      rw [hcell.quantity, total_perm b hperm, total_perm _ hperm, total_cons, total_cons,
        hrest _ (by simp), nodes_lower, if_pos rfl, hdiff]
      show (b.nodes n).quantity.toUInt64 + _ - _ = quantity.toUInt64 + _
      generalize (b.nodes n).quantity.toUInt64 = x
      generalize quantity.toUInt64 = y
      generalize b.total _ = r
      grind
    · rename_i hother
      refine ⟨hthreads, hcell.orders, ?_⟩
      rw [hcell.quantity, hrest]
      exact fun hnq => hother (mem_queueAt.mp hnq).2

end Store

end MboBook

end MarketData.Book
