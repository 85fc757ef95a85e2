import MarketData.Book.MboWhole

/-!
# `Book/MboShows.lean` — what the fast book answers

The walk over a side from its cached best slot on meets every occupied slot once, best price
first; the queue of a slot is the orders of its price, oldest first. So the walk is the ladder of
the orders of the live nodes, and everything the book answers is read off it.

`Arrivals.levels` computes a side's ladder from the list of orders, and `IsLevels` characterises it:
sorted, every entry the queue of its price, no price left out. The walk has those properties for
three separate reasons, and they are proved apart:

* it is **sorted** because slots are prices in order (`Book/Tick.lean`), upwards for asks and
  downwards for bids;
* its entries are **queues** because a level's links are the live nodes of that slot in the order of
  their arrival (`Book/MboStore.lean`);
* it **leaves nothing out** because the cached best slot is the best of the occupied ones
  (`Book/MboTouch.lean`), so the walk starts before all of them.

From there `Shows` is a matter of reading: a depth of `n` is the first `n` entries, the front is the
head of the first queue, a level's count and total are in its cell.

The walk is bounded by the number of slots and a queue's by the size of the slab. Both bounds are
fuel in the model, and what is proved here does not depend on how much is left over.
-/

set_option autoImplicit false

namespace MarketData.Book

open MarketData.Wire (Side)
open MarketData.Chain
open MarketData.Ladder
open Arrivals (bestLe)

namespace MboBook

variable {b : MboBook} {live free : List Nat}

/-! ## The walk -/

theorem mem_walk (h : Touch b) {s : Side} {i : Nat} (hocc : b.occupied s i = true) :
    i ∈ b.walk s ↔ i < b.index.capacity := by
  have hbest := h.best s
  unfold walk
  cases hcached : b.best s with
  | none =>
    rw [hcached] at hbest
    constructor
    · intro hi
      cases s <;> exact absurd hi List.not_mem_nil
    · intro hi
      rw [hbest i hi] at hocc
      cases hocc
  | some start =>
    rw [hcached] at hbest
    obtain ⟨hstart, -, hle⟩ := hbest
    cases s with
    | bid =>
      simp only [List.mem_reverse, List.mem_range]
      constructor
      · intro hi
        omega
      · intro hi
        have : i ≤ start := hle i hi hocc
        omega
    | ask =>
      simp only [List.mem_range'_1]
      constructor
      · intro hi
        omega
      · intro hi
        have : start ≤ i := hle i hi hocc
        omega

theorem walk_lt (h : Touch b) {s : Side} {i : Nat} (hi : i ∈ b.walk s) : i < b.index.capacity := by
  have hbest := h.best s
  unfold walk at hi
  cases hcached : b.best s with
  | none =>
    rw [hcached] at hi
    cases s <;> exact absurd hi List.not_mem_nil
  | some start =>
    rw [hcached] at hi hbest
    have hstart := hbest.1
    cases s with
    | bid =>
      simp only [List.mem_reverse, List.mem_range] at hi
      omega
    | ask =>
      simp only [List.mem_range'_1] at hi
      omega

/-- The walk goes from better slots to worse ones. -/
theorem walk_sorted (b : MboBook) (s : Side) :
    (b.walk s).Pairwise fun i j => slotLe s i j ∧ i ≠ j := by
  unfold walk
  cases b.best s with
  | none => cases s <;> exact List.Pairwise.nil
  | some start =>
    cases s with
    | bid =>
      rw [List.pairwise_reverse]
      exact List.pairwise_lt_range.imp fun hlt => ⟨Nat.le_of_lt hlt, Nat.ne_of_gt hlt⟩
    | ask =>
      exact (List.pairwise_lt_range' 1).imp fun hlt => ⟨Nat.le_of_lt hlt, Nat.ne_of_lt hlt⟩

/-! ## Its levels -/

/-- The orders of a level, oldest first. -/
def queueOrders (b : MboBook) (live : List Nat) (s : Side) (slot : Nat) : List RestingOrder :=
  (b.queueAt live s slot).map fun i => (b.nodes i).order

theorem Store.onGrid_priceAt (h : Store b live free) {s : Side} {slot : Nat}
    (hslot : slot < b.index.capacity) (hocc : b.occupied s slot = true) :
    b.index.OnGrid (b.index.priceAt slot) slot := by
  obtain ⟨i, hi, -, rfl⟩ := (h.occupied_iff hslot).mp hocc
  have hprice := h.prices i hi
  rw [TickIndex.priceAt_eq hprice]
  exact hprice

/-- The queue of a price is the queue of its slot. -/
theorem Store.queue_eq (h : Store b live free) {s : Side} {slot : Nat} {price : Int64}
    (hgrid : b.index.OnGrid price slot) :
    Arrivals.queue (b.ordersOf live) s price = b.queueOrders live s slot := by
  rw [Arrivals.queue, ordersOf, List.filter_map, queueOrders, queueAt]
  congr 1
  apply List.filter_congr
  intro i hi
  rw [Function.comp_apply, decide_eq_decide]
  have hprice := h.prices i hi
  refine and_congr_right fun _ => ⟨fun heq => ?_, fun heq => ?_⟩
  · have heq' : (b.nodes i).price = price := heq
    rw [heq'] at hprice
    have hplace := hprice.inj h.sane hgrid
    omega
  · show (b.nodes i).price = price
    rw [heq] at hprice
    rw [← TickIndex.priceAt_eq hprice, TickIndex.priceAt_eq hgrid]

theorem before_of_slotLe (h : Store b live free) {s : Side} {i j : Nat}
    (hi : b.index.OnGrid (b.index.priceAt i) i) (hj : b.index.OnGrid (b.index.priceAt j) j)
    (hle : slotLe s i j) (hne : i ≠ j) :
    Before (bestLe s) (b.index.priceAt i) (b.index.priceAt j) := by
  constructor
  · cases s with
    | bid =>
      have hslots : (j : Int) ≤ i := Int.ofNat_le.mpr hle
      exact decide_eq_true (Int64.le_iff_toInt_le.mpr ((hj.le_iff h.sane hi).mpr hslots))
    | ask =>
      have hslots : (i : Int) ≤ j := Int.ofNat_le.mpr hle
      exact decide_eq_true (Int64.le_iff_toInt_le.mpr ((hi.le_iff h.sane hj).mpr hslots))
  · intro heq
    rw [heq] at hi
    have hplace := hi.inj h.sane hj
    omega

/-- The occupied slots of a side, best first. -/
def occupiedWalk (b : MboBook) (s : Side) : List Nat := (b.walk s).filter (b.occupied s)

theorem Whole.occupied_of_walk (h : Whole b live free) {s : Side} {i : Nat}
    (hi : i ∈ b.occupiedWalk s) : i < b.index.capacity ∧ b.occupied s i = true := by
  obtain ⟨hwalk, hocc⟩ := List.mem_filter.mp hi
  exact ⟨walk_lt h.touch hwalk, hocc⟩

/-- **The walk over the occupied slots is the ladder of the orders.** -/
theorem Whole.levels_eq (h : Whole b live free) (s : Side) :
    (b.occupiedWalk s).map (fun i => (b.index.priceAt i, b.queueOrders live s i)) =
      Arrivals.levels (b.ordersOf live) s := by
  have hgrid : ∀ i ∈ b.occupiedWalk s, b.index.OnGrid (b.index.priceAt i) i := by
    intro i hi
    obtain ⟨hlt, hocc⟩ := h.occupied_of_walk hi
    exact h.store.onGrid_priceAt hlt hocc
  refine (Arrivals.isLevels_of ?_ fun price q => ?_).eq_levels
  · rw [List.pairwise_map]
    refine ((walk_sorted b s).filter _).imp_of_mem fun hi hj hbefore => ?_
    exact before_of_slotLe h.store (hgrid _ hi) (hgrid _ hj) hbefore.1 hbefore.2
  · rw [List.mem_map]
    constructor
    · rintro ⟨i, hi, heq⟩
      cases heq
      refine ⟨(h.store.queue_eq (hgrid i hi)).symm, ?_⟩
      obtain ⟨hlt, hocc⟩ := h.occupied_of_walk hi
      obtain ⟨n, hn, hside, hat⟩ := (h.store.occupied_iff hlt).mp hocc
      exact List.ne_nil_of_mem (List.mem_map_of_mem (mem_queueAt.mpr ⟨hn, hside, hat⟩))
    · rintro ⟨rfl, hne⟩
      obtain ⟨o, ho⟩ := List.exists_mem_of_ne_nil _ hne
      obtain ⟨hmem, hat⟩ := List.mem_filter.mp ho
      obtain ⟨n, hn, rfl⟩ := List.mem_map.mp hmem
      obtain ⟨hside, hprice⟩ := of_decide_eq_true hat
      have hslot := h.store.slots n hn
      have hocc := (h.store.occupied_iff hslot).mpr ⟨n, hn, hside, rfl⟩
      have hplace : b.index.OnGrid price (b.nodes n).slot := by
        have hprice' : (b.nodes n).price = price := hprice
        rw [← hprice']
        exact h.store.prices n hn
      refine ⟨(b.nodes n).slot, List.mem_filter.mpr ⟨(mem_walk h.touch hocc).mpr hslot, hocc⟩, ?_⟩
      rw [TickIndex.priceAt_eq hplace, h.store.queue_eq hplace]

/-! ## The answers -/

/-- Following a queue visits its nodes in order. -/
theorem queueFrom_links {before after : Nat} {q : List Nat} (fuel : Nat) (hfuel : q.length ≤ fuel)
    (hnil : nil ∉ q) (hafter : after = nil) (h : Links b.nextOf b.prevOf before q after) :
    b.queueFrom fuel (q.headD nil) = q.map fun i => (b.nodes i).order := by
  induction q generalizing before fuel with
  | nil =>
    cases fuel with
    | zero => rfl
    | succ fuel => exact if_pos rfl
  | cons i rest ih =>
    obtain ⟨-, hnext, hrest⟩ := h
    cases fuel with
    | zero => exact absurd hfuel (Nat.not_succ_le_zero _)
    | succ fuel =>
      have hi : i ≠ nil := fun heq => hnil (heq ▸ List.mem_cons_self)
      have hnext' : (b.nodes i).next = rest.headD nil := by
        rw [← hafter]
        exact hnext
      rw [List.headD_cons, queueFrom, if_neg hi, List.map_cons, hnext',
        ih fuel (Nat.le_of_succ_le_succ hfuel) (fun hmem => hnil (List.mem_cons_of_mem _ hmem)) hrest]

theorem Store.queueFrom_eq (h : Store b live free) {s : Side} {slot : Nat}
    (hslot : slot < b.index.capacity) :
    b.queueFrom b.slab (b.cells s slot).head = b.queueOrders live s slot := by
  have hqueue := (h.cells s slot hslot).queue
  have hlen : (b.queueAt live s slot).length ≤ b.slab :=
    Nat.le_trans (List.length_filter_le ..) h.length_live_le
  rw [hqueue.head_eq]
  exact queueFrom_links b.slab hlen (h.nil_notMem_queueAt s slot) rfl hqueue.links

/-- A cell aggregates its queue. -/
theorem Store.levelOf_eq (h : Store b live free) {s : Side} {slot : Nat}
    (hslot : slot < b.index.capacity) (price : Int64) :
    Arrivals.levelOf price (b.queueOrders live s slot) =
      { price := price
        quantity := (b.cells s slot).quantity
        orderCount := (b.cells s slot).orders } := by
  have hcell := h.cells s slot hslot
  have hlen : (b.queueAt live s slot).length < 2 ^ 32 := by
    have hle : (b.queueAt live s slot).length ≤ live.length := List.length_filter_le ..
    have hlive := h.length_live_le
    have hslab := h.slab
    omega
  rw [Arrivals.levelOf, hcell.orders, hcell.quantity, queueOrders, List.length_map, if_pos hlen,
    List.map_map]
  rfl

theorem Whole.length_occupiedWalk (h : Whole b live free) (s : Side) :
    (b.occupiedWalk s).length = (b.levels s).toNat := by
  have hperm : (b.occupiedWalk s).Perm
      ((List.range b.index.capacity).filter (b.occupied s)) := by
    rw [List.perm_ext_iff_of_nodup]
    · intro i
      rw [occupiedWalk, List.mem_filter, List.mem_filter, List.mem_range]
      exact ⟨fun hi => ⟨(mem_walk h.touch hi.2).mp hi.1, hi.2⟩,
        fun hi => ⟨(mem_walk h.touch hi.2).mpr hi.1, hi.2⟩⟩
    · exact ((walk_sorted b s).imp fun hij => hij.2).filter _
    · exact List.nodup_range.filter _
  have hlt : ((List.range b.index.capacity).filter (b.occupied s)).length < 2 ^ 32 := by
    have hle : ((List.range b.index.capacity).filter (b.occupied s)).length ≤
        (List.range b.index.capacity).length := List.length_filter_le ..
    rw [List.length_range] at hle
    have hcap := h.store.capacity
    omega
  rw [hperm.length_eq, h.touch.counted s, List.countP_eq_length_filter,
    UInt32.toNat_ofNat_of_lt' hlt]

theorem levelCount_eq (b : MboBook) (s : Side) (depth : Nat) :
    b.levelCount s depth =
      if depth = 0 then (b.levels s).toNat else min (b.levels s).toNat depth := by
  cases s <;> rfl

/-- **The fast book shows the orders of its live nodes.** -/
theorem Whole.shows (h : Whole b live free) : Arrivals.Shows b (b.ordersOf live) := by
  have hcut : ∀ s depth, Arrivals.cut depth (Arrivals.levels (b.ordersOf live) s) =
      (Arrivals.cut depth (b.occupiedWalk s)).map fun i =>
        (b.index.priceAt i, b.queueOrders live s i) := by
    intro s depth
    rw [← h.levels_eq s, Arrivals.cut, Arrivals.cut]
    split
    · rfl
    · rw [List.map_take]
  refine ⟨h.indexed.get_eq h.store, ?_, fun s depth => ?_, fun s depth => ?_, fun s => ?_⟩
  · show b.live = _
    rw [h.live_eq, ordersOf, List.length_map]
  · show b.levelCount s depth = _
    rw [hcut, List.length_map, levelCount_eq, Arrivals.cut, ← h.length_occupiedWalk]
    split
    · rfl
    · rw [List.length_take, Nat.min_comm]
  · show b.forEachLevel s depth = _
    rw [hcut, List.map_map]
    apply List.map_congr_left
    intro i hi
    have hmem : i ∈ b.occupiedWalk s := by
      split at hi
      · exact hi
      · exact List.mem_of_mem_take hi
    exact (h.store.levelOf_eq (h.occupied_of_walk hmem).1 _).symm
  · show (b.walk s).flatMap (fun i => b.queueFrom b.slab (b.cells s i).head) = _
    rw [← h.levels_eq s, List.flatMap_map]
    have hempty : ∀ i ∈ b.walk s, b.occupied s i = false → b.queueOrders live s i = [] := by
      intro i hi hocc
      rw [queueOrders, List.map_eq_nil_iff, List.eq_nil_iff_forall_not_mem]
      intro n hn
      obtain ⟨hlive, hside, hat⟩ := mem_queueAt.mp hn
      rw [(h.store.occupied_iff (walk_lt h.touch hi)).mpr ⟨n, hlive, hside, hat⟩] at hocc
      cases hocc
    have hqueues : ∀ l : List Nat, (∀ i ∈ l, i ∈ b.walk s) →
        l.flatMap (fun i => b.queueFrom b.slab (b.cells s i).head) =
          (l.filter (b.occupied s)).flatMap fun i => b.queueOrders live s i := by
      intro l
      induction l with
      | nil => exact fun _ => rfl
      | cons i rest ih =>
        intro hl
        have hi := hl i List.mem_cons_self
        rw [List.flatMap_cons, h.store.queueFrom_eq (walk_lt h.touch hi),
          ih fun j hj => hl j (List.mem_cons_of_mem _ hj), List.filter_cons]
        split
        · rfl
        · rename_i hocc
          rw [hempty i hi ((Bool.not_eq_true _).mp hocc), List.nil_append]
    exact hqueues (b.walk s) fun i hi => hi

/-- **The fast book's front is that of the orders.** -/
theorem Whole.front_eq (h : Whole b live free) (s : Side) :
    b.front s = Arrivals.front (b.ordersOf live) s := by
  have hbest := h.touch.best s
  unfold front Arrivals.front
  rw [← h.levels_eq s]
  cases hcached : b.best s with
  | none =>
    have hwalk : b.occupiedWalk s = [] := by
      unfold occupiedWalk walk
      rw [hcached]
      rfl
    rw [hwalk]
    rfl
  | some slot =>
    rw [hcached] at hbest
    obtain ⟨hslot, hocc, -⟩ := hbest
    have hwalk : ∃ rest, b.walk s = slot :: rest := by
      unfold walk
      rw [hcached]
      cases s with
      | bid =>
        dsimp only
        have hmin : min slot (b.index.capacity - 1) = slot := by omega
        rw [hmin, List.range_succ, List.reverse_append]
        exact ⟨_, rfl⟩
      | ask =>
        dsimp only
        have hlen : b.index.capacity - slot = (b.index.capacity - slot - 1) + 1 := by omega
        rw [hlen, List.range'_succ]
        exact ⟨_, rfl⟩
    obtain ⟨rest, hwalk⟩ := hwalk
    have hfirst : (b.occupiedWalk s).head? = some slot := by
      rw [occupiedWalk, hwalk, List.filter_cons_of_pos hocc]
      rfl
    have hqueue := (h.store.cells s slot hslot).queue
    have hne : b.queueAt live s slot ≠ [] := by
      obtain ⟨n, hn, hside, hat⟩ := (h.store.occupied_iff hslot).mp hocc
      exact List.ne_nil_of_mem (mem_queueAt.mpr ⟨hn, hside, hat⟩)
    simp only [List.head?_map, hfirst, Option.map_some, Option.bind_eq_bind, Option.bind_some]
    cases hq : b.queueAt live s slot with
    | nil => exact absurd hq hne
    | cons n ns =>
      have hhead : (b.cells s slot).head = n := by
        rw [hqueue.head_eq, hq]
        rfl
      have hlive : n ∈ live := by
        have hn : n ∈ b.queueAt live s slot := by
          rw [hq]
          exact List.mem_cons_self
        exact (mem_queueAt.mp hn).1
      rw [hhead, if_neg (h.store.live_ne_nil hlive), queueOrders, hq]
      rfl

end MboBook

end MarketData.Book
