import MarketData.Book.MboRefines

/-!
# `Book/MboInvariants.lean` — the structures of the fast book agree with each other

`checkInvariants` walks every level and compares what it sees with the counts, the caches and the
map. It does not look at the free list, nor at the price a slot stands for. Here all of it is
said of the structures as they are laid out, without the lists of live and free nodes that the
proofs are about: `nodesFrom` follows the links, as the source would.

## Two descriptions of one book

`Whole` (`Book/MboWhole.lean`) relates a book to two lists of nodes that appear nowhere in the
program. It is what the operations are proved to keep, since a list is what an induction wants, but
a reader of the source would rather see the links followed and the map probed. `Consistent` is that
reading, and it has no existential in it besides the free list itself: **the source's own check
passes**, the free list ends and holds just the nodes on no level, every map entry points to the
live node with its id, every node's slot has its price, and `SlabFull` is the truth.

`fast_book_consistent` goes from the first to the second in every reachable state, refused
operations included: a window that was moved on the way to a refusal is as consistent as one that
was not.

The check is a loop over links that could in principle run in circles. `checkQueue` carries the
source's own step count and reports a cycle, so the theorem that it answers `Ok` is also the theorem
that there is none.
-/

set_option autoImplicit false

namespace MarketData.Book

open MarketData.Wire (Side)
open MarketData.Chain
open MarketData.Probing
open MarketData.Run

namespace MboBook

variable {b : MboBook} {live free : List Nat}

/-- The nodes from `node` on, following `next`. -/
def nodesFrom (b : MboBook) : Nat → Nat → List Nat
  | 0, _ => []
  | fuel + 1, node => if node = nil then [] else node :: nodesFrom b fuel (b.nodes node).next

/-- The nodes on a level's list. -/
def levelNodes (b : MboBook) (s : Side) (slot : Nat) : List Nat :=
  b.nodesFrom b.slab (b.cells s slot).head

/-- The node is on the list of some level. -/
def OnLevel (b : MboBook) (n : Nat) : Prop :=
  ∃ s, ∃ slot < b.index.capacity, n ∈ b.levelNodes s slot

/-! ## Following the links -/

theorem nodesFrom_stack {head : Nat} {q : List Nat} (fuel : Nat) (hfuel : q.length ≤ fuel)
    (hnil : nil ∉ q) (h : Stack b.nextOf nil head q) : b.nodesFrom fuel head = q := by
  induction q generalizing fuel head with
  | nil =>
    have hhead : head = nil := h
    cases fuel with
    | zero => rfl
    | succ fuel => exact if_pos hhead
  | cons i rest ih =>
    obtain ⟨rfl, hrest⟩ := h
    cases fuel with
    | zero => exact absurd hfuel (Nat.not_succ_le_zero _)
    | succ fuel =>
      have hne : head ≠ nil := fun heq => hnil (heq ▸ List.mem_cons_self)
      rw [nodesFrom, if_neg hne]
      exact congrArg _ (ih fuel (Nat.le_of_succ_le_succ hfuel)
        (fun hmem => hnil (List.mem_cons_of_mem _ hmem)) hrest)

/-- A queue, followed forwards only. -/
theorem stack_of_links {before : Nat} {q : List Nat} (h : Links b.nextOf b.prevOf before q nil) :
    Stack b.nextOf nil (q.headD nil) q := by
  induction q generalizing before with
  | nil => rfl
  | cons i rest ih =>
    obtain ⟨-, hnext, hrest⟩ := h
    refine ⟨rfl, ?_⟩
    rw [hnext]
    exact ih hrest

theorem Store.levelNodes_eq (h : Store b live free) {s : Side} {slot : Nat}
    (hslot : slot < b.index.capacity) : b.levelNodes s slot = b.queueAt live s slot := by
  have hqueue := (h.cells s slot hslot).queue
  have hlen : (b.queueAt live s slot).length ≤ b.slab :=
    Nat.le_trans (List.length_filter_le ..) h.length_live_le
  rw [levelNodes, hqueue.head_eq]
  exact nodesFrom_stack b.slab hlen (h.nil_notMem_queueAt s slot) (stack_of_links hqueue.links)

/-- The live nodes are those on a level. -/
theorem Store.onLevel_iff (h : Store b live free) {n : Nat} : b.OnLevel n ↔ n ∈ live := by
  constructor
  · rintro ⟨s, slot, hslot, hn⟩
    rw [h.levelNodes_eq hslot] at hn
    exact (mem_queueAt.mp hn).1
  · intro hn
    refine ⟨(b.nodes n).side, (b.nodes n).slot, h.slots n hn, ?_⟩
    rw [h.levelNodes_eq (h.slots n hn)]
    exact mem_queueAt.mpr ⟨hn, rfl, rfl⟩

/-! ## The walk over a level -/

/-- The walk over a well-linked queue sees every node of it and complains about none. -/
theorem checkQueue_ok (s : Side) (level : Nat) (q : List Nat) (fuel : Nat) (w : LevelWalk)
    (hfuel : q.length < fuel) (hlinks : Links b.nextOf b.prevOf w.prev q nil) (hnil : nil ∉ q)
    (hnodes : ∀ i ∈ q, (b.nodes i).slot = level ∧ (b.nodes i).side = s ∧
      (b.nodes i).quantity ≠ 0 ∧ (b.get (b.nodes i).orderId).isSome)
    (hslab : b.slab < 2 ^ 32) (hroom : w.inLevel.toNat + q.length ≤ b.slab) :
    b.checkQueue s level fuel (q.headD nil) w = .ok
      { prev := q.getLastD w.prev
        inLevel := w.inLevel + UInt32.ofNat q.length
        quantity := (q.map fun i => (b.nodes i).quantity.toUInt64).foldl (· + ·) w.quantity } := by
  induction q generalizing fuel w with
  | nil =>
    cases fuel with
    | zero => exact absurd hfuel (Nat.lt_irrefl 0)
    | succ fuel =>
      have hzero : w.inLevel + UInt32.ofNat 0 = w.inLevel := UInt32.add_zero _
      rw [List.headD_nil, checkQueue, if_pos rfl, List.length_nil, hzero]
      rfl
  | cons i rest ih =>
    obtain ⟨hprev, hnext, hrest⟩ := hlinks
    obtain ⟨hslot, hside, hquantity, hget⟩ := hnodes i List.mem_cons_self
    rw [List.length_cons] at hroom hfuel
    cases fuel with
    | zero => exact absurd hfuel (Nat.not_lt_zero _)
    | succ fuel =>
      have hi : i ≠ nil := fun heq => hnil (heq ▸ List.mem_cons_self)
      have hone : (w.inLevel + 1).toNat = w.inLevel.toNat + 1 := by
        rw [UInt32.toNat_add]
        exact Nat.mod_eq_of_lt (by have : (1 : UInt32).toNat = 1 := rfl; omega)
      have hprev' : (b.nodes i).prev = w.prev := hprev
      have hnext' : (b.nodes i).next = rest.headD nil := hnext
      have hlast : ¬b.slab < (w.inLevel + 1).toNat := by omega
      rw [List.headD_cons, checkQueue, if_neg hi]
      simp only [hslot, hside, hprev', hquantity, Option.isNone_iff_eq_none, ne_eq,
        not_true_eq_false, if_false, Option.isSome_iff_ne_none.mp hget, hlast, hnext']
      have hih := ih fuel { prev := i, inLevel := w.inLevel + 1,
                            quantity := w.quantity + (b.nodes i).quantity.toUInt64 }
        (by omega) hrest (fun hmem => hnil (List.mem_cons_of_mem _ hmem))
        (fun j hj => hnodes j (List.mem_cons_of_mem _ hj)) (by dsimp only; omega)
      rw [hih, List.getLastD_cons, List.length_cons, UInt32.ofNat_add, UInt32.add_comm (UInt32.ofNat _),
        ← UInt32.add_assoc]
      rfl

theorem Whole.checkLevel_ok (h : Whole b live free) (s : Side) {slot : Nat}
    (hslot : slot < b.index.capacity) :
    b.checkLevel s slot = .ok (b.queueAt live s slot).length := by
  have hcell := h.store.cells s slot hslot
  have hslab := h.store.slab
  have hlen : (b.queueAt live s slot).length ≤ b.slab :=
    Nat.le_trans (List.length_filter_le ..) h.store.length_live_le
  have hwalk := checkQueue_ok s slot (b.queueAt live s slot) (b.slab + 1) {}
    (Nat.lt_succ_of_le hlen) hcell.queue.links (h.store.nil_notMem_queueAt s slot)
    (fun i hi => by
      obtain ⟨hlive, hside, hat⟩ := mem_queueAt.mp hi
      have hmem : (b.nodes i).order ∈ b.ordersOf live := Indexed.mem_ordersOf.mpr ⟨i, hlive, rfl⟩
      refine ⟨hat, hside, h.store.valid.quantities _ hmem, ?_⟩
      rw [h.indexed.get_eq h.store]
      have hlookup := h.store.valid.lookup_of_mem hmem
      have hid : (b.nodes i).order.orderId = (b.nodes i).orderId := rfl
      rw [hid] at hlookup
      rw [hlookup]
      rfl)
    hslab (by show (0 : UInt32).toNat + _ ≤ _; rw [UInt32.toNat_zero]; omega)
  have hfound : b.checkQueue s slot (b.slab + 1) (b.cells s slot).head {} = .ok
      { prev := (b.cells s slot).tail
        inLevel := (b.cells s slot).orders
        quantity := (b.cells s slot).quantity } := by
    have hcount : (0 : UInt32) + UInt32.ofNat (b.queueAt live s slot).length =
        (b.cells s slot).orders := by
      rw [UInt32.zero_add, hcell.orders]
    rw [hcell.queue.head_eq, hwalk, hcell.queue.tail_eq, hcell.quantity, ← hcount]
    rfl
  have hsmall : (b.queueAt live s slot).length < UInt32.size := by
    have hsize : UInt32.size = 2 ^ 32 := rfl
    omega
  unfold checkLevel
  dsimp only
  rw [hfound]
  simp only [bind, Except.bind, ne_eq, not_true_eq_false, if_false]
  rw [hcell.orders, UInt32.toNat_ofNat_of_lt' hsmall]

/-- A live node is at one level or at one of some others, never at both. -/
theorem length_filter_cons (b : MboBook) (live : List Nat) (s : Side) {slot : Nat}
    {rest : List Nat} (hslot : slot ∉ rest) :
    (live.filter fun i => (b.nodes i).side = s ∧ (b.nodes i).slot ∈ slot :: rest).length =
      (live.filter fun i => (b.nodes i).side = s ∧ (b.nodes i).slot = slot).length +
      (live.filter fun i => (b.nodes i).side = s ∧ (b.nodes i).slot ∈ rest).length := by
  induction live with
  | nil => rfl
  | cons i is ih =>
    simp only [List.filter_cons, decide_eq_true_eq, List.mem_cons] at ih ⊢
    by_cases hat : (b.nodes i).slot = slot
    · by_cases hside : (b.nodes i).side = s
      · simp only [hat, hside, hslot, true_or, and_self, if_true, and_false, if_false,
          List.length_cons]
        omega
      · simp only [hside, false_and, if_false]
        exact ih
    · simp only [hat, false_or, and_false, if_false]
      split
      · rw [List.length_cons, List.length_cons]
        omega
      · exact ih

theorem sum_length_queueAt (b : MboBook) (live : List Nat) (s : Side) {slots : List Nat}
    (hnodup : slots.Nodup) :
    (slots.map fun slot => (b.queueAt live s slot).length).sum =
      (live.filter fun i => (b.nodes i).side = s ∧ (b.nodes i).slot ∈ slots).length := by
  induction slots with
  | nil =>
    have hnone : (live.filter fun i => (b.nodes i).side = s ∧ (b.nodes i).slot ∈ ([] : List Nat)) =
        [] := by
      simp
    rw [hnone]
    rfl
  | cons slot rest ih =>
    obtain ⟨hslot, hrest⟩ := List.nodup_cons.mp hnodup
    rw [List.map_cons, List.sum_cons, ih hrest, length_filter_cons b live s hslot, queueAt]

theorem Whole.checkLevels_ok (h : Whole b live free) (s : Side) (slots : List Nat) (counted : Nat)
    (hslots : ∀ slot ∈ slots, slot < b.index.capacity) :
    b.checkLevels s slots counted = .ok
      (counted + (slots.map fun slot => (b.queueAt live s slot).length).sum) := by
  induction slots generalizing counted with
  | nil => rfl
  | cons slot rest ih =>
    rw [checkLevels, h.checkLevel_ok s (hslots slot List.mem_cons_self)]
    show b.checkLevels s rest (counted + _) = _
    rw [ih _ fun i hi => hslots i (List.mem_cons_of_mem _ hi), List.map_cons, List.sum_cons,
      Nat.add_assoc]

/-! ## The whole check -/

theorem Whole.countP_occupied (h : Whole b live free) (s : Side) :
    (List.range b.index.capacity).countP (b.occupied s) = b.levelCount s 0 := by
  have hlt : (List.range b.index.capacity).countP (b.occupied s) < UInt32.size := by
    have hle : (List.range b.index.capacity).countP (b.occupied s) ≤ b.index.capacity := by
      have hcount := List.countP_le_length (p := b.occupied s) (l := List.range b.index.capacity)
      rw [List.length_range] at hcount
      exact hcount
    have hcap := h.store.capacity
    have hsize : UInt32.size = 2 ^ 32 := rfl
    omega
  rw [levelCount_eq, if_pos rfl, h.touch.counted s, UInt32.toNat_ofNat_of_lt' hlt]

theorem Whole.checkSide_ok (h : Whole b live free) (s : Side) (counted : Nat) :
    b.checkSide s counted = .ok
      (counted + (live.filter fun i => (b.nodes i).side = s).length) := by
  have hall : (live.filter fun i => (b.nodes i).side = s ∧
      (b.nodes i).slot ∈ List.range b.index.capacity) =
      live.filter fun i => (b.nodes i).side = s := by
    apply List.filter_congr
    intro i hi
    simp only [List.mem_range, h.store.slots i hi, and_true]
  have hlevels := h.checkLevels_ok s (List.range b.index.capacity) counted
    fun slot hslot => List.mem_range.mp hslot
  rw [sum_length_queueAt b live s List.nodup_range, hall] at hlevels
  have hcount := h.countP_occupied s
  unfold checkSide
  rw [hlevels]
  show (if (List.range b.index.capacity).countP (b.occupied s) ≠ b.levelCount s 0 then _ else _) = _
  rw [if_neg (not_not_intro hcount)]

/-- Every node is on one side. -/
theorem length_sides (b : MboBook) (live : List Nat) :
    (live.filter fun i => (b.nodes i).side = .bid).length +
      (live.filter fun i => (b.nodes i).side = .ask).length = live.length := by
  induction live with
  | nil => rfl
  | cons i is ih =>
    cases hside : (b.nodes i).side with
    | bid =>
      rw [List.filter_cons_of_pos (by rw [hside]; rfl),
        List.filter_cons_of_neg (by rw [hside]; exact Bool.false_ne_true), List.length_cons,
        List.length_cons]
      omega
    | ask =>
      rw [List.filter_cons_of_neg (by rw [hside]; exact Bool.false_ne_true),
        List.filter_cons_of_pos (by rw [hside]; rfl), List.length_cons, List.length_cons]
      omega

/-- **`check_invariants` finds nothing.** -/
theorem Whole.checkInvariants_ok (h : Whole b live free) : b.checkInvariants = .ok () := by
  have hcounted : 0 + (live.filter fun i => (b.nodes i).side = .bid).length +
      (live.filter fun i => (b.nodes i).side = .ask).length = b.live := by
    rw [Nat.zero_add, length_sides, h.live_eq]
  have hbid : b.bestBid = (List.range b.index.capacity).reverse.find? fun i => !(b.bids i).isEmpty :=
    (h.touch.best .bid).unique (isBest_find_down (b.occupied .bid) b.index.capacity)
  have hask : b.bestAsk = (List.range b.index.capacity).find? fun i => !(b.asks i).isEmpty := by
    have hup := isBest_find_up (b.occupied .ask) b.index.capacity 0
      fun i hi => absurd hi (Nat.not_lt_zero i)
    rw [Nat.zero_add, ← List.range_eq_range'] at hup
    exact (h.touch.best .ask).unique hup
  have hentries : (List.range (b.mapMask + 1)).countP (fun i => (b.map i).node ≠ nil) = b.live := by
    have hlen := h.indexed.length_entries h.store
    rw [h.live_eq, ← hlen, Scheme.entries, List.filter_map, List.length_map,
      List.countP_eq_length_filter]
    congr 2
    funext i
    exact decide_not
  unfold checkInvariants
  rw [h.checkSide_ok .bid 0]
  simp only [bind, Except.bind]
  rw [h.checkSide_ok .ask]
  simp only [hcounted, ← hbid, ← hask, hentries, ne_eq, not_true_eq_false, if_false]

/-! ## Every reachable state -/

/-- **The structures agree**: what the check looks at, and what it does not. -/
structure Consistent (b : MboBook) : Prop where
  /-- The source's own check passes. -/
  checked : b.checkInvariants = .ok ()
  /-- The free list ends, without a repetition, and holds the nodes on no level. -/
  free : ∃ free, Stack b.nextOf nil b.freeHead free ∧ free.Nodup ∧
    ∀ n, n ∈ free ↔ n < b.slab ∧ ¬b.OnLevel n
  /-- A map entry names a node on a level, of the entry's id. -/
  entries : ∀ p < b.mapMask + 1, (b.map p).node ≠ nil →
    b.OnLevel (b.map p).node ∧ (b.nodes (b.map p).node).orderId = (b.map p).orderId
  /-- A node's price is the price of the slot it records. -/
  prices : ∀ n, b.OnLevel n → (b.nodes n).price = b.index.priceAt (b.nodes n).slot
  /-- An add is refused by the slab exactly when it gets that far and the slab is full. -/
  slabFull : ∀ orderId side price quantity, b.index.Exact price b.keptPrices →
    ((b.add orderId side price quantity).1 = .error (.slabFull orderId b.slab) ↔
      quantity ≠ 0 ∧ b.get orderId = none ∧ (∀ e, ¬NoSlot b orderId price e) ∧
        b.len = b.capacity)

theorem Whole.length_eq (h : Whole b live free) : live.length + free.length = b.slab := by
  have hperm : (live ++ free).Perm (List.range b.slab) := by
    rw [List.perm_ext_iff_of_nodup h.store.nodup List.nodup_range]
    intro i
    rw [List.mem_range]
    exact ⟨h.store.bounded i, h.every i⟩
  have hlen := hperm.length_eq
  rw [List.length_append, List.length_range] at hlen
  exact hlen

theorem Whole.consistent (h : Whole b live free) : b.Consistent := by
  refine ⟨h.checkInvariants_ok, ⟨free, h.store.stack, (List.nodup_append.mp h.store.nodup).2.1,
    fun n => ?_⟩, fun p hp hnode => ?_, fun n hn => ?_, ?_⟩
  · rw [h.store.onLevel_iff]
    constructor
    · intro hn
      exact ⟨h.store.bounded n (List.mem_append_right _ hn), h.store.free_not_live hn⟩
    · rintro ⟨hlt, hdead⟩
      exact (List.mem_append.mp (h.every n hlt)).resolve_left hdead
  · have hentry : b.map p ∈ b.scheme.entries b.map :=
      mem_entries.mpr ⟨p, hp, rfl, decide_eq_false hnode⟩
    obtain ⟨n, hn, heq⟩ := (h.indexed.entries _).mp hentry
    rw [heq, h.store.onLevel_iff]
    exact ⟨hn, rfl⟩
  · exact (TickIndex.priceAt_eq (h.store.prices n (h.store.onLevel_iff.mp hn))).symm
  · intro orderId side price quantity hexact
    have hget := h.indexed.get_eq h.store orderId
    have hlen : b.len = live.length := h.live_eq
    have hslab : live.length + free.length = b.capacity := h.length_eq
    have hadd := h.add orderId side quantity hexact
    generalize (b.add orderId side price quantity).1 = r at hadd ⊢
    generalize (b.add orderId side price quantity).2 = b' at hadd
    cases hadd with
    | zero hzero => exact ⟨fun hr => (by cases hr), fun hall => absurd hzero hall.1⟩
    | duplicate _ hdup =>
      refine ⟨fun hr => (by cases hr), fun hall => ?_⟩
      rw [← hget, hall.2.1] at hdup
      cases hdup
    | noSlot _ _ hno =>
      refine ⟨fun hr => ?_, fun hall => absurd hno (hall.2.2.1 _)⟩
      cases hr
      rcases hno with ⟨-, heq⟩ | ⟨-, -, heq⟩ <;> cases heq
    | full hq hnew hslots hfree =>
      rw [hfree, List.length_nil] at hslab
      exact ⟨fun _ => ⟨hq, hget.trans hnew, hslots, by omega⟩, fun _ => rfl⟩
    | added _ _ _ hfree =>
      rw [hfree, List.length_cons] at hslab
      refine ⟨fun hr => (by cases hr), fun hall => ?_⟩
      have hfull := hall.2.2.2
      omega

/-- An operation, with the book it leaves. -/
def stepped (b : MboBook) (op : Op) : MboBook := (OrderBook.step b op).2

end MboBook

open MboBook in
/-- **The representation invariant holds in every reachable state**: after any operations from a
new book, successful or refused, where slots and nodes fit their 32 bits and no price makes the
tick arithmetic overflow. -/
theorem fast_book_consistent (cap : MboCapacity) (hcap : cap.Addressable) (ops : List Op)
    (hexact : Along stepped (fun b op => b.ExactFor op) (MboBook.new cap) ops) :
    (ops.foldl stepped (MboBook.new cap)).Consistent := by
  have hinv : ∃ live free, (ops.foldl stepped (MboBook.new cap)).Whole live free := by
    refine hexact.invariant (fun b => ∃ live free, b.Whole live free) ?_ ⟨_, _, whole_new hcap⟩
    rintro b op ⟨live, free, hwhole⟩ hop
    obtain ⟨live', free', hstepped⟩ := hwhole.step hop
    exact ⟨live', free', hstepped.whole⟩
  obtain ⟨live, free, hwhole⟩ := hinv
  exact hwhole.consistent

theorem fast_book_consistent_sliding :
    (slidingOps.foldl MboBook.stepped (MboBook.new ⟨8, 4, 100, 5⟩)).Consistent :=
  fast_book_consistent ⟨8, 4, 100, 5⟩ ⟨by decide, by decide⟩ slidingOps
    ⟨by decide +kernel, by decide +kernel, by decide +kernel, by decide +kernel,
      by decide +kernel, by decide +kernel, by decide +kernel, by decide +kernel,
      by decide +kernel, by decide +kernel, trivial⟩

/-- A node at slot 2 ^ 32 records slot 0, which stands for another price. -/
theorem fast_book_records_wide_slots_wrong :
    let cap : MboCapacity := ⟨4294967300, 4, 0, 1⟩
    let ops : List Op := [.add 1 .bid 2147483646 10]
    Along MboBook.stepped (fun b op => b.ExactFor op) (MboBook.new cap) ops ∧
      ¬(ops.foldl MboBook.stepped (MboBook.new cap)).Consistent := by
  refine ⟨⟨by decide +kernel, trivial⟩, fun h => ?_⟩
  have hlevel : ([Op.add 1 .bid 2147483646 10].foldl MboBook.stepped
      (MboBook.new ⟨4294967300, 4, 0, 1⟩)).OnLevel 0 :=
    ⟨.bid, 4294967296, by decide +kernel, by decide +kernel⟩
  have hprice := h.prices 0 hlevel
  revert hprice
  decide +kernel

end MarketData.Book
