import MarketData.Book.MboTouch

/-!
# `Book/MboWindow.lean` — moving the price window under the orders

`rebase` copies every cell, renumbers every live node and both caches, and changes the anchor. The
orders do not notice: each stays at its price, in its queue. What makes that true is that the
window is moved over everything occupied, which `occupiedExtent` has to see on both sides.

## A move in place

The cells of a side are shifted within their own array, so a cell may be read after it has been
overwritten if the copy runs the wrong way. `shiftCells` has both directions, as the source does,
and `shiftCells_apply` is the fact that either comes to the same: every cell is the one `shift`
slots further on, and those that nothing was copied to are empty. It is proved by induction over the
copy loop with the part already moved as the invariant, once for each direction.

Nodes and caches are easier: each is renumbered by the same shift, and a cached best slot that was
none stays none.

## What may go wrong

The copy drops a cell that falls off the end. `Covers` is the hypothesis under which none that is
occupied does, and `slotFor` establishes it from what `occupied_extent` answered. `NoSlot` and
`Slotted` are the two outcomes of `slot_for`: no slot and nothing touched, or a slot and a window
that may have moved. Both are stated for exact arithmetic only; a difference that wraps can pass the
width test and move the window away from its orders.
-/

set_option autoImplicit false

namespace MarketData.Book

open MarketData.Wire (Side)
open MarketData.Chain

namespace MboBook

/-! ## The cells -/

theorem foldl_shift_down {α : Type} (cap s : Nat) (hs : 0 < s) (d : α) (cells : Nat → α) (k : Nat) :
    (List.range k).foldl
      (fun cells i => Function.update cells i (if i + s < cap then cells (i + s) else d)) cells =
      fun j => if j < k then (if j + s < cap then cells (j + s) else d) else cells j := by
  induction k with
  | zero => rfl
  | succ k ih =>
    rw [List.range_succ, List.foldl_append, ih, List.foldl_cons, List.foldl_nil]
    funext j
    rw [Function.update_apply]
    by_cases heq : j = k
    · -- the cell read lies ahead of the ones already written
      have hahead : ¬k + s < k := by omega
      simp only [heq, if_true, Nat.lt_succ_self, hahead, if_false]
    · rw [if_neg heq]
      by_cases hlt : j < k
      · rw [if_pos hlt, if_pos (Nat.lt_succ_of_lt hlt)]
      · rw [if_neg hlt, if_neg (by omega)]

theorem foldl_shift_up {α : Type} (s : Nat) (d : α) (k : Nat) (cells : Nat → α) :
    (List.range k).reverse.foldl
      (fun cells i => Function.update cells i (if s ≤ i then cells (i - s) else d)) cells =
      fun j => if j < k then (if s ≤ j then cells (j - s) else d) else cells j := by
  induction k generalizing cells with
  | zero => rfl
  | succ k ih =>
    rw [List.range_succ, List.reverse_append, List.reverse_singleton, List.singleton_append,
      List.foldl_cons, ih]
    funext j
    by_cases hlt : j < k
    · rw [if_pos hlt, if_pos (Nat.lt_succ_of_lt hlt), Function.update_of_ne (by omega)]
    · rw [if_neg hlt, Function.update_apply]
      by_cases heq : j = k
      · rw [if_pos heq, heq, if_pos (Nat.lt_succ_self k)]
      · rw [if_neg heq, if_neg (by omega)]

theorem i64AsUsize_of_pos {x : Int64} (h : 0 < x) : (i64AsUsize x : Int) = x.toInt := by
  rw [Int64.lt_iff_toInt_lt, Int64.toInt_zero] at h
  have hlt := x.toInt_lt
  rw [i64AsUsize, Int.emod_eq_of_lt (by omega) (by omega)]
  omega

theorem i64AsUsize_neg {x : Int64} (h : x < 0) : (i64AsUsize (-x) : Int) = -x.toInt := by
  rw [Int64.lt_iff_toInt_lt, Int64.toInt_zero] at h
  have hle := x.le_toInt
  have hmod : (-x.toInt).bmod (2 ^ 64) % 2 ^ 64 = -x.toInt % 2 ^ 64 :=
    Int.bmod_emod (x := -x.toInt) (m := 2 ^ 64)
  rw [i64AsUsize, Int64.toInt_neg, hmod, Int.emod_eq_of_lt (by omega) (by omega)]
  omega

/-- **Every cell of a moved side is the one `shift` further on**, or empty. -/
theorem shiftCells_apply {cap : Nat} (shift : Int64) (cells : Nat → LevelCell) {j : Nat}
    (hj : j < cap) :
    shiftCells cap shift cells j =
      if 0 ≤ j + shift.toInt ∧ j + shift.toInt < cap then cells (j + shift.toInt).toNat
      else {} := by
  unfold shiftCells
  split
  · rename_i hpos
    have hs := i64AsUsize_of_pos hpos
    rw [Int64.lt_iff_toInt_lt, Int64.toInt_zero] at hpos
    rw [foldl_shift_down cap _ (by omega)]
    dsimp only
    rw [if_pos hj, ← hs]
    by_cases hin : j + i64AsUsize shift < cap
    · rw [if_pos hin, if_pos ⟨by omega, by omega⟩]
      congr 1
    · rw [if_neg hin, if_neg fun hboth => hin (by omega)]
  · split
    · rename_i hneg
      have hs := i64AsUsize_neg hneg
      rw [foldl_shift_up]
      dsimp only
      rw [if_pos hj]
      have hshift : shift.toInt = -i64AsUsize (-shift) := by omega
      rw [hshift]
      by_cases hin : i64AsUsize (-shift) ≤ j
      · rw [if_pos hin, if_pos ⟨by omega, by omega⟩]
        congr 1
        omega
      · rw [if_neg hin, if_neg fun hboth => hin (by omega)]
    · rename_i hpos hneg
      have hzero : shift.toInt = 0 := by
        rw [Int64.lt_iff_toInt_lt, Int64.toInt_zero] at hpos hneg
        omega
      rw [hzero, Int.add_zero, if_pos ⟨by omega, by omega⟩, Int.toNat_natCast]

/-! ## The nodes -/

theorem i64AsU32_slot {slot : Nat} {shift : Int64} (hslot : slot < 2 ^ 32)
    (hlo : 0 ≤ slot - shift.toInt) (hhi : slot - shift.toInt < 2 ^ 32) :
    i64AsU32 (Int64.ofNat slot - shift) = (slot - shift.toInt).toNat := by
  have hofNat : (Int64.ofNat slot).toInt = slot := Int64.toInt_ofNat_of_lt (by omega)
  have hsub : (Int64.ofNat slot - shift).toInt = slot - shift.toInt := by
    rw [toInt_sub_of_fits, hofNat]
    rw [hofNat]
    exact ⟨by omega, by omega⟩
  rw [i64AsU32, hsub, Int.emod_eq_of_lt hlo hhi]

theorem i64AsUsize_slot {slot : Nat} {shift : Int64} (hslot : slot < 2 ^ 32)
    (hlo : 0 ≤ slot - shift.toInt) (hhi : slot - shift.toInt < 2 ^ 32) :
    i64AsUsize (Int64.ofNat slot - shift) = (slot - shift.toInt).toNat := by
  have hofNat : (Int64.ofNat slot).toInt = slot := Int64.toInt_ofNat_of_lt (by omega)
  have hsub : (Int64.ofNat slot - shift).toInt = slot - shift.toInt := by
    rw [toInt_sub_of_fits, hofNat]
    rw [hofNat]
    exact ⟨by omega, by omega⟩
  rw [i64AsUsize, hsub, Int.emod_eq_of_lt hlo (by omega)]

section Move

variable {b : MboBook} {live free : List Nat} {moved : TickIndex} {shift : Int64}

theorem cells_moveWindow {s : Side} {j : Nat} (hj : j < b.index.capacity) :
    (b.moveWindow moved shift).cells s j =
      if 0 ≤ j + shift.toInt ∧ j + shift.toInt < b.index.capacity
      then b.cells s (j + shift.toInt).toNat else {} := by
  rw [← shiftCells_apply shift (b.cells s) hj]
  unfold moveWindow
  dsimp only
  split <;> cases s <;> rfl

theorem toInt_eq_zero {x : Int64} (h : ¬x ≠ 0) : x.toInt = 0 := by
  rw [Decidable.not_not.mp h]
  rfl

theorem nodes_moveWindow {i : Nat} (hslot : (b.nodes i).slot < 2 ^ 32 - 1)
    (hlo : 0 ≤ (b.nodes i).slot - shift.toInt) (hhi : (b.nodes i).slot - shift.toInt < 2 ^ 32) :
    (b.moveWindow moved shift).nodes i =
      { b.nodes i with slot := ((b.nodes i).slot - shift.toInt).toNat } := by
  unfold moveWindow
  dsimp only
  split
  · have hne : (b.nodes i).slot ≠ nil := by
      unfold nil
      omega
    show shiftNode shift (b.nodes i) = _
    rw [shiftNode, if_pos hne, i64AsU32_slot (by omega) hlo hhi]
  · rename_i hzero
    have hslot' : ((b.nodes i).slot - shift.toInt).toNat = (b.nodes i).slot := by
      rw [toInt_eq_zero hzero]
      omega
    rw [hslot']

theorem threads_moveWindow (b : MboBook) (moved : TickIndex) (shift : Int64) (i : Nat) :
    (b.moveWindow moved shift).nextOf i = b.nextOf i ∧
    (b.moveWindow moved shift).prevOf i = b.prevOf i := by
  unfold moveWindow nextOf prevOf
  dsimp only
  split
  · show (shiftNode shift (b.nodes i)).next = _ ∧ (shiftNode shift (b.nodes i)).prev = _
    rw [shiftNode]
    split <;> exact ⟨rfl, rfl⟩
  · exact ⟨rfl, rfl⟩

theorem best_moveWindow (s : Side) : (b.moveWindow moved shift).best s =
    (b.best s).map fun slot =>
      if shift ≠ 0 then i64AsUsize (Int64.ofNat slot - shift) else slot := by
  unfold moveWindow
  dsimp only
  split
  · cases s <;> rfl
  · rw [Option.map_id']
    cases s <;> rfl

/-- What the move of a window does not touch. -/
theorem moveWindow_frame (b : MboBook) (moved : TickIndex) (shift : Int64) :
    (b.moveWindow moved shift).index = moved ∧
    (b.moveWindow moved shift).slab = b.slab ∧
    (b.moveWindow moved shift).freeHead = b.freeHead ∧
    (b.moveWindow moved shift).map = b.map ∧ (b.moveWindow moved shift).mapMask = b.mapMask ∧
    (b.moveWindow moved shift).live = b.live ∧
    ∀ s, (b.moveWindow moved shift).levels s = b.levels s := by
  unfold moveWindow
  dsimp only
  split <;> exact ⟨rfl, rfl, rfl, rfl, rfl, rfl, fun s => by cases s <;> rfl⟩

end Move

/-! ## The book -/

namespace Store

variable {b : MboBook} {live free : List Nat} {moved : TickIndex} {shift : Int64}

/-- The window is moved over every live node. -/
def Covers (b : MboBook) (live : List Nat) (shift : Int64) : Prop :=
  ∀ i ∈ live, 0 ≤ (b.nodes i).slot - shift.toInt ∧
    (b.nodes i).slot - shift.toInt < b.index.capacity

theorem nodes_moved (h : Store b live free) (hcover : Covers b live shift) {i : Nat}
    (hi : i ∈ live) :
    (b.moveWindow moved shift).nodes i =
      { b.nodes i with slot := ((b.nodes i).slot - shift.toInt).toNat } := by
  obtain ⟨hlo, hhi⟩ := hcover i hi
  have hslot := h.slots i hi
  have hcap := h.capacity
  exact nodes_moveWindow (by omega) hlo (by omega)

theorem queueAt_moved (h : Store b live free) (hcover : Covers b live shift) (s : Side)
    (j : Nat) :
    (b.moveWindow moved shift).queueAt live s j =
      if 0 ≤ j + shift.toInt then b.queueAt live s (j + shift.toInt).toNat else [] := by
  split
  · rename_i hlo
    apply List.filter_congr
    intro i hi
    rw [h.nodes_moved hcover hi]
    congr 1
    have hi := hcover i hi
    simp only [eq_iff_iff, and_congr_right_iff]
    intro _
    omega
  · rename_i hlo
    rw [queueAt, List.filter_eq_nil_iff]
    intro i hi
    rw [h.nodes_moved hcover hi, decide_eq_true_iff]
    have hi := hcover i hi
    have hslot : 0 ≤ ((b.nodes i).slot : Int) := Int.natCast_nonneg _
    rintro ⟨-, hat⟩
    dsimp only at hat
    omega

/-- **The orders do not notice a move of the window.** -/
theorem moveWindow (h : Store b live free) (hcover : Covers b live shift) (hsane : moved.Sane)
    (hcap : moved.capacity = b.index.capacity)
    (hgrid : ∀ p k, b.index.OnGrid p k ↔ moved.OnGrid p (k - shift.toInt)) :
    Store (b.moveWindow moved shift) live free ∧
      (b.moveWindow moved shift).ordersOf live = b.ordersOf live := by
  obtain ⟨hindex, hslab, hfree, -, -, -, -⟩ := moveWindow_frame b moved shift
  have hnode : ∀ i ∈ live, (b.moveWindow moved shift).nodes i = _ := fun i hi =>
    h.nodes_moved hcover hi
  have horder : ∀ i ∈ live, ((b.moveWindow moved shift).nodes i).order = (b.nodes i).order := by
    intro i hi
    rw [hnode i hi]
    rfl
  have hthreads := threads_moveWindow b moved shift
  have horders := ordersOf_congr horder
  refine ⟨?_, horders⟩
  constructor
  · rw [hindex]
    exact hsane
  · rw [hindex, hcap]
    exact h.capacity
  · rw [hslab]
    exact h.slab
  · exact h.nodup
  · rw [hslab]
    exact h.bounded
  · rw [hfree]
    exact h.stack.congr fun i _ => (hthreads i).1
  · rw [horders]
    exact h.valid
  · intro i hi
    have hi' := hcover i hi
    rw [hnode i hi, hindex, hcap]
    dsimp only
    omega
  · intro i hi
    have hi' := hcover i hi
    rw [hnode i hi, hindex]
    dsimp only
    rw [Int.toNat_of_nonneg hi'.1]
    exact (hgrid _ _).mp (h.prices i hi)
  · intro s j hj
    rw [hindex, hcap] at hj
    rw [cells_moveWindow hj, h.queueAt_moved hcover]
    by_cases hlo : 0 ≤ j + shift.toInt
    · rw [if_pos hlo]
      by_cases hhi : j + shift.toInt < b.index.capacity
      · rw [if_pos ⟨hlo, hhi⟩]
        refine (h.cells s _ (by omega)).congr (fun i hi => ?_) (fun i _ => (hthreads i).1)
          (fun i _ => (hthreads i).2)
        exact horder i (mem_queueAt.mp hi).1
      · rw [if_neg fun hboth => hhi hboth.2]
        have hnil : b.queueAt live s (j + shift.toInt).toNat = [] := by
          rw [List.eq_nil_iff_forall_not_mem]
          intro i hi
          obtain ⟨hlive, -, hat⟩ := mem_queueAt.mp hi
          have := h.slots i hlive
          omega
        rw [hnil]
        exact ⟨queue_nil .., rfl, rfl⟩
    · rw [if_neg hlo, if_neg fun hboth => hlo hboth.1]
      exact ⟨queue_nil .., rfl, rfl⟩

/-- Where a slot of the moved window is occupied. -/
theorem occupied_moved (h : Store b live free) (hcover : Covers b live shift)
    (h' : Store (b.moveWindow moved shift) live free) {s : Side} {j : Nat}
    (hj : j < (b.moveWindow moved shift).index.capacity) :
    (b.moveWindow moved shift).occupied s j = true ↔
      ∃ i ∈ live, (b.nodes i).side = s ∧ (b.nodes i).slot - shift.toInt = j := by
  rw [h'.occupied_iff hj]
  constructor
  · rintro ⟨i, hi, hside, hat⟩
    have hlo := (hcover i hi).1
    rw [h.nodes_moved hcover hi] at hside hat
    dsimp only at hat
    exact ⟨i, hi, hside, by omega⟩
  · rintro ⟨i, hi, hside, hat⟩
    refine ⟨i, hi, ?_⟩
    rw [h.nodes_moved hcover hi]
    refine ⟨hside, ?_⟩
    dsimp only
    omega

theorem best_moved (h : Store b live free) (hcover : Covers b live shift)
    (hcap : moved.capacity = b.index.capacity)
    (h' : Store (b.moveWindow moved shift) live free) (hbest : Best b b.occupied) :
    Best (b.moveWindow moved shift) (b.moveWindow moved shift).occupied := by
  obtain ⟨hindex, -⟩ := moveWindow_frame b moved shift
  intro s
  have hs := hbest s
  have hocc := fun {j} => h.occupied_moved hcover h' (s := s) (j := j)
  rw [hindex, hcap] at hocc ⊢
  rw [best_moveWindow]
  cases hcached : b.best s with
  | none =>
    rw [hcached] at hs
    intro j hj
    rw [← Bool.not_eq_true, hocc hj]
    rintro ⟨i, hi, hside, -⟩
    have hslot := h.slots i hi
    have hempty := hs _ hslot
    rw [(h.occupied_iff hslot).mpr ⟨i, hi, hside, rfl⟩] at hempty
    cases hempty
  | some slot =>
    rw [hcached] at hs
    obtain ⟨hslot, hoccupied, hle⟩ := hs
    obtain ⟨n, hn, hside, hat⟩ := (h.occupied_iff hslot).mp hoccupied
    obtain ⟨hlo, hhi⟩ := hcover n hn
    have hsmall := h.capacity
    have hmoved : (if shift ≠ 0 then i64AsUsize (Int64.ofNat slot - shift) else slot) =
        (slot - shift.toInt).toNat := by
      split
      · exact i64AsUsize_slot (by omega) (by omega) (by omega)
      · rename_i hzero
        rw [toInt_eq_zero hzero]
        omega
    rw [Option.map_some, hmoved]
    refine ⟨by omega, (hocc (by omega)).mpr ⟨n, hn, hside, by omega⟩, fun j hj hoccj => ?_⟩
    obtain ⟨m, hm, hmside, hmat⟩ := (hocc hj).mp hoccj
    have hmslot := h.slots m hm
    have hgood := hle _ hmslot ((h.occupied_iff hmslot).mpr ⟨m, hm, hmside, rfl⟩)
    cases s with
    | bid =>
      show j ≤ _
      have : (b.nodes m).slot ≤ slot := hgood
      omega
    | ask =>
      show _ ≤ j
      have : slot ≤ (b.nodes m).slot := hgood
      omega

theorem counted_moved (h : Store b live free) (hcover : Covers b live shift)
    (hcap : moved.capacity = b.index.capacity)
    (h' : Store (b.moveWindow moved shift) live free) (hcounted : Counted b) :
    Counted (b.moveWindow moved shift) := by
  obtain ⟨hindex, -, -, -, -, -, hlevels⟩ :=
    moveWindow_frame b moved shift
  intro s
  have hocc := fun {j} => h.occupied_moved hcover h' (s := s) (j := j)
  rw [hlevels, hcounted s]
  rw [hindex, hcap] at hocc ⊢
  congr 1
  -- the occupied slots, moved, are the slots occupied after the move
  have hperm : (((List.range b.index.capacity).filter (b.occupied s)).map fun i : Nat =>
      ((i : Int) - shift.toInt).toNat).Perm
      ((List.range b.index.capacity).filter ((b.moveWindow moved shift).occupied s)) := by
    rw [List.perm_ext_iff_of_nodup]
    · intro j
      simp only [List.mem_map, List.mem_filter, List.mem_range]
      constructor
      · rintro ⟨i, ⟨hi, hocci⟩, rfl⟩
        obtain ⟨n, hn, hside, rfl⟩ := (h.occupied_iff hi).mp hocci
        obtain ⟨hlo, hhi⟩ := hcover n hn
        exact ⟨by omega, (hocc (by omega)).mpr ⟨n, hn, hside, by omega⟩⟩
      · rintro ⟨hj, hoccj⟩
        obtain ⟨n, hn, hside, hat⟩ := (hocc hj).mp hoccj
        have hslot := h.slots n hn
        exact ⟨_, ⟨hslot, (h.occupied_iff hslot).mpr ⟨n, hn, hside, rfl⟩⟩, by omega⟩
    · refine List.Nodup.map_on (fun i hi i' hi' heq => ?_) (List.nodup_range.filter _)
      simp only [List.mem_filter, List.mem_range] at hi hi'
      obtain ⟨n, hn, -, rfl⟩ := (h.occupied_iff hi.1).mp hi.2
      obtain ⟨n', hn', -, rfl⟩ := (h.occupied_iff hi'.1).mp hi'.2
      have hlo := (hcover n hn).1
      have hlo' := (hcover n' hn').1
      omega
    · exact List.nodup_range.filter _
  rw [List.countP_eq_length_filter, List.countP_eq_length_filter, ← hperm.length_eq,
    List.length_map]

end Store

end MboBook

namespace TickIndex

variable {t : TickIndex} {p q : Int64} {k l : Int}

/-- Prices on the grid are ordered as their places are. -/
theorem OnGrid.le_iff (ht : t.Sane) (hp : t.OnGrid p k) (hq : t.OnGrid q l) :
    p.toInt ≤ q.toInt ↔ k ≤ l := by
  have htick := ht.tick
  unfold OnGrid at hp hq
  rw [hp, hq, Int.add_le_add_iff_left]
  exact Int.mul_le_mul_iff_of_pos_right htick

theorem OnGrid.min (ht : t.Sane) (hp : t.OnGrid p k) (hq : t.OnGrid q l) :
    t.OnGrid (min p q) (min k l) := by
  have hle := hp.le_iff ht hq
  unfold OnGrid
  rw [toInt_min]
  by_cases hkl : k ≤ l
  · rw [Int.min_eq_left hkl, Int.min_eq_left (hle.mpr hkl)]
    exact hp
  · rw [Int.min_eq_right (by omega), Int.min_eq_right (by omega)]
    exact hq

theorem OnGrid.max (ht : t.Sane) (hp : t.OnGrid p k) (hq : t.OnGrid q l) :
    t.OnGrid (max p q) (max k l) := by
  have hle := hp.le_iff ht hq
  unfold OnGrid
  rw [toInt_max]
  by_cases hkl : k ≤ l
  · rw [Int.max_eq_right hkl, Int.max_eq_right (hle.mpr hkl)]
    exact hq
  · rw [Int.max_eq_left (by omega), Int.max_eq_left (by omega)]
    exact hp

end TickIndex

namespace MboBook

open TickIndex

namespace Store

variable {b : MboBook} {live free : List Nat} {price : Int64}

/-- The two scans find the lowest and the highest slot that either side occupies. -/
theorem occupiedExtent_isBest (b : MboBook) :
    IsBest .ask b.index.capacity (fun i => b.occupied .bid i || b.occupied .ask i)
        b.occupiedExtent.1 ∧
      IsBest .bid b.index.capacity (fun i => b.occupied .bid i || b.occupied .ask i)
        b.occupiedExtent.2 := by
  let occ (i : Nat) : Bool := b.occupied .bid i || b.occupied .ask i
  constructor
  · have hup := isBest_find_up occ b.index.capacity 0 fun i hi => absurd hi (Nat.not_lt_zero i)
    rw [Nat.zero_add, ← List.range_eq_range'] at hup
    exact hup
  · exact isBest_find_down occ b.index.capacity

/-- The lowest and the highest occupied slot bound every live node, on either side, and are slots
of live nodes themselves. -/
theorem occupiedExtent_spec (h : Store b live free) :
    match b.occupiedExtent with
    | (some low, some high) => low < b.index.capacity ∧ high < b.index.capacity ∧ low ≤ high ∧
        (∀ i ∈ live, low ≤ (b.nodes i).slot ∧ (b.nodes i).slot ≤ high) ∧
        (∃ i ∈ live, (b.nodes i).slot = low) ∧ ∃ i ∈ live, (b.nodes i).slot = high
    | _ => live = [] := by
  let occ (i : Nat) : Bool := b.occupied .bid i || b.occupied .ask i
  obtain ⟨hlow, hhigh⟩ := occupiedExtent_isBest b
  have hocc : ∀ i ∈ live, occ (b.nodes i).slot = true := by
    intro i hi
    have hside := (h.occupied_iff (h.slots i hi)).mpr ⟨i, hi, rfl, rfl⟩
    show (_ || _) = true
    cases hs : (b.nodes i).side with
    | bid => rw [hs] at hside; rw [hside, Bool.true_or]
    | ask => rw [hs] at hside; rw [hside, Bool.or_true]
  have hheld : ∀ slot < b.index.capacity, occ slot = true → ∃ i ∈ live, (b.nodes i).slot = slot := by
    intro slot hslot hoccupied
    have hside : ∃ s, b.occupied s slot = true := by
      rcases Bool.or_eq_true _ _ ▸ hoccupied with hbid | hask
      · exact ⟨_, hbid⟩
      · exact ⟨_, hask⟩
    obtain ⟨s, hs⟩ := hside
    obtain ⟨i, hi, -, heq⟩ := (h.occupied_iff hslot).mp hs
    exact ⟨i, hi, heq⟩
  have hempty : (∀ i < b.index.capacity, occ i = false) → live = [] := by
    intro hnone
    rw [List.eq_nil_iff_forall_not_mem]
    intro i hi
    have hoccupied := hocc i hi
    rw [hnone _ (h.slots i hi)] at hoccupied
    cases hoccupied
  cases hextent : b.occupiedExtent with
  | mk lo hi =>
    rw [hextent] at hlow hhigh
    cases lo with
    | none => exact hempty hlow
    | some l =>
      cases hi with
      | none => exact hempty hhigh
      | some u =>
        obtain ⟨hl, hoccl, hle⟩ := hlow
        obtain ⟨hu, hoccu, hge⟩ := hhigh
        refine ⟨hl, hu, hle u hu hoccu, fun i hi => ?_, hheld l hl hoccl, hheld u hu hoccu⟩
        have hslot := h.slots i hi
        exact ⟨hle _ hslot (hocc i hi), hge _ hslot (hocc i hi)⟩

/-- The price at the slot of a live node is the node's. -/
theorem priceAt_slot (h : Store b live free) {i : Nat} (hi : i ∈ live) :
    b.index.priceAt (b.nodes i).slot = (b.nodes i).price :=
  priceAt_eq (h.prices i hi)

/-- The prices a move has to keep bound every live node, on either side, and are prices of live
nodes themselves. -/
theorem keptPrices_spec (h : Store b live free) :
    match b.keptPrices with
    | none => live = []
    | some (lo, hi) => ∃ low high : Nat, b.index.OnGrid lo low ∧ b.index.OnGrid hi high ∧
        low ≤ high ∧ (∀ i ∈ live, low ≤ (b.nodes i).slot ∧ (b.nodes i).slot ≤ high) ∧
        (∃ i ∈ live, (b.nodes i).price = lo) ∧ ∃ i ∈ live, (b.nodes i).price = hi := by
  have hextent := h.occupiedExtent_spec
  unfold keptPrices
  cases hspan : b.occupiedExtent with
  | mk lo hi =>
    rw [hspan] at hextent
    cases lo with
    | none => exact hextent
    | some l =>
      cases hi with
      | none => exact hextent
      | some u =>
        obtain ⟨-, -, hle, hbound, ⟨i, hi, hlow⟩, j, hj, hhigh⟩ := hextent
        have hprice := h.priceAt_slot hi
        have hprice' := h.priceAt_slot hj
        rw [hlow] at hprice
        rw [hhigh] at hprice'
        refine ⟨l, u, ?_, ?_, hle, hbound, ⟨i, hi, hprice.symm⟩, j, hj, hprice'.symm⟩
        · rw [hprice, ← hlow]
          exact h.prices i hi
        · rw [hprice', ← hhigh]
          exact h.prices j hj

/-- The range a move for `price` has to cover. -/
theorem cover_spec (h : Store b live free) {k : Int} (hk : b.index.OnGrid price k) :
    ∃ low high : Int, b.index.OnGrid (cover price b.keptPrices).1 low ∧
      b.index.OnGrid (cover price b.keptPrices).2 high ∧ low ≤ k ∧ k ≤ high ∧
      ∀ i ∈ live, low ≤ (b.nodes i).slot ∧ (b.nodes i).slot ≤ high := by
  have hkept := h.keptPrices_spec
  cases hprices : b.keptPrices with
  | none =>
    rw [hprices] at hkept
    dsimp only at hkept
    refine ⟨k, k, hk, hk, Int.le_refl k, Int.le_refl k, fun i hi => ?_⟩
    rw [hkept] at hi
    exact absurd hi List.not_mem_nil
  | some prices =>
    obtain ⟨lo, hi⟩ := prices
    rw [hprices] at hkept
    obtain ⟨low, high, hlo, hhi, -, hbound, -⟩ := hkept
    refine ⟨min low k, max high k, hlo.min h.sane hk, hhi.max h.sane hk, by omega, by omega,
      fun i hi => ?_⟩
    have := hbound i hi
    omega

/-- Both ends of the range are the price itself or the price of a live node. -/
theorem cover_mem (h : Store b live free) (price : Int64) :
    ((cover price b.keptPrices).1 = price ∨
      ∃ i ∈ live, (b.nodes i).price = (cover price b.keptPrices).1) ∧
    ((cover price b.keptPrices).2 = price ∨
      ∃ i ∈ live, (b.nodes i).price = (cover price b.keptPrices).2) := by
  have hkept := h.keptPrices_spec
  cases hprices : b.keptPrices with
  | none => exact ⟨Or.inl rfl, Or.inl rfl⟩
  | some prices =>
    obtain ⟨lo, hi⟩ := prices
    rw [hprices] at hkept
    obtain ⟨-, -, -, -, -, -, hlo, hhi⟩ := hkept
    constructor
    · show (if lo ≤ price then lo else price) = price ∨ ∃ i ∈ live,
        (b.nodes i).price = if lo ≤ price then lo else price
      split
      · exact Or.inr hlo
      · exact Or.inl rfl
    · show (if hi ≤ price then price else hi) = price ∨ ∃ i ∈ live,
        (b.nodes i).price = if hi ≤ price then price else hi
      split
      · exact Or.inl rfl
      · exact Or.inr hhi

end Store

/-- A slot was found for `price`, the window having moved under the orders or not. -/
structure Slotted (b b' : MboBook) (live free : List Nat) (price : Int64) (slot : Nat) : Prop where
  store : Store b' live free
  touch : Touch b'
  orders : b'.ordersOf live = b.ordersOf live
  slot_lt : slot < b'.index.capacity
  onGrid : b'.index.OnGrid price slot
  nodes : ∀ i ∈ live, (b'.nodes i).order = (b.nodes i).order
  map : b'.map = b.map
  mapMask : b'.mapMask = b.mapMask
  live : b'.live = b.live
  slab : b'.slab = b.slab

/-- What stops a book from finding a slot: the price is off the grid, or the window cannot be
moved over it. -/
def NoSlot (b : MboBook) (orderId : UInt64) (price : Int64) (e : BookError) : Prop :=
  (b.index.slot price = .offGrid ∧ e = .priceOffGrid orderId price) ∨
  (b.index.slot price = .outside ∧ b.index.rebaseFor price b.keptPrices = none ∧
    e = .priceOutOfRange orderId price)

/-- **Finding a slot** moves the window if it has to, and fails only where no window will do. -/
theorem Store.slotFor {b : MboBook} {live free : List Nat} {price : Int64} (h : Store b live free)
    (ht : Touch b) (hexact : b.index.Exact price b.keptPrices) (orderId : UInt64) :
    (∃ slot b', b.slotFor orderId price = (.ok slot, b') ∧ Slotted b b' live free price slot) ∨
    ∃ e, b.slotFor orderId price = (.error e, b) ∧ NoSlot b orderId price e := by
  unfold MboBook.slotFor
  cases hslot : b.index.slot price with
  | «at» i =>
    obtain ⟨hi, hgrid⟩ := (slot_eq_at h.sane hexact.offset).mp hslot
    exact Or.inl ⟨i, b, rfl, h, ht, rfl, hi, hgrid, fun _ _ => rfl, rfl, rfl, rfl, rfl⟩
  | offGrid => exact Or.inr ⟨_, rfl, Or.inl ⟨hslot, rfl⟩⟩
  | outside =>
    obtain ⟨k, hk⟩ := slot_eq_outside h.sane hexact.offset hslot
    unfold rebase
    cases hrebase : b.index.rebaseFor price b.keptPrices with
    | none => exact Or.inr ⟨_, rfl, Or.inr ⟨hslot, hrebase, rfl⟩⟩
    | some found =>
      obtain ⟨moved, shift⟩ := found
      obtain ⟨low, high, hlow, hhigh, hlowk, hhighk, hbound⟩ := h.cover_spec hk
      obtain ⟨hsane, hcap, hfits, hgrid, hkeep⟩ :=
        rebaseFor_spec h.sane (hexact.movable hslot) hlow hhigh (Int.le_trans hlowk hhighk) hrebase
      have hcover : Covers b live shift := fun i hi =>
        hkeep _ (hbound i hi).1 (hbound i hi).2
      obtain ⟨hstore, horders⟩ := h.moveWindow hcover hsane hcap hgrid
      obtain ⟨hindex, hslab, -, hmap, hmask, hlive, -⟩ :=
        moveWindow_frame b moved shift
      -- the price itself lies in the range the window was moved over
      obtain ⟨hklo, hkhi⟩ := hkeep k hlowk hhighk
      have hkgrid : moved.OnGrid price ((k - shift.toInt).toNat : Nat) := by
        rw [Int.toNat_of_nonneg hklo]
        exact (hgrid price k).mp hk
      have hfound : (b.moveWindow moved shift).index.slot price =
          .at (k - shift.toInt).toNat := by
        rw [hindex]
        exact (slot_eq_at hsane hfits).mpr ⟨by omega, hkgrid⟩
      refine Or.inl ⟨(k - shift.toInt).toNat, b.moveWindow moved shift, ?_, hstore, ?_, horders, ?_,
        ?_, fun i hi => ?_, hmap, hmask, hlive, hslab⟩
      · dsimp only
        rw [hfound]
      · exact ⟨h.best_moved hcover hcap hstore ht.best, h.counted_moved hcover hcap hstore ht.counted⟩
      · rw [hindex, hcap]
        omega
      · rw [hindex]
        exact hkgrid
      · rw [h.nodes_moved hcover hi]
        rfl

end MboBook

end MarketData.Book
