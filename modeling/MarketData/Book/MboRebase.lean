import MarketData.Book.MboExtreme

/-!
# `Book/MboRebase.lean` — a rebase is complete and lossless

Wherever no difference or product of it overflows, a rebase succeeds just where the window is wide
enough for what it has to cover, keeps the grid, and leaves every level cell and every node at the
slot of its price. The cells are compared by price and not by slot (`cellAt`): a cell that was
dropped, or was copied twice, would show at some price.

## Two halves

* **Complete**: `TickIndex::rebase_for` on its own. Given an occupied range on the grid, or none, it
  succeeds exactly where the range together with the price fits the window, and the window it
  answers contains all of it (`Moves`). For a book without orders it is `centred_on(price)`.
* **Lossless**: `MboBook::rebase` copies the cells in place, front to back or back to front
  depending on the direction, empties those that were left behind, renumbers the nodes and the
  cached best slots. Comparing by price makes the statement independent of the direction.

The first half is about numbers and the second about arrays; what joins them is that the range given
to `rebase_for` is the one `occupied_extent` found, on both sides of the book.

Slots are written to nodes as 32-bit numbers, so the window has to be smaller than 2^32; `wideBid`
is a node that a larger window misnumbers. The bound on the slab is the one the representation
invariant carries for node numbers, and no part of the statement depends on it otherwise.
-/

set_option autoImplicit false

namespace MarketData.Book

open MarketData.Wire (Side)

namespace TickIndex

variable {t t' : TickIndex} {price : Int64} {keep : Option (Int64 × Int64)}

/-- No step of moving the window for the price, or of looking the price up afterwards,
overflows. -/
def NoOverflow (t : TickIndex) (price : Int64) (keep : Option (Int64 × Int64)) : Prop :=
  ∃ r, t.rebaseForChecked price keep = some r ∧ ∀ moved shift, r = some (moved, shift) →
    ∃ found, moved.slotChecked price = some found

/-- The lowest and the highest occupied price, in order and on the grid. -/
def Extent (t : TickIndex) (keep : Option (Int64 × Int64)) : Prop :=
  ∀ lo hi, keep = some (lo, hi) → ∃ low high : Int, t.OnGrid lo low ∧ t.OnGrid hi high ∧ low ≤ high

/-- The prices a moved window is to contain. -/
def wanted (price : Int64) : Option (Int64 × Int64) → List Int64
  | some (lo, hi) => [price, lo, hi]
  | none => [price]

/-- The number of slots from the lowest of them to the highest. -/
def spanOf (t : TickIndex) (price : Int64) (keep : Option (Int64 × Int64)) : Int :=
  ((cover price keep).2.toInt - (cover price keep).1.toInt) / t.tick.toInt + 1

/-- `t'` is `t`, moved so that it contains the prices. -/
structure Moves (t t' : TickIndex) (price : Int64) (keep : Option (Int64 × Int64)) : Prop where
  tick : t'.tick = t.tick
  capacity : t'.capacity = t.capacity
  grid : ∀ p, (∃ k, t'.OnGrid p k) ↔ ∃ k, t.OnGrid p k
  contains : ∀ p ∈ wanted price keep, ∃ i, i < t'.capacity ∧ t'.OnGrid p (i : Nat)
  found : ∃ i, t'.slot price = .at i
  centred : keep = none → t' = centredOn price t.tick t.capacity

theorem slotChecked_isSome : (∃ found, t.slotChecked price = some found) ↔
    Fits (price.toInt - t.anchor.toInt) := by
  constructor
  · rintro ⟨found, h⟩
    exact (slotChecked_eq_some.mp h).1
  · intro h
    exact ⟨_, slotChecked_eq_some.mpr ⟨h, rfl⟩⟩

/-- The range to be covered, in slots. -/
theorem Extent.cover (ht : t.Sane) (h : t.Extent keep) {k : Int} (hk : t.OnGrid price k) :
    ∃ low high : Int, t.OnGrid (cover price keep).1 low ∧ t.OnGrid (cover price keep).2 high ∧
      low ≤ k ∧ k ≤ high ∧
      ∀ p ∈ wanted price keep, ∃ l, t.OnGrid p l ∧ low ≤ l ∧ l ≤ high := by
  cases keep with
  | none =>
    refine ⟨k, k, hk, hk, Int.le_refl k, Int.le_refl k, fun p hp => ?_⟩
    obtain rfl := List.mem_singleton.mp hp
    exact ⟨k, hk, Int.le_refl k, Int.le_refl k⟩
  | some prices =>
    obtain ⟨lo, hi⟩ := prices
    obtain ⟨low, high, hlo, hhi, hle⟩ := h lo hi rfl
    refine ⟨min low k, max high k, hlo.min ht hk, hhi.max ht hk, by omega, by omega,
      fun p hp => ?_⟩
    simp only [wanted, List.mem_cons, List.not_mem_nil, or_false] at hp
    rcases hp with rfl | rfl | rfl
    · exact ⟨k, hk, by omega, by omega⟩
    · exact ⟨low, hlo, by omega, by omega⟩
    · exact ⟨high, hhi, by omega, by omega⟩

/-- For a book with nothing on it a rebase centres the window, as a new book does. -/
theorem rebaseFor_none (ht : t.Sane) (hcap : 2 ≤ t.capacity) {shift : Int64}
    (h : t.rebaseFor price none = some (t', shift)) :
    t' = centredOn price t.tick t.capacity := by
  have htick := ht.tick
  have hspan : ((price - price) / t.tick + 1).toInt = 1 := by
    rw [Int64.sub_self, Int64.toInt_add, toInt_div_of_pos htick, Int64.toInt_zero, Int.zero_tdiv]
    rfl
  have hhalf : (Int64.ofNat t.capacity - ((price - price) / t.tick + 1) + 1) / 2 =
      Int64.ofNat (t.capacity / 2) := by
    rw [← Int64.toInt_inj, (half_eq ht hspan (by omega) (by omega)).2,
      Int64.toInt_ofNat_of_lt (by have := ht.capacity; omega)]
    omega
  unfold rebaseFor cover at h
  dsimp only at h
  split at h
  · cases h
  · split at h
    · cases h
    · cases h
      have hmax : max t.tick 1 = t.tick := by
        rw [← Int64.toInt_inj, toInt_max, Int64.toInt_one]
        omega
      have hmax' : max t.capacity 2 = t.capacity := by omega
      unfold centredOn
      dsimp only
      rw [hhalf, hmax, hmax']

/-- **A rebase is complete**: it succeeds just where the window is wide enough, and lands where it
should. -/
theorem rebaseFor_complete (ht : t.Sane) (hcap : 2 ≤ t.capacity) {k : Int}
    (hk : t.OnGrid price k) (hextent : t.Extent keep) (hno : t.NoOverflow price keep) :
    ((t.rebaseFor price keep).isSome ↔ t.spanOf price keep ≤ t.capacity) ∧
      ∀ t' shift, t.rebaseFor price keep = some (t', shift) → t.Moves t' price keep := by
  obtain ⟨low, high, hlow, hhigh, hlowk, hkhigh, hwanted⟩ := hextent.cover ht hk
  have hle := Int.le_trans hlowk hkhigh
  have hmovable : t.Movable price keep := by
    obtain ⟨r, hr, hnext⟩ := hno
    exact (rebaseForChecked_iff ht hk hlow hhigh hle).mp
      ⟨r, hr, fun moved shift heq => slotChecked_isSome.mp (hnext moved shift heq)⟩
  have hspan : t.spanOf price keep = high - low + 1 := by
    rw [spanOf, (movedAnchor_eq ht hlow hhigh).1]
  constructor
  · rw [hspan]
    constructor
    · intro hsome
      obtain ⟨⟨t', shift⟩, h⟩ := Option.isSome_iff_exists.mp hsome
      exact (rebaseFor_exact ht hmovable hlow hhigh hle h).1
    · intro hwide
      exact Option.isSome_iff_ne_none.mpr (rebaseFor_succeeds ht hmovable hk hlow hhigh hle hwide)
  · intro t' shift h
    obtain ⟨-, htick', -, -, -, -⟩ := rebaseFor_exact ht hmovable hlow hhigh hle h
    obtain ⟨hsane, hcap', hfits, hgrid, hkeep⟩ := rebaseFor_spec ht hmovable hlow hhigh hle h
    have hcontains : ∀ p ∈ wanted price keep, ∃ i, i < t'.capacity ∧ t'.OnGrid p (i : Nat) := by
      intro p hp
      obtain ⟨l, hl, hlowl, hlhigh⟩ := hwanted p hp
      obtain ⟨hfirst, hlast⟩ := hkeep l hlowl hlhigh
      refine ⟨(l - shift.toInt).toNat, by omega, ?_⟩
      rw [Int.toNat_of_nonneg hfirst]
      exact (hgrid p l).mp hl
    refine ⟨htick', hcap', fun p => ⟨?_, ?_⟩, hcontains, ?_, ?_⟩
    · rintro ⟨l, hl⟩
      refine ⟨l + shift.toInt, (hgrid p _).mpr ?_⟩
      rw [Int.add_sub_cancel]
      exact hl
    · rintro ⟨l, hl⟩
      exact ⟨_, (hgrid p l).mp hl⟩
    · obtain ⟨i, hi⟩ := hcontains price (by cases keep <;> exact List.mem_cons_self)
      exact ⟨i, (slot_eq_at hsane hfits).mpr hi⟩
    · rintro rfl
      exact rebaseFor_none ht hcap h

end TickIndex

namespace MboBook

open TickIndex

variable {b b' : MboBook} {live free : List Nat} {price : Int64}

/-- The level cell of a price on one side, at whatever slot the window has it. -/
def cellAt (b : MboBook) (s : Side) (price : Int) : LevelCell :=
  let offset := price - b.index.anchor.toInt
  let slot := offset / b.index.tick.toInt
  if b.index.tick.toInt ∣ offset ∧ 0 ≤ slot ∧ slot < b.index.capacity then b.cells s slot.toNat
  else {}

/-- Nothing that rested has moved: the level cell of every price is the one it was, and every node
is at the slot of its price. -/
structure Rebased (b b' : MboBook) (live : List Nat) : Prop where
  cells : ∀ s price, b'.cellAt s price = b.cellAt s price
  nodes : ∀ i ∈ live, ∃ slot, slot < b'.index.capacity ∧
    b'.nodes i = { b.nodes i with slot := slot } ∧ b'.index.OnGrid (b.nodes i).price (slot : Nat)

theorem CellOf.empty {cell : LevelCell} (h : CellOf b cell []) : cell = {} := by
  obtain ⟨⟨hhead, htail, -⟩, horders, hquantity⟩ := h
  cases cell
  simp_all [total]

/-- A cell outside the slots of the live nodes is empty. -/
theorem Store.cell_eq_empty (h : Store b live free) (s : Side) {slot : Nat}
    (hslot : slot < b.index.capacity) (hnone : ∀ i ∈ live, (b.nodes i).slot ≠ slot) :
    b.cells s slot = {} := by
  have hcell := h.cells s slot hslot
  have hqueue : b.queueAt live s slot = [] := by
    rw [List.eq_nil_iff_forall_not_mem]
    intro i hi
    obtain ⟨hlive, -, hat⟩ := mem_queueAt.mp hi
    exact hnone i hlive hat
  rw [hqueue] at hcell
  exact hcell.empty

/-- **No cell is lost or copied twice**, whichever way the window moves. -/
theorem Store.cellAt_moveWindow (h : Store b live free) {moved : TickIndex} {shift : Int64}
    (hcover : Covers b live shift) (htick : moved.tick = b.index.tick)
    (hcap : moved.capacity = b.index.capacity)
    (hanchor : moved.anchor.toInt = b.index.anchor.toInt + shift.toInt * b.index.tick.toInt)
    (s : Side) (price : Int) : (b.moveWindow moved shift).cellAt s price = b.cellAt s price := by
  have hpos := h.sane.tick
  obtain ⟨hindex, -⟩ := moveWindow_frame b moved shift
  unfold cellAt
  rw [hindex, htick, hcap, hanchor]
  dsimp only
  -- The slot in the moved window is the old one less the shift.
  have hoffset : price - (b.index.anchor.toInt + shift.toInt * b.index.tick.toInt) =
      price - b.index.anchor.toInt + -shift.toInt * b.index.tick.toInt := by ring
  have hslot := Int.add_mul_ediv_right (price - b.index.anchor.toInt) (-shift.toInt)
    (Int.ne_of_gt hpos)
  have hdvd : b.index.tick.toInt ∣
      price - b.index.anchor.toInt + -shift.toInt * b.index.tick.toInt ↔
        b.index.tick.toInt ∣ price - b.index.anchor.toInt :=
    Int.dvd_add_left (Int.dvd_mul_left _ _)
  rw [hoffset, hslot]
  generalize hk : (price - b.index.anchor.toInt) / b.index.tick.toInt = k
  by_cases hgrid : b.index.tick.toInt ∣ price - b.index.anchor.toInt
  · by_cases hnew : 0 ≤ k + -shift.toInt ∧ k + -shift.toInt < b.index.capacity
    · rw [if_pos ⟨hdvd.mpr hgrid, hnew⟩, cells_moveWindow (by omega)]
      by_cases hold : 0 ≤ k ∧ k < b.index.capacity
      · rw [if_pos (by omega), if_pos ⟨hgrid, hold⟩]
        congr 2
        omega
      · rw [if_neg (by omega), if_neg fun hboth => hold hboth.2]
    · rw [if_neg fun hboth => hnew hboth.2]
      by_cases hold : 0 ≤ k ∧ k < b.index.capacity
      · rw [if_pos ⟨hgrid, hold⟩]
        -- A slot that the move leaves behind holds nothing.
        refine (h.cell_eq_empty s (by omega) fun i hi hat => hnew ?_).symm
        have hkept := hcover i hi
        omega
      · rw [if_neg fun hboth => hold hboth.2]
  · rw [if_neg fun hboth => hgrid (hdvd.mp hboth.1), if_neg fun hboth => hgrid hboth.1]

/-- **A rebase is lossless**: where it succeeds everything is at the slot of its price, and where
it does not the book is the same. -/
theorem Store.rebase_lossless (h : Store b live free) {k : Int} (hk : b.index.OnGrid price k)
    (hno : b.index.NoOverflow price b.keptPrices) (orderId : UInt64) :
    (b.rebase orderId price = (.error (.priceOutOfRange orderId price), b) ∧
        b.index.rebaseFor price b.keptPrices = none) ∨
      ∃ b' moved shift, b.rebase orderId price = (.ok (), b') ∧
        b.index.rebaseFor price b.keptPrices = some (moved, shift) ∧ b'.index = moved ∧
          Rebased b b' live := by
  unfold rebase
  cases hrebase : b.index.rebaseFor price b.keptPrices with
  | none => exact .inl ⟨rfl, rfl⟩
  | some found =>
    obtain ⟨moved, shift⟩ := found
    obtain ⟨low, high, hlow, hhigh, hlowk, hkhigh, hbound⟩ := h.cover_spec hk
    have hle := Int.le_trans hlowk hkhigh
    have hmovable : b.index.Movable price b.keptPrices := by
      obtain ⟨r, hr, hnext⟩ := hno
      exact (rebaseForChecked_iff h.sane hk hlow hhigh hle).mp
        ⟨r, hr, fun moved shift heq => slotChecked_isSome.mp (hnext moved shift heq)⟩
    obtain ⟨-, htick, hcap, -, hanchor, -⟩ := rebaseFor_exact h.sane hmovable hlow hhigh hle hrebase
    obtain ⟨-, -, -, hgrid, hkeep⟩ := rebaseFor_spec h.sane hmovable hlow hhigh hle hrebase
    have hcover : Covers b live shift := fun i hi => hkeep _ (hbound i hi).1 (hbound i hi).2
    obtain ⟨hindex, -⟩ := moveWindow_frame b moved shift
    refine .inr ⟨_, moved, shift, rfl, rfl, hindex,
      h.cellAt_moveWindow hcover htick hcap hanchor, fun i hi => ?_⟩
    obtain ⟨hfirst, hlast⟩ := hcover i hi
    refine ⟨((b.nodes i).slot - shift.toInt).toNat, ?_, h.nodes_moved hcover hi, ?_⟩
    · rw [hindex, hcap]
      omega
    · rw [hindex, Int.toNat_of_nonneg hfirst]
      exact (hgrid _ _).mp (h.prices i hi)

theorem keptPrices_single (b : MboBook) {slot : Nat} (hslot : slot < b.index.capacity)
    (hocc : ∀ i, (b.occupied .bid i || b.occupied .ask i) = true ↔ i = slot) :
    b.keptPrices = some (b.index.priceAt slot, b.index.priceAt slot) := by
  obtain ⟨hlow, hhigh⟩ := Store.occupiedExtent_isBest b
  have hbest : ∀ s, IsBest s b.index.capacity
      (fun i => b.occupied .bid i || b.occupied .ask i) (some slot) := by
    intro s
    refine ⟨hslot, (hocc slot).mpr rfl, fun j _ hj => ?_⟩
    rw [(hocc j).mp hj]
    cases s <;> exact Nat.le_refl slot
  have hextent : b.occupiedExtent = (some slot, some slot) :=
    Prod.ext (hlow.unique (hbest .ask)) (hhigh.unique (hbest .bid))
  rw [keptPrices, hextent]

theorem moveWindow_nodes (b : MboBook) (moved : TickIndex) {shift : Int64} (h : shift ≠ 0)
    (i : Nat) : (b.moveWindow moved shift).nodes i = shiftNode shift (b.nodes i) := by
  unfold moveWindow
  dsimp only
  rw [if_pos h]

end MboBook

open TickIndex MboBook in
/-- **A rebase is complete and lossless.** Over every window, price on the grid and occupied range
it succeeds just where the window is wide enough, and lands on a window of the same grid over all
of them; and on a book it leaves every cell and every node at the slot of its price. -/
theorem rebase_complete_and_lossless :
    (∀ (t : TickIndex) (price : Int64) (keep : Option (Int64 × Int64)) (k : Int), t.Sane →
      2 ≤ t.capacity → t.OnGrid price k → t.Extent keep → t.NoOverflow price keep →
        ((t.rebaseFor price keep).isSome ↔ t.spanOf price keep ≤ t.capacity) ∧
          ∀ t' shift, t.rebaseFor price keep = some (t', shift) → t.Moves t' price keep) ∧
    ∀ (b : MboBook) (live free : List Nat) (orderId : UInt64) (price : Int64) (k : Int),
      Store b live free → b.index.OnGrid price k → b.index.NoOverflow price b.keptPrices →
        (b.rebase orderId price = (.error (.priceOutOfRange orderId price), b) ∧
            b.index.rebaseFor price b.keptPrices = none) ∨
          ∃ b' moved shift, b.rebase orderId price = (.ok (), b') ∧
            b.index.rebaseFor price b.keptPrices = some (moved, shift) ∧ b'.index = moved ∧
              Rebased b b' live :=
  ⟨fun _ _ _ _ ht hcap hk hextent hno => rebaseFor_complete ht hcap hk hextent hno,
    fun _ _ _ orderId _ _ hs hk hno => hs.rebase_lossless hk hno orderId⟩

theorem rebase_complete_and_lossless_one_bid :
    (⟨96, 1, 8⟩ : TickIndex).Moves ⟨101, 1, 8⟩ 108 (some (102, 104)) ∧
      ∃ live b', MboBook.oneBid.rebase 2 106 = (.ok (), b') ∧ MboBook.Rebased .oneBid b' live := by
  constructor
  · refine (rebase_complete_and_lossless.1 ⟨96, 1, 8⟩ 108 (some (102, 104)) 12 ⟨by decide, by decide⟩
      (by decide) (by decide) ?_ ⟨some (⟨101, 1, 8⟩, 5), by decide +kernel, ?_⟩).2 _ 5
      (by decide +kernel)
    · rintro lo hi ⟨⟩
      exact ⟨6, 8, by decide, by decide, by decide⟩
    · rintro moved shift ⟨⟩
      exact ⟨.at 7, by decide +kernel⟩
  · obtain ⟨live, free, hwhole⟩ := MboBook.reachable_oneBid.whole
    have hkept : MboBook.oneBid.keptPrices = some (100, 100) := by decide +kernel
    have hok := rebase_complete_and_lossless.2 MboBook.oneBid live free 2 106 10 hwhole.store
      (by decide +kernel) (by
        rw [hkept]
        refine ⟨some (⟨99, 1, 8⟩, 3), by decide +kernel, ?_⟩
        rintro moved shift ⟨⟩
        exact ⟨.at 7, by decide +kernel⟩)
    rcases hok with ⟨-, hnone⟩ | ⟨b', moved, shift, hrebase, -, -, hrebased⟩
    · rw [hkept] at hnone
      exact absurd hnone (by decide +kernel)
    · exact ⟨live, b', hrebase, hrebased⟩

/-- One order near the lower end of a window of 2 ^ 33 slots. -/
def wideBid : MboBook := MboBook.stepped (.new ⟨8589934592, 4, 0, 1⟩) (.add 1 .bid (-4294967291) 10)

theorem wideBid_cells : wideBid.bids =
      Function.update (Function.update (fun _ => {}) 5 ⟨0, 0, 0, 0⟩) 5 ⟨10, 1, 0, 0⟩ ∧
    wideBid.asks = fun _ => {} :=
  ⟨rfl, rfl⟩

theorem wideBid_keptPrices :
    wideBid.keptPrices = some (wideBid.index.priceAt 5, wideBid.index.priceAt 5) := by
  refine MboBook.keptPrices_single wideBid (by decide +kernel) fun i => ?_
  show (!(wideBid.bids i).isEmpty || !(wideBid.asks i).isEmpty) = true ↔ i = 5
  rw [wideBid_cells.1, wideBid_cells.2, Function.update_idem]
  by_cases hi : i = 5
  · rw [hi, Function.update_self]
    decide
  · rw [Function.update_of_ne hi]
    exact iff_of_false (by simp [LevelCell.isEmpty]) hi

/-- Moved to slot 2 ^ 33 - 3, the node records another one: 32 bits do not hold it. -/
theorem rebase_misnumbers_wide_slots :
    wideBid.index.OnGrid (wideBid.nodes 0).price (wideBid.nodes 0).slot ∧
      ∃ b', wideBid.rebase 2 (-12884901878) = (.ok (), b') ∧ (b'.nodes 0).slot = 4294967293 ∧
        ¬ b'.index.OnGrid (b'.nodes 0).price (b'.nodes 0).slot := by
  have hrebase : wideBid.index.rebaseFor (-12884901878) (some (wideBid.index.priceAt 5,
      wideBid.index.priceAt 5)) = some (⟨-12884901880, 1, 8589934592⟩, -8589934584) := by
    decide +kernel
  have hnode : MboBook.shiftNode (-8589934584) (wideBid.nodes 0) =
      ⟨1, -4294967291, 10, .bid, 4294967293, 4294967295, 4294967295⟩ := by decide +kernel
  have hkept := wideBid_keptPrices
  refine ⟨by decide +kernel, wideBid.moveWindow ⟨-12884901880, 1, 8589934592⟩ (-8589934584), ?_, ?_⟩
  · rw [MboBook.rebase, hkept, hrebase]
  · rw [MboBook.moveWindow_nodes wideBid _ (by decide), hnode, (MboBook.moveWindow_frame ..).1]
    exact ⟨rfl, by decide⟩

end MarketData.Book
