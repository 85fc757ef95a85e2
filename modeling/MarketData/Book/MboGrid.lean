import MarketData.Book.MboRebuild
import MarketData.Book.Operations

/-!
# `Book/MboGrid.lean` — the grid a fast book keeps its prices on

A window slides by whole ticks, so the prices a book can hold are those a whole number of ticks
from its reference price, however often the window has moved. With a free node and a window wide
enough, an order is held exactly when its price is one of them.

## From slots to prices

`TickIndex` knows only its anchor, and the anchor of a book that has slid says nothing about the
price it was configured with. `Gridded` is the invariant that ties them together: the slots of the
window are the prices on the *symbol's* grid. It is kept by every operation, taken or refused
(`Gridded.step`), because `rebase_for` moves the anchor by a multiple of the tick and nothing else
writes it.

The point is that whether a price is refused for being off the grid then does not depend on the
history. A consumer of the feed can say from a message and a symbol's configuration whether its fast
book will take the order, which is what `Book/FastBooks.lean` and `Trading/FastConsumer.lean` do.

`Sound` restricts the size to what 32 bits can number and asks that the first window starts within
the 64-bit range. A reference price near its end would have the anchor of the *new* book wrap,
before any order has been added; the source does not check for it.
-/

set_option autoImplicit false

namespace MarketData.Book

open MarketData.Wire (Side)
open TickIndex

/-! ## The grid of a symbol -/

namespace MboCapacity

/-- The price lies a whole number of ticks from the reference price. -/
def OnGrid (cap : MboCapacity) (price : Int64) : Prop :=
  (max cap.tick 1).toInt ∣ price.toInt - cap.referencePrice.toInt

instance (cap : MboCapacity) (price : Int64) : Decidable (cap.OnGrid price) :=
  inferInstanceAs (Decidable (_ ∣ _))

/-- How far below the reference price the window of a new book starts. -/
def reach (cap : MboCapacity) : Int := (max cap.levels 4 / 2 : Nat) * (max cap.tick 1).toInt

/-- A size whose slots and nodes 32 bits can number and whose window starts in the 64-bit
range. -/
structure Sound (cap : MboCapacity) : Prop where
  addressable : cap.Addressable
  reach : Fits cap.reach
  anchor : Fits (cap.referencePrice.toInt - cap.reach)

end MboCapacity

namespace MboBook

/-- The slots of the book's window are the prices on the symbol's grid. -/
def Gridded (cap : MboCapacity) (b : MboBook) : Prop :=
  ∀ price, (∃ k, b.index.OnGrid price k) ↔ cap.OnGrid price

variable {cap : MboCapacity} {b b' : MboBook} {live free : List Nat}

theorem anchor_new (h : cap.Sound) :
    (new cap).index.anchor.toInt = cap.referencePrice.toInt - cap.reach := by
  have hlevels := h.addressable.levels
  have hwidth : max (max cap.levels 4) 2 = max cap.levels 4 := by omega
  have hhalf : (Int64.ofNat (max cap.levels 4 / 2)).toInt = (max cap.levels 4 / 2 : Nat) :=
    Int64.toInt_ofNat_of_lt (by omega)
  have hreach : (Int64.ofNat (max cap.levels 4 / 2) * max cap.tick 1).toInt = cap.reach := by
    rw [toInt_mul_of_fits (by rw [hhalf]; exact h.reach), hhalf]
    rfl
  show (cap.referencePrice - Int64.ofNat (max (max cap.levels 4) 2 / 2) * max cap.tick 1).toInt = _
  rw [hwidth, toInt_sub_of_fits (by rw [hreach]; exact h.anchor), hreach]

theorem gridded_new (h : cap.Sound) : Gridded cap (new cap) := by
  intro price
  have hanchor := anchor_new h
  have htick : (new cap).index.tick = max cap.tick 1 := rfl
  unfold TickIndex.OnGrid MboCapacity.OnGrid
  rw [hanchor, htick]
  have hreach : cap.reach = (max cap.levels 4 / 2 : Nat) * (max cap.tick 1).toInt := rfl
  generalize (max cap.tick 1).toInt = tick at hreach ⊢
  constructor
  · rintro ⟨k, hk⟩
    refine ⟨k - (max cap.levels 4 / 2 : Nat), ?_⟩
    rw [hk, hreach]
    ring
  · rintro ⟨k, hk⟩
    refine ⟨k + (max cap.levels 4 / 2 : Nat), ?_⟩
    rw [eq_add_of_sub_eq hk, hreach]
    ring

theorem Gridded.congr (h : Gridded cap b) (hindex : b'.index = b.index) : Gridded cap b' := by
  intro price
  rw [hindex]
  exact h price

/-- A window that moved has the same grid. -/
theorem Gridded.slotFor (h : Gridded cap b) (hs : Store b live free) {orderId : UInt64}
    {price : Int64} (hexact : b.index.Exact price b.keptPrices) :
    Gridded cap (b.slotFor orderId price).2 := by
  obtain ⟨-, hindex | ⟨moved, shift, hslot, hrebase, hindex⟩⟩ := slotFor_index b orderId price
  · exact h.congr hindex
  · obtain ⟨k, hk⟩ := slot_eq_outside hs.sane hexact.offset hslot
    obtain ⟨low, high, hlow, hhigh, hlowk, hkhigh, -⟩ := hs.cover_spec hk
    obtain ⟨-, -, -, hgrid, -⟩ :=
      rebaseFor_spec hs.sane (hexact.movable hslot) hlow hhigh (Int.le_trans hlowk hkhigh) hrebase
    intro price'
    rw [← h price', hindex]
    constructor
    · rintro ⟨l, hl⟩
      refine ⟨l + shift.toInt, (hgrid price' _).mpr ?_⟩
      rw [Int.add_sub_cancel]
      exact hl
    · rintro ⟨l, hl⟩
      exact ⟨_, (hgrid price' l).mp hl⟩

/-! ## Where the window stands after an operation -/

theorem delete_index (b : MboBook) (orderId : UInt64) :
    (b.delete orderId).2.index = b.index := by
  unfold MboBook.delete
  cases b.mapFind orderId with
  | none => rfl
  | some p =>
    dsimp only
    generalize (b.map p).node = n
    have hdetach : (b.unlink (b.nodes n).side (b.nodes n).slot n).tallyOut (b.nodes n).side
        (b.nodes n).slot (b.nodes n).quantity = b.detach n := rfl
    have hframe := (detach_spec b n).frame
    rw [hdetach]
    generalize hb₂ : ({ ((b.detach n).mapRemoveAt p).giveNode n with
      live := (((b.detach n).mapRemoveAt p).giveNode n).live - 1 } : MboBook) = b₂
    have hgiven : b₂.index = b.index := by
      rw [← hb₂]
      exact hframe.index
    generalize ((b.detach n).cells (b.nodes n).side (b.nodes n).slot).isEmpty = emptied
    have hclosed := (closed_same b₂ (b.nodes n).side emptied).1
    generalize (if emptied then b₂.levelClosed (b.nodes n).side else b₂) = b₃ at hclosed ⊢
    have hrescan := (rescanIfBest_same b₃ (b.nodes n).side (b.nodes n).slot emptied).1
    exact hrescan.index.trans (hclosed.index.trans hgiven)

theorem reduce_index (b : MboBook) (orderId : UInt64) (newQuantity : UInt32) :
    (b.reduce orderId newQuantity).2.index = b.index := by
  unfold MboBook.reduce
  split
  · rfl
  · cases b.mapFind orderId with
    | none => rfl
    | some p =>
      dsimp only
      split
      · rfl
      · exact (frame_lower b _ newQuantity).index

theorem replace_index (b : MboBook) (orderId : UInt64) (newPrice : Int64)
    (newQuantity : UInt32) :
    (b.replace orderId newPrice newQuantity).2.index = b.index ∨
      (b.replace orderId newPrice newQuantity).2.index = (b.slotFor orderId newPrice).2.index := by
  unfold MboBook.replace
  split
  · exact Or.inl rfl
  · cases b.mapFind orderId with
    | none => exact Or.inl rfl
    | some p =>
      right
      dsimp only
      generalize b.slotFor orderId newPrice = found
      obtain ⟨result, b₁⟩ := found
      cases result with
      | error e => rfl
      | ok slot =>
        dsimp only
        generalize (b.map p).node = n
        generalize (b.nodes n).side = side
        have hdetached : Frame b₁ ((b₁.unlink side (b₁.nodes n).slot n).tallyOut side
            (b₁.nodes n).slot (b.nodes n).quantity) :=
          (unlink_spec b₁ side (b₁.nodes n).slot n).frame.trans (frame_setCell ..)
        generalize (b₁.unlink side (b₁.nodes n).slot n).tallyOut side (b₁.nodes n).slot
          (b.nodes n).quantity = b₂ at hdetached ⊢
        generalize (b₂.cells side (b₁.nodes n).slot).isEmpty = emptied
        have hclosed := (closed_same b₂ side emptied).1
        generalize (if emptied then b₂.levelClosed side else b₂) = b₃ at hclosed ⊢
        generalize hb₄ : b₃.setNode n _ = b₄
        have hset : b₄.index = b₃.index := hb₄ ▸ rfl
        have hlinked : Frame b₄ ((b₄.linkBack side slot n).tallyIn side slot newQuantity) :=
          (linkBack_spec b₄ side slot n).frame.trans (frame_setCell ..)
        generalize (b₄.linkBack side slot n).tallyIn side slot newQuantity = b₅ at hlinked ⊢
        generalize (b₃.cells side slot).isEmpty = filled
        have hopened := (opened_same b₅ side filled).1
        generalize (if filled then b₅.levelOpened side else b₅) = b₆ at hopened ⊢
        have hnoted := (noteOccupied_same b₆ side slot).1
        have hrescan := (rescanIfBest_same (b₆.noteOccupied side slot) side (b₁.nodes n).slot
          emptied).1
        exact hrescan.index.trans (hnoted.index.trans (hopened.index.trans (hlinked.index.trans
          (hset.trans (hclosed.index.trans hdetached.index)))))

/-- **The grid stays**, whatever is done with the book. -/
theorem Gridded.step (h : Gridded cap b) (hs : Store b live free) {op : Op}
    (hexact : b.ExactFor op) : Gridded cap (OrderBook.step b op).2 := by
  cases op with
  | add orderId side price quantity =>
    rcases (add_index b orderId side price quantity).1 with hindex | hindex
    · exact h.congr hindex
    · exact (h.slotFor hs hexact).congr hindex
  | delete orderId => exact h.congr (delete_index b orderId)
  | reduce orderId newQuantity => exact h.congr (reduce_index b orderId newQuantity)
  | replace orderId newPrice newQuantity =>
    rcases replace_index b orderId newPrice newQuantity with hindex | hindex
    · exact h.congr hindex
    · exact (h.slotFor hs hexact).congr hindex
  | clear => exact h.congr rfl

/-! ## What a book with room takes -/

/-- The window is wide enough for the price and everything on the book. -/
def InSpan (b : MboBook) (price : Int64) : Prop :=
  ((cover price b.keptPrices).2.toInt - (cover price b.keptPrices).1.toInt) / b.index.tick.toInt +
    1 ≤ b.index.capacity

/-- **There is room for the operation**: a free node for a new order, a window wide enough for
its price, and no step of the tick arithmetic that overflows. -/
def HasRoom (b : MboBook) : Op → Prop
  | .add _ _ price _ => b.index.Exact price b.keptPrices ∧ b.InSpan price ∧ b.live < b.slab
  | .replace _ newPrice _ => b.index.Exact newPrice b.keptPrices ∧ b.InSpan newPrice
  | _ => True

instance (b : MboBook) (price : Int64) : Decidable (b.InSpan price) :=
  inferInstanceAs (Decidable (_ ≤ _))

instance (b : MboBook) : (op : Op) → Decidable (b.HasRoom op)
  | .add .. => inferInstanceAs (Decidable (_ ∧ _ ∧ _))
  | .replace .. => inferInstanceAs (Decidable (_ ∧ _))
  | .delete .. | .reduce .. | .clear => .isTrue trivial

theorem HasRoom.exactFor {op : Op} (h : b.HasRoom op) : b.ExactFor op := by
  cases op with
  | add orderId side price quantity => exact h.1
  | replace orderId newPrice newQuantity => exact h.1
  | _ => trivial

/-- Off the grid is all that can stop a book with a wide enough window. -/
theorem noSlot_iff (hs : Store b live free) (orderId : UInt64) {price : Int64}
    (hexact : b.index.Exact price b.keptPrices) (hspan : b.InSpan price) :
    (∃ e, NoSlot b orderId price e) ↔ ¬∃ k, b.index.OnGrid price k := by
  have hgrid := (offset_spec hs.sane hexact.offset).1
  constructor
  · rintro ⟨e, ⟨hslot, -⟩ | ⟨hslot, hnone, -⟩⟩ hon
    · unfold slot at hslot
      rw [if_neg (not_not_intro (hgrid.mpr hon))] at hslot
      dsimp only at hslot
      split at hslot <;> cases hslot
    · obtain ⟨k, hk⟩ := hon
      obtain ⟨low, high, hlow, hhigh, hlowk, hkhigh, -⟩ := hs.cover_spec hk
      have hwide := (movedAnchor_eq hs.sane hlow hhigh).1
      unfold InSpan at hspan
      rw [hwide] at hspan
      exact rebaseFor_succeeds hs.sane (hexact.movable hslot) hk hlow hhigh
        (Int.le_trans hlowk hkhigh) hspan
        hnone
  · intro hoff
    refine ⟨_, Or.inl ⟨?_, rfl⟩⟩
    unfold slot
    exact if_pos fun hmod => hoff (hgrid.mp hmod)

/-- **A book with room refuses an operation for its size exactly when the price is off the
grid.** -/
theorem Whole.refused_iff (h : Whole b live free) (hgrid : Gridded cap b) {op : Op}
    (hroom : b.HasRoom op) (hok : (Arrivals.step (b.ordersOf live) op).1.toOption.isSome) :
    refusedForCapacity (OrderBook.step b op).1 = false ↔
      ∀ price, op.placed = some price → cap.OnGrid price := by
  -- an operation that places nothing never runs out of room
  have hquiet : ∀ {r : Except BookError (Option RestingOrder)}, op.placed = none →
      refusedForCapacity r = false →
      (refusedForCapacity r = false ↔ ∀ price, op.placed = some price → cap.OnGrid price) := by
    intro r hnone hr
    refine ⟨fun _ price hprice => ?_, fun _ => hr⟩
    rw [hnone] at hprice
    cases hprice
  cases op with
  | add orderId side price quantity =>
    obtain ⟨hexact, hspan, hlive⟩ := hroom
    have hfree := h.free_ne_nil hlive
    have hslots := (noSlot_iff h.store orderId hexact hspan).trans
      (not_congr (hgrid price))
    have hadd := h.add orderId side quantity hexact
    show refusedForCapacity ((b.add orderId side price quantity).1.map fun _ => none) = false ↔
      ∀ price', some price = some price' → cap.OnGrid price'
    generalize (b.add orderId side price quantity).1 = r at hadd ⊢
    generalize (b.add orderId side price quantity).2 = b' at hadd
    cases hadd with
    | zero hq =>
      rw [Arrivals.step, if_pos hq] at hok
      cases hok
    | duplicate hq hdup =>
      rw [Arrivals.step, if_neg hq, if_pos hdup] at hok
      cases hok
    | noSlot hq hnew hno =>
      constructor
      · intro hroom
        exact absurd (hroom.symm.trans hno.forCapacity) Bool.false_ne_true
      · intro hon
        exact absurd (hon price rfl) (hslots.mp ⟨_, hno⟩)
    | full hq hnew hno hnil => exact absurd hnil hfree
    | added hq hnew hno =>
      refine ⟨fun _ price' hprice => ?_, fun _ => rfl⟩
      obtain rfl := Option.some.inj hprice
      by_contra hoff
      obtain ⟨e, he⟩ := hslots.mpr hoff
      exact hno e he
  | delete orderId =>
    apply hquiet rfl
    show refusedForCapacity ((b.delete orderId).1.map some) = false
    have hdelete := h.delete orderId
    cases hlookup : Arrivals.lookup (b.ordersOf live) orderId with
    | none =>
      rw [hlookup] at hdelete
      dsimp only at hdelete
      rw [hdelete]
      rfl
    | some o =>
      rw [hlookup] at hdelete
      rw [hdelete.1]
      rfl
  | reduce orderId newQuantity =>
    apply hquiet rfl
    show refusedForCapacity ((b.reduce orderId newQuantity).1.map fun _ => none) = false
    unfold MboBook.reduce
    split
    · rfl
    · split
      · rfl
      · dsimp only
        split <;> rfl
  | replace orderId newPrice newQuantity =>
    obtain ⟨hexact, hspan⟩ := hroom
    have hslots := (noSlot_iff h.store orderId hexact hspan).trans
      (not_congr (hgrid newPrice))
    by_cases hq : newQuantity = 0
    · rw [Arrivals.step, if_pos hq] at hok
      cases hok
    have hreplace := h.replace orderId hq hexact
    show refusedForCapacity ((b.replace orderId newPrice newQuantity).1.map fun _ => none) =
      false ↔ ∀ price', some newPrice = some price' → cap.OnGrid price'
    cases hlookup : Arrivals.lookup (b.ordersOf live) orderId with
    | none =>
      rw [Arrivals.step, if_neg hq, hlookup] at hok
      cases hok
    | some o =>
      rw [hlookup] at hreplace
      dsimp only at hreplace
      generalize (b.replace orderId newPrice newQuantity).1 = r at hreplace ⊢
      generalize (b.replace orderId newPrice newQuantity).2 = b' at hreplace
      cases hreplace with
      | noSlot hno =>
        constructor
        · intro hroom
          exact absurd (hroom.symm.trans hno.forCapacity) Bool.false_ne_true
        · intro hon
          exact absurd (hon newPrice rfl) (hslots.mp ⟨_, hno⟩)
      | replaced hno =>
        refine ⟨fun _ price' hprice => ?_, fun _ => rfl⟩
        obtain rfl := Option.some.inj hprice
        by_contra hoff
        obtain ⟨e, he⟩ := hslots.mpr hoff
        exact hno e he
  | clear => exact hquiet rfl rfl

end MboBook

end MarketData.Book
