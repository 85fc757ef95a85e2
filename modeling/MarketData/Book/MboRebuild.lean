import MarketData.Book.MboRefines
import MarketData.Book.Rebuild

/-!
# `Book/MboRebuild.lean` — a fast book takes the orders it has room for

`RoomFor` says what makes a fast book large enough for a list of orders: a node for each, prices
on its grid, and a window as wide as the prices lie apart. A book with room for a list takes the
orders of the list one after the other, its window sliding as it has to, and keeps the room for
the rest.

## Why the room is for a whole list

A snapshot's orders come side by side and best price first, so the window of an empty book is
centred on the first of them and slides from then on. Whether the next order fits depends on where
the window stands, and that depends on all the orders before it. Asking for room order by order
would put the window's history into the hypothesis. `RoomFor` asks once, of the list that is to be
held in the end: **the window is wide enough for all of its prices at a time**, and from that it
follows that every move on the way succeeds (`RoomFor.window`) and that the room is still there
after it (`RoomFor.add`).

The prices also keep a window's width clear of the ends of the 64-bit range, which is more than the
arithmetic needs and is what a symbol's prices do in practice.

`HoldsOf` is the invariant of the rebuild in the form `Rebuilds` of `Book/Rebuild.lean` asks for.
The reachable books of this module are those whose history stayed clear of overflow; what a snapshot
finds in a consumer's book is one of them.
-/

set_option autoImplicit false

namespace MarketData.Book

open MarketData.Wire (Side)
open TickIndex

namespace MboBook

/-- **The book has room for the orders**, and their prices keep clear of the ends of the 64-bit
range, so that the tick arithmetic does not overflow. -/
structure RoomFor (b : MboBook) (os : List RestingOrder) : Prop where
  slab : os.length ≤ b.slab
  onGrid : ∀ o ∈ os, ∃ k, b.index.OnGrid o.price k
  span : ∀ o ∈ os, ∀ o' ∈ os,
    o.price.toInt - o'.price.toInt < b.index.capacity * b.index.tick.toInt
  anchor : -2 ^ 62 < b.index.anchor.toInt ∧ b.index.anchor.toInt < 2 ^ 62
  prices : ∀ o ∈ os, -2 ^ 62 < o.price.toInt - b.index.capacity * b.index.tick.toInt ∧
    o.price.toInt + b.index.capacity * b.index.tick.toInt < 2 ^ 62

/-! ## Where the window stands after an add -/

theorem slotFor_index (b : MboBook) (orderId : UInt64) (price : Int64) :
    (b.slotFor orderId price).2.slab = b.slab ∧
    ((b.slotFor orderId price).2.index = b.index ∨
      ∃ moved shift, b.index.slot price = .outside ∧
        b.index.rebaseFor price b.keptPrices = some (moved, shift) ∧
        (b.slotFor orderId price).2.index = moved) := by
  unfold slotFor rebase
  cases hslot : b.index.slot price with
  | «at» i => exact ⟨rfl, Or.inl rfl⟩
  | offGrid => exact ⟨rfl, Or.inl rfl⟩
  | outside =>
    cases hrebase : b.index.rebaseFor price b.keptPrices with
    | none => exact ⟨rfl, Or.inl rfl⟩
    | some found =>
      obtain ⟨moved, shift⟩ := found
      obtain ⟨hindex, hslab, -⟩ := moveWindow_frame b moved shift
      dsimp only
      split
      · exact ⟨hslab, Or.inr ⟨moved, shift, rfl, rfl, hindex⟩⟩
      · exact ⟨hslab, Or.inr ⟨moved, shift, rfl, rfl, hindex⟩⟩

/-- Only finding a slot moves the window. -/
theorem add_index (b : MboBook) (orderId : UInt64) (side : Side) (price : Int64)
    (quantity : UInt32) :
    ((b.add orderId side price quantity).2.index = b.index ∨
      (b.add orderId side price quantity).2.index = (b.slotFor orderId price).2.index) ∧
    (b.add orderId side price quantity).2.slab = b.slab := by
  obtain ⟨hslab, -⟩ := slotFor_index b orderId price
  unfold add
  split
  · exact ⟨Or.inl rfl, rfl⟩
  · split
    · exact ⟨Or.inl rfl, rfl⟩
    · generalize b.slotFor orderId price = found at hslab ⊢
      obtain ⟨result, b₁⟩ := found
      cases result with
      | error e => exact ⟨Or.inr rfl, hslab⟩
      | ok slot =>
        dsimp only at hslab ⊢
        cases htake : b₁.takeNode orderId with
        | mk result b₂ =>
          have htaken : b₂.index = b₁.index ∧ b₂.slab = b₁.slab := by
            unfold takeNode at htake
            split at htake <;> cases htake <;> exact ⟨rfl, rfl⟩
          cases result with
          | error e => exact ⟨Or.inr htaken.1, htaken.2.trans hslab⟩
          | ok node =>
            dsimp only
            generalize hb₃ : b₂.setNode node _ = b₃
            have hset : b₃.index = b₂.index ∧ b₃.slab = b₂.slab := hb₃ ▸ ⟨rfl, rfl⟩
            have hlink := (linkBack_spec b₃ side slot node).frame
            have htally : Frame (b₃.linkBack side slot node)
                ((b₃.linkBack side slot node).tallyIn side slot quantity) := frame_setCell ..
            have hframe := hlink.trans htally
            generalize (b₃.linkBack side slot node).tallyIn side slot quantity = b₄ at hframe ⊢
            have hopened := (opened_same b₄ side (b₃.cells side slot).isEmpty).1
            generalize (if (b₃.cells side slot).isEmpty = true then b₄.levelOpened side else b₄) =
              b₅ at hopened ⊢
            have hnoted := (noteOccupied_same
              { b₅.mapInsert orderId node with live := (b₅.mapInsert orderId node).live + 1 }
              side slot).1
            exact ⟨Or.inr (hnoted.index.trans (hopened.index.trans (hframe.index.trans
                (hset.1.trans htaken.1)))),
              hnoted.slab.trans (hopened.slab.trans (hframe.slab.trans
                (hset.2.trans (htaken.2.trans hslab))))⟩

/-! ## Room for the next order -/

section Room

variable {b : MboBook} {live free : List Nat} {os : List RestingOrder} {o : RestingOrder}

/-- The range a move for the next order has to cover lies between two orders of the list. -/
theorem RoomFor.cover_mem (hs : Store b live free) (hsub : ∀ o ∈ b.ordersOf live, o ∈ os)
    (ho : o ∈ os) :
    (∃ a ∈ os, (cover o.price b.keptPrices).1 = a.price) ∧
      ∃ c ∈ os, (cover o.price b.keptPrices).2 = c.price := by
  have hnode : ∀ i ∈ live, (b.nodes i).order ∈ os := fun i hi =>
    hsub _ (List.mem_map_of_mem hi)
  obtain ⟨hlow, hhigh⟩ := hs.cover_mem o.price
  constructor
  · rcases hlow with heq | ⟨i, hi, heq⟩
    · exact ⟨o, ho, heq⟩
    · exact ⟨_, hnode i hi, heq.symm⟩
  · rcases hhigh with heq | ⟨i, hi, heq⟩
    · exact ⟨o, ho, heq⟩
    · exact ⟨_, hnode i hi, heq.symm⟩

/-- The window a move lands on, over the integers. -/
theorem margin_bounds {t : TickIndex} (ht : t.Sane) {low high : Int} (hle : low ≤ high)
    (hwide : high - low < t.capacity) :
    0 ≤ t.margin low high * t.tick.toInt ∧
      t.margin low high * t.tick.toInt ≤ t.capacity * t.tick.toInt := by
  have htick := ht.tick
  have hlo : 0 ≤ t.margin low high := by
    unfold margin
    omega
  have hhi : t.margin low high ≤ t.capacity := by
    unfold margin
    omega
  exact ⟨Int.mul_nonneg hlo (Int.le_of_lt htick),
    Int.mul_le_mul_of_nonneg_right hhi (Int.le_of_lt htick)⟩

/-- **Where the window may go** for the next order of a list the book has room for: nothing
overflows, and the range to cover is one the window is wide enough for. -/
theorem RoomFor.window (hroom : RoomFor b os) (hs : Store b live free)
    (hsub : ∀ o ∈ b.ordersOf live, o ∈ os) (ho : o ∈ os) :
    b.index.Exact o.price b.keptPrices ∧
    ∃ low high : Int, b.index.OnGrid (cover o.price b.keptPrices).1 low ∧
      b.index.OnGrid (cover o.price b.keptPrices).2 high ∧ low ≤ high ∧
      high - low < b.index.capacity ∧
      -2 ^ 62 < b.index.anchor.toInt + (low - b.index.margin low high) * b.index.tick.toInt ∧
      b.index.anchor.toInt + (low - b.index.margin low high) * b.index.tick.toInt < 2 ^ 62 := by
  have htick := hs.sane.tick
  obtain ⟨k, hk⟩ := hroom.onGrid o ho
  obtain ⟨low, high, hlow, hhigh, hlowk, hkhigh, -⟩ := hs.cover_spec hk
  have hle := Int.le_trans hlowk hkhigh
  obtain ⟨⟨a, ha, hla⟩, c, hc, hhc⟩ := RoomFor.cover_mem hs hsub ho
  have hspan := hroom.span c hc a ha
  have hpa := hroom.prices a ha
  have hpc := hroom.prices c hc
  have hpo := hroom.prices o ho
  have hanchor := hroom.anchor
  obtain ⟨hdiv, hmoved⟩ := movedAnchor_eq hs.sane hlow hhigh
  have hgridlow := hlow
  have hgridhigh := hhigh
  rw [hla, hhc] at hdiv hmoved
  rw [hla] at hgridlow
  rw [hhc] at hgridhigh
  unfold OnGrid at hgridlow hgridhigh
  have hwide : high - low < b.index.capacity := by
    have hdiff : (high - low) * b.index.tick.toInt < b.index.capacity * b.index.tick.toInt := by
      have heq : (high - low) * b.index.tick.toInt = c.price.toInt - a.price.toInt := by
        rw [hgridlow, hgridhigh]
        ring
      rw [heq]
      exact hspan
    exact Int.lt_of_mul_lt_mul_right hdiff (Int.le_of_lt htick)
  obtain ⟨hmlo, hmhi⟩ := margin_bounds hs.sane hle hwide
  -- the anchor a move lands on is at most a window below the lowest price
  have hland : b.index.anchor.toInt + (low - b.index.margin low high) * b.index.tick.toInt =
      a.price.toInt - b.index.margin low high * b.index.tick.toInt := by
    rw [hgridlow]
    ring
  have hnonneg : 0 ≤ c.price.toInt - a.price.toInt := by
    have hprices := (hlow.le_iff hs.sane hhigh).mpr hle
    rw [hla, hhc] at hprices
    omega
  have hcap := hs.capacity
  refine ⟨⟨?_, fun _ => ?_, fun _ _ => ?_⟩, low, high, hlow, hhigh, hle, hwide, ?_, ?_⟩
  · constructor <;> omega
  · rw [hla, hhc, hdiv]
    constructor <;> constructor <;> omega
  · rw [hla, hhc, hmoved, hland]
    refine ⟨⟨?_, ?_⟩, ⟨?_, ?_⟩, ⟨?_, ?_⟩, ?_, ?_⟩ <;> omega
  · omega
  · omega

/-- The book finds a slot for the next order. -/
theorem RoomFor.not_noSlot (hroom : RoomFor b os) (hs : Store b live free)
    (hsub : ∀ o ∈ b.ordersOf live, o ∈ os) (ho : o ∈ os) (e : BookError) :
    ¬NoSlot b o.orderId o.price e := by
  obtain ⟨hexact, low, high, hlow, hhigh, hle, hwide, -⟩ := hroom.window hs hsub ho
  rintro (⟨hslot, -⟩ | ⟨hslot, hnone, -⟩)
  · have hgrid := (offset_spec hs.sane hexact.offset).1.mpr (hroom.onGrid o ho)
    unfold slot at hslot
    rw [if_neg (not_not_intro hgrid)] at hslot
    dsimp only at hslot
    split at hslot <;> cases hslot
  · obtain ⟨k, hk⟩ := hroom.onGrid o ho
    exact rebaseFor_succeeds hs.sane (hexact.movable hslot) hk hlow hhigh hle (by omega) hnone

/-- **Room stays**: the window may have moved under the order just added, by whole ticks. -/
theorem RoomFor.add (hroom : RoomFor b os) (hs : Store b live free)
    (hsub : ∀ o ∈ b.ordersOf live, o ∈ os) (ho : o ∈ os) :
    RoomFor (b.add o.orderId o.side o.price o.quantity).2 os := by
  obtain ⟨hindex, hslab⟩ := add_index b o.orderId o.side o.price o.quantity
  obtain ⟨-, hfound⟩ := slotFor_index b o.orderId o.price
  generalize (b.add o.orderId o.side o.price o.quantity).2 = b' at hindex hslab ⊢
  have hmoved : b'.index = b.index ∨ ∃ moved shift, b.index.slot o.price = .outside ∧
      b.index.rebaseFor o.price b.keptPrices = some (moved, shift) ∧ b'.index = moved := by
    rcases hindex with heq | heq
    · exact Or.inl heq
    · rw [heq]
      exact hfound
  rcases hmoved with heq | ⟨moved, shift, hslot, hrebase, heq⟩
  · refine ⟨hslab ▸ hroom.slab, ?_, ?_, ?_, ?_⟩ <;> rw [heq]
    · exact hroom.onGrid
    · exact hroom.span
    · exact hroom.anchor
    · exact hroom.prices
  · obtain ⟨hexact, low, high, hlow, hhigh, hle, hwide, hanchorlo, hanchorhi⟩ :=
      hroom.window hs hsub ho
    obtain ⟨-, htick, hcap, hshift, hanchor, -⟩ :=
      rebaseFor_exact hs.sane (hexact.movable hslot) hlow hhigh hle hrebase
    obtain ⟨-, -, -, hgrid, -⟩ := rebaseFor_spec hs.sane (hexact.movable hslot) hlow hhigh hle hrebase
    rw [hshift] at hanchor
    refine ⟨hslab ▸ hroom.slab, fun o' ho' => ?_, ?_, ?_, ?_⟩
    · obtain ⟨k, hk⟩ := hroom.onGrid o' ho'
      rw [heq]
      exact ⟨_, (hgrid _ k).mp hk⟩
    · rw [heq, htick, hcap]
      exact hroom.span
    · rw [heq, hanchor]
      exact ⟨hanchorlo, hanchorhi⟩
    · rw [heq, htick, hcap]
      exact hroom.prices

end Room

/-! ## Rebuilding -/

/-- The book holds the orders `os` and has room for all of `target`. -/
def HoldsOf (target os : List RestingOrder) (b : MboBook) : Prop :=
  RoomFor b target ∧ ∃ live free, Whole b live free ∧ b.ordersOf live = os

theorem HoldsOf.shows {target os : List RestingOrder} {b : MboBook} (h : HoldsOf target os b) :
    Arrivals.Shows b os := by
  obtain ⟨-, live, free, hwhole, rfl⟩ := h
  exact hwhole.shows

/-- A book with fewer orders than nodes has a node left. -/
theorem Whole.free_ne_nil {b : MboBook} {live free : List Nat} (h : Whole b live free)
    (hroom : b.live < b.slab) : free ≠ [] := by
  rintro rfl
  have hall := h.every
  rw [List.append_nil] at hall
  have hsubset : List.range b.slab ⊆ live := fun i hi => hall i (List.mem_range.mp hi)
  have hle := (List.subperm_of_subset List.nodup_range hsubset).length_le
  rw [List.length_range, ← h.live_eq] at hle
  omega

/-- **The fast book takes the next order** of a list it has room for. -/
theorem rebuilds_fast {target : UInt16 → List RestingOrder}
    (hvalid : ∀ symbolId, Arrivals.Valid (target symbolId)) :
    Rebuilds (fun symbolId (b : MboBook) os => HoldsOf (target symbolId) os b) target := by
  intro symbolId b os o hb hpre
  obtain ⟨hroom, live, free, hwhole, rfl⟩ := hb
  obtain ⟨hq, hnew⟩ := (hvalid symbolId).next hpre
  have hsub : ∀ o' ∈ b.ordersOf live, o' ∈ target symbolId := fun o' ho' =>
    hpre.subset (List.mem_append_left _ ho')
  have ho : o ∈ target symbolId := hpre.subset (by simp)
  obtain ⟨hexact, -⟩ := hroom.window hwhole.store hsub ho
  have hslot := hroom.not_noSlot hwhole.store hsub ho
  have hroom' := hroom.add hwhole.store hsub ho
  have hadd := hwhole.add o.orderId o.side o.quantity hexact
  show ∃ b', b.add o.orderId o.side o.price o.quantity = (.ok (), b') ∧ _
  generalize b.add o.orderId o.side o.price o.quantity = added at hadd hroom' ⊢
  obtain ⟨result, b'⟩ := added
  dsimp only at hadd hroom'
  cases hadd with
  | zero hzero => exact absurd hzero hq
  | duplicate _ hdup =>
    rw [hnew] at hdup
    cases hdup
  | noSlot _ _ hno => exact absurd hno (hslot _)
  | full _ _ _ hfree =>
    -- a full slab would hold more orders than the list has
    refine absurd hfree (hwhole.free_ne_nil ?_)
    have hlen := hpre.length_le
    have hslab := hroom.slab
    rw [List.length_append, List.length_singleton, MboBook.ordersOf, List.length_map] at hlen
    rw [hwhole.live_eq]
    omega
  | added _ _ _ _ hwhole' horders =>
    exact ⟨_, rfl, hroom', _, _, hwhole', horders⟩

/-- A cleared book has the room it is sized for. -/
theorem Whole.holdsOf_clear {b : MboBook} {live free : List Nat} (h : Whole b live free)
    {target : List RestingOrder} (hroom : RoomFor b target) : HoldsOf target [] b.clear :=
  ⟨⟨hroom.slab, hroom.onGrid, hroom.span, hroom.anchor, hroom.prices⟩, [], _, h.clear, rfl⟩

theorem holdsOf_new {cap : MboCapacity} (h : cap.Addressable) {target : List RestingOrder}
    (hroom : RoomFor (new cap) target) : HoldsOf target [] (new cap) :=
  ⟨hroom, [], _, whole_new h, rfl⟩

/-- A book that operations on a new one lead to, none of which made the tick arithmetic
overflow. -/
inductive Reachable : MboBook → Prop
  | new {cap : MboCapacity} : cap.Addressable → Reachable (new cap)
  | step {b : MboBook} {op : Op} : Reachable b → b.ExactFor op → Reachable (OrderBook.step b op).2

theorem Reachable.whole {b : MboBook} (h : Reachable b) : ∃ live free, Whole b live free := by
  induction h with
  | new hcap => exact ⟨_, _, whole_new hcap⟩
  | step _ hexact ih =>
    obtain ⟨live, free, hwhole⟩ := ih
    obtain ⟨live', free', hstepped⟩ := hwhole.step hexact
    exact ⟨live', free', hstepped.whole⟩

end MboBook

/-- `FastBooks` (`fast.rs`). -/
abbrev FastBooks := BookSet MboBook

/-- A set without books; a symbol that was not configured gets a book of the fallback size. -/
def FastBooks.new (fallback : MboCapacity) : FastBooks := { fresh := MboBook.new fallback }

end MarketData.Book
