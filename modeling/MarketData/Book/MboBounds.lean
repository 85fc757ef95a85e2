import MarketData.Book.MboGrid
import MarketData.Book.MboInvariants
import MarketData.Book.Refusals

/-!
# `Book/MboBounds.lean` — the fast book is a list of orders with bounds

What a fast book can hold is bounded by its slab, its grid and the width of its window, and where
the window happens to stand makes no difference: `Bounds.step` says what an operation answers and
what it leaves of the orders, without a window. As long as the tick arithmetic does not overflow a
fast book does just that, and its bounds stay what they are (`Holds.step`).

## Why the window can be forgotten

The anchor moves whenever a price falls outside the window, so two books with the same orders may
stand over different ranges. But the move succeeds **exactly where the prices to be covered are
closer together than the window is wide** (`Store.noSlot_iff`), and that is a condition on the
prices. What is left of the anchor is its remainder by the tick, which no move changes. So `Bounds`
has an origin instead of an anchor, and two books with equal bounds and equal orders answer every
further operation alike.

`refusal` here is for want of room and comes after `MarketData.Book.refusal`, which is for the
arguments; `step` puts them in the order the source checks them in.

## What is asked of the arithmetic

`Spared` asks that the arithmetic of an operation be exact only where the operation gets as far as
the window. A zero quantity, a duplicate id and an unknown one are found before, and the price of
such an operation may be anything.
-/

set_option autoImplicit false

namespace MarketData.Book

open MarketData.Wire (Side)
open TickIndex

/-- What a fast book can hold: so many orders, prices a whole number of ticks from `origin`, and no
two of them as far apart as the window is wide. -/
structure Bounds where
  slab : Nat
  levels : Nat
  tick : Int
  origin : Int
  deriving DecidableEq

namespace Bounds

variable {B : Bounds} {os : List RestingOrder} {price : Int64} {op : Op}

def OnGrid (B : Bounds) (price : Int64) : Prop := B.tick ∣ price.toInt - B.origin

/-- The prices to be covered lie closer together than the window is wide. -/
def Narrow (B : Bounds) (prices : List Int64) : Prop :=
  ∀ p ∈ prices, ∀ q ∈ prices, q.toInt - p.toInt < B.levels * B.tick

instance (B : Bounds) (price : Int64) : Decidable (B.OnGrid price) :=
  inferInstanceAs (Decidable (_ ∣ _))

instance (B : Bounds) (prices : List Int64) : Decidable (B.Narrow prices) :=
  -- through the list: there is no going through all the prices there are
  @List.decidableBAll _ _ (fun _ => List.decidableBAll _ prices) prices

/-- Why there is no slot for a price beside the orders. -/
def noSlot (B : Bounds) (os : List RestingOrder) (orderId : UInt64) (price : Int64) :
    Option BookError :=
  if B.OnGrid price then
    if B.Narrow (price :: os.map (·.price)) then none else some (.priceOutOfRange orderId price)
  else some (.priceOffGrid orderId price)

/-- What is refused for want of room. -/
def refusal (B : Bounds) (os : List RestingOrder) : Op → Option BookError
  | .add orderId _ price _ =>
    match B.noSlot os orderId price with
    | some e => some e
    | none => if os.length < B.slab then none else some (.slabFull orderId B.slab)
  | .replace orderId newPrice _ => B.noSlot os orderId newPrice
  | _ => none

/-- An operation on the orders, within the bounds. -/
def step (B : Bounds) (os : List RestingOrder) (op : Op) :
    Except BookError (Option RestingOrder) × List RestingOrder :=
  match Book.refusal (Arrivals.lookup os) op with
  | some e => (.error e, os)
  | none =>
    match B.refusal os op with
    | some e => (.error e, os)
    | none => Arrivals.step os op

/-- The orders take what is not refused for its arguments. -/
theorem arrivals_ok (h : Book.refusal (Arrivals.lookup os) op = none) :
    ∃ a, (Arrivals.step os op).1 = .ok a := by
  cases op with
  | add orderId side price quantity =>
    rw [Book.refusal] at h
    rw [Arrivals.step]
    split at h
    · cases h
    · rename_i hq
      split at h
      · cases h
      · rename_i hnew
        rw [if_neg hq, if_neg hnew]
        exact ⟨_, rfl⟩
  | delete orderId =>
    rw [Book.refusal] at h
    rw [Arrivals.step]
    cases hlookup : Arrivals.lookup os orderId with
    | none =>
      rw [hlookup] at h
      cases h
    | some o => exact ⟨_, rfl⟩
  | reduce orderId newQuantity =>
    rw [Book.refusal] at h
    rw [Arrivals.step]
    split at h
    · cases h
    · rename_i hq
      cases hlookup : Arrivals.lookup os orderId with
      | none =>
        rw [hlookup] at h
        cases h
      | some o =>
        rw [hlookup] at h
        dsimp only at h ⊢
        split at h
        · cases h
        · rename_i hlt
          rw [if_neg hq, if_neg hlt]
          exact ⟨_, rfl⟩
  | replace orderId newPrice newQuantity =>
    rw [Book.refusal] at h
    rw [Arrivals.step]
    split at h
    · cases h
    · rename_i hq
      rw [if_neg hq]
      cases hlookup : Arrivals.lookup os orderId with
      | none =>
        rw [hlookup] at h
        cases h
      | some o => exact ⟨_, rfl⟩
  | clear => exact ⟨_, rfl⟩

/-- **What is refused leaves the orders as they are.** -/
theorem step_of_error {e : BookError} (h : (B.step os op).1 = .error e) : (B.step os op).2 = os := by
  unfold step at h ⊢
  split
  · rfl
  · rename_i hargs
    rw [hargs] at h
    split
    · rfl
    · rename_i hroom
      rw [hroom] at h
      obtain ⟨a, ha⟩ := arrivals_ok hargs
      rw [ha] at h
      cases h

theorem step_of_ok {a : Option RestingOrder} (h : (B.step os op).1 = .ok a) :
    (B.step os op).2 = (Arrivals.step os op).2 := by
  unfold step at h ⊢
  split
  · rename_i hargs
    rw [hargs] at h
    cases h
  · rename_i hargs
    rw [hargs] at h
    split
    · rename_i hroom
      rw [hroom] at h
      cases h
    · rfl

end Bounds

/-! ## The bounds of a book -/

namespace MboBook

variable {b b' : MboBook} {live free : List Nat} {price : Int64}

/-- The origin is the anchor, cut to one tick: wherever the window slides, it stays. -/
def bounds (b : MboBook) : Bounds :=
  ⟨b.slab, b.index.capacity, b.index.tick.toInt, b.index.anchor.toInt % b.index.tick.toInt⟩

theorem onGrid_iff (b : MboBook) (price : Int64) :
    b.bounds.OnGrid price ↔ ∃ k, b.index.OnGrid price k := by
  show b.index.tick.toInt ∣ price.toInt - b.index.anchor.toInt % b.index.tick.toInt ↔ _
  unfold TickIndex.OnGrid
  generalize b.index.tick.toInt = tick
  generalize b.index.anchor.toInt = anchor
  have hmod := Int.emod_add_mul_ediv anchor tick
  constructor
  · rintro ⟨k, hk⟩
    refine ⟨k - anchor / tick, ?_⟩
    linarith [Int.mul_comm tick k, Int.sub_mul k (anchor / tick) tick,
      Int.mul_comm tick (anchor / tick)]
  · rintro ⟨k, hk⟩
    refine ⟨k + anchor / tick, ?_⟩
    linarith [Int.mul_add tick k (anchor / tick), Int.mul_comm tick k]

/-- A window that moved is bounded as it was. -/
theorem Store.bounds_slotFor (hs : Store b live free) (orderId : UInt64)
    (hexact : b.index.Exact price b.keptPrices) : (b.slotFor orderId price).2.bounds = b.bounds := by
  obtain ⟨hslab, hindex | ⟨moved, shift, hslot, hrebase, hindex⟩⟩ := slotFor_index b orderId price
  · unfold bounds
    rw [hindex, hslab]
  · obtain ⟨k, hk⟩ := slot_eq_outside hs.sane hexact.offset hslot
    obtain ⟨low, high, hlow, hhigh, hlowk, hkhigh, -⟩ := hs.cover_spec hk
    obtain ⟨-, htick, hcap, -, hanchor, -⟩ :=
      rebaseFor_exact hs.sane (hexact.movable hslot) hlow hhigh (Int.le_trans hlowk hkhigh) hrebase
    unfold bounds
    rw [hindex, hslab, htick, hcap, hanchor, Int.add_mul_emod_self_right]

/-- The prices lie closer together than the window is wide just where the range a move has to cover
does. -/
theorem Store.narrow_iff (h : Store b live free) {k low high : Int} (hk : b.index.OnGrid price k)
    (hlow : b.index.OnGrid (cover price b.keptPrices).1 low)
    (hhigh : b.index.OnGrid (cover price b.keptPrices).2 high) (hlowk : low ≤ k) (hkhigh : k ≤ high)
    (hbound : ∀ i ∈ live, low ≤ (b.nodes i).slot ∧ (b.nodes i).slot ≤ high) :
    b.bounds.Narrow (price :: (b.ordersOf live).map (·.price)) ↔ high - low < b.index.capacity := by
  have htick := h.sane.tick
  -- The places of the prices, over the present window.
  have hplaced : ∀ p ∈ price :: (b.ordersOf live).map (·.price),
      ∃ l, b.index.OnGrid p l ∧ low ≤ l ∧ l ≤ high := by
    intro p hp
    rcases List.mem_cons.mp hp with rfl | hp
    · exact ⟨k, hk, hlowk, hkhigh⟩
    · obtain ⟨o, ho, rfl⟩ := List.mem_map.mp hp
      obtain ⟨i, hi, rfl⟩ := List.mem_map.mp ho
      exact ⟨_, h.prices i hi, hbound i hi⟩
  have hends : (cover price b.keptPrices).1 ∈ price :: (b.ordersOf live).map (·.price) ∧
      (cover price b.keptPrices).2 ∈ price :: (b.ordersOf live).map (·.price) := by
    have hlive : ∀ i ∈ live, (b.nodes i).price ∈ (b.ordersOf live).map (·.price) := fun i hi =>
      List.mem_map.mpr ⟨_, List.mem_map_of_mem hi, rfl⟩
    obtain ⟨hfirst, hsecond⟩ := h.cover_mem price
    constructor
    · rcases hfirst with heq | ⟨i, hi, heq⟩
      · rw [heq]
        exact List.mem_cons_self
      · rw [← heq]
        exact List.mem_cons_of_mem _ (hlive i hi)
    · rcases hsecond with heq | ⟨i, hi, heq⟩
      · rw [heq]
        exact List.mem_cons_self
      · rw [← heq]
        exact List.mem_cons_of_mem _ (hlive i hi)
  have hdistance : ∀ {p q : Int64} {l m : Int}, b.index.OnGrid p l → b.index.OnGrid q m →
      q.toInt - p.toInt = (m - l) * b.index.tick.toInt := by
    intro p q l m hp hq
    unfold TickIndex.OnGrid at hp hq
    rw [hp, hq]
    ring
  constructor
  · intro hnarrow
    have hwide := hnarrow _ hends.1 _ hends.2
    rw [hdistance hlow hhigh] at hwide
    exact Int.lt_of_mul_lt_mul_right hwide (Int.le_of_lt htick)
  · intro hwide p hp q hq
    obtain ⟨l, hl, hlowl, -⟩ := hplaced p hp
    obtain ⟨m, hm, -, hmhigh⟩ := hplaced q hq
    rw [hdistance hl hm]
    show (m - l) * b.index.tick.toInt < b.index.capacity * b.index.tick.toInt
    exact Int.mul_lt_mul_of_pos_right (by omega) htick

theorem slot_eq_offGrid (hs : Store b live free) (hfit : Fits (price.toInt - b.index.anchor.toInt)) :
    b.index.slot price = .offGrid ↔ ¬ b.bounds.OnGrid price := by
  have hgrid := (offset_spec hs.sane hfit).1
  rw [onGrid_iff, ← hgrid]
  unfold slot
  by_cases hmod : (price - b.index.anchor) % b.index.tick = 0
  · rw [if_neg (not_not_intro hmod)]
    refine iff_of_false (fun h => ?_) (not_not_intro hmod)
    dsimp only at h
    split at h <;> cases h
  · exact iff_of_true (if_pos hmod) hmod

/-- The window can be moved just where the prices lie close enough together. -/
theorem Store.outside_iff (h : Store b live free) (hexact : b.index.Exact price b.keptPrices)
    (hgrid : b.bounds.OnGrid price) :
    (b.index.slot price = .outside ∧ b.index.rebaseFor price b.keptPrices = none) ↔
      ¬ b.bounds.Narrow (price :: (b.ordersOf live).map (·.price)) := by
  obtain ⟨k, hk⟩ := (onGrid_iff b price).mp hgrid
  obtain ⟨low, high, hlow, hhigh, hlowk, hkhigh, hbound⟩ := h.cover_spec hk
  have hle := Int.le_trans hlowk hkhigh
  rw [h.narrow_iff hk hlow hhigh hlowk hkhigh hbound]
  cases hslot : b.index.slot price with
  | offGrid => exact absurd hgrid ((slot_eq_offGrid h hexact.offset).mp hslot)
  | «at» i =>
    obtain ⟨hi, hki⟩ := (slot_eq_at h.sane hexact.offset).mp hslot
    refine iff_of_false (fun hboth => ?_) (not_not_intro ?_)
    · cases hboth.1
    · -- Both ends of the range are in the window already.
      have hin : ∀ {p : Int64} {l : Int}, b.index.OnGrid p l →
          (p = price ∨ ∃ i ∈ live, (b.nodes i).price = p) → 0 ≤ l ∧ l < b.index.capacity := by
        intro p l hl hp
        rcases hp with rfl | ⟨j, hj, rfl⟩
        · rw [hl.inj h.sane hki]
          omega
        · have hslots := h.slots j hj
          rw [hl.inj h.sane (h.prices j hj)]
          omega
      have hlowIn := hin hlow (h.cover_mem price).1
      have hhighIn := hin hhigh (h.cover_mem price).2
      omega
  | outside =>
    constructor
    · rintro ⟨-, hnone⟩ hwide
      exact rebaseFor_succeeds h.sane (hexact.movable hslot) hk hlow hhigh hle (by omega) hnone
    · intro hwide
      refine ⟨rfl, ?_⟩
      cases hrebase : b.index.rebaseFor price b.keptPrices with
      | none => rfl
      | some found =>
        obtain ⟨hfits, -⟩ := rebaseFor_exact h.sane (hexact.movable hslot) hlow hhigh hle hrebase
        omega

/-- **Where there is no slot**, whatever the window: the price is off the grid, or too far from an
order. -/
theorem Store.noSlot_iff (h : Store b live free) (orderId : UInt64)
    (hexact : b.index.Exact price b.keptPrices) (e : BookError) :
    NoSlot b orderId price e ↔ b.bounds.noSlot (b.ordersOf live) orderId price = some e := by
  unfold NoSlot Bounds.noSlot
  by_cases hgrid : b.bounds.OnGrid price
  · have hslot : b.index.slot price ≠ .offGrid := fun hoff =>
      (slot_eq_offGrid h hexact.offset).mp hoff hgrid
    have houtside := h.outside_iff hexact hgrid
    rw [if_pos hgrid]
    by_cases hnarrow : b.bounds.Narrow (price :: (b.ordersOf live).map (·.price))
    · rw [if_pos hnarrow]
      refine iff_of_false ?_ (by simp)
      rintro (⟨hoff, -⟩ | ⟨hout, hnone, -⟩)
      · exact hslot hoff
      · exact houtside.mp ⟨hout, hnone⟩ hnarrow
    · obtain ⟨hout, hnone⟩ := houtside.mpr hnarrow
      rw [if_neg hnarrow]
      constructor
      · rintro (⟨hoff, -⟩ | ⟨-, -, rfl⟩)
        · exact absurd hoff hslot
        · rfl
      · rintro ⟨⟩
        exact .inr ⟨hout, hnone, rfl⟩
  · have hoff := (slot_eq_offGrid h hexact.offset).mpr hgrid
    rw [if_neg hgrid]
    constructor
    · rintro (⟨-, rfl⟩ | ⟨hout, -⟩)
      · rfl
      · rw [hoff] at hout
        cases hout
    · rintro ⟨⟩
      exact .inl ⟨hoff, rfl⟩

/-- **The fast book holds the orders**: it shows them, whatever it keeps behind that. -/
def Holds (b : MboBook) (os : List RestingOrder) : Prop :=
  ∃ live free, Whole b live free ∧ b.ordersOf live = os

section Holds

variable {os : List RestingOrder} {op : Op}

theorem Holds.shows (h : Holds b os) : Arrivals.Shows b os := by
  obtain ⟨live, free, hwhole, rfl⟩ := h
  exact hwhole.shows

theorem Holds.front_eq (h : Holds b os) (s : Side) : b.front s = Arrivals.front os s := by
  obtain ⟨live, free, hwhole, rfl⟩ := h
  exact hwhole.front_eq s

theorem Holds.get_eq (h : Holds b os) : b.get = Arrivals.lookup os :=
  funext fun orderId => h.shows.get orderId

theorem Whole.bounds_eq (h : Whole b live free) {live' free' : List Nat} (h' : Whole b' live' free')
    (hlength : live'.length + free'.length = live.length + free.length)
    (hindex : b'.index = b.index ∨ ∃ orderId price, b.index.Exact price b.keptPrices ∧
      b'.index = (b.slotFor orderId price).2.index) : b'.bounds = b.bounds := by
  have hslab : b'.slab = b.slab := by
    rw [← h.length_eq, ← h'.length_eq, hlength]
  rcases hindex with hindex | ⟨orderId, price, hexact, hindex⟩
  · unfold bounds
    rw [hslab, hindex]
  · have hmoved := h.store.bounds_slotFor orderId hexact
    have hslab' := (slotFor_index b orderId price).1
    unfold bounds at hmoved ⊢
    rw [hslab, hindex]
    rw [hslab'] at hmoved
    exact hmoved

theorem Store.noSlot_eq_none (h : Store b live free) (orderId : UInt64)
    (hexact : b.index.Exact price b.keptPrices) (hslots : ∀ e, ¬NoSlot b orderId price e) :
    b.bounds.noSlot (b.ordersOf live) orderId price = none := by
  rw [Option.eq_none_iff_forall_ne_some]
  intro e he
  exact hslots e ((h.noSlot_iff orderId hexact e).mpr he)

/-- What an operation comes to where its arguments are not refused. -/
structure Comes (b : MboBook) (os : List RestingOrder) (op : Op)
    (r : Except BookError (Option RestingOrder)) (b' : MboBook) : Prop where
  answer : r = match b.bounds.refusal os op with
    | some e => .error e
    | none => (Arrivals.step os op).1
  holds : Holds b' (match b.bounds.refusal os op with
    | some _ => os
    | none => (Arrivals.step os op).2)
  bounds : b'.bounds = b.bounds

theorem Holds.add_comes (h : Holds b os) {orderId : UInt64} {side : Side} {quantity : UInt32}
    (hargs : refusal (Arrivals.lookup os) (.add orderId side price quantity) = none)
    (hexact : b.index.Exact price b.keptPrices) :
    Comes b os (.add orderId side price quantity)
      ((b.add orderId side price quantity).1.map fun _ => none)
      (b.add orderId side price quantity).2 := by
  obtain ⟨live, free, hwhole, rfl⟩ := h
  rw [refusal] at hargs
  have hadd := hwhole.add orderId side quantity hexact
  have hindex := (add_index b orderId side price quantity).1
  have hlength := hwhole.length_eq
  have hlive : (b.ordersOf live).length = live.length := List.length_map _
  generalize (b.add orderId side price quantity).1 = r at hadd ⊢
  generalize (b.add orderId side price quantity).2 = b' at hadd hindex ⊢
  have hmoved : b'.index = b.index ∨ ∃ orderId price, b.index.Exact price b.keptPrices ∧
      b'.index = (b.slotFor orderId price).2.index :=
    hindex.imp id fun heq => ⟨orderId, price, hexact, heq⟩
  cases hadd with
  | zero hq =>
    rw [if_pos hq] at hargs
    cases hargs
  | duplicate hq hdup =>
    rw [if_neg hq, if_pos hdup] at hargs
    cases hargs
  | noSlot hq hnew hno =>
    rename_i e
    have hslot := (hwhole.store.noSlot_iff orderId hexact e).mp hno
    have hrefusal : b.bounds.refusal (b.ordersOf live) (.add orderId side price quantity) =
        some e := by rw [Bounds.refusal, hslot]
    exact ⟨by rw [hrefusal]; rfl, by rw [hrefusal]; exact ⟨live, free, hwhole, rfl⟩, rfl⟩
  | full hq hnew hslots hnil hwhole' horders =>
    subst hnil
    have hslot := hwhole.store.noSlot_eq_none orderId hexact hslots
    have hfull : ¬ (b.ordersOf live).length < b.bounds.slab := by
      rw [hlive]
      show ¬ live.length < b.slab
      rw [← hlength]
      simp
    have hrefusal : b.bounds.refusal (b.ordersOf live) (.add orderId side price quantity) =
        some (.slabFull orderId b.slab) := by
      rw [Bounds.refusal, hslot]
      exact if_neg hfull
    refine ⟨by rw [hrefusal]; rfl, by rw [hrefusal]; exact ⟨live, [], hwhole', horders⟩, ?_⟩
    exact hwhole.bounds_eq hwhole' rfl hmoved
  | added hq hnew hslots hfree hwhole' horders =>
    subst hfree
    have hslot := hwhole.store.noSlot_eq_none orderId hexact hslots
    have hroom : (b.ordersOf live).length < b.bounds.slab := by
      rw [hlive]
      show live.length < b.slab
      rw [← hlength, List.length_cons]
      omega
    have hrefusal : b.bounds.refusal (b.ordersOf live) (.add orderId side price quantity) =
        none := by
      rw [Bounds.refusal, hslot]
      exact if_pos hroom
    have hstep : Arrivals.step (b.ordersOf live) (.add orderId side price quantity) =
        (.ok none, b.ordersOf live ++ [⟨orderId, price, quantity, side⟩]) := by
      rw [Arrivals.step, if_neg hq, hnew]
      rfl
    refine ⟨by rw [hrefusal, hstep]; rfl, by rw [hrefusal, hstep]; exact ⟨_, _, hwhole', horders⟩,
      ?_⟩
    refine hwhole.bounds_eq hwhole' ?_ hmoved
    simp only [List.length_append, List.length_cons, List.length_nil]
    omega

theorem Holds.delete_comes (h : Holds b os) {orderId : UInt64}
    (hargs : refusal (Arrivals.lookup os) (.delete orderId) = none) :
    Comes b os (.delete orderId) ((b.delete orderId).1.map some) (b.delete orderId).2 := by
  obtain ⟨live, free, hwhole, rfl⟩ := h
  rw [refusal] at hargs
  have hdelete := hwhole.delete orderId
  cases hlookup : Arrivals.lookup (b.ordersOf live) orderId with
  | none =>
    rw [hlookup] at hargs
    cases hargs
  | some o =>
    rw [hlookup] at hdelete
    obtain ⟨hok, n, hn, hwhole', horders⟩ := hdelete
    have hstep : Arrivals.step (b.ordersOf live) (.delete orderId) =
        (.ok (some o), Arrivals.without (b.ordersOf live) orderId) := by
      rw [Arrivals.step, hlookup]
    have hlength := hwhole.store.length_filter hn
    have hrefusal : b.bounds.refusal (b.ordersOf live) (.delete orderId) = none := rfl
    refine ⟨?_, ?_, ?_⟩
    · rw [hok, hrefusal, hstep]
      rfl
    · rw [hrefusal, hstep]
      exact ⟨_, _, hwhole', horders⟩
    · refine hwhole.bounds_eq hwhole' ?_ (.inl (delete_index b orderId))
      rw [List.length_cons]
      omega

theorem Holds.reduce_comes (h : Holds b os) {orderId : UInt64} {newQuantity : UInt32}
    (hargs : refusal (Arrivals.lookup os) (.reduce orderId newQuantity) = none) :
    Comes b os (.reduce orderId newQuantity)
      ((b.reduce orderId newQuantity).1.map fun _ => none) (b.reduce orderId newQuantity).2 := by
  obtain ⟨live, free, hwhole, rfl⟩ := h
  rw [refusal] at hargs
  split at hargs
  · cases hargs
  rename_i hq
  have hreduce := hwhole.reduce orderId hq
  cases hlookup : Arrivals.lookup (b.ordersOf live) orderId with
  | none =>
    rw [hlookup] at hargs
    cases hargs
  | some o =>
    rw [hlookup] at hreduce hargs
    dsimp only at hreduce hargs
    split at hargs
    · cases hargs
    rename_i hlt
    rw [if_neg hlt] at hreduce
    obtain ⟨hok, hwhole', horders⟩ := hreduce
    have hstep : Arrivals.step (b.ordersOf live) (.reduce orderId newQuantity) =
        (.ok none, Arrivals.resize (b.ordersOf live) orderId newQuantity) := by
      rw [Arrivals.step, hlookup]
      dsimp only
      rw [if_neg hq, if_neg hlt]
    have hrefusal : b.bounds.refusal (b.ordersOf live) (.reduce orderId newQuantity) = none := rfl
    refine ⟨?_, ?_, ?_⟩
    · rw [hok, hrefusal, hstep]
      rfl
    · rw [hrefusal, hstep]
      exact ⟨_, _, hwhole', horders⟩
    · exact hwhole.bounds_eq hwhole' rfl (.inl (reduce_index b orderId newQuantity))

theorem Holds.replace_comes (h : Holds b os) {orderId : UInt64} {newQuantity : UInt32}
    (hargs : refusal (Arrivals.lookup os) (.replace orderId price newQuantity) = none)
    (hexact : b.index.Exact price b.keptPrices) :
    Comes b os (.replace orderId price newQuantity)
      ((b.replace orderId price newQuantity).1.map fun _ => none)
      (b.replace orderId price newQuantity).2 := by
  obtain ⟨live, free, hwhole, rfl⟩ := h
  rw [refusal] at hargs
  split at hargs
  · cases hargs
  rename_i hq
  have hreplace := hwhole.replace orderId hq hexact
  have hindex := replace_index b orderId price newQuantity
  cases hlookup : Arrivals.lookup (b.ordersOf live) orderId with
  | none =>
    rw [hlookup] at hargs
    cases hargs
  | some o =>
    rw [hlookup] at hreplace
    dsimp only at hreplace
    generalize (b.replace orderId price newQuantity).1 = r at hreplace ⊢
    generalize (b.replace orderId price newQuantity).2 = b' at hreplace hindex ⊢
    cases hreplace with
    | noSlot hno =>
      have hslot := (hwhole.store.noSlot_iff orderId hexact _).mp hno
      refine ⟨?_, ?_, rfl⟩
      · rw [Bounds.refusal, hslot]
        rfl
      · rw [Bounds.refusal, hslot]
        exact ⟨live, free, hwhole, rfl⟩
    | replaced hslots hn hwhole' horders =>
      have hslot := hwhole.store.noSlot_eq_none orderId hexact hslots
      have hstep : Arrivals.step (b.ordersOf live) (.replace orderId price newQuantity) =
          (.ok none, Arrivals.without (b.ordersOf live) orderId ++
            [{ o with price := price, quantity := newQuantity }]) := by
        rw [Arrivals.step, if_neg hq, hlookup]
      have hlength := hwhole.store.length_filter hn
      refine ⟨?_, ?_, ?_⟩
      · rw [Bounds.refusal, hslot, hstep]
        rfl
      · rw [Bounds.refusal, hslot, hstep]
        exact ⟨_, _, hwhole', horders⟩
      · refine hwhole.bounds_eq hwhole' ?_ (hindex.imp id fun heq => ⟨orderId, price, hexact, heq⟩)
        rw [List.length_append, List.length_singleton]
        omega

theorem Holds.clear (h : Holds b os) : Holds b.clear [] ∧ b.clear.bounds = b.bounds := by
  obtain ⟨live, free, hwhole, rfl⟩ := h
  exact ⟨⟨[], _, hwhole.clear, rfl⟩, rfl⟩

/-- The tick arithmetic of an operation that is not refused for its arguments does not overflow. -/
def Spared (b : MboBook) (op : Op) : Prop := refusal b.get op = none → b.ExactFor op

instance (b : MboBook) (op : Op) : Decidable (b.Spared op) := inferInstanceAs (Decidable (_ → _))

/-- **An operation on the fast book** is the operation on its orders, within its bounds. -/
theorem Holds.step (h : Holds b os) (hspared : b.Spared op) :
    (OrderBook.step b op).1 = (b.bounds.step os op).1 ∧
      Holds (OrderBook.step b op).2 (b.bounds.step os op).2 ∧
      (OrderBook.step b op).2.bounds = b.bounds := by
  have hrefuses := step_refuses b op
  unfold Spared at hspared
  rw [h.get_eq] at hrefuses hspared
  unfold Bounds.step
  cases hargs : refusal (Arrivals.lookup os) op with
  | some e =>
    rw [hargs] at hrefuses
    rw [show OrderBook.step b op = (.error e, b) from hrefuses]
    exact ⟨rfl, h, rfl⟩
  | none =>
    have hexact := hspared hargs
    have hcomes : Comes b os op (OrderBook.step b op).1 (OrderBook.step b op).2 := by
      cases op with
      | add orderId side price quantity => exact h.add_comes hargs hexact
      | delete orderId => exact h.delete_comes hargs
      | reduce orderId newQuantity => exact h.reduce_comes hargs
      | replace orderId newPrice newQuantity => exact h.replace_comes hargs hexact
      | clear => exact ⟨rfl, h.clear.1, h.clear.2⟩
    obtain ⟨hanswer, hholds, hbounds⟩ := hcomes
    dsimp only
    cases hroom : b.bounds.refusal os op with
    | some e =>
      rw [hroom] at hanswer hholds
      exact ⟨hanswer, hholds, hbounds⟩
    | none =>
      rw [hroom] at hanswer hholds
      exact ⟨hanswer, hholds, hbounds⟩

end Holds

end MboBook

end MarketData.Book
