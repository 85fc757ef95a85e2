import MarketData.Book.MboBounds

/-!
# `Book/MboRoom.lean` — what a refusal leaves, and what a replace needs

Two things that follow from the bounds of a fast book. A refused operation may have moved the
window before it was refused, but it leaves the orders and the bounds, and nothing else is visible
(`refused_invisible`). And a replace looks for its slot while the order still holds its old level,
so it needs a window over both; deleting the order and adding it again does not
(`replace_iff_delete_add`).

## Invisible now, and later

That a book looks the same after a refusal would be little if it went on to answer differently: a
window that has moved could have room for a price it would have refused before. `Holds.run` rules
that out for two books of the same orders and bounds, over any run, and `refused_invisible` is the
run after a refusal. The window itself is not compared, since it is the one thing that does change.

The condition is on the arithmetic only, and only where an operation gets as far as the window
(`Spared`): an operation refused for its arguments is covered whatever its price, before, at and
after the refusal, and it keeps a book reachable (`Reachable.spared`).

## Held back by its own level

`HeldBack` is a condition on prices: the new one, those of the other orders, and the old one. It is
exact for every reachable book, so it says in which books amending an order in place is not the same
as cancelling and sending it again.
-/

set_option autoImplicit false

namespace MarketData.Book

open MarketData.Wire (Side)
open MarketData.Run

namespace MboBook

variable {b b' : MboBook} {os : List RestingOrder} {op : Op} {e : BookError}

/-- The two books answer every question alike. -/
structure LooksLike (b b' : MboBook) : Prop where
  view : SameView b b'
  front : ∀ s, b.front s = b'.front s

theorem Holds.looksLike (h : Holds b os) (h' : Holds b' os) : LooksLike b b' :=
  ⟨h.shows.sameView h'.shows, fun s => by rw [h.front_eq, h'.front_eq]⟩

theorem Reachable.holds (h : Reachable b) : ∃ os, Holds b os := by
  obtain ⟨live, free, hwhole⟩ := h.whole
  exact ⟨_, live, free, hwhole, rfl⟩

/-- An operation that is refused for its arguments leaves the book as it is. -/
theorem Reachable.spared (h : Reachable b) (hspared : b.Spared op) : Reachable (stepped b op) := by
  cases hargs : refusal b.get op with
  | none => exact h.step (hspared hargs)
  | some e =>
    have hrefuses := step_refuses b op
    rw [hargs] at hrefuses
    rw [stepped, show OrderBook.step b op = (.error e, b) from hrefuses]
    exact h

theorem reachable_run {cap : MboCapacity} (hcap : cap.Addressable) {ops : List Op}
    (hspared : Along stepped Spared (new cap) ops) : Reachable (ops.foldl stepped (new cap)) :=
  hspared.invariant Reachable (fun _ _ h hop => h.spared hop) (.new hcap)

/-! ## Refusals -/

/-- What a run of operations is answered. -/
def answers (b : MboBook) : List Op → List (Except BookError (Option RestingOrder))
  | [] => []
  | op :: ops => (OrderBook.step b op).1 :: answers (stepped b op) ops

/-- **Books of the same orders and bounds stay so**, and answer every run alike. -/
theorem Holds.run (h : Holds b os) (h' : Holds b' os) (hbounds : b'.bounds = b.bounds)
    {ops : List Op} (hspared : Along stepped Spared b ops)
    (hspared' : Along stepped Spared b' ops) :
    answers b ops = answers b' ops ∧
      ∀ before, before <+: ops → LooksLike (before.foldl stepped b) (before.foldl stepped b') := by
  induction ops generalizing b b' os with
  | nil =>
    refine ⟨rfl, fun before hbefore => ?_⟩
    rw [List.prefix_nil.mp hbefore]
    exact h.looksLike h'
  | cons op ops ih =>
    obtain ⟨hanswer, hnext, hkept⟩ := h.step hspared.1
    obtain ⟨hanswer', hnext', hkept'⟩ := h'.step hspared'.1
    rw [hbounds] at hanswer' hnext' hkept'
    obtain ⟨hanswers, hlooks⟩ := ih hnext hnext' (hkept'.trans hkept.symm) hspared.2
      hspared'.2
    refine ⟨?_, fun before hbefore => ?_⟩
    · exact congrArg₂ List.cons (hanswer.trans hanswer'.symm) hanswers
    · cases before with
      | nil => exact h.looksLike h'
      | cons op' before =>
        obtain ⟨rfl, htail⟩ := List.cons_prefix_cons.mp hbefore
        exact hlooks before htail

/-- **A refused operation is invisible.** In every book that operations lead to: it looks as it did
before the refusal, whatever the window did, and answers every later run as it would have without
it. -/
theorem refused_invisible (hb : Reachable b) (hspared : b.Spared op)
    (h : (OrderBook.step b op).1 = .error e) :
    LooksLike b (stepped b op) ∧ ∀ later, Along stepped Spared b later →
      Along stepped Spared (stepped b op) later →
        answers b later = answers (stepped b op) later ∧ ∀ before, before <+: later →
          LooksLike (before.foldl stepped b) (before.foldl stepped (stepped b op)) := by
  obtain ⟨os, hos⟩ := hb.holds
  obtain ⟨hanswer, hnext, hbounds⟩ := hos.step hspared
  rw [hanswer] at h
  rw [Bounds.step_of_error h] at hnext
  exact ⟨hos.looksLike hnext, fun later hlater hlater' => hos.run hnext hbounds hlater hlater'⟩

/-- Four orders fill the slab, and an add slides the window before it is refused. -/
def filledUp : MboBook :=
  [Op.add 1 .bid 100 10, .add 2 .bid 100 20, .add 3 .ask 110 5, .add 4 .ask 110 6].foldl stepped
    (new ⟨8, 4, 100, 5⟩)

theorem reachable_filledUp : Reachable filledUp :=
  reachable_run ⟨by decide, by decide⟩ (by decide +kernel)

theorem refused_invisible_filled_up :
    (OrderBook.step filledUp (.add 5 .ask 130 1)).1 = .error (.slabFull 5 4) ∧
      (stepped filledUp (.add 5 .ask 130 1)).index ≠ filledUp.index ∧
      answers filledUp [.delete 1, .add 5 .ask 130 1] =
        answers (stepped filledUp (.add 5 .ask 130 1)) [.delete 1, .add 5 .ask 130 1] := by
  have hfull : (OrderBook.step filledUp (.add 5 .ask 130 1)).1 = .error (.slabFull 5 4) := by
    decide +kernel
  refine ⟨hfull, by decide +kernel, ?_⟩
  exact ((refused_invisible reachable_filledUp (by decide +kernel) hfull).2
    [.delete 1, .add 5 .ask 130 1]
    ⟨by decide +kernel, by decide +kernel, trivial⟩
    ⟨by decide +kernel, by decide +kernel, trivial⟩).1

/-- The distance from a price near the lower end of the 64-bit range to the window's anchor wraps
around. -/
def wrapping : Op := .add 2 .bid (-9223372036854775758) 1

def oneBid : MboBook := stepped (new ⟨8, 4, 100, 1⟩) (.add 1 .bid 100 10)

theorem reachable_oneBid : Reachable oneBid :=
  .spared (.new ⟨by decide, by decide⟩) (by decide +kernel)

/-- The add is refused, and the level of the order that rests is gone. -/
theorem refused_visible_wrapping :
    Reachable oneBid ∧
      (OrderBook.step oneBid wrapping).1 = .error (.priceOutOfRange 2 (-9223372036854775758)) ∧
      oneBid.forEachLevel .bid 0 = [⟨100, 10, 1⟩] ∧
      (stepped oneBid wrapping).forEachLevel .bid 0 = [] ∧
      ¬ LooksLike oneBid (stepped oneBid wrapping) := by
  have hbefore : oneBid.forEachLevel .bid 0 = [⟨100, 10, 1⟩] := by decide +kernel
  have hafter : (stepped oneBid wrapping).forEachLevel .bid 0 = [] := by decide +kernel
  refine ⟨reachable_oneBid, by decide +kernel, hbefore, hafter, fun hlooks => ?_⟩
  have hlevels : oneBid.forEachLevel .bid 0 = (stepped oneBid wrapping).forEachLevel .bid 0 :=
    hlooks.view.forEachLevel .bid 0
  rw [hbefore, hafter] at hlevels
  cases hlevels

/-! ## Replacing, and deleting and adding again -/

/-- Where the order could be deleted and added again at the new price, it can be replaced, and the
book looks the same. -/
def ReplaceAsDeleteAdd (b : MboBook) (o : RestingOrder) (newPrice : Int64)
    (newQuantity : UInt32) : Prop :=
  ((b.delete o.orderId).2.add o.orderId o.side newPrice newQuantity).1 = .ok () →
    (b.replace o.orderId newPrice newQuantity).1 = .ok () ∧
      LooksLike (b.replace o.orderId newPrice newQuantity).2
        ((b.delete o.orderId).2.add o.orderId o.side newPrice newQuantity).2

/-- The orders that rest, as the book walks them. -/
def resting (b : MboBook) : List RestingOrder := b.forEachOrder .bid ++ b.forEachOrder .ask

theorem Holds.mem_resting (h : Holds b os) {o : RestingOrder} : o ∈ b.resting ↔ o ∈ os := by
  have hside : ∀ s, o ∈ b.forEachOrder s ↔ o ∈ os ∧ o.side = s := by
    intro s
    rw [show b.forEachOrder s = _ from h.shows.forEachOrder s, List.mem_flatMap]
    constructor
    · rintro ⟨⟨price, q⟩, hq, ho⟩
      obtain ⟨rfl, -⟩ := Arrivals.mem_levels.mp hq
      obtain ⟨hmem, hqueued⟩ := List.mem_filter.mp ho
      exact ⟨hmem, (of_decide_eq_true hqueued).1⟩
    · rintro ⟨hmem, hs⟩
      have ho : o ∈ Arrivals.queue os s o.price :=
        List.mem_filter.mpr ⟨hmem, decide_eq_true ⟨hs, rfl⟩⟩
      exact ⟨(o.price, _), Arrivals.mem_levels.mpr ⟨rfl, List.ne_nil_of_mem ho⟩, ho⟩
  rw [resting, List.mem_append, hside, hside]
  cases o.side <;> simp

theorem Bounds.narrow_congr {B : Bounds} {prices prices' : List Int64}
    (h : ∀ p, p ∈ prices ↔ p ∈ prices') : B.Narrow prices ↔ B.Narrow prices' := by
  unfold Bounds.Narrow
  simp only [h]

/-- The other orders leave room for the new price, and the order's own old level does not. -/
def HeldBack (b : MboBook) (o : RestingOrder) (newPrice : Int64) : Prop :=
  b.bounds.OnGrid newPrice ∧
    b.bounds.Narrow (newPrice :: (Arrivals.without b.resting o.orderId).map (·.price)) ∧
      ¬ b.bounds.Narrow (newPrice :: b.resting.map (·.price))

instance (b : MboBook) (o : RestingOrder) (newPrice : Int64) :
    Decidable (HeldBack b o newPrice) :=
  inferInstanceAs (Decidable (_ ∧ _ ∧ _))

theorem Holds.heldBack_iff (h : Holds b os) {o : RestingOrder} {newPrice : Int64} :
    HeldBack b o newPrice ↔ b.bounds.OnGrid newPrice ∧
      b.bounds.Narrow (newPrice :: (Arrivals.without os o.orderId).map (·.price)) ∧
        ¬ b.bounds.Narrow (newPrice :: os.map (·.price)) := by
  have hothers : ∀ o', o' ∈ Arrivals.without b.resting o.orderId ↔
      o' ∈ Arrivals.without os o.orderId := by
    intro o'
    rw [Arrivals.without, Arrivals.without, List.mem_filter, List.mem_filter, h.mem_resting]
  have hnarrow : b.bounds.Narrow (newPrice :: (Arrivals.without b.resting o.orderId).map (·.price)) ↔
      b.bounds.Narrow (newPrice :: (Arrivals.without os o.orderId).map (·.price)) :=
    Bounds.narrow_congr fun p => by simp only [List.mem_cons, List.mem_map, hothers]
  have hnarrow' : b.bounds.Narrow (newPrice :: b.resting.map (·.price)) ↔
      b.bounds.Narrow (newPrice :: os.map (·.price)) :=
    Bounds.narrow_congr fun p => by simp only [List.mem_cons, List.mem_map, h.mem_resting]
  unfold HeldBack
  rw [hnarrow, hnarrow']

theorem noSlot_eq_none_iff {B : Bounds} {orderId : UInt64} {price : Int64} :
    B.noSlot os orderId price = none ↔
      B.OnGrid price ∧ B.Narrow (price :: os.map (·.price)) := by
  unfold Bounds.noSlot
  by_cases hgrid : B.OnGrid price
  · by_cases hnarrow : B.Narrow (price :: os.map (·.price))
    · simp [hgrid, hnarrow]
    · simp [hgrid, hnarrow]
  · simp [hgrid]

theorem Holds.length_le (h : Holds b os) : os.length ≤ b.slab := by
  obtain ⟨live, free, hwhole, rfl⟩ := h
  have hlength := hwhole.length_eq
  rw [ordersOf, List.length_map]
  omega

theorem Holds.valid (h : Holds b os) : Arrivals.Valid os := by
  obtain ⟨live, free, hwhole, rfl⟩ := h
  exact hwhole.store.valid

theorem map_eq_ok_iff {α : Type} {x : Except BookError Unit} {f : Unit → α} {a : α} :
    x.map f = .ok a ↔ x = .ok () ∧ f () = a := by
  cases x with
  | error e => exact iff_of_false (fun h => nomatch h) fun h => nomatch h.1
  | ok u => exact ⟨fun h => ⟨rfl, Except.ok.inj h⟩, fun h => congrArg Except.ok h.2⟩

/-- A replace goes through just where there is a slot beside all the orders. -/
theorem Holds.replace_iff (h : Holds b os) {o : RestingOrder} (ho : o ∈ os) {newPrice : Int64}
    {newQuantity : UInt32} (hq : newQuantity ≠ 0)
    (hexact : b.ExactFor (.replace o.orderId newPrice newQuantity)) :
    ((b.replace o.orderId newPrice newQuantity).1 = .ok () ↔
      b.bounds.noSlot os o.orderId newPrice = none) ∧
    (b.bounds.noSlot os o.orderId newPrice = none →
      Holds (b.replace o.orderId newPrice newQuantity).2 (Arrivals.without os o.orderId ++
        [⟨o.orderId, newPrice, newQuantity, o.side⟩])) := by
  have hlookup := h.valid.lookup_of_mem ho
  have hargs : refusal (Arrivals.lookup os) (.replace o.orderId newPrice newQuantity) = none := by
    rw [refusal, if_neg hq, hlookup]
    rfl
  have hcomes := h.replace_comes hargs hexact
  have hstep : Arrivals.step os (.replace o.orderId newPrice newQuantity) = (.ok none,
      Arrivals.without os o.orderId ++ [⟨o.orderId, newPrice, newQuantity, o.side⟩]) := by
    rw [Arrivals.step, if_neg hq, hlookup]
  have hanswer := hcomes.answer
  have hholds := hcomes.holds
  rw [hstep] at hanswer hholds
  rw [show b.bounds.refusal os (.replace o.orderId newPrice newQuantity) =
    b.bounds.noSlot os o.orderId newPrice from rfl] at hanswer hholds
  constructor
  · cases hslot : b.bounds.noSlot os o.orderId newPrice with
    | none =>
      rw [hslot] at hanswer
      exact iff_of_true (map_eq_ok_iff.mp hanswer).1 rfl
    | some e =>
      rw [hslot] at hanswer
      refine iff_of_false (fun hok => ?_) fun h => by cases h
      rw [hok] at hanswer
      cases hanswer
  · intro hslot
    rw [hslot] at hholds
    exact hholds

/-- An order that was deleted is added again just where there is a slot beside the others. -/
theorem Holds.delete_add_iff (h : Holds b os) {o : RestingOrder} (ho : o ∈ os) {newPrice : Int64}
    {newQuantity : UInt32} (hq : newQuantity ≠ 0)
    (hexact : (b.delete o.orderId).2.ExactFor (.add o.orderId o.side newPrice newQuantity)) :
    (((b.delete o.orderId).2.add o.orderId o.side newPrice newQuantity).1 = .ok () ↔
      b.bounds.noSlot (Arrivals.without os o.orderId) o.orderId newPrice = none) ∧
    (b.bounds.noSlot (Arrivals.without os o.orderId) o.orderId newPrice = none →
      Holds ((b.delete o.orderId).2.add o.orderId o.side newPrice newQuantity).2
        (Arrivals.without os o.orderId ++ [⟨o.orderId, newPrice, newQuantity, o.side⟩])) := by
  have hlookup := h.valid.lookup_of_mem ho
  -- The delete goes through, and leaves a free node.
  have hdelete : refusal (Arrivals.lookup os) (.delete o.orderId) = none := by
    rw [refusal, hlookup]
    rfl
  obtain ⟨-, hdeleted, hbounds⟩ := h.delete_comes hdelete
  have hdeleted : Holds (b.delete o.orderId).2 (Arrivals.without os o.orderId) := by
    have hstep : Arrivals.step os (.delete o.orderId) =
        (.ok (some o), Arrivals.without os o.orderId) := by
      rw [Arrivals.step, hlookup]
    rw [hstep] at hdeleted
    exact hdeleted
  have hgone : Arrivals.lookup (Arrivals.without os o.orderId) o.orderId = none := by
    rw [Arrivals.lookup_without, if_pos rfl]
  have hargs : refusal (Arrivals.lookup (Arrivals.without os o.orderId))
      (.add o.orderId o.side newPrice newQuantity) = none := by
    rw [refusal, if_neg hq, hgone]
    rfl
  have hcomes := hdeleted.add_comes hargs hexact
  have hstep : Arrivals.step (Arrivals.without os o.orderId)
      (.add o.orderId o.side newPrice newQuantity) = (.ok none,
        Arrivals.without os o.orderId ++ [⟨o.orderId, newPrice, newQuantity, o.side⟩]) := by
    rw [Arrivals.step, if_neg hq, hgone]
    rfl
  have hroom : (Arrivals.without os o.orderId).length < b.bounds.slab := by
    have hlength := h.valid.length_without ho
    have hle := h.length_le
    show _ < b.slab
    omega
  have hrefusal : (b.delete o.orderId).2.bounds.refusal (Arrivals.without os o.orderId)
      (.add o.orderId o.side newPrice newQuantity) =
        b.bounds.noSlot (Arrivals.without os o.orderId) o.orderId newPrice := by
    rw [hbounds, Bounds.refusal, if_pos hroom]
    cases b.bounds.noSlot (Arrivals.without os o.orderId) o.orderId newPrice <;> rfl
  have hanswer := hcomes.answer
  have hholds := hcomes.holds
  rw [hrefusal, hstep] at hanswer hholds
  constructor
  · cases hslot : b.bounds.noSlot (Arrivals.without os o.orderId) o.orderId newPrice with
    | none =>
      rw [hslot] at hanswer
      exact iff_of_true (map_eq_ok_iff.mp hanswer).1 rfl
    | some e =>
      rw [hslot] at hanswer
      refine iff_of_false (fun hok => ?_) fun h => by cases h
      rw [hok] at hanswer
      cases hanswer
  · intro hslot
    rw [hslot] at hholds
    exact hholds

/-- **A replace is held back just by the order's own old level.** In every book that operations
lead to, and wherever the arithmetic of the two does not overflow: where an order could be deleted
and added again at another price, it can be replaced with the same outcome, unless the window is
wide enough for the new price and the other orders but not for the order's old price as well. -/
theorem replace_iff_delete_add (hb : Reachable b) {o : RestingOrder}
    (ho : b.get o.orderId = some o) {newPrice : Int64} {newQuantity : UInt32}
    (hq : newQuantity ≠ 0) (hexact : b.ExactFor (.replace o.orderId newPrice newQuantity))
    (hexact' : (b.delete o.orderId).2.ExactFor (.add o.orderId o.side newPrice newQuantity)) :
    ReplaceAsDeleteAdd b o newPrice newQuantity ↔ ¬ HeldBack b o newPrice := by
  obtain ⟨os, hos⟩ := hb.holds
  have hmem : o ∈ os := by
    rw [hos.get_eq] at ho
    exact (Arrivals.lookup_eq_some ho).1
  obtain ⟨hreplace, hreplaced⟩ := hos.replace_iff hmem hq hexact
  obtain ⟨hadd, hadded⟩ := hos.delete_add_iff hmem hq hexact'
  unfold ReplaceAsDeleteAdd
  rw [hos.heldBack_iff, hadd, hreplace, noSlot_eq_none_iff, noSlot_eq_none_iff]
  rw [noSlot_eq_none_iff] at hreplaced hadded
  constructor
  · rintro hproperty ⟨hgrid, hothers, hall⟩
    exact hall (hproperty ⟨hgrid, hothers⟩).1.2
  · rintro hnot ⟨hgrid, hothers⟩
    have hall : b.bounds.Narrow (newPrice :: os.map (·.price)) := by
      by_contra hall
      exact hnot ⟨hgrid, hothers, hall⟩
    exact ⟨⟨hgrid, hall⟩, (hreplaced ⟨hgrid, hall⟩).looksLike (hadded ⟨hgrid, hothers⟩)⟩

/-- Two bids at the two ends of a window four ticks wide. -/
def twoBids : MboBook :=
  [Op.add 1 .bid 100 1, .add 2 .bid 103 1].foldl stepped (new ⟨4, 4, 100, 1⟩)

theorem reachable_twoBids : Reachable twoBids :=
  reachable_run ⟨by decide, by decide⟩ (by decide +kernel)

theorem replace_iff_delete_add_two_bids :
    ReplaceAsDeleteAdd twoBids ⟨1, 100, 1, .bid⟩ 102 3 :=
  (replace_iff_delete_add reachable_twoBids (by decide +kernel) (by decide) (by decide +kernel)
    (by decide +kernel)).mpr (by decide +kernel)

/-- One tick above the higher order the window is too narrow for the old price of the lower one,
which the replace is to leave. -/
theorem replace_held_back_by_old_level :
    Reachable twoBids ∧ twoBids.get 1 = some ⟨1, 100, 1, .bid⟩ ∧
      ((twoBids.delete 1).2.add 1 .bid 104 1).1 = .ok () ∧
      (twoBids.replace 1 104 1).1 = .error (.priceOutOfRange 1 104) ∧
      ¬ ReplaceAsDeleteAdd twoBids ⟨1, 100, 1, .bid⟩ 104 1 := by
  have hadd : ((twoBids.delete 1).2.add 1 .bid 104 1).1 = .ok () := by decide +kernel
  have hreplace : (twoBids.replace 1 104 1).1 = .error (.priceOutOfRange 1 104) := by
    decide +kernel
  refine ⟨reachable_twoBids, by decide +kernel, hadd, hreplace, fun hproperty => ?_⟩
  have hok := (hproperty hadd).1
  rw [hreplace] at hok
  cases hok

end MboBook

end MarketData.Book
