import MarketData.Book.Arrivals

/-!
# `Book/ReferenceArrivals.lean` — the reference book is its list of arrivals

`Reps` relates a reference book to the orders resting on it: the map finds each by its id, and
every price has the ids of its queue. Each operation does to the book what `Arrivals.step` does to
the list (`Reps.step`), and a book so related shows the list (`Reps.shows`).

The book keeps every order twice, once in the map and once as an id in a queue, so `Reps` has a
clause for each and a third one for their absence: a price whose queue is empty has **no entry**
(`filed`). `unlink` takes care of the last by removing an empty queue; without it `level_count`,
which is the size of the map, would count levels that are gone.

Two conventions keep the proofs short. The list is what the operations are computed on, and the book
is only compared with it, by lookups; maps are never written out. And an operation that is refused
leaves the book *equal* to what it was, not only related to the same list, so a refused operation
needs no case of its own anywhere above.

The relation determines what the book answers and not how it is laid out. Two books related to one
list can differ inside their maps, and nothing asks whether they do.
-/

set_option autoImplicit false

namespace MarketData.Book

open MarketData.Wire (Side)
open MarketData.Ladder Arrivals

/-- What a level map holds for a queue: its ids, or no entry at all. -/
def filed (q : List RestingOrder) : Option (List UInt64) :=
  if q = [] then none else some (q.map (·.orderId))

theorem filed_eq_some {q : List RestingOrder} {ids : List UInt64} :
    filed q = some ids ↔ q ≠ [] ∧ q.map (·.orderId) = ids := by
  unfold filed
  split
  · rename_i h
    simp [h]
  · rename_i h
    simp [h]

theorem getD_filed (q : List RestingOrder) : (filed q).getD [] = q.map (·.orderId) := by
  unfold filed
  split
  · rename_i h
    rw [h]
    rfl
  · rfl

/-- The book holds exactly the orders `os`. -/
structure Reps (b : ReferenceBook) (os : List RestingOrder) : Prop where
  valid : Valid os
  orders : ∀ orderId, b.orders[orderId]? = lookup os orderId
  size : b.orders.size = os.length
  levels : ∀ s price, (b.side s)[price]? = filed (queue os s price)

namespace ReferenceBook

@[simp] theorem orders_modifySide (b : ReferenceBook) (s : Side) (f : Levels → Levels) :
    (b.modifySide s f).orders = b.orders := by
  cases s <;> rfl

theorem side_modifySide (b : ReferenceBook) (s s' : Side) (f : Levels → Levels) :
    (b.modifySide s f).side s' = if s = s' then f (b.side s') else b.side s' := by
  cases s <;> cases s' <;> rfl

theorem getElem?_pushBack (levels : Levels) (price price' : Int64) (orderId : UInt64) :
    (pushBack levels price orderId)[price']? =
      if price = price' then some (levels[price]?.getD [] ++ [orderId]) else levels[price']? := by
  rw [pushBack, Std.TreeMap.getElem?_insert, Std.TreeMap.getD_eq_getD_getElem?]
  simp only [Std.LawfulEqCmp.compare_eq_iff_eq]

theorem getElem?_unlink (levels : Levels) (price price' : Int64) (orderId : UInt64) :
    (unlink levels price orderId)[price']? =
      if price = price' then
        levels[price]?.bind fun q =>
          if (q.erase orderId).isEmpty then none else some (q.erase orderId)
      else levels[price']? := by
  unfold unlink
  split
  · rename_i hnone
    split
    · rename_i heq
      rw [← heq, hnone]
      rfl
    · rfl
  · rename_i q hsome
    rw [hsome, Option.bind_some]
    dsimp only
    split
    · rw [Std.TreeMap.getElem?_erase]
      simp only [Std.LawfulEqCmp.compare_eq_iff_eq]
    · rw [Std.TreeMap.getElem?_insert]
      simp only [Std.LawfulEqCmp.compare_eq_iff_eq]

end ReferenceBook

open ReferenceBook

section Queues

variable {os : List RestingOrder}

/-- Appending an order files its id behind the queue of its price, and touches no other. -/
theorem filed_queue_append (o : RestingOrder) (s : Side) (price : Int64) :
    filed (queue (os ++ [o]) s price) =
      if o.side = s ∧ o.price = price then
        some ((filed (queue os s price)).getD [] ++ [o.orderId])
      else filed (queue os s price) := by
  rw [queue_append, queue_singleton]
  split
  · rw [filed_eq_some.mpr ⟨List.append_ne_nil_of_right_ne_nil _ (List.cons_ne_nil _ _), rfl⟩,
      List.map_append, getD_filed]
    rfl
  · rw [List.append_nil]

/-- Removing an order takes its id out of the queue of its price, and touches no other. -/
theorem Arrivals.Valid.filed_queue_without (h : Valid os) {o : RestingOrder} (ho : o ∈ os)
    (s : Side) (price : Int64) :
    filed (queue (Arrivals.without os o.orderId) s price) =
      if o.side = s ∧ o.price = price then
        (filed (queue os s price)).bind fun q =>
          if (q.erase o.orderId).isEmpty then none else some (q.erase o.orderId)
      else filed (queue os s price) := by
  have hnodup : ((queue os s price).map (·.orderId)).Nodup :=
    h.ids.sublist (List.filter_sublist.map _)
  have hids : ((queue (Arrivals.without os o.orderId) s price).map (·.orderId)) =
      ((queue os s price).map (·.orderId)).erase o.orderId := by
    rw [hnodup.erase_eq_filter, queue_without, List.filter_map]
    congr 2
    funext o'
    simp only [Function.comp_apply, bne, ne_eq, decide_not]
    rfl
  split
  · rename_i hat
    have hmem : o ∈ queue os s price := List.mem_filter.mpr ⟨ho, decide_eq_true hat⟩
    have hsome : filed (queue os s price) = some ((queue os s price).map (·.orderId)) :=
      filed_eq_some.mpr ⟨List.ne_nil_of_mem hmem, rfl⟩
    rw [hsome, Option.bind_some, ← hids, filed]
    simp only [List.isEmpty_iff, List.map_eq_nil_iff]
  · rename_i hat
    -- no order of this queue has the id: it would be `o`, which rests elsewhere
    have hkeep : queue (Arrivals.without os o.orderId) s price = queue os s price := by
      rw [queue_without, List.filter_eq_self]
      intro o' ho'
      obtain ⟨hmem', hat'⟩ := List.mem_filter.mp ho'
      refine decide_eq_true fun hid => hat ?_
      rw [← h.eq_of_orderId hmem' ho hid]
      exact of_decide_eq_true hat'
    rw [hkeep]

theorem filed_queue_resize (orderId : UInt64) (quantity : UInt32) (s : Side) (price : Int64) :
    filed (queue (resize os orderId quantity) s price) = filed (queue os s price) := by
  have hnil : queue (resize os orderId quantity) s price = [] ↔ queue os s price = [] := by
    rw [queue_resize, resize, List.map_eq_nil_iff]
  unfold filed
  rw [queue_resize, map_orderId_resize]
  simp only [hnil, ← queue_resize]

theorem Arrivals.Valid.length_without (h : Valid os) {o : RestingOrder} (ho : o ∈ os) :
    (Arrivals.without os o.orderId).length + 1 = os.length := by
  have hcount : os.countP (fun o' => o'.orderId = o.orderId) = 1 := by
    have hone := List.count_eq_one_of_mem h.ids (List.mem_map_of_mem ho)
    rw [List.count, List.countP_map] at hone
    rw [← hone]
    apply List.countP_congr
    intro o' _
    simp
  have hsplit := List.length_eq_countP_add_countP (fun o' => decide (o'.orderId = o.orderId)) (l := os)
  rw [Arrivals.without, ← List.countP_eq_length_filter, hsplit, hcount, Nat.add_comm]
  congr 1
  apply List.countP_congr
  intro o' _
  simp

end Queues

namespace Reps

variable {b : ReferenceBook} {os : List RestingOrder}

theorem new : Reps ReferenceBook.new [] := by
  refine ⟨valid_nil, fun orderId => rfl, rfl, fun s price => ?_⟩
  cases s <;> rfl

/-- Filing an order that is not on the book. -/
theorem append (h : Reps b os) {o : RestingOrder} (hnew : lookup os o.orderId = none)
    (hq : o.quantity ≠ 0) :
    Reps (({ b with orders := b.orders.insert o.orderId o } : ReferenceBook).modifySide o.side
      fun levels => pushBack levels o.price o.orderId) (os ++ [o]) := by
  have hsame : ∀ s, ({ b with orders := b.orders.insert o.orderId o } : ReferenceBook).side s =
      b.side s := by
    intro s
    cases s <;> rfl
  refine ⟨h.valid.append hnew hq, fun orderId => ?_, ?_, fun s price => ?_⟩
  · rw [orders_modifySide]
    show (b.orders.insert o.orderId o)[orderId]? = _
    rw [Std.TreeMap.getElem?_insert, lookup_append, lookup_singleton, h.orders]
    simp only [Std.LawfulEqCmp.compare_eq_iff_eq]
    split
    · rename_i heq
      rw [← heq, hnew]
      rfl
    · rw [Option.or_none]
  · rw [orders_modifySide]
    show (b.orders.insert o.orderId o).size = _
    rw [Std.TreeMap.size_insert, Std.TreeMap.contains_eq_isSome_getElem?, h.orders, hnew, h.size,
      List.length_append]
    rfl
  · rw [side_modifySide, hsame, filed_queue_append, ← h.levels]
    by_cases hside : o.side = s
    · rw [if_pos hside, getElem?_pushBack]
      by_cases hprice : o.price = price
      · rw [if_pos hprice, if_pos ⟨hside, hprice⟩, hprice]
      · rw [if_neg hprice, if_neg fun hat => hprice hat.2]
    · rw [if_neg hside, if_neg fun hat => hside hat.1]

/-- Taking an order off the book. -/
theorem without (h : Reps b os) {o : RestingOrder} (ho : o ∈ os) :
    Reps (({ b with orders := b.orders.erase o.orderId } : ReferenceBook).modifySide o.side
      fun levels => unlink levels o.price o.orderId) (Arrivals.without os o.orderId) := by
  have hsame : ∀ s, ({ b with orders := b.orders.erase o.orderId } : ReferenceBook).side s =
      b.side s := by
    intro s
    cases s <;> rfl
  refine ⟨h.valid.without o.orderId, fun orderId => ?_, ?_, fun s price => ?_⟩
  · rw [orders_modifySide]
    show (b.orders.erase o.orderId)[orderId]? = _
    rw [Std.TreeMap.getElem?_erase, lookup_without, h.orders]
    simp only [Std.LawfulEqCmp.compare_eq_iff_eq]
  · rw [orders_modifySide]
    show (b.orders.erase o.orderId).size = _
    rw [Std.TreeMap.size_erase, Std.TreeMap.contains_eq_isSome_getElem?, h.orders,
      h.valid.lookup_of_mem ho, h.size, ← h.valid.length_without ho]
    rfl
  · rw [side_modifySide, hsame, h.valid.filed_queue_without ho, ← h.levels]
    by_cases hside : o.side = s
    · rw [if_pos hside, getElem?_unlink]
      by_cases hprice : o.price = price
      · rw [if_pos hprice, if_pos ⟨hside, hprice⟩, hprice]
      · rw [if_neg hprice, if_neg fun hat => hprice hat.2]
    · rw [if_neg hside, if_neg fun hat => hside hat.1]

theorem resize (h : Reps b os) {o : RestingOrder} (ho : o ∈ os) {quantity : UInt32}
    (hq : quantity ≠ 0) :
    Reps { b with orders := b.orders.insert o.orderId { o with quantity := quantity } }
      (Arrivals.resize os o.orderId quantity) := by
  refine ⟨h.valid.resize o.orderId hq, fun orderId => ?_, ?_, fun s price => ?_⟩
  · show (b.orders.insert o.orderId _)[orderId]? = _
    rw [Std.TreeMap.getElem?_insert, lookup_resize, h.orders]
    simp only [Std.LawfulEqCmp.compare_eq_iff_eq]
    split
    · rename_i heq
      rw [← heq, h.valid.lookup_of_mem ho, Option.map_some, if_pos rfl]
    · rename_i hne
      cases hfound : lookup os orderId with
      | none => rfl
      | some o' =>
        rw [Option.map_some, if_neg]
        intro heq
        exact hne (heq.symm.trans (lookup_eq_some hfound).2)
  · show (b.orders.insert o.orderId _).size = _
    rw [Std.TreeMap.size_insert, Std.TreeMap.contains_eq_isSome_getElem?, h.orders,
      h.valid.lookup_of_mem ho, h.size, Arrivals.resize, List.length_map]
    rfl
  · have hsame : ({ b with orders := b.orders.insert o.orderId { o with quantity := quantity } } :
        ReferenceBook).side s = b.side s := by
      cases s <;> rfl
    rw [hsame, h.levels, filed_queue_resize]

/-- **An operation on the book is the operation on the list.** -/
theorem step (h : Reps b os) (op : Op) :
    (OrderBook.step b op).1 = (Arrivals.step os op).1 ∧
    Reps (OrderBook.step b op).2 (Arrivals.step os op).2 := by
  cases op with
  | add orderId side price quantity =>
    show ((b.add orderId side price quantity).1.map fun _ => none) = _ ∧
      Reps (b.add orderId side price quantity).2 _
    simp only [ReferenceBook.add, Arrivals.step, Std.TreeMap.contains_eq_isSome_getElem?,
      h.orders]
    split
    · exact ⟨rfl, h⟩
    · rename_i hq
      split
      · exact ⟨rfl, h⟩
      · rename_i hnew
        exact ⟨rfl, h.append (o := ⟨orderId, price, quantity, side⟩)
          (Option.not_isSome_iff_eq_none.mp hnew) hq⟩
  | delete orderId =>
    show (b.delete orderId).1.map some = _ ∧ Reps (b.delete orderId).2 _
    simp only [ReferenceBook.delete, Arrivals.step, h.orders]
    cases hfound : lookup os orderId with
    | none => exact ⟨rfl, h⟩
    | some o =>
      obtain ⟨hmem, rfl⟩ := lookup_eq_some hfound
      exact ⟨rfl, h.without hmem⟩
  | reduce orderId newQuantity =>
    show ((b.reduce orderId newQuantity).1.map fun _ => none) = _ ∧
      Reps (b.reduce orderId newQuantity).2 _
    simp only [ReferenceBook.reduce, Arrivals.step, h.orders]
    cases hfound : lookup os orderId with
    | none => exact ⟨rfl, h⟩
    | some o =>
      obtain ⟨hmem, rfl⟩ := lookup_eq_some hfound
      dsimp only
      split
      · exact ⟨rfl, h⟩
      · rename_i hq
        split
        · exact ⟨rfl, h⟩
        · exact ⟨rfl, h.resize hmem hq⟩
  | replace orderId newPrice newQuantity =>
    show ((b.replace orderId newPrice newQuantity).1.map fun _ => none) = _ ∧
      Reps (b.replace orderId newPrice newQuantity).2 _
    simp only [ReferenceBook.replace, Arrivals.step, h.orders]
    split
    · exact ⟨rfl, h⟩
    · rename_i hq
      cases hfound : lookup os orderId with
      | none => exact ⟨rfl, h⟩
      | some o =>
        obtain ⟨hmem, rfl⟩ := lookup_eq_some hfound
        refine ⟨rfl, ?_⟩
        -- a replacement is a removal followed by an arrival; the map skips the erase
        have hnew : lookup (Arrivals.without os o.orderId) o.orderId = none := by
          rw [lookup_without, if_pos rfl]
        have hmoved := (h.without hmem).append
          (o := { o with price := newPrice, quantity := newQuantity }) hnew hq
        refine ⟨hmoved.valid, fun orderId' => ?_, ?_, fun s price => ?_⟩
        · rw [← hmoved.orders orderId']
          simp only [orders_modifySide, Std.TreeMap.getElem?_insert, Std.TreeMap.getElem?_erase,
            Std.LawfulEqCmp.compare_eq_iff_eq]
          split <;> rfl
        · rw [← hmoved.size]
          simp only [orders_modifySide, Std.TreeMap.size_insert, Std.TreeMap.size_erase,
            Std.TreeMap.contains_eq_isSome_getElem?, Std.TreeMap.getElem?_erase, h.orders,
            Std.LawfulEqCmp.compare_eq_iff_eq, h.valid.lookup_of_mem hmem]
          have hlen := h.valid.length_without hmem
          rw [← h.size] at hlen
          simp only [if_true, Option.isSome_some, Option.isSome_none, Bool.false_eq_true, if_false]
          omega
        · rw [← hmoved.levels s price]
          obtain ⟨orderId, oldPrice, quantity, side⟩ := o
          cases s <;> cases side <;> rfl
  | clear => exact ⟨rfl, new⟩

/-! ## What the book shows -/

/-- The orders behind a queue of ids. -/
theorem filterMap_get (h : Reps b os) (s : Side) (price : Int64) :
    ((queue os s price).map (·.orderId)).filterMap b.get = queue os s price := by
  rw [List.filterMap_map]
  have hget : ∀ o ∈ queue os s price, (b.get ∘ (·.orderId)) o = some o := by
    intro o ho
    show b.orders[o.orderId]? = some o
    rw [h.orders]
    exact h.valid.lookup_of_mem (List.mem_filter.mp ho).1
  rw [List.filterMap_congr hget, List.filterMap_some]

theorem mem_bestFirst (h : Reps b os) (s : Side) (price : Int64) (ids : List UInt64) :
    (price, ids) ∈ b.bestFirst s ↔ filed (queue os s price) = some ids := by
  rw [← h.levels]
  cases s with
  | bid =>
    show (price, ids) ∈ b.bids.toList.reverse ↔ _
    rw [List.mem_reverse]
    exact Std.TreeMap.mem_toList_iff_getElem?_eq_some
  | ask => exact Std.TreeMap.mem_toList_iff_getElem?_eq_some

theorem before_of_compare {a c : Int64} (h : compare a c = .lt) : Before (bestLe .ask) a c := by
  have hlt : a < c := compareOfLessAndEq_eq_lt.mp h
  exact ⟨decide_eq_true (Int64.le_of_lt hlt), Int64.ne_of_lt hlt⟩

theorem bestFirst_sorted (b : ReferenceBook) (s : Side) :
    (b.bestFirst s).Pairwise fun x y => Before (bestLe s) x.1 y.1 := by
  cases s with
  | bid =>
    show b.bids.toList.reverse.Pairwise _
    rw [List.pairwise_reverse]
    refine Std.TreeMap.ordered_keys_toList.imp fun hlt => ?_
    obtain ⟨hle, hne⟩ := before_of_compare hlt
    exact ⟨hle, hne.symm⟩
  | ask =>
    exact (Std.TreeMap.ordered_keys_toList (t := b.asks)).imp before_of_compare

/-- The walk over the level map, with the orders behind the ids, is the ladder. -/
theorem bestFirst_eq (h : Reps b os) (s : Side) :
    ((b.bestFirst s).map fun e => (e.1, e.2.filterMap b.get)) = Arrivals.levels os s := by
  apply IsLevels.eq_levels
  apply isLevels_of
  · rw [List.pairwise_map]
    exact bestFirst_sorted b s
  · intro price q
    rw [List.mem_map]
    constructor
    · rintro ⟨⟨price', ids⟩, hmem, heq⟩
      obtain ⟨hne, rfl⟩ := filed_eq_some.mp ((h.mem_bestFirst s price' ids).mp hmem)
      cases heq
      rw [h.filterMap_get]
      exact ⟨rfl, hne⟩
    · rintro ⟨rfl, hne⟩
      refine ⟨(price, (queue os s price).map (·.orderId)), ?_, ?_⟩
      · exact (h.mem_bestFirst s price _).mpr (filed_eq_some.mpr ⟨hne, rfl⟩)
      · rw [h.filterMap_get]

theorem length_bestFirst (b : ReferenceBook) (s : Side) :
    (b.bestFirst s).length = (b.side s).size := by
  cases s with
  | bid =>
    show b.bids.toList.reverse.length = _
    rw [List.length_reverse]
    exact Std.TreeMap.length_toList
  | ask => exact Std.TreeMap.length_toList

/-- A queue of ids names as many orders. -/
theorem length_ids (h : Reps b os) {s : Side} {e : Int64 × List UInt64} (he : e ∈ b.bestFirst s) :
    e.2.length = (e.2.filterMap b.get).length := by
  obtain ⟨-, hids⟩ := filed_eq_some.mp ((h.mem_bestFirst s e.1 e.2).mp he)
  rw [← hids, h.filterMap_get, List.length_map]

/-- **The reference book shows the orders resting on it.** -/
theorem get_of_mem (h : Reps b os) {o : RestingOrder} (ho : o ∈ os) :
    b.get o.orderId = some o := by
  show b.orders[o.orderId]? = _
  rw [h.orders]
  exact h.valid.lookup_of_mem ho

theorem shows (h : Reps b os) : Shows b os := by
  have hcut : ∀ s depth, (cut depth (b.bestFirst s)).map (fun e => (e.1, e.2.filterMap b.get)) =
      cut depth (Arrivals.levels os s) := by
    intro s depth
    rw [← h.bestFirst_eq s, cut, cut]
    split
    · rfl
    · rw [List.map_take]
  refine ⟨h.orders, h.size, fun s depth => ?_, fun s depth => ?_, fun s => ?_⟩
  · show (if depth = 0 then (b.side s).size else min (b.side s).size depth) = _
    rw [← hcut, List.length_map, cut, ← length_bestFirst]
    split
    · rfl
    · rw [List.length_take, Nat.min_comm]
  · show (cut depth (b.bestFirst s)).map (fun e => b.emitLevel e.1 e.2) = _
    rw [← hcut, List.map_map]
    apply List.map_congr_left
    intro e he
    have hmem : e ∈ b.bestFirst s := by
      unfold cut at he
      split at he
      · exact he
      · exact List.mem_of_mem_take he
    simp only [ReferenceBook.emitLevel, Function.comp_apply, levelOf, h.length_ids hmem]
  · show ((b.bestFirst s).flatMap fun e => e.2.filterMap b.get) = _
    rw [← h.bestFirst_eq s, List.flatMap_map]

theorem front_eq (h : Reps b os) (s : Side) : b.front s = Arrivals.front os s := by
  have hids : ∀ e ∈ b.bestFirst s, e.2.head? = ((e.2.filterMap b.get).head?).map (·.orderId) := by
    intro e he
    obtain ⟨-, hids⟩ := filed_eq_some.mp ((h.mem_bestFirst s e.1 e.2).mp he)
    rw [← hids, h.filterMap_get, List.head?_map]
  unfold ReferenceBook.front Arrivals.front
  rw [← h.bestFirst_eq s, List.head?_map]
  cases hwalk : b.bestFirst s with
  | nil => rfl
  | cons e rest =>
    have he := hids e (by rw [hwalk]; exact List.mem_cons_self)
    simp only [List.head?_cons, Option.map_some, Option.bind_eq_bind, Option.bind_some]
    rw [he]
    cases (e.2.filterMap b.get).head? <;> rfl

end Reps

end MarketData.Book
