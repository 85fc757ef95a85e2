import MarketData.Book.Apply
import MarketData.Lib.Ladder

/-!
# `Book/Arrivals.lean` — what a book is for

A book is the list of its resting orders in the order of their arrival, where an order that is
replaced arrives again. Everything a book can be asked follows from that list: an order by its
id, and on each side the orders of every price, oldest first, from the best price on. `Shows`
says that a book answers everything as the list demands, and `step` is what an operation does to
the list; the two implementations are held against these, not against each other.

## Why a list, and not a map of queues

Price-time priority is one order on orders: better prices first, and among equal prices the earlier
arrival. The list carries the second half by position, and the first half is computed when a side is
walked (`levels`). So **no operation has to keep two structures in step**: `delete` and `reduce` are
a filter and a map, and a replace is a delete and an append even when the price does not change,
which is exactly the rule that an amended order goes to the back.

What the list does not know is room. A slab can be full and a price out of the window's reach, and
neither is a property of the orders; `Book/MboBounds.lean` adds those bounds beside the list. It
does not know either in what order the reference book's map would visit its orders, because nothing
observes that.

`Valid` (distinct ids, no order for nothing) is kept by every operation from any list that has it,
and the ladder lemmas below need it only where an id is looked up.
-/

set_option autoImplicit false

namespace MarketData.Book

open MarketData.Wire (Side)
open MarketData.Ladder

/-- An operation of the `OrderBook` interface. -/
inductive Op where
  | add (orderId : UInt64) (side : Side) (price : Int64) (quantity : UInt32)
  | delete (orderId : UInt64)
  | reduce (orderId : UInt64) (newQuantity : UInt32)
  | replace (orderId : UInt64) (newPrice : Int64) (newQuantity : UInt32)
  | clear
  deriving DecidableEq, Repr

/-- An operation on a book, with what it answers: `delete` answers the order it removed. -/
def OrderBook.step {B : Type} [OrderBook B] (b : B) :
    Op → Except BookError (Option RestingOrder) × B
  | .add orderId side price quantity =>
    let r := OrderBook.add b orderId side price quantity
    (r.1.map fun _ => none, r.2)
  | .delete orderId =>
    let r := OrderBook.delete b orderId
    (r.1.map some, r.2)
  | .reduce orderId newQuantity =>
    let r := OrderBook.reduce b orderId newQuantity
    (r.1.map fun _ => none, r.2)
  | .replace orderId newPrice newQuantity =>
    let r := OrderBook.replace b orderId newPrice newQuantity
    (r.1.map fun _ => none, r.2)
  | .clear => (.ok none, OrderBook.clear b)

namespace Arrivals

/-! ## The list of resting orders -/

def lookup (os : List RestingOrder) (orderId : UInt64) : Option RestingOrder :=
  os.find? fun o => o.orderId = orderId

/-- The orders of one side and price, oldest first. -/
def queue (os : List RestingOrder) (s : Side) (price : Int64) : List RestingOrder :=
  os.filter fun o => o.side = s ∧ o.price = price

def without (os : List RestingOrder) (orderId : UInt64) : List RestingOrder :=
  os.filter fun o => o.orderId ≠ orderId

def resize (os : List RestingOrder) (orderId : UInt64) (quantity : UInt32) : List RestingOrder :=
  os.map fun o => if o.orderId = orderId then { o with quantity := quantity } else o

/-- No two orders have one id, and no order rests with nothing. -/
structure Valid (os : List RestingOrder) : Prop where
  ids : (os.map (·.orderId)).Nodup
  quantities : ∀ o ∈ os, o.quantity ≠ 0

/-- What an operation does to the resting orders. -/
def step (os : List RestingOrder) : Op → Except BookError (Option RestingOrder) × List RestingOrder
  | .add orderId side price quantity =>
    if quantity = 0 then (.error (.zeroQuantity orderId), os)
    else if (lookup os orderId).isSome then (.error (.duplicateOrderId orderId), os)
    else (.ok none, os ++ [⟨orderId, price, quantity, side⟩])
  | .delete orderId =>
    match lookup os orderId with
    | none => (.error (.unknownOrderId orderId), os)
    | some o => (.ok (some o), without os orderId)
  | .reduce orderId newQuantity =>
    match lookup os orderId with
    | none => (.error (.unknownOrderId orderId), os)
    | some o =>
      if newQuantity = 0 then (.error (.zeroQuantity orderId), os)
      else if o.quantity < newQuantity then
        (.error (.reduceWouldIncrease orderId o.quantity newQuantity), os)
      else (.ok none, resize os orderId newQuantity)
  | .replace orderId newPrice newQuantity =>
    if newQuantity = 0 then (.error (.zeroQuantity orderId), os)
    else match lookup os orderId with
      | none => (.error (.unknownOrderId orderId), os)
      | some o =>
        (.ok none, without os orderId ++ [{ o with price := newPrice, quantity := newQuantity }])
  | .clear => (.ok none, [])

section Lookup

variable {os : List RestingOrder} {orderId : UInt64} {o : RestingOrder}

theorem lookup_eq_some (h : lookup os orderId = some o) : o ∈ os ∧ o.orderId = orderId := by
  unfold lookup at h
  exact ⟨List.mem_of_find?_eq_some h, by simpa using List.find?_some h⟩

theorem lookup_eq_none : lookup os orderId = none ↔ ∀ o ∈ os, o.orderId ≠ orderId := by
  rw [lookup, List.find?_eq_none]
  constructor
  · intro h o ho heq
    exact h o ho (decide_eq_true heq)
  · intro h o ho heq
    exact h o ho (of_decide_eq_true heq)

theorem Valid.eq_of_orderId (h : Valid os) {a b : RestingOrder} (ha : a ∈ os) (hb : b ∈ os)
    (hid : a.orderId = b.orderId) : a = b :=
  List.inj_on_of_nodup_map h.ids ha hb hid

theorem Valid.lookup_of_mem (h : Valid os) (ho : o ∈ os) : lookup os o.orderId = some o := by
  cases hfound : lookup os o.orderId with
  | none => exact absurd rfl (lookup_eq_none.mp hfound o ho)
  | some o' =>
    obtain ⟨hmem, hid⟩ := lookup_eq_some hfound
    rw [h.eq_of_orderId hmem ho hid]

/-- Orders of the same ids in another order are looked up alike. -/
theorem Valid.lookup_perm {os' : List RestingOrder} (h : Valid os) (hperm : os'.Perm os)
    (orderId : UInt64) : lookup os' orderId = lookup os orderId := by
  have h' : Valid os' :=
    ⟨(hperm.map _).nodup_iff.mpr h.ids, fun o ho => h.quantities o (hperm.mem_iff.mp ho)⟩
  cases hfound : lookup os orderId with
  | none =>
    rw [lookup_eq_none]
    intro o ho
    exact lookup_eq_none.mp hfound o (hperm.mem_iff.mp ho)
  | some o =>
    obtain ⟨hmem, rfl⟩ := lookup_eq_some hfound
    exact h'.lookup_of_mem (hperm.mem_iff.mpr hmem)

theorem lookup_append (os os' : List RestingOrder) (orderId : UInt64) :
    lookup (os ++ os') orderId = (lookup os orderId).or (lookup os' orderId) :=
  List.find?_append

theorem lookup_singleton (o : RestingOrder) (orderId : UInt64) :
    lookup [o] orderId = if o.orderId = orderId then some o else none := by
  simp only [lookup, List.find?_cons, List.find?_nil]
  split <;> rename_i h
  · rw [if_pos (of_decide_eq_true h)]
  · rw [if_neg (of_decide_eq_false h)]

theorem lookup_without (os : List RestingOrder) (orderId orderId' : UInt64) :
    lookup (without os orderId) orderId' =
      if orderId = orderId' then none else lookup os orderId' := by
  split
  · rename_i heq
    rw [lookup_eq_none]
    intro o ho hid
    have hkept := of_decide_eq_true (List.mem_filter.mp ho).2
    exact hkept (hid.trans heq.symm)
  · rename_i hne
    rw [lookup, lookup, without, List.find?_filter]
    congr 1
    funext o
    by_cases hid : o.orderId = orderId'
    · have hne' : orderId' ≠ orderId := fun h => hne h.symm
      simp [hid, hne']
    · simp [hid]

theorem lookup_resize (os : List RestingOrder) (orderId orderId' : UInt64) (quantity : UInt32) :
    lookup (resize os orderId quantity) orderId' =
      (lookup os orderId').map fun o =>
        if o.orderId = orderId then { o with quantity := quantity } else o := by
  rw [lookup, lookup, resize, List.find?_map]
  congr 2
  funext o
  simp only [Function.comp_apply]
  split <;> rfl

end Lookup

section Queue

variable (os os' : List RestingOrder) (s : Side) (price : Int64) (orderId : UInt64)

theorem queue_append : queue (os ++ os') s price = queue os s price ++ queue os' s price :=
  List.filter_append ..

theorem queue_singleton (o : RestingOrder) :
    queue [o] s price = if o.side = s ∧ o.price = price then [o] else [] := by
  by_cases h : o.side = s ∧ o.price = price
  · simp [queue, h]
  · rw [if_neg h, queue, List.filter_singleton, decide_eq_false h]
    rfl

theorem queue_without : queue (without os orderId) s price =
    (queue os s price).filter fun o => o.orderId ≠ orderId := by
  rw [queue, queue, without, List.filter_filter, List.filter_filter]
  congr 1
  funext o
  rw [Bool.and_comm]

theorem queue_resize (quantity : UInt32) :
    queue (resize os orderId quantity) s price =
      resize (queue os s price) orderId quantity := by
  rw [queue, resize, List.filter_map]
  congr 2
  funext o
  simp only [Function.comp_apply]
  split <;> rfl

theorem map_orderId_resize (quantity : UInt32) :
    (resize os orderId quantity).map (·.orderId) = os.map (·.orderId) := by
  rw [resize, List.map_map]
  apply List.map_congr_left
  intro o _
  simp only [Function.comp_apply]
  split <;> rfl

end Queue

theorem valid_nil : Valid [] := ⟨List.nodup_nil, fun _ h => absurd h List.not_mem_nil⟩

theorem Valid.without {os : List RestingOrder} (h : Valid os) (orderId : UInt64) :
    Valid (without os orderId) :=
  ⟨h.ids.sublist (List.filter_sublist.map _), fun o ho => h.quantities o (List.mem_filter.mp ho).1⟩

theorem Valid.append {os : List RestingOrder} {o : RestingOrder} (h : Valid os)
    (hnew : lookup os o.orderId = none) (hq : o.quantity ≠ 0) : Valid (os ++ [o]) := by
  constructor
  · rw [List.map_append, List.nodup_append]
    refine ⟨h.ids, List.nodup_singleton _, ?_⟩
    intro id hid id' hid' heq
    obtain ⟨o', ho', rfl⟩ := List.mem_map.mp hid
    rw [List.map_singleton, List.mem_singleton] at hid'
    exact lookup_eq_none.mp hnew o' ho' (heq.trans hid')
  · intro o' ho'
    cases List.mem_append.mp ho' with
    | inl hmem => exact h.quantities o' hmem
    | inr hmem => rw [List.mem_singleton.mp hmem]; exact hq

theorem Valid.resize {os : List RestingOrder} (h : Valid os) (orderId : UInt64)
    {quantity : UInt32} (hq : quantity ≠ 0) : Valid (resize os orderId quantity) := by
  constructor
  · rw [map_orderId_resize]
    exact h.ids
  · intro o ho
    obtain ⟨o', ho', rfl⟩ := List.mem_map.mp ho
    split
    · exact hq
    · exact h.quantities o' ho'

/-- **Every operation keeps the orders valid.** -/
theorem Valid.step {os : List RestingOrder} (h : Valid os) (op : Op) : Valid (step os op).2 := by
  cases op with
  | add orderId side price quantity =>
    simp only [Arrivals.step]
    split
    · exact h
    · rename_i hq
      split
      · exact h
      · rename_i hnew
        exact h.append (Option.not_isSome_iff_eq_none.mp hnew) hq
  | delete orderId =>
    simp only [Arrivals.step]
    split
    · exact h
    · exact h.without orderId
  | reduce orderId newQuantity =>
    simp only [Arrivals.step]
    split
    · exact h
    · split
      · exact h
      · rename_i hq
        split
        · exact h
        · exact h.resize orderId hq
  | replace orderId newPrice newQuantity =>
    simp only [Arrivals.step]
    split
    · exact h
    · rename_i hq
      split
      · exact h
      · rename_i o hfound
        refine (h.without orderId).append ?_ hq
        rw [lookup_without, if_pos (lookup_eq_some hfound).2.symm]
  | clear => exact valid_nil

/-! ## The ladder -/

/-- The better of two prices of a side comes first. -/
def bestLe : Side → Int64 → Int64 → Bool
  | .bid, a, b => b ≤ a
  | .ask, a, b => a ≤ b

theorem ranking_bestLe (s : Side) : Ranking (bestLe s) := by
  cases s with
  | bid =>
    refine ⟨fun a b c hab hbc => ?_, fun a b => ?_, fun a b hab hba => ?_⟩
    · exact decide_eq_true (Int64.le_trans (of_decide_eq_true hbc) (of_decide_eq_true hab))
    · rw [bestLe, bestLe, Bool.or_eq_true, decide_eq_true_iff, decide_eq_true_iff]
      exact Int64.le_total b a
    · exact Int64.le_antisymm (of_decide_eq_true hba) (of_decide_eq_true hab)
  | ask =>
    refine ⟨fun a b c hab hbc => ?_, fun a b => ?_, fun a b hab hba => ?_⟩
    · exact decide_eq_true (Int64.le_trans (of_decide_eq_true hab) (of_decide_eq_true hbc))
    · rw [bestLe, bestLe, Bool.or_eq_true, decide_eq_true_iff, decide_eq_true_iff]
      exact Int64.le_total a b
    · exact Int64.le_antisymm (of_decide_eq_true hab) (of_decide_eq_true hba)

def onSide (os : List RestingOrder) (s : Side) : List RestingOrder :=
  os.filter fun o => o.side = s

/-- The queues of a side, best price first. -/
def levels (os : List RestingOrder) (s : Side) : List (Int64 × List RestingOrder) :=
  ladder (·.price) (bestLe s) (onSide os s)

/-- `l` is the walk over the queues of a side. -/
abbrev IsLevels (os : List RestingOrder) (s : Side) (l : List (Int64 × List RestingOrder)) : Prop :=
  IsLadder (·.price) (bestLe s) (onSide os s) l

theorem queueOf_onSide (os : List RestingOrder) (s : Side) (price : Int64) :
    queueOf (·.price) (onSide os s) price = queue os s price := by
  rw [queueOf, onSide, List.filter_filter, queue]
  congr 1
  funext o
  rw [Bool.decide_and, Bool.and_comm]

theorem isLevels_of {os : List RestingOrder} {s : Side} {l : List (Int64 × List RestingOrder)}
    (hsorted : l.Pairwise fun a b => Before (bestLe s) a.1 b.1)
    (hmem : ∀ price q, (price, q) ∈ l ↔ q = queue os s price ∧ q ≠ []) : IsLevels os s l :=
  ⟨hsorted, fun price q => by rw [queueOf_onSide]; exact hmem price q⟩

theorem mem_levels {os : List RestingOrder} {s : Side} {price : Int64} {q : List RestingOrder} :
    (price, q) ∈ levels os s ↔ q = queue os s price ∧ q ≠ [] := by
  rw [← queueOf_onSide]
  exact (isLadder_ladder (ranking_bestLe s) (onSide os s)).mem price q

theorem IsLevels.eq_levels {os : List RestingOrder} {s : Side}
    {l : List (Int64 × List RestingOrder)} (h : IsLevels os s l) : l = levels os s :=
  IsLadder.eq_ladder (ranking_bestLe s) h

/-- Orders with the same queues show the same levels. -/
theorem levels_congr {os os' : List RestingOrder} (s : Side)
    (h : ∀ price, queue os' s price = queue os s price) : levels os' s = levels os s := by
  refine ladder_congr (ranking_bestLe s) fun price => ?_
  rw [queueOf_onSide, queueOf_onSide, h]

/-- One queue, aggregated. The count saturates as `emit_level` has it. -/
def levelOf (price : Int64) (q : List RestingOrder) : Level :=
  { price := price
    quantity := (q.map fun o => o.quantity.toUInt64).foldl (· + ·) 0
    orderCount := if q.length < 2 ^ 32 then UInt32.ofNat q.length else 4294967295 }

/-- The first `depth` entries, or all of them for a depth of 0. -/
def cut {α : Type} (depth : Nat) (l : List α) : List α := if depth = 0 then l else l.take depth

/-- The price and the id an aggressor meets first. -/
def front (os : List RestingOrder) (s : Side) : Option (Int64 × UInt64) := do
  let (price, q) ← (levels os s).head?
  let o ← q.head?
  some (price, o.orderId)

/-- **The book answers as the resting orders demand.** -/
structure Shows {B : Type} [OrderBook B] (b : B) (os : List RestingOrder) : Prop where
  get : ∀ orderId, OrderBook.get b orderId = lookup os orderId
  len : OrderBook.len b = os.length
  levelCount : ∀ s depth, OrderBook.levelCount b s depth = (cut depth (levels os s)).length
  forEachLevel : ∀ s depth, OrderBook.forEachLevel b s depth =
    (cut depth (levels os s)).map fun e => levelOf e.1 e.2
  forEachOrder : ∀ s, OrderBook.forEachOrder b s = (levels os s).flatMap (·.2)

end Arrivals

end MarketData.Book
