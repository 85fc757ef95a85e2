import MarketData.Book.ReferenceArrivals

/-!
# `Book/Rebuild.lean` — rebuilding the books from a snapshot cycle

A cycle is a list of fragments: the first one empties every book, and each appends its orders to
its symbol's book. What the books hold after some of the fragments depends on those fragments
alone (`Loaded`), whatever they held before; after all of them they hold every symbol's orders in
queue order, and orders that arrived in queue order show what the orders they were taken from show
(`Shows.of_inQueueOrder`).

## Over any kind of book

The argument asks one thing of a book: that it takes the next of the orders it is meant to hold
(`Rebuilds`). The reference book takes any order with a new id and a quantity; the fast book takes
it where it has the room (`Book/MboRebuild.lean`). So the induction over the fragments is made once,
and each kind of book brings its own proof of one add.

## Time is lost, priority is not

A snapshot lists bids and then asks, each side best price first and each queue oldest first. A book
that is filled in that order has its orders arrive in another order than the one it was copied from,
and as lists of arrivals the two are different. What they **show** is the same, because within one
price the order is kept and across prices it does not count; that is `Shows.of_inQueueOrder`, and
the reason why the result is about views and not about equal books.

`IsCycle` describes complete cycles only. What a consumer makes of a cycle with a fragment missing
is not said here.
-/

set_option autoImplicit false

namespace MarketData.Wire

namespace Snapshot

/-- `SNAPSHOT_FLAG_CYCLE_START` is set. -/
def cycleStart (d : Snapshot) : Bool := d.flags &&& snapshotFlagCycleStart ≠ 0

/-- `SNAPSHOT_FLAG_CYCLE_END` is set. -/
def cycleEnd (d : Snapshot) : Bool := d.flags &&& snapshotFlagCycleEnd ≠ 0

/-- `SNAPSHOT_FLAG_LAST_FRAGMENT` is set. -/
def lastFragment (d : Snapshot) : Bool := d.flags &&& snapshotFlagLastFragment ≠ 0

end Snapshot

end MarketData.Wire

namespace MarketData.Book

open MarketData.Wire MarketData.Ladder

/-- The entry of a snapshot that carries an order. -/
def RestingOrder.entry (o : RestingOrder) : SnapshotOrder :=
  ⟨o.orderId, o.price, o.quantity, o.side.toU8⟩

@[simp] theorem RestingOrder.side_entry (o : RestingOrder) : o.entry.side = .ok o.side :=
  Side.fromU8_toU8 o.side

/-- The entries for one symbol, fragment after fragment. -/
def entriesFor (ds : List Snapshot) (symbolId : UInt16) : List SnapshotOrder :=
  ds.flatMap fun d => if d.symbolId = symbolId then d.orders else []

theorem entriesFor_append (ds ds' : List Snapshot) (symbolId : UInt16) :
    entriesFor (ds ++ ds') symbolId = entriesFor ds symbolId ++ entriesFor ds' symbolId :=
  List.flatMap_append

theorem entriesFor_singleton (d : Snapshot) (symbolId : UInt16) :
    entriesFor [d] symbolId = if d.symbolId = symbolId then d.orders else [] :=
  List.append_nil _

/-- The fragments of one whole cycle: `target` gives what they carry, symbol by symbol. -/
structure IsCycle (lastSequence : UInt64) (target : UInt16 → List RestingOrder)
    (ds : List Snapshot) : Prop where
  starts : ∃ d rest, ds = d :: rest ∧ d.cycleStart = true ∧ ∀ e ∈ rest, e.cycleStart = false
  ends : ∃ front d, ds = front ++ [d] ∧ d.cycleEnd = true ∧ ∀ e ∈ front, e.cycleEnd = false
  sequence : ∀ d ∈ ds, d.lastSequence = lastSequence
  entries : ∀ symbolId, entriesFor ds symbolId = (target symbolId).map RestingOrder.entry

variable {lastSequence : UInt64} {target : UInt16 → List RestingOrder} {ds : List Snapshot}

theorem IsCycle.cycleStart_iff (h : IsCycle lastSequence target ds) (i : Nat)
    (hi : i < ds.length) : ds[i].cycleStart = true ↔ i = 0 := by
  obtain ⟨d, rest, rfl, hstart, hrest⟩ := h.starts
  cases i with
  | zero => exact ⟨fun _ => rfl, fun _ => hstart⟩
  | succ i =>
    have hfalse := hrest _ (List.getElem_mem (show i < rest.length from Nat.lt_of_succ_lt_succ hi))
    rw [List.getElem_cons_succ, hfalse]
    exact ⟨fun h => Bool.noConfusion h, fun h => Nat.noConfusion h⟩

theorem IsCycle.cycleEnd_iff (h : IsCycle lastSequence target ds) (i : Nat)
    (hi : i < ds.length) : ds[i].cycleEnd = true ↔ i + 1 = ds.length := by
  obtain ⟨front, d, rfl, hend, hfront⟩ := h.ends
  rw [List.length_append, List.length_singleton] at hi ⊢
  by_cases hlast : i = front.length
  · subst hlast
    simp [hend]
  · have hlt : i < front.length := by omega
    have hfalse := hfront _ (List.getElem_mem hlt)
    rw [List.getElem_append_left hlt, hfalse]
    exact ⟨fun h => Bool.noConfusion h, fun h => absurd h (by omega)⟩

/-! ## Applying the fragments -/

section Apply

variable {B : Type} [OrderBook B]

/-- A consumer empties every book at the start of a cycle; every fragment appends. -/
def applyFragment (books : BookSet B) (d : Snapshot) : Except ApplyError Unit × BookSet B :=
  applyMessage (if d.cycleStart then books.clearAll else books) (.snapshot d)

/-- The fragments one after the other, up to the first that does not apply. -/
def applyFragments (books : BookSet B) : List Snapshot → Except ApplyError (BookSet B)
  | [] => .ok books
  | d :: ds =>
    match applyFragment books d with
    | (.error e, _) => .error e
    | (.ok _, books) => applyFragments books ds

/-- A kind of book that takes the orders of `target` one after the other. -/
def Rebuilds (Holds : UInt16 → B → List RestingOrder → Prop)
    (target : UInt16 → List RestingOrder) : Prop :=
  ∀ symbolId b os o, Holds symbolId b os → (os ++ [o]) <+: target symbolId →
    ∃ b', OrderBook.add b o.orderId o.side o.price o.quantity = (.ok (), b') ∧
      Holds symbolId b' (os ++ [o])

/-- Every book holds what the fragments `ds` carry for its symbol. -/
def Loaded (Holds : UInt16 → B → List RestingOrder → Prop) (target : UInt16 → List RestingOrder)
    (books : BookSet B) (ds : List Snapshot) : Prop :=
  ∀ symbolId, Holds symbolId (books.book symbolId)
    ((target symbolId).take (entriesFor ds symbolId).length)

variable {Holds : UInt16 → B → List RestingOrder → Prop} {target : UInt16 → List RestingOrder}

/-- The orders of one fragment, added one after the other. -/
theorem Rebuilds.addSnapshotOrders (h : Rebuilds Holds target) {symbolId : UInt16}
    (orders : List RestingOrder) {b : B} {os : List RestingOrder} (hb : Holds symbolId b os)
    (hpre : (os ++ orders) <+: target symbolId) :
    ∃ b', addSnapshotOrders symbolId (orders.map RestingOrder.entry) b = (.ok (), b') ∧
      Holds symbolId b' (os ++ orders) := by
  induction orders generalizing b os with
  | nil =>
    rw [List.append_nil]
    exact ⟨b, rfl, hb⟩
  | cons o orders ih =>
    rw [List.append_cons] at hpre ⊢
    obtain ⟨b₁, hadd, hb₁⟩ := h symbolId b os o hb ((List.prefix_append _ _).trans hpre)
    obtain ⟨b', hrest, hb'⟩ := ih hb₁ hpre
    refine ⟨b', ?_, hb'⟩
    rw [List.map_cons, MarketData.Book.addSnapshotOrders, RestingOrder.side_entry]
    dsimp only [RestingOrder.entry]
    rw [hadd]
    exact hrest

/-- A part of a list of entries is the entries of a part of the orders. -/
theorem entries_part {done more : List SnapshotOrder} {os : List RestingOrder}
    (h : (done ++ more) <+: os.map RestingOrder.entry) :
    more = ((os.drop done.length).take more.length).map RestingOrder.entry ∧
      os.take done.length ++ (os.drop done.length).take more.length =
        os.take (done.length + more.length) := by
  constructor
  · have htake := List.prefix_iff_eq_take.mp h
    rw [List.length_append, ← List.map_take, List.take_add, List.map_append] at htake
    refine (List.append_inj htake ?_).2
    have hlen := h.length_le
    rw [List.length_append, List.length_map] at hlen
    rw [List.length_map, List.length_take]
    omega
  · rw [List.take_add]

/-- **A fragment adds its part.** -/
theorem Loaded.apply (h : Rebuilds Holds target) {books : BookSet B} {ds : List Snapshot}
    (hb : Loaded Holds target books ds) {d : Snapshot}
    (hpre : entriesFor (ds ++ [d]) d.symbolId <+: (target d.symbolId).map RestingOrder.entry) :
    ∃ books', applyMessage books (.snapshot d) = (.ok (), books') ∧
      Loaded Holds target books' (ds ++ [d]) := by
  have hself : entriesFor (ds ++ [d]) d.symbolId = entriesFor ds d.symbolId ++ d.orders := by
    rw [entriesFor_append, entriesFor_singleton, if_pos rfl]
  rw [hself] at hpre
  obtain ⟨horders, hpart⟩ := entries_part hpre
  obtain ⟨b', hadd, hb'⟩ := h.addSnapshotOrders
    (((target d.symbolId).drop (entriesFor ds d.symbolId).length).take d.orders.length)
    (hb d.symbolId) (by rw [hpart]; exact List.take_prefix _ _)
  rw [← horders] at hadd
  refine ⟨books.put d.symbolId b', ?_, fun symbolId => ?_⟩
  · rw [applyMessage, applySnapshotOrders, hadd]
  · rw [BookSet.book_put]
    by_cases heq : d.symbolId = symbolId
    · subst heq
      rw [if_pos rfl, hself, List.length_append, ← hpart]
      exact hb'
    · rw [if_neg heq, entriesFor_append, entriesFor_singleton, if_neg heq, List.append_nil]
      exact hb symbolId

/-- The rest of a cycle, after some of it. -/
theorem Loaded.applyFragments (h : Rebuilds Holds target) {books : BookSet B}
    {ds rest : List Snapshot} (hb : Loaded Holds target books ds)
    (hstart : ∀ d ∈ rest, d.cycleStart = false)
    (hpre : ∀ symbolId, entriesFor (ds ++ rest) symbolId <+:
      (target symbolId).map RestingOrder.entry) :
    ∃ books', applyFragments books rest = .ok books' ∧ Loaded Holds target books' (ds ++ rest) := by
  induction rest generalizing books ds with
  | nil =>
    rw [List.append_nil]
    exact ⟨books, rfl, hb⟩
  | cons d rest ih =>
    rw [List.append_cons] at hpre ⊢
    have hone : entriesFor (ds ++ [d]) d.symbolId <+:
        (target d.symbolId).map RestingOrder.entry := by
      have hwhole := hpre d.symbolId
      rw [entriesFor_append] at hwhole
      exact (List.prefix_append _ _).trans hwhole
    obtain ⟨books₁, happly, hb₁⟩ := hb.apply h hone
    obtain ⟨books', hrest, hb'⟩ :=
      ih hb₁ (fun e he => hstart e (List.mem_cons_of_mem _ he)) hpre
    refine ⟨books', ?_, hb'⟩
    rw [MarketData.Book.applyFragments, applyFragment, hstart d List.mem_cons_self,
      if_neg Bool.false_ne_true, happly]
    exact hrest

/-- **A whole cycle rebuilds every book**, whatever the books held. -/
theorem IsCycle.rebuilds {lastSequence : UInt64} {ds : List Snapshot}
    (hcycle : IsCycle lastSequence target ds) (h : Rebuilds Holds target) {books : BookSet B}
    (hclear : ∀ symbolId, Holds symbolId (books.clearAll.book symbolId) []) :
    ∃ books', applyFragments books ds = .ok books' ∧
      ∀ symbolId, Holds symbolId (books'.book symbolId) (target symbolId) := by
  obtain ⟨d, rest, rfl, hstart, hothers⟩ := hcycle.starts
  have hentries : ∀ symbolId, entriesFor ([] ++ d :: rest) symbolId <+:
      (target symbolId).map RestingOrder.entry := by
    intro symbolId
    exact ⟨[], by rw [List.append_nil, List.nil_append, hcycle.entries]⟩
  have hempty : Loaded Holds target books.clearAll [] := by
    intro symbolId
    exact hclear symbolId
  have hone : entriesFor ([] ++ [d]) d.symbolId <+: (target d.symbolId).map RestingOrder.entry := by
    have hwhole := hentries d.symbolId
    rw [List.append_cons, entriesFor_append] at hwhole
    exact (List.prefix_append _ _).trans hwhole
  obtain ⟨books₁, happly, hb₁⟩ := hempty.apply h hone
  obtain ⟨books', hrest, hb'⟩ := hb₁.applyFragments h hothers hentries
  refine ⟨books', ?_, fun symbolId => ?_⟩
  · rw [MarketData.Book.applyFragments, applyFragment, if_pos hstart, happly]
    exact hrest
  · have hall := hb' symbolId
    have hlen : (entriesFor (d :: rest) symbolId).length = (target symbolId).length := by
      rw [hcycle.entries, List.length_map]
    rw [List.nil_append, List.singleton_append, hlen, List.take_length] at hall
    exact hall

theorem BookSet.book_clearAll (books : BookSet B) (symbolId : UInt16) :
    books.clearAll.book symbolId =
      match books.get symbolId with
      | none => books.fresh
      | some b => OrderBook.clear b := by
  rw [BookSet.book, BookSet.get, BookSet.clearAll, Std.TreeMap.getElem?_map]
  show (Option.map _ (books.get symbolId)).getD books.fresh = _
  cases books.get symbolId <;> rfl

end Apply

/-! ## Orders taken in queue order -/

namespace Arrivals

/-- The resting orders as a snapshot lists them: bids first, each side from the best price on. -/
def inQueueOrder (os : List RestingOrder) : List RestingOrder :=
  (levels os .bid).flatMap (·.2) ++ (levels os .ask).flatMap (·.2)

variable {os : List RestingOrder}

theorem isLevels_levels (os : List RestingOrder) (s : Side) : IsLevels os s (levels os s) :=
  isLadder_ladder (ranking_bestLe s) (onSide os s)

theorem levels_perm (os : List RestingOrder) (s : Side) :
    ((levels os s).flatMap (·.2)).Perm (onSide os s) :=
  (isLevels_levels os s).flatMap_perm

/-- **A snapshot lists every order once.** -/
theorem inQueueOrder_perm (os : List RestingOrder) : (inQueueOrder os).Perm os := by
  refine ((levels_perm os .bid).append (levels_perm os .ask)).trans ?_
  have hask : onSide os .ask = os.filter fun o => !decide (o.side = .bid) := by
    refine List.filter_congr fun o _ => ?_
    cases o.side <;> rfl
  rw [hask, onSide]
  exact List.filter_append_perm _ os

/-- **A snapshot keeps every queue.** -/
theorem queue_inQueueOrder (os : List RestingOrder) (s : Side) (price : Int64) :
    queue (inQueueOrder os) s price = queue os s price := by
  have hside : ∀ s', queue ((levels os s').flatMap (·.2)) s price =
      if s' = s then queue os s price else [] := by
    intro s'
    have hall : ∀ o ∈ (levels os s').flatMap (·.2), o.side = s' := by
      intro o ho
      have hmem := (levels_perm os s').mem_iff.mp ho
      exact of_decide_eq_true (List.mem_filter.mp hmem).2
    by_cases heq : s' = s
    · subst heq
      rw [if_pos rfl, ← queueOf_onSide os, ← (isLevels_levels os s').queueOf_flatMap]
      refine List.filter_congr fun o ho => ?_
      simp [hall o ho]
    · rw [if_neg heq, queue, List.filter_eq_nil_iff]
      intro o ho hat
      exact heq ((hall o ho).symm.trans (of_decide_eq_true hat).1)
  rw [inQueueOrder, queue_append, hside, hside]
  cases s with
  | bid => rw [if_pos rfl, if_neg (by decide), List.append_nil]
  | ask => rw [if_neg (by decide), if_pos rfl, List.nil_append]

theorem Valid.perm {os' : List RestingOrder} (h : Valid os) (hperm : os'.Perm os) : Valid os' :=
  ⟨(hperm.map _).nodup_iff.mpr h.ids, fun o ho => h.quantities o (hperm.mem_iff.mp ho)⟩

/-- The next order of a valid list is not on the book yet. -/
theorem Valid.next {target : List RestingOrder} {o : RestingOrder} (h : Valid target)
    (hpre : (os ++ [o]) <+: target) : o.quantity ≠ 0 ∧ lookup os o.orderId = none := by
  refine ⟨h.quantities o (hpre.subset (by simp)), ?_⟩
  rw [lookup_eq_none]
  intro o' ho' heq
  have hids := h.ids.sublist (hpre.sublist.map _)
  rw [List.map_append, List.nodup_append] at hids
  exact hids.2.2 _ (List.mem_map_of_mem ho') _ (by simp) heq

/-- **Orders added in queue order show what the orders they were taken from show.** -/
theorem Shows.of_inQueueOrder {B : Type} [OrderBook B] {b : B} (hos : Valid os)
    (h : Shows b (inQueueOrder os)) : Shows b os := by
  have hlevels : ∀ s, levels (inQueueOrder os) s = levels os s := fun s =>
    levels_congr s (queue_inQueueOrder os s)
  have hperm := inQueueOrder_perm os
  refine ⟨fun orderId => ?_, ?_, fun s depth => ?_, fun s depth => ?_, fun s => ?_⟩
  · rw [h.get, hos.lookup_perm hperm]
  · rw [h.len, hperm.length_eq]
  · rw [h.levelCount, hlevels]
  · rw [h.forEachLevel, hlevels]
  · rw [h.forEachOrder, hlevels]

end Arrivals

/-- The two books answer alike: the same orders, aggregated levels and queues. -/
structure SameView {B B' : Type} [OrderBook B] [OrderBook B'] (b : B) (b' : B') : Prop where
  get : ∀ orderId, OrderBook.get b orderId = OrderBook.get b' orderId
  len : OrderBook.len b = OrderBook.len b'
  levelCount : ∀ s depth, OrderBook.levelCount b s depth = OrderBook.levelCount b' s depth
  forEachLevel : ∀ s depth, OrderBook.forEachLevel b s depth = OrderBook.forEachLevel b' s depth
  forEachOrder : ∀ s, OrderBook.forEachOrder b s = OrderBook.forEachOrder b' s

theorem Arrivals.Shows.sameView {B B' : Type} [OrderBook B] [OrderBook B'] {b : B} {b' : B'}
    {os : List RestingOrder} (h : Shows b os) (h' : Shows b' os) : SameView b b' :=
  ⟨fun orderId => by rw [h.get, h'.get], by rw [h.len, h'.len],
    fun s depth => by rw [h.levelCount, h'.levelCount],
    fun s depth => by rw [h.forEachLevel, h'.forEachLevel],
    fun s => by rw [h.forEachOrder, h'.forEachOrder]⟩

/-! ## Reference books -/

/-- The reference book files the next order of a valid list. -/
theorem rebuilds_reference {target : UInt16 → List RestingOrder}
    (hvalid : ∀ symbolId, Arrivals.Valid (target symbolId)) :
    Rebuilds (fun _ => Reps) target := by
  intro symbolId b os o hb hpre
  obtain ⟨hq, hnew⟩ := (hvalid symbolId).next hpre
  refine ⟨_, ?_, hb.append hnew hq⟩
  show b.add o.orderId o.side o.price o.quantity = _
  rw [ReferenceBook.add, if_neg hq, Std.TreeMap.contains_eq_isSome_getElem?, hb.orders, hnew]
  rfl

/-- A reference book that operations on an empty one lead to. -/
inductive ReferenceBook.Reachable : ReferenceBook → Prop
  | new : Reachable ReferenceBook.new
  | step {b : ReferenceBook} (op : Op) : Reachable b → Reachable (OrderBook.step b op).2

theorem ReferenceBook.Reachable.reps {b : ReferenceBook} (h : Reachable b) : ∃ os, Reps b os := by
  induction h with
  | new => exact ⟨[], Reps.new⟩
  | step op _ ih =>
    obtain ⟨os, hreps⟩ := ih
    exact ⟨_, (hreps.step op).2⟩

/-- The empty book answers as one that was just cleared. -/
theorem BookSet.reps_clearAll {books : BookSet ReferenceBook}
    (hfresh : books.fresh = ReferenceBook.new) (symbolId : UInt16) :
    Reps (books.clearAll.book symbolId) [] := by
  rw [BookSet.book_clearAll]
  cases books.get symbolId with
  | none =>
    rw [hfresh]
    exact Reps.new
  | some b => exact Reps.new

end MarketData.Book
