import MarketData.Book.MboRebuild
import MarketData.Matching.Reproduction
import MarketData.Matching.Snapshot

/-!
# `Matching/RoundTrip.lean` — a snapshot cycle restores the books it was taken from

What a cycle looks like from outside: which fragment carries which flag, and what the fragments
carry for a symbol, put back together (`isCycle_cycleFragments`). With the rebuild of
`Book/Rebuild.lean` this is the round trip, for either kind of book.

## Writer, wire, reader

Three developments meet here. `Matching/Snapshot.lean` says which fragments a cycle consists of and
that they go out on both arms; `Wire/SnapshotCodec.lean` says that a fragment is read as it was
written; and `Book/Rebuild.lean` says what books a consumer has after a complete cycle. **`IsCycle`
is where they touch**: a list of fragments with the flags in their places and each symbol's orders
in queue order. The publisher is shown to produce one, and the consumer to need no more.

Fast books have to be able to take what they are given, which is what `Sufficient` says of their
sizes and of how they came about. It is a condition on the books to be restored, since a consumer's
fast books are made with the same settings; the reference books of a consumer take everything.

A cycle that arrives with a fragment missing is not a cycle, and nothing is said of it here.
-/

set_option autoImplicit false

namespace MarketData.Matching

open MarketData.Wire MarketData.Book FeedPublisher

/-! ## Flags -/

section Flags

variable (first last lastSymbol : Bool)

theorem cycleStart_fragmentFlags :
    (fragmentFlags first last lastSymbol &&& snapshotFlagCycleStart ≠ 0) ↔ first = true := by
  cases first <;> cases last <;> cases lastSymbol <;> decide

theorem cycleEnd_fragmentFlags :
    (fragmentFlags first last lastSymbol &&& snapshotFlagCycleEnd ≠ 0) ↔
      last = true ∧ lastSymbol = true := by
  cases first <;> cases last <;> cases lastSymbol <;> decide

theorem lastFragment_fragmentFlags :
    (fragmentFlags first last lastSymbol &&& snapshotFlagLastFragment ≠ 0) ↔ last = true := by
  cases first <;> cases last <;> cases lastSymbol <;> decide

end Flags

section Fragment

variable (k : Nat) (lastSequence : UInt64) (symbolId : UInt16) (first lastSymbol : Bool)
  (rest : List RestingOrder)

theorem cycleStart_fragment :
    (fragment k lastSequence symbolId first lastSymbol rest).cycleStart = first := by
  rw [Snapshot.cycleStart, fragment, Bool.eq_iff_iff, decide_eq_true_iff]
  exact cycleStart_fragmentFlags ..

theorem cycleEnd_fragment :
    (fragment k lastSequence symbolId first lastSymbol rest).cycleEnd =
      (decide (rest.length ≤ k) && lastSymbol) := by
  rw [Snapshot.cycleEnd, fragment, Bool.eq_iff_iff, decide_eq_true_iff, Bool.and_eq_true]
  exact cycleEnd_fragmentFlags ..

theorem lastFragment_fragment :
    (fragment k lastSequence symbolId first lastSymbol rest).lastFragment =
      decide (rest.length ≤ k) := by
  rw [Snapshot.lastFragment, fragment, Bool.eq_iff_iff, decide_eq_true_iff]
  exact lastFragment_fragmentFlags ..

theorem orders_fragment :
    (fragment k lastSequence symbolId first lastSymbol rest).orders =
      (rest.take k).map RestingOrder.entry := rfl

end Fragment

/-! ## The fragments of one symbol -/

/-- What a symbol's fragments look like. -/
structure IsSymbol (lastSequence : UInt64) (symbolId : UInt16) (first lastSymbol : Bool)
    (orders : List RestingOrder) (ds : List Snapshot) : Prop where
  starts : ∃ d rest, ds = d :: rest ∧ d.cycleStart = first ∧ ∀ e ∈ rest, e.cycleStart = false
  ends : ∃ front d, ds = front ++ [d] ∧ d.cycleEnd = lastSymbol ∧ d.lastFragment = true ∧
    ∀ e ∈ front, e.cycleEnd = false ∧ e.lastFragment = false
  same : ∀ d ∈ ds, d.symbolId = symbolId ∧ d.lastSequence = lastSequence
  orders : ds.flatMap (·.orders) = orders.map RestingOrder.entry

variable {k : Nat} {lastSequence : UInt64} {symbolId : UInt16} {lastSymbol : Bool}

theorem isSymbol_fragmentsOf (hk : 1 ≤ k) {fuel : Nat} (first : Bool) {rest : List RestingOrder}
    (hfuel : rest.length < fuel) :
    IsSymbol lastSequence symbolId first lastSymbol rest
      (fragmentsOf k lastSequence symbolId lastSymbol fuel first rest) := by
  induction fuel generalizing first rest with
  | zero => exact absurd hfuel (Nat.not_lt_zero _)
  | succ fuel ih =>
    have hend := cycleEnd_fragment k lastSequence symbolId first lastSymbol rest
    have hlast := lastFragment_fragment k lastSequence symbolId first lastSymbol rest
    have hstart := cycleStart_fragment k lastSequence symbolId first lastSymbol rest
    rw [fragmentsOf]
    by_cases hall : rest.length ≤ k
    · rw [if_pos hall]
      rw [decide_eq_true hall] at hend hlast
      refine ⟨⟨_, [], rfl, hstart, by simp⟩, ⟨[], _, rfl, hend, hlast, by simp⟩, ?_, ?_⟩
      · intro d hd
        obtain rfl := List.mem_singleton.mp hd
        exact ⟨rfl, rfl⟩
      · rw [List.flatMap_singleton, orders_fragment, List.take_of_length_le hall]
    · rw [if_neg hall]
      rw [decide_eq_false hall] at hend hlast
      obtain ⟨⟨d₁, rest₁, hcons, hstart₁, hrest₁⟩, ⟨front, d₂, happend, hend₂, hlast₂, hfront⟩,
        hsame, horders⟩ := ih false
        (show (rest.drop k).length < fuel by rw [List.length_drop]; omega)
      refine ⟨⟨_, _, rfl, hstart, ?_⟩, ⟨fragment k lastSequence symbolId first lastSymbol rest ::
        front, d₂, ?_, hend₂, hlast₂, ?_⟩, ?_, ?_⟩
      · rw [hcons]
        intro e he
        rcases List.mem_cons.mp he with rfl | he
        · exact hstart₁
        · exact hrest₁ e he
      · rw [happend, List.cons_append]
      · intro e he
        rcases List.mem_cons.mp he with rfl | he
        · exact ⟨hend, hlast⟩
        · exact hfront e he
      · intro d hd
        rcases List.mem_cons.mp hd with rfl | hd
        · exact ⟨rfl, rfl⟩
        · exact hsame d hd
      · rw [List.flatMap_cons, horders, orders_fragment, ← List.map_append, List.take_append_drop]

/-! ## The fragments of a cycle -/

theorem IsSymbol.entriesFor {first : Bool} {orders : List RestingOrder} {ds : List Snapshot}
    (h : IsSymbol lastSequence symbolId first lastSymbol orders ds) (symbolId' : UInt16) :
    entriesFor ds symbolId' =
      if symbolId = symbolId' then orders.map RestingOrder.entry else [] := by
  have hcongr : Book.entriesFor ds symbolId' =
      ds.flatMap fun d => if symbolId = symbolId' then d.orders else [] := by
    refine List.flatMap_congr fun d hd => ?_
    rw [(h.same d hd).1]
  rw [hcongr]
  split
  · exact h.orders
  · exact List.flatMap_eq_nil_iff.mpr fun _ _ => rfl

theorem IsSymbol.filter_lastFragment {first : Bool} {orders : List RestingOrder}
    {ds : List Snapshot} (h : IsSymbol lastSequence symbolId first lastSymbol orders ds) :
    (ds.filter (·.lastFragment)).map (·.symbolId) = [symbolId] := by
  obtain ⟨front, d, hds, -, hlast, hfront⟩ := h.ends
  have hsymbol := (h.same d (by rw [hds]; simp)).1
  have hnone : front.filter (·.lastFragment) = [] := by
    rw [List.filter_eq_nil_iff]
    intro e he
    rw [(hfront e he).2]
    exact Bool.false_ne_true
  rw [hds, List.filter_append, hnone, List.nil_append, List.filter_cons_of_pos hlast,
    List.filter_nil, List.map_singleton, hsymbol]

/-- A cycle's fragments, symbol after symbol. -/
structure IsCycleOf (lastSequence : UInt64) (first : Bool)
    (symbols : List (UInt16 × ReferenceBook)) (ds : List Snapshot) : Prop where
  starts : ∃ d rest, ds = d :: rest ∧ d.cycleStart = first ∧ ∀ e ∈ rest, e.cycleStart = false
  ends : ∃ front d, ds = front ++ [d] ∧ d.cycleEnd = true ∧ ∀ e ∈ front, e.cycleEnd = false
  sequence : ∀ d ∈ ds, d.lastSequence = lastSequence
  entries : ∀ symbolId, entriesFor ds symbolId = symbols.flatMap fun e =>
    if e.1 = symbolId then (snapshotOrdersOf e.2).map RestingOrder.entry else []
  lasts : (ds.filter (·.lastFragment)).map (·.symbolId) = symbols.map (·.1)

theorem isCycleOf_cycleFragments (hk : 1 ≤ k) (first : Bool)
    {symbols : List (UInt16 × ReferenceBook)} (hne : symbols ≠ []) :
    IsCycleOf lastSequence first symbols (cycleFragments k lastSequence first symbols) := by
  induction symbols generalizing first with
  | nil => exact absurd rfl hne
  | cons symbol symbols ih =>
    obtain ⟨symbolId, b⟩ := symbol
    have hsym : IsSymbol lastSequence symbolId first symbols.isEmpty (snapshotOrdersOf b)
        (fragmentsOf k lastSequence symbolId symbols.isEmpty ((snapshotOrdersOf b).length + 1)
          first (snapshotOrdersOf b)) :=
      isSymbol_fragmentsOf hk first (Nat.lt_succ_self _)
    rw [cycleFragments]
    generalize fragmentsOf k lastSequence symbolId symbols.isEmpty _ first _ = ds at hsym
    obtain ⟨d, rest, hcons, hstart, hrest⟩ := hsym.starts
    obtain ⟨front, dl, happend, hend, -, hfront⟩ := hsym.ends
    cases symbols with
    | nil =>
      rw [cycleFragments, List.append_nil]
      refine ⟨hsym.starts, ⟨front, dl, happend, hend, fun e he => (hfront e he).1⟩,
        fun d hd => (hsym.same d hd).2, fun symbolId' => ?_, hsym.filter_lastFragment⟩
      rw [hsym.entriesFor, List.flatMap_singleton]
    | cons next symbols =>
      obtain ⟨⟨d', rest', hcons', hstart', hrest'⟩, ⟨front', dl', happend', hend', hfront'⟩, hseq',
        hentries', hlasts'⟩ := ih false (List.cons_ne_nil _ _)
      generalize cycleFragments k lastSequence false (next :: symbols) = ds' at *
      refine ⟨⟨d, rest ++ ds', ?_, hstart, ?_⟩, ⟨ds ++ front', dl', ?_, hend', ?_⟩, ?_, ?_, ?_⟩
      · rw [hcons, List.cons_append]
      · intro e he
        rcases List.mem_append.mp he with he | he
        · exact hrest e he
        · rw [hcons'] at he
          rcases List.mem_cons.mp he with rfl | he
          · exact hstart'
          · exact hrest' e he
      · rw [happend', List.append_assoc]
      · intro e he
        rcases List.mem_append.mp he with he | he
        · rw [happend] at he
          rcases List.mem_append.mp he with he | he
          · exact (hfront e he).1
          · obtain rfl := List.mem_singleton.mp he
            exact hend
        · exact hfront' e he
      · intro e he
        rcases List.mem_append.mp he with he | he
        · exact (hsym.same e he).2
        · exact hseq' e he
      · intro symbolId'
        rw [entriesFor_append, hsym.entriesFor, hentries']
        rfl
      · rw [List.filter_append, List.map_append, hsym.filter_lastFragment, hlasts']
        rfl

/-- What a set of books has for a symbol, found by walking over it. -/
theorem flatMap_toList {β : Type} (books : Books) (hfresh : books.fresh = ReferenceBook.new)
    (f : ReferenceBook → List β) (hempty : f ReferenceBook.new = []) (symbolId : UInt16) :
    (books.toList.flatMap fun e => if e.1 = symbolId then f e.2 else []) =
      f (books.book symbolId) := by
  have hmem : ∀ b, (symbolId, b) ∈ books.toList ↔ books.get symbolId = some b := fun b =>
    Std.TreeMap.mem_toList_iff_getElem?_eq_some
  have hkeys : books.toList.Pairwise fun a b => a.1 ≠ b.1 := by
    refine (Std.TreeMap.distinct_keys_toList (t := books.books)).imp ?_
    intro a b hne heq
    exact hne (Std.LawfulEqCmp.compare_eq_iff_eq.mpr heq)
  cases hget : books.get symbolId with
  | none =>
    rw [BookSet.book, hget, Option.getD_none, hfresh, hempty]
    refine List.flatMap_eq_nil_iff.mpr fun e he => ?_
    rw [if_neg]
    intro heq
    have hsome := (hmem e.2).mp (by rw [← heq]; exact he)
    rw [hget] at hsome
    cases hsome
  | some b =>
    rw [BookSet.book, hget, Option.getD_some]
    obtain ⟨l₁, l₂, hsplit⟩ := List.append_of_mem ((hmem b).mpr hget)
    rw [hsplit, List.pairwise_append, List.pairwise_cons] at hkeys
    have hothers : ∀ l : List (UInt16 × ReferenceBook), (∀ e ∈ l, e.1 ≠ symbolId) →
        (l.flatMap fun e => if e.1 = symbolId then f e.2 else []) = [] := by
      intro l hl
      refine List.flatMap_eq_nil_iff.mpr fun e he => ?_
      rw [if_neg (hl e he)]
    rw [hsplit, List.flatMap_append, List.flatMap_cons, if_pos rfl,
      hothers l₁ fun e he => hkeys.2.2 e he _ List.mem_cons_self,
      hothers l₂ fun e he => (hkeys.2.1.1 e he).symm, List.nil_append, List.append_nil]

/-- **The fragments of a cycle carry every symbol's orders in queue order.** -/
theorem isCycle_cycleFragments (hk : 1 ≤ k) {books : Books}
    (hfresh : books.fresh = ReferenceBook.new) (hne : books.toList ≠ []) :
    IsCycle lastSequence (fun symbolId => snapshotOrdersOf (books.book symbolId))
      (cycleFragments k lastSequence true books.toList) := by
  have hcycle : IsCycleOf lastSequence true _ _ := isCycleOf_cycleFragments hk true hne
  obtain ⟨hstarts, hends, hsequence, hentries, -⟩ := hcycle
  refine ⟨hstarts, hends, hsequence, fun symbolId => ?_⟩
  rw [hentries, flatMap_toList books hfresh
    (fun b => (snapshotOrdersOf b).map RestingOrder.entry) (by decide)]

/-! ## The round trip -/

/-- Every book of the set is one that operations on an empty book lead to. -/
def BooksReachable (books : Books) : Prop :=
  books.fresh = ReferenceBook.new ∧
    ∀ symbolId b, books.get symbolId = some b → ReferenceBook.Reachable b

theorem BooksReachable.reps {books : Books} (h : BooksReachable books) (symbolId : UInt16) :
    ∃ os, Reps (books.book symbolId) os := by
  rw [BookSet.book]
  cases hget : books.get symbolId with
  | none =>
    rw [Option.getD_none, h.1]
    exact ⟨[], Reps.new⟩
  | some b => exact (h.2 symbolId b hget).reps

theorem snapshotOrdersOf_eq {b : ReferenceBook} {os : List RestingOrder} (h : Reps b os) :
    snapshotOrdersOf b = Arrivals.inQueueOrder os := by
  have hside := h.shows.forEachOrder
  rw [snapshotOrdersOf, Arrivals.inQueueOrder, ← hside, ← hside]
  rfl

/-- A book that shows a symbol's orders as a snapshot lists them answers like the symbol's
book. -/
theorem BooksReachable.sameView {B : Type} [OrderBook B] {books : Books} {b : B}
    (h : BooksReachable books) {symbolId : UInt16}
    (hb : Arrivals.Shows b (snapshotOrdersOf (books.book symbolId))) :
    SameView b (books.book symbolId) := by
  obtain ⟨os, hreps⟩ := h.reps symbolId
  rw [snapshotOrdersOf_eq hreps] at hb
  exact (hb.of_inQueueOrder hreps.valid).sameView hreps.shows

theorem BooksReachable.valid {books : Books} (h : BooksReachable books) (symbolId : UInt16) :
    Arrivals.Valid (snapshotOrdersOf (books.book symbolId)) := by
  obtain ⟨os, hreps⟩ := h.reps symbolId
  rw [snapshotOrdersOf_eq hreps]
  exact hreps.valid.perm (Arrivals.inQueueOrder_perm os)

/-- A cycle rebuilds reference books, whatever they held. -/
theorem IsCycle.rebuilds_books {books : Books} {ds : List Snapshot} (h : BooksReachable books)
    (hcycle : IsCycle lastSequence (fun symbolId => snapshotOrdersOf (books.book symbolId)) ds)
    {prior : Books} (hprior : prior.fresh = ReferenceBook.new) :
    ∃ after, applyFragments prior ds = .ok after ∧
      ∀ symbolId, SameView (after.book symbolId) (books.book symbolId) := by
  obtain ⟨after, happly, hafter⟩ := hcycle.rebuilds (rebuilds_reference h.valid)
    fun symbolId => BookSet.reps_clearAll hprior symbolId
  exact ⟨after, happly, fun symbolId => h.sameView (hafter symbolId).shows⟩

/-- **Fast books of sufficient capacity**: each one is a book operations lead to, and has room for
its symbol's orders. -/
structure Sufficient (prior : FastBooks) (books : Books) : Prop where
  fresh : ∃ cap, MboCapacity.Addressable cap ∧ prior.fresh = MboBook.new cap
  reachable : ∀ symbolId b, prior.get symbolId = some b → MboBook.Reachable b
  room : ∀ symbolId, MboBook.RoomFor (prior.book symbolId) (snapshotOrdersOf (books.book symbolId))

theorem Sufficient.holdsOf_clearAll {prior : FastBooks} {books : Books}
    (h : Sufficient prior books) (symbolId : UInt16) :
    MboBook.HoldsOf (snapshotOrdersOf (books.book symbolId)) []
      (prior.clearAll.book symbolId) := by
  have hroom := h.room symbolId
  rw [BookSet.book_clearAll]
  rw [BookSet.book] at hroom
  cases hget : prior.get symbolId with
  | none =>
    obtain ⟨cap, hcap, hfresh⟩ := h.fresh
    rw [hget, Option.getD_none, hfresh] at hroom
    rw [hfresh]
    exact MboBook.holdsOf_new hcap hroom
  | some b =>
    rw [hget, Option.getD_some] at hroom
    obtain ⟨live, free, hwhole⟩ := (h.reachable symbolId b hget).whole
    exact hwhole.holdsOf_clear hroom

/-- A cycle rebuilds fast books that are large enough, whatever they held. -/
theorem IsCycle.rebuilds_fastBooks {books : Books} {ds : List Snapshot} (h : BooksReachable books)
    (hcycle : IsCycle lastSequence (fun symbolId => snapshotOrdersOf (books.book symbolId)) ds)
    {prior : FastBooks} (hprior : Sufficient prior books) :
    ∃ after, applyFragments prior ds = .ok after ∧
      ∀ symbolId, SameView (after.book symbolId) (books.book symbolId) := by
  obtain ⟨after, happly, hafter⟩ := hcycle.rebuilds (MboBook.rebuilds_fast h.valid)
    hprior.holdsOf_clearAll
  exact ⟨after, happly, fun symbolId => h.sameView (hafter symbolId).shows⟩

/-- **A snapshot cycle round-trips.** With datagrams of at least 72 bytes, and sends that succeed,
a cycle goes out on both arms; its flags mark the first fragment, the last one, and the last one of
every symbol; every fragment names the last sequence at entry; and whoever applies the fragments in
order ends with books that answer like the ones the cycle was taken from. -/
theorem snapshot_cycle_round_trip (env : Env) (hsend : ∀ n, env.sendOk n = true)
    (p : FeedPublisher) (maxDatagramBytes : Nat) (hmax : 72 ≤ maxDatagramBytes)
    (hbuf : p.buf.length = maxDatagramBytes) (hsnap : p.snapshotBuf.length = maxDatagramBytes)
    (hcheck : p.SelfCheckPasses) (books : Books) (hbooks : BooksReachable books)
    (hne : books.toList ≠ []) :
    ∃ p₀ p' cycle ds, flush env p = .ok p₀ ∧ publishSnapshot env p books = .ok (p', cycle) ∧
      (∃ sent, p'.a = p₀.a ++ sent ∧
        decodeAll sent = .ok (numbered p₀.snapshotSeq (ds.map .snapshot))) ∧
      (∃ sent, p'.b = p₀.b ++ sent ∧
        decodeAll sent = .ok (numbered p₀.snapshotSeq (ds.map .snapshot))) ∧
      (∀ i (hi : i < ds.length), ds[i].cycleStart = true ↔ i = 0) ∧
      (∀ i (hi : i < ds.length), ds[i].cycleEnd = true ↔ i + 1 = ds.length) ∧
      (ds.filter (·.lastFragment)).map (·.symbolId) = books.toList.map (·.1) ∧
      (∀ d ∈ ds, d.lastSequence = p.lastSequence) ∧
      (∀ prior : Books, prior.fresh = ReferenceBook.new →
        ∃ after, applyFragments prior ds = .ok after ∧
          ∀ symbolId, SameView (after.book symbolId) (books.book symbolId)) ∧
      ∀ prior : FastBooks, Sufficient prior books →
        ∃ after, applyFragments prior ds = .ok after ∧
          ∀ symbolId, SameView (after.book symbolId) (books.book symbolId) := by
  have hk : 1 ≤ perFragment p.snapshotBuf.length := by
    rw [hsnap, perFragment]
    omega
  obtain ⟨p₀, p', cycle, hflush, hpublish, hsent⟩ := publishSnapshot_ok hsend
    (by rw [hbuf, packetHeaderLen]; omega) (by omega) hcheck books
  have hcycle : IsCycle p.lastSequence _ _ := isCycle_cycleFragments hk hbooks.1 hne
  have hsymbols : IsCycleOf p.lastSequence true _ _ := isCycleOf_cycleFragments hk true hne
  exact ⟨p₀, p', cycle, _, hflush, hpublish, hsent.armA, hsent.armB, hcycle.cycleStart_iff,
    hcycle.cycleEnd_iff, hsymbols.lasts, hcycle.sequence,
    fun prior hprior => IsCycle.rebuilds_books hbooks hcycle hprior,
    fun prior hprior => IsCycle.rebuilds_fastBooks hbooks hcycle hprior⟩

theorem booksReachable_new : BooksReachable Books.new :=
  ⟨rfl, fun _ _ h => nomatch h⟩

theorem BooksReachable.put {books : Books} (h : BooksReachable books) (symbolId : UInt16)
    {b : ReferenceBook} (hb : ReferenceBook.Reachable b) :
    BooksReachable (books.put symbolId b) := by
  refine ⟨h.1, fun symbolId' b' hget => ?_⟩
  rw [BookSet.get, BookSet.put, Std.TreeMap.getElem?_insert] at hget
  split at hget
  · cases hget
    exact hb
  · exact h.2 symbolId' b' hget

/-- Three orders of one symbol, and a symbol without orders. -/
def twoSymbols : Books :=
  let ops : List Op := [.add 1 .bid 100 10, .add 2 .ask 110 5, .add 3 .bid 100 7]
  (Books.new.put 1 (ops.foldl (fun b op => (OrderBook.step b op).2) ReferenceBook.new)).put 2
    ReferenceBook.new

theorem booksReachable_twoSymbols : BooksReachable twoSymbols :=
  (booksReachable_new.put 1 (.step _ (.step _ (.step _ .new)))).put 2 .new

theorem sufficient_twoSymbols : Sufficient (FastBooks.new ⟨8, 4, 100, 5⟩) twoSymbols := by
  refine ⟨⟨_, ⟨by decide, by decide⟩, rfl⟩, (fun _ _ h => nomatch h), fun symbolId => ?_⟩
  show MboBook.RoomFor (MboBook.new ⟨8, 4, 100, 5⟩) _
  have hbook : snapshotOrdersOf (twoSymbols.book symbolId) =
      if symbolId = 1 then [⟨1, 100, 10, .bid⟩, ⟨3, 100, 7, .bid⟩, ⟨2, 110, 5, .ask⟩] else [] := by
    rw [twoSymbols, BookSet.book_put, BookSet.book_put]
    by_cases htwo : 2 = symbolId
    · subst htwo
      decide +kernel
    · rw [if_neg htwo]
      by_cases hone : 1 = symbolId
      · subst hone
        decide +kernel
      · rw [if_neg hone, if_neg (Ne.symm hone)]
        rfl
  rw [hbook]
  split
  · refine ⟨by decide, ?_, by decide +kernel, by decide +kernel, by decide +kernel⟩
    intro o ho
    simp only [List.mem_cons, List.not_mem_nil, or_false] at ho
    rcases ho with rfl | rfl | rfl
    · exact ⟨4, by unfold TickIndex.OnGrid; decide +kernel⟩
    · exact ⟨4, by unfold TickIndex.OnGrid; decide +kernel⟩
    · exact ⟨6, by unfold TickIndex.OnGrid; decide +kernel⟩
  · exact ⟨by simp, by simp, by simp, by decide +kernel, by simp⟩

theorem snapshot_cycle_round_trip_two_symbols :
    ∃ p' cycle ds after, publishSnapshot Env.lossless (FeedPublisher.new 4 72) twoSymbols =
        .ok (p', cycle) ∧
      (ds.filter (·.lastFragment)).map (·.symbolId) = [1, 2] ∧
      applyFragments (FastBooks.new ⟨8, 4, 100, 5⟩) ds = .ok after ∧
      ∀ symbolId, SameView (after.book symbolId) (twoSymbols.book symbolId) := by
  obtain ⟨p₀, p', cycle, ds, -, hpublish, -, -, -, -, hlasts, -, -, hfast⟩ :=
    snapshot_cycle_round_trip Env.lossless (fun _ => rfl) (FeedPublisher.new 4 72) 72
      (Nat.le_refl 72) (by decide +kernel) (by decide +kernel) (fun _ h => nomatch h)
      twoSymbols booksReachable_twoSymbols (by decide +kernel)
  obtain ⟨after, happly, hview⟩ := hfast _ sufficient_twoSymbols
  refine ⟨p', cycle, ds, after, hpublish, ?_, happly, hview⟩
  rw [hlasts]
  decide +kernel

end MarketData.Matching
