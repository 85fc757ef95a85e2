import MarketData.Handler.Contents

/-!
# `Handler/Following.lean` — the cycle that is followed, and the books it leaves

`handle_snapshot` keeps one flag for the cycle it is in. It goes up at a fragment marked as a first
one and down at an adoption or a refusal, and nothing compares the fragments in between with each
other: neither their sequence numbers nor the sequence they are as of. Between the two the books
hold what was received since (`Following`), and the sequence that is adopted is the one of the last
fragment.

## When these belong together

`CameWhole` is about what had arrived: nothing but fragments has gone to the books since they were
emptied, and their orders are those of one cycle of the publisher as of the sequence the last one
names. A second copy of a fragment without orders, or one of another cycle, does no harm, and is not
excluded. A fragment with orders that arrives twice is refused by the books, and the cycle with it.
So it is **loss, and the mixing of cycles, that the condition is about**; the duplicates that two
arms bring are not.

## Either kind of book

The orders of a cycle are filed one by one, and a fast book can refuse one for want of room. Then
the fragment does not apply and nothing is adopted, so room is not asked for. What is asked is that
the tick arithmetic of the adds does not overflow, and that the books which are emptied hold some
orders at all, which books damaged by an overflow before may not (`Fit`). For reference books both
hold along every run.
-/

set_option autoImplicit false

namespace MarketData.Handler

open MarketData.Wire MarketData.Book MarketData.Run MarketData.Book.Arrivals
open MarketData.Matching.FeedPublisher (snapshotOrdersOf)

variable {B : Type} [OrderBook B] {S : Publication} {maxBytes : Nat}

/-! ## Fragments with orders -/

/-- The orders that the fragments carry, in order, without the fragments that carry none. -/
def carried (ds : List Snapshot) : List (UInt16 × List SnapshotOrder) :=
  (ds.filter fun d => d.orders ≠ []).map fun d => (d.symbolId, d.orders)

theorem entriesFor_eq_carried (ds : List Snapshot) (symbolId : UInt16) :
    entriesFor ds symbolId = (carried ds).flatMap fun p => if p.1 = symbolId then p.2 else [] := by
  induction ds with
  | nil => rfl
  | cons d ds ih =>
    have hcons : entriesFor (d :: ds) symbolId =
        (if d.symbolId = symbolId then d.orders else []) ++ entriesFor ds symbolId :=
      List.flatMap_cons
    rw [hcons, ih]
    by_cases hnil : d.orders = []
    · have hskip : carried (d :: ds) = carried ds := by simp [carried, hnil]
      rw [hskip, hnil, ite_self, List.nil_append]
    · have hhead : carried (d :: ds) = (d.symbolId, d.orders) :: carried ds := by
        simp [carried, hnil]
      rw [hhead, List.flatMap_cons]

theorem entriesFor_congr {ds ds' : List Snapshot} (h : carried ds = carried ds')
    (symbolId : UInt16) : entriesFor ds symbolId = entriesFor ds' symbolId := by
  rw [entriesFor_eq_carried, entriesFor_eq_carried, h]

/-- A datagram carries one fragment. -/
theorem IsFragment.unique {bytes : Buf} {d d' : Snapshot} (h : IsFragment bytes d)
    (h' : IsFragment bytes d') : d = d' := by
  obtain ⟨seq, hreads⟩ := h.reads
  obtain ⟨seq', hreads'⟩ := h'.reads
  rw [hreads] at hreads'
  cases hreads'
  rfl

/-! ## The cycle that is followed -/

/-- The two tests a fragment has to pass in an open recovery: it is not too old, and its cycle has
been joined at the start. -/
def FeedHandler.Follows (h : FeedHandler B) (d : Snapshot) : Prop :=
  h.recovery.snapshotIsUsable d.lastSequence.toNat = true ∧ (d.cycleStart = true ∨ h.inCycle = true)

/-- The fragments taken since the books were last emptied, with this one. -/
def FeedHandler.cycleSoFar (h : FeedHandler B) (d : Snapshot) : List Snapshot :=
  if d.cycleStart then [d] else h.ledger.fragments ++ [d]

theorem FeedHandler.ledger_applyFragment (h : FeedHandler B) (d : Snapshot) :
    (h.applyFragment d).ledger.fragments = h.cycleSoFar d ∧
      (h.applyFragment d).ledger.seqs = (if d.cycleStart then [] else h.ledger.seqs) ∧
      (h.applyFragment d).ledger.torn = (d.cycleStart || h.ledger.torn) := by
  unfold cycleSoFar
  by_cases hstart : d.cycleStart = true
  · simp [applyFragment, FeedHandler.ledger, Consumer.ledger, Consumer.touch, Ledger.touch, hstart]
  · simp [applyFragment, FeedHandler.ledger, Consumer.ledger, Consumer.touch, Ledger.touch, hstart]

theorem FeedHandler.books_applyFragment (h : FeedHandler B) (d : Snapshot) :
    (h.applyFragment d).consumer.books = (Book.applyFragment h.consumer.books d).2 := by
  unfold applyFragment
  dsimp only
  split <;> rfl

/-- While a cycle is followed the books hold its fragments, unless messages have gone to them. -/
structure Following (H : B → List RestingOrder → Prop) (h : FeedHandler B) : Prop where
  torn : h.inCycle = true → h.ledger.torn = true
  received : h.inCycle = true → h.ledger.seqs = [] →
    Received H h.consumer.books h.ledger.fragments

/-- A fragment that is followed meets books it is fit for. -/
def Fit (H : B → List RestingOrder → Prop) (Fits : B → Op → Prop) (h : FeedHandler B)
    (e : Event) : Prop :=
  ∀ channel bytes d, e = .datagram channel bytes → IsFragment bytes d → h.Follows d →
    (d.cycleStart = true → Intact H h.consumer.books) ∧ FitsFragment Fits h.consumer.books d

/-- The orders that have gone to the books since they were last emptied are those of one cycle of
the publisher, as of the sequence that this fragment names. -/
def CameWhole (S : Publication) (h : FeedHandler B) (d : Snapshot) : Prop :=
  (d.cycleStart = true ∨ h.ledger.seqs = []) ∧
    ∃ ds, S.Cycle d.lastSequence ds ∧ carried (h.cycleSoFar d) = carried ds

namespace Following

variable {H : B → List RestingOrder → Prop} {Fits : B → Op → Prop} {h h' : FeedHandler B}
  {d : Snapshot}

omit [OrderBook B] in
theorem of_out (hout : h.inCycle = false) : Following H h :=
  ⟨fun hin => absurd (hin.symm.trans hout) (by simp),
    fun hin => absurd (hin.symm.trans hout) (by simp)⟩

theorem grown (hf : Following H h) {seqs : List Nat} (hgrown : Grown S h h' seqs) :
    Following H h' := by
  refine ⟨fun hin => ?_, fun hin hseqs => ?_⟩
  · rw [hgrown.torn]
    exact hf.torn (hgrown.inCycle ▸ hin)
  · rw [hgrown.seqs, List.append_eq_nil_iff] at hseqs
    obtain ⟨hold, rfl⟩ := hseqs
    rw [hgrown.books, hgrown.fragments]
    exact hf.received (hgrown.inCycle ▸ hin) hold

/-- **A fragment that applied is in the books**, with those that came before it in its cycle. -/
theorem applied (law : Strict H Fits) (hf : Following H h)
    (hfit : (d.cycleStart = true → Intact H h.consumer.books) ∧
      FitsFragment Fits h.consumer.books d)
    (hin : d.cycleStart = true ∨ h.inCycle = true)
    (hok : ∃ books, Book.applyFragment h.consumer.books d = (.ok (), books))
    (hclean : d.cycleStart = true ∨ h.ledger.seqs = []) :
    Received H (h.applyFragment d).consumer.books (h.cycleSoFar d) := by
  obtain ⟨books, hok⟩ := hok
  rw [FeedHandler.books_applyFragment, hok, FeedHandler.cycleSoFar]
  cases hstart : d.cycleStart with
  | true =>
    rw [if_pos rfl]
    exact (hfit.1 hstart).start law hstart hfit.2 hok
  | false =>
    rw [hstart] at hin hclean
    have hreceived := hf.received (by simpa using hin) (by simpa using hclean)
    rw [if_neg Bool.false_ne_true]
    exact hreceived.fragment law hstart hfit.2 hok

theorem taken (law : Strict H Fits) (hf : Following H h)
    (hfit : h.Follows d → (d.cycleStart = true → Intact H h.consumer.books) ∧
      FitsFragment Fits h.consumer.books d)
    (htaken : FeedHandler.Taken S h d h') : Following H h' := by
  cases htaken with
  | discarded => exact ⟨hf.torn, hf.received⟩
  | failed => exact of_out rfl
  | applied huse hin hok hend =>
    obtain ⟨hfragments, hseqs, htorn⟩ := h.ledger_applyFragment d
    refine ⟨fun _ => ?_, fun _ hnone => ?_⟩
    · rw [htorn, Bool.or_eq_true]
      exact hin.imp id hf.torn
    · rw [hfragments]
      refine hf.applied law (hfit ⟨huse, hin⟩) hin hok ?_
      rw [hseqs] at hnone
      cases hstart : d.cycleStart with
      | true => exact .inl rfl
      | false =>
        rw [hstart] at hnone
        exact .inr hnone
  | reopened => exact of_out rfl
  | completed => exact of_out rfl

/-- **Every step** keeps to the fragments of the cycle it follows. -/
theorem step (law : Strict H Fits) (hf : Following H h) (hs : Sourced S maxBytes h) {e : Event}
    (he : e.Of S maxBytes) (hfit : Fit H Fits h e) : Following H (h.step e) := by
  rcases FeedHandler.step_changes hs he with ⟨seqs, hgrown⟩ | ⟨channel, bytes, d, rfl, hfrag, htaken⟩
  · exact hf.grown hgrown
  · exact hf.taken law (hfit channel bytes d rfl hfrag) htaken

/-- The books at the end of a cycle that came whole hold what the publisher's did. -/
theorem holds (law : Strict H Fits) (hf : Following H h)
    (hfit : (d.cycleStart = true → Intact H h.consumer.books) ∧
      FitsFragment Fits h.consumer.books d)
    (hin : d.cycleStart = true ∨ h.inCycle = true)
    (hok : ∃ books, Book.applyFragment h.consumer.books d = (.ok (), books))
    (hwhole : CameWhole S h d) (symbolId : UInt16) :
    H ((h.applyFragment d).consumer.books.book symbolId)
      (snapshotOrdersOf ((S.booksAt d.lastSequence.toNat).book symbolId)) := by
  obtain ⟨hclean, ds, hcycle, hcarried⟩ := hwhole
  have hentries : ∀ symbolId, entriesFor (h.cycleSoFar d) symbolId =
      (snapshotOrdersOf ((S.booksAt d.lastSequence.toNat).book symbolId)).map RestingOrder.entry := by
    intro symbolId
    rw [entriesFor_congr hcarried]
    exact hcycle.entries symbolId
  have hreceived := hf.applied law hfit hin hok hclean
  exact hreceived.holds hentries symbolId

/-- An adoption puts the held traffic on the books that the cycle left. -/
theorem adopts (law : Strict H Fits) (hf : Following H h) (hs : Sourced S maxBytes h) {e : Event}
    (hfit : Fit H Fits h e) (hadopts : Adopts h e d) (hwhole : CameWhole S h d) :
    ∃ adopted, (∀ symbolId, H (adopted.book symbolId)
        (snapshotOrdersOf ((S.booksAt d.lastSequence.toNat).book symbolId))) ∧
      (h.step e).consumer.books =
        S.onTop adopted (heldSeqs (d.lastSequence.toNat + 1) h.recovery.held) := by
  obtain ⟨-, htaken⟩ := hadopts.taken hs
  obtain ⟨channel, bytes, rfl, hfrag, hcompleted⟩ := hadopts
  have hfit' := hfit channel bytes d rfl hfrag
  generalize h.step (.datagram channel bytes) = h' at htaken hcompleted
  cases htaken with
  | discarded => exact absurd hcompleted (Nat.ne_of_lt (Nat.lt_succ_self _))
  | failed => exact absurd hcompleted (Nat.ne_of_lt (Nat.lt_succ_self _))
  | applied => exact absurd hcompleted (Nat.ne_of_lt (Nat.lt_succ_self _))
  | reopened => exact absurd hcompleted (Nat.ne_of_lt (Nat.lt_succ_self _))
  | completed huse hin hok hend hdrain hrest =>
    exact ⟨_, hf.holds law (hfit' ⟨huse, hin⟩) hin hok hwhole, Consumer.books_applyAll _ _ _⟩

end Following

omit [OrderBook B] in
theorem following_new (H : B → List RestingOrder → Prop) (books : BookSet B) (w k m : Nat) :
    Following H (FeedHandler.new books w k m) := .of_out rfl

/-! ## Reference books -/

/-- Reference books that hold some orders, and create empty ones. -/
structure Paired (books : Books) : Prop where
  twin : Twin books books
  fresh : books.fresh = ReferenceBook.new

namespace Paired

variable {books : Books} {h : FeedHandler ReferenceBook}

theorem new : Paired Books.new := ⟨Twin.new, rfl⟩

theorem onTop (hpaired : Paired books) (seqs : List Nat) : Paired (S.onTop books seqs) :=
  ⟨Publication.twin_onTop hpaired.twin seqs, (Publication.fresh_onTop books seqs).trans hpaired.fresh⟩

theorem applyFragment (hpaired : Paired books) (d : Snapshot) :
    Paired (Book.applyFragment books d).2 := by
  unfold Book.applyFragment
  split
  · exact ⟨(Twin.clearAll hpaired.fresh).applyMessage _,
      (BookSet.fresh_applyMessage _ _).trans hpaired.fresh⟩
  · exact ⟨hpaired.twin.applyMessage _, (BookSet.fresh_applyMessage _ _).trans hpaired.fresh⟩

theorem fit (hpaired : Paired h.consumer.books) (e : Event) : Fit Reps (fun _ _ => True) h e :=
  fun _ _ _ _ _ _ => ⟨fun _ => hpaired.twin.intact hpaired.fresh, fitsOrders_reference _ _⟩

theorem step (hpaired : Paired h.consumer.books) (hs : Sourced S maxBytes h) {e : Event}
    (he : e.Of S maxBytes) : Paired (h.step e).consumer.books := by
  rcases FeedHandler.step_changes hs he with ⟨seqs, hgrown⟩ | ⟨channel, bytes, d, rfl, hfrag, htaken⟩
  · rw [hgrown.books]
    exact hpaired.onTop seqs
  · have happlied : Paired (h.applyFragment d).consumer.books := by
      rw [FeedHandler.books_applyFragment]
      exact hpaired.applyFragment d
    generalize h.step (.datagram channel bytes) = h' at htaken
    cases htaken with
    | discarded => exact hpaired
    | failed => exact happlied
    | applied => exact happlied
    | reopened =>
      show Paired (Consumer.applyAll S _ _ _).books
      rw [Consumer.books_applyAll]
      exact happlied.onTop _
    | completed =>
      show Paired (Consumer.applyAll S _ _ _).books
      rw [Consumer.books_applyAll]
      exact happlied.onTop _

end Paired

/-! ## The books after an adoption -/

/-- **A cycle that came whole is adopted as the publisher's books**, with the held traffic behind it
on top, for every symbol: along every run with reference books, and along every run with fast books
whose tick arithmetic does not overflow. -/
theorem whole_cycle_adopted (S : Publication) (w k m : Nat) (es : List Event)
    (hes : ∀ e ∈ es, e.Of S m) :
    Along FeedHandler.step (fun h e => ∀ d, Adopts h e d → CameWhole S h d → ∀ symbolId,
      SameView ((h.step e).consumer.books.book symbolId)
        ((S.onTop (S.booksAt d.lastSequence.toNat)
          (heldSeqs (d.lastSequence.toNat + 1) h.recovery.held)).book symbolId))
      (.new Books.new w k m) es ∧
    ∀ books : FastBooks, Along FeedHandler.step (Fit MboBook.Holds MboBook.Spared)
      (.new books w k m) es →
      Along FeedHandler.step (fun h e => ∀ d, Adopts h e d → CameWhole S h d →
        ∃ adopted : FastBooks, (∀ symbolId, SameView (adopted.book symbolId)
            ((S.booksAt d.lastSequence.toNat).book symbolId)) ∧
          (h.step e).consumer.books =
            S.onTop adopted (heldSeqs (d.lastSequence.toNat + 1) h.recovery.held))
        (.new books w k m) es := by
  constructor
  · refine (along_of_forall fun _ => hes).of_invariant
      (fun h => Sourced S m h ∧ Following Reps h ∧ Paired h.consumer.books) ?_ ?_
      ⟨sourced_new S Books.new w k m, following_new Reps Books.new w k m, Paired.new⟩
    · rintro h e ⟨hs, hf, hpaired⟩ he
      exact ⟨hs.step he, hf.step strict_reference hs he (hpaired.fit e), hpaired.step hs he⟩
    · rintro h e ⟨hs, hf, hpaired⟩ - d hadopts hwhole symbolId
      obtain ⟨adopted, hholds, hbooks⟩ :=
        hf.adopts strict_reference hs (hpaired.fit e) hadopts hwhole
      rw [hbooks]
      exact (Publication.twin_onTop (Publication.twin_of_holds hholds) _).sameView symbolId
  · intro books hfit
    have hof : Along FeedHandler.step (fun _ e => e.Of S m) (.new books w k m) es :=
      along_of_forall fun _ => hes
    refine (hof.and hfit).of_invariant
      (fun h => Sourced S m h ∧ Following MboBook.Holds h) ?_ ?_
      ⟨sourced_new S books w k m, following_new MboBook.Holds books w k m⟩
    · rintro h e ⟨hs, hf⟩ ⟨he, hfit⟩
      exact ⟨hs.step he, hf.step MboBook.strict hs he hfit⟩
    · rintro h e ⟨hs, hf⟩ ⟨-, hfit⟩ d hadopts hwhole
      obtain ⟨adopted, hholds, hbooks⟩ := hf.adopts MboBook.strict hs hfit hadopts hwhole
      exact ⟨adopted, fun symbolId =>
        Publication.sameView_of_holds MboBook.strict.toKeeps (hholds symbolId), hbooks⟩

/-- Three symbols get an order each, and then nothing happens. -/
def threeOrders : Publication := .single fun s =>
  if s ≤ 3 then .addOrder ⟨UInt64.ofNat s, 100, 10, UInt16.ofNat s, Side.bid.toU8⟩
  else .heartbeat (UInt64.ofNat s)

theorem copy_heartbeat_threeOrders {s : Nat} (hpos : 3 < s) (hlt : s + 1 < 2 ^ 64) :
    threeOrders.Copy 96 (heartbeatAt s) s 1 := by
  refine Publication.copy_single ?_ (by omega) hlt ?_
  · rw [if_neg (by omega)]
    exact decodes_heartbeat _
  · rw [(isRoot_heartbeatBlock _).length]
    decide

/-- The one order of a symbol. -/
def orderFragment (lastSequence : UInt64) (symbolId : UInt16) (flags : UInt8) : Snapshot :=
  ⟨lastSequence, symbolId, flags, [⟨symbolId.toUInt64, 100, 10, Side.bid.toU8⟩]⟩

def orderDatagram (lastSequence : UInt64) (symbolId : UInt16) (flags : UInt8) : Buf :=
  packet packetFlagSnapshot symbolId.toUInt64
    [snapshotBlock lastSequence symbolId flags [⟨symbolId.toUInt64, 100, 10, .bid⟩]]

theorem isFragment_orderDatagram (lastSequence : UInt64) (symbolId : UInt16) (flags : UInt8) :
    IsFragment (orderDatagram lastSequence symbolId flags)
      (orderFragment lastSequence symbolId flags) :=
  isFragment_packet _ lastSequence symbolId flags (show 1 < 65536 by decide)

theorem of_orderDatagram (channel : Nat) {lastSequence : UInt64}
    (hlt : lastSequence.toNat + 1 < 2 ^ 64) (symbolId : UInt16) (flags : UInt8) :
    (Event.datagram channel (orderDatagram lastSequence symbolId flags)).Of threeOrders 96 :=
  .inr ⟨_, isFragment_orderDatagram lastSequence symbolId flags, Publication.boundary_single _ hlt⟩

/-- The flags of the three fragments of a cycle with an order in each. -/
def firstFlags : UInt8 := snapshotFlagCycleStart ||| snapshotFlagLastFragment

def middleFlags : UInt8 := snapshotFlagLastFragment

def lastFlags : UInt8 := snapshotFlagLastFragment ||| snapshotFlagCycleEnd

def threeFragments (lastSequence : UInt64) : List Snapshot :=
  [orderFragment lastSequence 1 firstFlags, orderFragment lastSequence 2 middleFlags,
    orderFragment lastSequence 3 lastFlags]

theorem cycle_threeFragments {lastSequence : UInt64}
    (hne : (threeOrders.booksAt lastSequence.toNat).toList ≠ [])
    (hsent : Matching.FeedPublisher.cycleFragments 1 lastSequence true
      (threeOrders.booksAt lastSequence.toNat).toList = threeFragments lastSequence) :
    threeOrders.Cycle lastSequence (threeFragments lastSequence) := by
  rw [← hsent]
  exact Publication.cycle_cycleFragments (Nat.le_refl 1) (threeOrders.fresh_booksAt _) hne
    fun _ => ⟨fun _ => rfl, rfl, fun _ _ => rfl, fun _ _ => rfl, fun _ => rfl⟩

theorem cycle_as_of_three : threeOrders.Cycle 3 (threeFragments 3) :=
  cycle_threeFragments (by decide +kernel) (by decide +kernel)

/-- A handler joins at 4 and meets the cycle, its second fragment on the other arm. -/
def joinWithCycle : List Event :=
  [.datagram 0 (heartbeatAt 4),
    .datagram 0 (orderDatagram 3 1 firstFlags),
    .datagram 1 (orderDatagram 3 2 middleFlags),
    .datagram 0 (orderDatagram 3 3 lastFlags)]

theorem of_joinWithCycle : ∀ e ∈ joinWithCycle, e.Of threeOrders 96 := by
  intro e he
  simp only [joinWithCycle, List.mem_cons, List.not_mem_nil, or_false] at he
  rcases he with rfl | rfl | rfl | rfl
  · exact .inl ⟨4, 1, copy_heartbeat_threeOrders (by decide) (by decide)⟩
  · exact of_orderDatagram 0 (by decide) 1 _
  · exact of_orderDatagram 1 (by decide) 2 _
  · exact of_orderDatagram 0 (by decide) 3 _

/-- Room for four orders at prices around 100. -/
def smallBooks : FastBooks := FastBooks.new ⟨8, 4, 100, 5⟩

theorem holds_smallBooks (symbolId : UInt16) : MboBook.Holds (smallBooks.book symbolId) [] :=
  ⟨[], _, MboBook.whole_new ⟨by decide, by decide⟩, rfl⟩

theorem fit_heartbeatAt {H : B → List RestingOrder → Prop} {Fits : B → Op → Prop}
    {h : FeedHandler B} {channel s : Nat} (hpos : 1 ≤ s) (hlt : s + 1 < 2 ^ 64) :
    Fit H Fits h (.datagram channel (heartbeatAt s)) := by
  intro channel' bytes d he hfrag
  cases he
  exact absurd hfrag (not_isFragment_heartbeatAt hpos hlt)

theorem fit_orderDatagram {h : FeedHandler MboBook} {channel : Nat} {lastSequence : UInt64}
    {symbolId : UInt16} {flags : UInt8}
    (hintact : (orderFragment lastSequence symbolId flags).cycleStart = true →
      Intact MboBook.Holds h.consumer.books)
    (hspared : ((h.consumer.books.opened (orderFragment lastSequence symbolId flags)).book
      symbolId).Spared (.add symbolId.toUInt64 .bid 100 10)) :
    Fit MboBook.Holds MboBook.Spared h
      (.datagram channel (orderDatagram lastSequence symbolId flags)) := by
  intro channel' bytes d he hfrag hfollows
  cases he
  obtain rfl := (isFragment_orderDatagram lastSequence symbolId flags).unique hfrag
  refine ⟨hintact, fun side hside => ?_⟩
  obtain rfl : Side.bid = side := Except.ok.inj hside
  exact ⟨hspared, trivial⟩

theorem fit_joinWithCycle : Along FeedHandler.step (Fit MboBook.Holds MboBook.Spared)
    (.new smallBooks 2 4 96) joinWithCycle := by
  refine ⟨fit_heartbeatAt (by decide) (by decide), ?_, ?_, ?_, trivial⟩
  · exact fit_orderDatagram
      (fun _ => ⟨holds_smallBooks 0, fun symbolId => ⟨[], holds_smallBooks symbolId⟩⟩)
      (by decide +kernel)
  · exact fit_orderDatagram (fun hstart => absurd hstart (by decide +kernel)) (by decide +kernel)
  · exact fit_orderDatagram (fun hstart => absurd hstart (by decide +kernel)) (by decide +kernel)

theorem whole_cycle_adopted_at_join :
    (∀ symbolId, SameView
      (((FeedHandler.new Books.new 2 4 96).run joinWithCycle).consumer.books.book symbolId)
      ((threeOrders.booksAt 4).book symbolId)) ∧
    ∃ adopted : FastBooks, (∀ symbolId,
        SameView (adopted.book symbolId) ((threeOrders.booksAt 3).book symbolId)) ∧
      ((FeedHandler.new smallBooks 2 4 96).run joinWithCycle).consumer.books =
        threeOrders.onTop adopted [4] := by
  obtain ⟨hbooks, hfast⟩ := whole_cycle_adopted threeOrders 2 4 96 joinWithCycle of_joinWithCycle
  obtain ⟨-, -, -, hbooks, -⟩ := hbooks
  obtain ⟨-, -, -, hfast, -⟩ := hfast smallBooks fit_joinWithCycle
  have hadopted := hbooks _ ⟨0, _, rfl, isFragment_orderDatagram 3 3 _, by decide +kernel⟩
    ⟨.inr (by decide +kernel), _, cycle_as_of_three, by decide +kernel⟩
  have hheld : heldSeqs 4
      ((FeedHandler.new Books.new 2 4 96).run (joinWithCycle.take 3)).recovery.held = [4] := by
    decide +kernel
  constructor
  · intro symbolId
    have hview : SameView
        (((FeedHandler.new Books.new 2 4 96).run joinWithCycle).consumer.books.book symbolId)
        ((threeOrders.onTop (threeOrders.booksAt 3) (heldSeqs 4
          ((FeedHandler.new Books.new 2 4 96).run (joinWithCycle.take 3)).recovery.held)).book
          symbolId) := hadopted symbolId
    rw [hheld] at hview
    exact hview
  · exact hfast _ ⟨0, _, rfl, isFragment_orderDatagram 3 3 _, by decide +kernel⟩
      ⟨.inr (by decide +kernel), _, cycle_as_of_three, by decide +kernel⟩

/-- The second fragment of the cycle is lost on both arms. -/
def joinWithHole : List Event :=
  [.datagram 0 (heartbeatAt 4),
    .datagram 0 (orderDatagram 3 1 firstFlags),
    .datagram 0 (orderDatagram 3 3 lastFlags)]

theorem cycle_adopted_with_a_hole :
    let h := (FeedHandler.new Books.new 2 4 96).run joinWithHole
    threeOrders.Cycle 3 (threeFragments 3) ∧ (∀ e ∈ joinWithHole, e.Of threeOrders 96) ∧
      h.recovery.completed = 1 ∧ h.arb.state = .live ∧
      ¬ SameView (h.consumer.books.book 2) ((threeOrders.booksAt 4).book 2) := by
  refine ⟨cycle_as_of_three, ?_, by decide +kernel, by decide +kernel, fun hview => ?_⟩
  · intro e he
    refine of_joinWithCycle e ?_
    simp only [joinWithHole, joinWithCycle, List.mem_cons, List.not_mem_nil, or_false] at he ⊢
    rcases he with rfl | rfl | rfl
    · exact .inl rfl
    · exact .inr (.inl rfl)
    · exact .inr (.inr (.inr rfl))
  · have hlen := hview.len
    revert hlen
    decide +kernel

end MarketData.Handler
