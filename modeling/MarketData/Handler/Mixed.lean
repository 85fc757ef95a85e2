import MarketData.Handler.Following
import MarketData.Handler.Late

/-!
# `Handler/Mixed.lean` — a replay and a snapshot in one recovery

A recovery can be closed from two sides, and they leave different books behind while they are at it.
A replay fills the hole in books that are right up to it; a snapshot empties the books first and
fills them again. The state they share says only that a hole is open, so an answer that comes between
the two ends of a cycle is put on books that hold half of a snapshot, and completes the recovery.

## What it takes for a replay to be right

`Founded` is what the books are when nothing of the sort has happened: the publisher's books as of
the last sequence adopted, with the messages the ledger has listed since on top. It is said only of
books that no cycle has emptied without finishing (`torn`). When a replay completes, the ledger's
messages are all from there to the frontier, each once and in order, by the two invariants on
sequences (`Handler/Whole.lean`, `Handler/Once.lean`), **and then the books are a fold of the
stream**.

Three conditions meet here, and none of them is new. That the books are right at an adoption takes a
cycle that came whole; that every message is there takes an answer that fits, and it is this one
that asks for books which are not torn; that none is there twice takes orderly steps.
-/

set_option autoImplicit false

namespace MarketData.Handler

open MarketData.Wire MarketData.Book MarketData.Run
open MarketData.Matching.FeedPublisher (snapshotOrdersOf)

variable {B : Type} [OrderBook B] {S : Publication} {maxBytes : Nat}

/-- A cycle end that is followed and applies ends a cycle that came whole. -/
def EndsWhole (S : Publication) (h : FeedHandler B) (e : Event) : Prop :=
  ∀ channel bytes d, e = .datagram channel bytes → IsFragment bytes d → h.Follows d →
    d.cycleEnd = true → (∃ books, Book.applyFragment h.consumer.books d = (.ok (), books)) →
    CameWhole S h d

/-- A step under which the two ways to recover do not get in each other's way. -/
structure Unmixed (S : Publication) (h : FeedHandler B) (e : Event) : Prop where
  orderly : Orderly h e
  answer : AnswerFits h e
  cycle : EndsWhole S h e

/-- Books that are not torn are those of the publisher as of the last adoption, with the messages
since on top. -/
def Founded (S : Publication) (H : B → List RestingOrder → Prop) (h : FeedHandler B) : Prop :=
  h.ledger.torn = false → ∃ adopted, (∀ symbolId, H (adopted.book symbolId)
      (snapshotOrdersOf ((S.booksAt h.ledger.base).book symbolId))) ∧
    h.consumer.books = S.onTop adopted h.ledger.seqs

namespace Founded

variable {H : B → List RestingOrder → Prop} {Fits : B → Op → Prop} {h h' : FeedHandler B}
  {d : Snapshot}

theorem grown (hb : Founded S H h) {seqs : List Nat} (hgrown : Grown S h h' seqs) :
    Founded S H h' := by
  intro hintact
  obtain ⟨adopted, hholds, hbooks⟩ := hb (hgrown.torn ▸ hintact)
  refine ⟨adopted, ?_, ?_⟩
  · rw [hgrown.base]
    exact hholds
  · rw [hgrown.books, hgrown.seqs, hbooks, Publication.onTop_append]

/-- Books that a fragment of an unfinished cycle has gone to are torn. -/
theorem of_fragment (hf : Following H h) (hin : d.cycleStart = true ∨ h.inCycle = true)
    (hledger : h'.ledger = (h.applyFragment d).ledger) : Founded S H h' := by
  intro hintact
  rw [hledger, (h.ledger_applyFragment d).2.2, Bool.or_eq_false_iff] at hintact
  rcases hin with hstart | hin
  · rw [hstart] at hintact
    cases hintact.1
  · rw [hf.torn hin] at hintact
    cases hintact.2

/-- An adoption of books that hold what the publisher's did. -/
theorem of_adoption {c : Consumer B} {lastSequence : Nat} {seqs : List Nat}
    (hholds : ∀ symbolId, H (c.books.book symbolId)
      (snapshotOrdersOf ((S.booksAt lastSequence).book symbolId)))
    (hbooks : h'.consumer.books = S.onTop c.books seqs)
    (hledger : h'.ledger = (c.ledger.touch (.adopted lastSequence)).add seqs) : Founded S H h' := by
  intro _
  refine ⟨c.books, ?_, ?_⟩
  · rw [hledger]
    exact hholds
  · rw [hbooks, hledger]
    rfl

theorem taken (law : Strict H Fits) (hb : Founded S H h) (hf : Following H h)
    (hfit : h.Follows d → (d.cycleStart = true → Intact H h.consumer.books) ∧
      FitsFragment Fits h.consumer.books d)
    (hends : h.Follows d → d.cycleEnd = true →
      (∃ books, Book.applyFragment h.consumer.books d = (.ok (), books)) → CameWhole S h d)
    (htaken : FeedHandler.Taken S h d h') : Founded S H h' := by
  cases htaken with
  | discarded => exact hb
  | failed huse hin => exact of_fragment hf hin rfl
  | applied huse hin => exact of_fragment hf hin rfl
  | reopened huse hin hok hend hdrain hrest =>
    have hholds := hf.holds law (hfit ⟨huse, hin⟩) hin hok (hends ⟨huse, hin⟩ hend hok)
    refine of_adoption hholds (Consumer.books_applyAll _ _ _) ?_
    show (Consumer.applyAll S _ _ _).ledger = _
    rw [Consumer.ledger_applyAll, Consumer.ledger_touch]
  | completed huse hin hok hend hdrain hrest =>
    have hholds := hf.holds law (hfit ⟨huse, hin⟩) hin hok (hends ⟨huse, hin⟩ hend hok)
    refine of_adoption hholds (Consumer.books_applyAll _ _ _) ?_
    show (Consumer.touch (Consumer.count (Consumer.applyAll S _ _ _) _) _).ledger = _
    rw [Consumer.ledger_touch, Consumer.ledger_count, Consumer.ledger_applyAll,
      Consumer.ledger_count, Consumer.ledger_touch]
    rfl

/-- **Every unmixed step** keeps the books founded. -/
theorem step (law : Strict H Fits) (hb : Founded S H h) (hf : Following H h)
    (hs : Sourced S maxBytes h) {e : Event} (he : e.Of S maxBytes) (hfit : Fit H Fits h e)
    (hends : EndsWhole S h e) : Founded S H (h.step e) := by
  rcases FeedHandler.step_changes hs he with ⟨seqs, hgrown⟩ | ⟨channel, bytes, d, rfl, hfrag, htaken⟩
  · exact hb.grown hgrown
  · exact hb.taken law hf (hfit channel bytes d rfl hfrag) (hends channel bytes d rfl hfrag) htaken

end Founded

/-- Empty books are founded on nothing. -/
theorem founded_new {H : B → List RestingOrder → Prop} {books : BookSet B}
    (hempty : ∀ symbolId, H (books.book symbolId) []) (w k m : Nat) :
    Founded S H (FeedHandler.new books w k m) :=
  fun _ => ⟨books, hempty, rfl⟩

/-! ## When a replay completes -/

/-- What the invariants come to together. -/
structure Accounted (S : Publication) (maxBytes : Nat) (H : B → List RestingOrder → Prop)
    (h : FeedHandler B) : Prop where
  sourced : Sourced S maxBytes h
  whole : Whole h
  once : Once h
  following : Following H h
  founded : Founded S H h

namespace Accounted

variable {H : B → List RestingOrder → Prop} {Fits : B → Op → Prop} {h : FeedHandler B} {e : Event}

theorem new {books : BookSet B} (hempty : ∀ symbolId, H (books.book symbolId) []) (w k m : Nat) :
    Accounted S m H (FeedHandler.new books w k m) :=
  ⟨sourced_new S books w k m, whole_new books w k m, once_new books w k m,
    following_new H books w k m, founded_new hempty w k m⟩

theorem step (law : Strict H Fits) (ha : Accounted S maxBytes H h) (he : e.Of S maxBytes)
    (hmix : Unmixed S h e) (hfit : Fit H Fits h e) : Accounted S maxBytes H (h.step e) :=
  ⟨ha.sourced.step he, ha.whole.step ha.sourced he hmix.answer,
    ha.once.step ha.sourced he hmix.orderly, ha.following.step law ha.sourced he hfit,
    ha.founded.step law ha.following ha.sourced he hfit hmix.cycle⟩

/-- **The books a replay completes on** are those of the last adoption with every message since up
to the frontier on top, and no cycle was being followed. -/
theorem completes (law : Strict H Fits) (ha : Accounted S maxBytes H h) (he : e.Of S maxBytes)
    (hmix : Unmixed S h e) (hfit : Fit H Fits h e) (hc : CompletesByReplay h e) :
    h.inCycle = false ∧ ∃ base adopted, base ≤ (h.step e).arb.nextExpected - 1 ∧
      (∀ symbolId, H (adopted.book symbolId)
        (snapshotOrdersOf ((S.booksAt base).book symbolId))) ∧
      (h.step e).consumer.books = S.onTop adopted
        (List.range' (base + 1) ((h.step e).arb.nextExpected - 1 - base)) := by
  obtain ⟨hsettled, hidle⟩ := hc.settled ha.sourced he hmix.answer
  obtain ⟨ds, r, g, rfl, hpending, -, hg, htrue, -⟩ := hc.answer ha.sourced he
  obtain ⟨hintact, -⟩ := (hmix.answer ds r g rfl hpending hg).2
    ((FeedHandler.applyReplay_eq_true_iff hg r ds).mp htrue)
  have hnext := ha.step law he hmix hfit
  have hbelow := hnext.whole hsettled
  have hupto := hnext.once.ledger
  rw [reach_idle hidle] at hbelow hupto
  obtain ⟨adopted, hholds, hbooks⟩ := hnext.founded hsettled.intact
  rw [hupto.seqs_eq hbelow] at hbooks
  refine ⟨?_, _, adopted, ?_, hholds, hbooks⟩
  · by_contra hin
    rw [ha.following.torn (by simpa using hin)] at hintact
    cases hintact
  · by_cases hzero : (h.step (.answer ds)).ledger.base = 0
    · omega
    · have := hupto.below _ (.inl ⟨Nat.pos_of_ne_zero hzero, Nat.le_refl _⟩)
      omega

end Accounted

/-- **A replay that completes leaves the publisher's books**: along every run of unmixed steps, when
an answer completes a recovery no cycle is being followed and the books are those of the stream up to
the frontier. For fast books, whose tick arithmetic is not to overflow, they are books that answer
like the publisher's at an earlier sequence, with the messages from there up to the frontier on
top. -/
theorem replay_completion_restores_books (S : Publication) (w k m : Nat) (es : List Event)
    (hes : ∀ e ∈ es, e.Of S m) :
    (Along FeedHandler.step (Unmixed S) (.new Books.new w k m) es →
      Along FeedHandler.step (fun h e => CompletesByReplay h e → h.inCycle = false ∧ ∀ symbolId,
        SameView ((h.step e).consumer.books.book symbolId)
          ((S.booksAt ((h.step e).arb.nextExpected - 1)).book symbolId))
        (.new Books.new w k m) es) ∧
    ∀ books : FastBooks, (∀ symbolId, MboBook.Holds (books.book symbolId) []) →
      Along FeedHandler.step (Fit MboBook.Holds MboBook.Spared) (.new books w k m) es →
      Along FeedHandler.step (Unmixed S) (.new books w k m) es →
      Along FeedHandler.step (fun h e => CompletesByReplay h e → h.inCycle = false ∧
        ∃ base, ∃ adopted : FastBooks, base ≤ (h.step e).arb.nextExpected - 1 ∧
          (∀ symbolId, SameView (adopted.book symbolId) ((S.booksAt base).book symbolId)) ∧
          (h.step e).consumer.books = S.onTop adopted
            (List.range' (base + 1) ((h.step e).arb.nextExpected - 1 - base)))
        (.new books w k m) es := by
  have hof : ∀ {B : Type} [OrderBook B] (books : BookSet B),
      Along FeedHandler.step (fun _ e => e.Of S m) (.new books w k m) es :=
    fun _ => along_of_forall fun _ => hes
  constructor
  · intro hmix
    refine ((hof Books.new).and hmix).of_invariant
      (fun h => Accounted S m Reps h ∧ Paired h.consumer.books) ?_ ?_
      ⟨.new (fun _ => Reps.new) w k m, Paired.new⟩
    · rintro h e ⟨ha, hpaired⟩ ⟨he, hmix⟩
      exact ⟨ha.step strict_reference he hmix (hpaired.fit e), hpaired.step ha.sourced he⟩
    · rintro h e ⟨ha, hpaired⟩ ⟨he, hmix⟩ hc
      obtain ⟨hout, base, adopted, hle, hholds, hbooks⟩ :=
        ha.completes strict_reference he hmix (hpaired.fit e) hc
      refine ⟨hout, fun symbolId => ?_⟩
      have htwin := Publication.twin_onTop (S := S) (Publication.twin_of_holds hholds)
        (List.range' (base + 1) ((h.step e).arb.nextExpected - 1 - base))
      rw [← hbooks, ← Publication.booksAt_add, Nat.add_sub_cancel' hle] at htwin
      exact htwin.sameView symbolId
  · intro books hempty hfit hmix
    refine (((hof books).and hfit).and hmix).of_invariant (Accounted S m MboBook.Holds) ?_ ?_
      (.new hempty w k m)
    · rintro h e ha ⟨⟨he, hfit⟩, hmix⟩
      exact ha.step MboBook.strict he hmix hfit
    · rintro h e ha ⟨⟨he, hfit⟩, hmix⟩ hc
      obtain ⟨hout, base, adopted, hle, hholds, hbooks⟩ :=
        ha.completes MboBook.strict he hmix hfit hc
      exact ⟨hout, base, adopted, hle, fun symbolId =>
        Publication.sameView_of_holds MboBook.strict.toKeeps (hholds symbolId), hbooks⟩

/-! ## Steps that are unmixed -/

/-- A step that does not start the join over, with nothing in the window at the frontier. -/
def Plain (h : FeedHandler B) (e : Event) : Prop :=
  (h.step e).initialJoinRetries = h.initialJoinRetries ∧
    ∀ t ∈ h.arb.held, t.firstSequence ≠ h.arb.nextExpected

instance (h : FeedHandler B) (e : Event) : Decidable (Plain h e) :=
  inferInstanceAs (Decidable (_ ∧ _))

theorem unmixed_heartbeatAt {h : FeedHandler B} {channel s : Nat} (hpos : 1 ≤ s)
    (hlt : s + 1 < 2 ^ 64) (hplain : Plain h (.datagram channel (heartbeatAt s))) :
    Unmixed S h (.datagram channel (heartbeatAt s)) := by
  refine ⟨orderly_heartbeatAt hpos hlt (fun _ => hplain.2) hplain.1,
    (fun _ _ _ he => by cases he), ?_⟩
  intro channel' bytes d he hfrag
  cases he
  exact absurd hfrag (not_isFragment_heartbeatAt hpos hlt)

theorem unmixed_fragment {h : FeedHandler B} {channel : Nat} {bytes : Buf} {d : Snapshot}
    (hfrag : IsFragment bytes d) (hplain : Plain h (.datagram channel bytes))
    (hfits : d.cycleEnd = true → ∀ x ∈ h.recovery.held,
      x.firstSequence + x.count ≤ d.lastSequence.toNat + 1)
    (hwhole : d.cycleEnd = true → CameWhole S h d) :
    Unmixed S h (.datagram channel bytes) := by
  refine ⟨⟨?_, ?_, ?_, (fun _ _ _ he => by cases he)⟩, (fun _ _ _ he => by cases he), ?_⟩
  · intro channel' bytes' he first count _ _ _
    cases he
    exact hplain.2
  · intro channel' bytes' d' he hfrag' _ _ hend _
    cases he
    obtain rfl := hfrag.unique hfrag'
    exact hfits hend
  · intro hlt
    rw [hplain.1] at hlt
    exact absurd hlt (Nat.lt_irrefl _)
  · intro channel' bytes' d' he hfrag' _ hend _
    cases he
    obtain rfl := hfrag.unique hfrag'
    exact hwhole hend

theorem unmixed_request (h : FeedHandler B) : Unmixed S h .request :=
  ⟨orderly_request h, (fun _ _ _ he => by cases he), (fun _ _ _ he => by cases he)⟩

/-- An answer that carries its whole range, for the hole awaited and up to the frontier. -/
theorem unmixed_answer {h : FeedHandler B} {ds : List Buf} {r : RangeRequest}
    (hplain : Plain h (.answer ds)) (hds : AnswerOf S maxBytes ds)
    (hpending : h.pendingReplay = some r) (hstate : h.recovery.state = .awaitingSnapshot r.fromSeq)
    (hfrontier : r.through + 1 = h.arb.nextExpected) (hproper : r.Proper)
    (hnodup : (answerSeqs r ds).Nodup)
    (hcovered : ∀ s ∈ answerSeqs r ds, s ≤ (FeedHandler.coverage r ds).through)
    (hall : ∀ s, r.fromSeq ≤ s → s ≤ r.through → ∃ d ∈ ds, Tiling.Covers span s d)
    (hkept : h.ledger.torn = false ∧ h.ledger.forsaken = false) : Unmixed S h (.answer ds) := by
  have hsame : ∀ {r' : RangeRequest} {g : Nat}, h.pendingReplay = some r' →
      h.recovery.state = .awaitingSnapshot g → r' = r ∧ g = r.fromSeq := by
    intro r' g hr hg
    exact ⟨Option.some.inj (hr.symm.trans hpending),
      Recovery.awaitingSnapshot.inj (hg.symm.trans hstate)⟩
  refine ⟨⟨(fun _ _ he => by cases he), (fun _ _ _ he => by cases he), ?_, ?_⟩, ?_,
    (fun _ _ _ he => by cases he)⟩
  · intro hlt
    rw [hplain.1] at hlt
    exact absurd hlt (Nat.lt_irrefl _)
  · intro ds' r' g he hr hg _
    cases he
    obtain ⟨rfl, rfl⟩ := hsame hr hg
    refine ⟨rfl, by omega, hnodup, fun s hs => ?_⟩
    exact (inOrder_iff hproper hds (mem_answerSeqs.mp hs).1.1).mpr (hcovered s hs)
  · intro ds' r' g he hr hg
    cases he
    obtain ⟨rfl, rfl⟩ := hsame hr hg
    refine ⟨Nat.le_refl _, fun _ => ⟨hkept.1, hkept.2, fun s hlo hlt => ?_⟩⟩
    exact .inr ⟨by omega, hall s hlo (by omega)⟩

/-- A handler joins at 4 and takes the cycle as of 4; then 5 is lost, and the answer for 5 to 7
closes the hole. -/
def cycleThenReplay : List Event :=
  [.datagram 0 (heartbeatAt 4), .datagram 0 (orderDatagram 4 1 firstFlags),
    .datagram 1 (orderDatagram 4 2 middleFlags), .datagram 0 (orderDatagram 4 3 lastFlags),
    .datagram 0 (heartbeatAt 6), .datagram 0 (heartbeatAt 7), .request,
    .answer ([5, 6, 7].map heartbeatAt)]

theorem answer_threeOrders {ss : List Nat} (hss : ∀ s ∈ ss, 3 < s ∧ s + 1 < 2 ^ 64) :
    AnswerOf threeOrders 96 (ss.map heartbeatAt) := by
  intro d hd
  obtain ⟨s, hs, rfl⟩ := List.mem_map.mp hd
  exact ⟨s, 1, copy_heartbeat_threeOrders (hss s hs).1 (hss s hs).2⟩

theorem of_heartbeat_threeOrders (channel : Nat) {s : Nat} (hpos : 3 < s) (hlt : s + 1 < 2 ^ 64) :
    (Event.datagram channel (heartbeatAt s)).Of threeOrders 96 :=
  .inl ⟨s, 1, copy_heartbeat_threeOrders hpos hlt⟩

/-- The datagram of one of the three orders. -/
def orderAt (s : Nat) : Buf :=
  packet 0 (UInt64.ofNat s) [addOrderBlock (UInt64.ofNat s) 100 10 (UInt16.ofNat s) .bid]

theorem of_orderAt (channel : Nat) {s : Nat} (hpos : 1 ≤ s) (hle : s ≤ 3) :
    (Event.datagram channel (orderAt s)).Of threeOrders 96 := by
  refine .inl ⟨s, 1, Publication.copy_single ?_ hpos (by omega) ?_⟩
  · rw [if_pos hle]
    exact decodes_addOrder _ _ _ _ _
  · rw [(isRoot_addOrderBlock ..).length]
    decide

/-- Whichever books the handler keeps, what is left to check of the run are a few numbers. -/
theorem unmixed_cycleThenReplay {books : BookSet B}
    (hplain : Along FeedHandler.step Plain (.new books 1 4 96) cycleThenReplay)
    (hend : let h := (FeedHandler.new books 1 4 96).run (cycleThenReplay.take 3)
      (∀ x ∈ h.recovery.held, x.firstSequence + x.count ≤ 5) ∧ h.ledger.seqs = [] ∧
        carried (h.cycleSoFar (orderFragment 4 3 lastFlags)) = carried (threeFragments 4))
    (hanswer : let h := (FeedHandler.new books 1 4 96).run (cycleThenReplay.take 7)
      h.pendingReplay = some ⟨5, 7⟩ ∧ h.recovery.state = .awaitingSnapshot 5 ∧
        h.arb.nextExpected = 8 ∧ h.ledger.torn = false ∧ h.ledger.forsaken = false) :
    Along FeedHandler.step (Unmixed threeOrders) (.new books 1 4 96) cycleThenReplay := by
  obtain ⟨h₁, h₂, h₃, h₄, h₅, h₆, h₇, h₈, -⟩ := hplain
  -- the states in question, a step at a time
  simp only [FeedHandler.run, cycleThenReplay, List.take_succ_cons, List.take_zero,
    List.foldl_cons, List.foldl_nil] at hend hanswer
  obtain ⟨hheld, hseqs, hcarried⟩ := hend
  obtain ⟨hpending, hstate, hnext, hkept⟩ := hanswer
  have hcycle : threeOrders.Cycle 4 (threeFragments 4) :=
    cycle_threeFragments (by decide +kernel) (by decide +kernel)
  refine ⟨unmixed_heartbeatAt (by decide) (by decide) h₁,
    unmixed_fragment (isFragment_orderDatagram 4 1 _) h₂ ?_ ?_,
    unmixed_fragment (isFragment_orderDatagram 4 2 _) h₃ ?_ ?_,
    unmixed_fragment (isFragment_orderDatagram 4 3 _) h₄ (fun _ => hheld) fun _ =>
      ⟨.inr hseqs, _, hcycle, hcarried⟩,
    unmixed_heartbeatAt (by decide) (by decide) h₅,
    unmixed_heartbeatAt (by decide) (by decide) h₆, unmixed_request _, ?_, trivial⟩
  · exact fun hno => absurd hno (by decide)
  · exact fun hno => absurd hno (by decide)
  · exact fun hno => absurd hno (by decide)
  · exact fun hno => absurd hno (by decide)
  · have hall : ∀ s, 5 ≤ s → s ≤ 7 →
        ∃ d ∈ [5, 6, 7].map heartbeatAt, Tiling.Covers span s d := by
      intro s hlo hhi
      obtain rfl | rfl | rfl : s = 5 ∨ s = 6 ∨ s = 7 := by omega
      · exact ⟨heartbeatAt 5, by simp, by decide +kernel⟩
      · exact ⟨heartbeatAt 6, by simp, by decide +kernel⟩
      · exact ⟨heartbeatAt 7, by simp, by decide +kernel⟩
    exact unmixed_answer h₈ (answer_threeOrders (by decide)) hpending hstate hnext.symm
      ⟨by decide, by decide⟩ (by decide +kernel) (by decide +kernel) hall hkept

theorem replay_completion_after_a_cycle :
    let h := (FeedHandler.new Books.new 1 4 96).run cycleThenReplay
    let h' := (FeedHandler.new smallBooks 1 4 96).run cycleThenReplay
    (h.arb.nextExpected = 8 ∧ ∀ symbolId, SameView (h.consumer.books.book symbolId)
      ((threeOrders.booksAt (h.arb.nextExpected - 1)).book symbolId)) ∧
    h'.arb.nextExpected = 8 ∧ ∃ base, ∃ adopted : FastBooks, base ≤ h'.arb.nextExpected - 1 ∧
      (∀ symbolId,
        SameView (adopted.book symbolId) ((threeOrders.booksAt base).book symbolId)) ∧
      h'.consumer.books = threeOrders.onTop adopted
        (List.range' (base + 1) (h'.arb.nextExpected - 1 - base)) := by
  have hes : ∀ e ∈ cycleThenReplay, e.Of threeOrders 96 := by
    intro e he
    simp only [cycleThenReplay, List.mem_cons, List.not_mem_nil, or_false] at he
    rcases he with rfl | rfl | rfl | rfl | rfl | rfl | rfl | rfl
    · exact of_heartbeat_threeOrders 0 (by decide) (by decide)
    · exact of_orderDatagram 0 (by decide) 1 _
    · exact of_orderDatagram 1 (by decide) 2 _
    · exact of_orderDatagram 0 (by decide) 3 _
    · exact of_heartbeat_threeOrders 0 (by decide) (by decide)
    · exact of_heartbeat_threeOrders 0 (by decide) (by decide)
    · trivial
    · exact answer_threeOrders (by decide)
  have hfit : Along FeedHandler.step (Fit MboBook.Holds MboBook.Spared)
      (.new smallBooks 1 4 96) cycleThenReplay := by
    have hnone : ∀ {h : FeedHandler MboBook}, Fit MboBook.Holds MboBook.Spared h .request ∧
        ∀ ds, Fit MboBook.Holds MboBook.Spared h (.answer ds) :=
      ⟨(fun _ _ _ he => by cases he), (fun _ _ _ _ he => by cases he)⟩
    refine ⟨fit_heartbeatAt (by decide) (by decide), fit_orderDatagram ?_ (by decide +kernel),
      fit_orderDatagram ?_ (by decide +kernel), fit_orderDatagram ?_ (by decide +kernel),
      fit_heartbeatAt (by decide) (by decide), fit_heartbeatAt (by decide) (by decide), hnone.1,
      hnone.2 _, trivial⟩
    · exact fun _ => ⟨holds_smallBooks 0, fun symbolId => ⟨[], holds_smallBooks symbolId⟩⟩
    · exact fun hstart => absurd hstart (by decide)
    · exact fun hstart => absurd hstart (by decide)
  obtain ⟨hbooks, hfast⟩ := replay_completion_restores_books threeOrders 1 4 96 cycleThenReplay hes
  obtain ⟨-, -, -, -, -, -, -, hbooks, -⟩ := hbooks (unmixed_cycleThenReplay (by decide +kernel)
    (by decide +kernel) (by decide +kernel))
  obtain ⟨-, -, -, -, -, -, -, hfast, -⟩ := hfast smallBooks holds_smallBooks hfit
    (unmixed_cycleThenReplay (by decide +kernel) (by decide +kernel) (by decide +kernel))
  refine ⟨⟨by decide +kernel, ?_⟩, by decide +kernel, ?_⟩
  · exact (hbooks ⟨_, rfl, by decide +kernel⟩).2
  · exact (hfast ⟨_, rfl, by decide +kernel⟩).2

/-- Three orders, then 4 is lost; the first fragment of a cycle as of 6 arrives before the answer for
4 to 6. -/
def replayInsideCycle : List Event :=
  [.datagram 0 (orderAt 1), .datagram 0 (orderAt 2), .datagram 0 (orderAt 3),
    .datagram 0 (heartbeatAt 5), .datagram 0 (heartbeatAt 6), .request,
    .datagram 0 (orderDatagram 6 1 firstFlags), .answer ([4, 5, 6].map heartbeatAt)]

theorem replay_completes_inside_a_cycle :
    let h := (FeedHandler.new Books.new 1 4 96).run (replayInsideCycle.take 7)
    let h' := (FeedHandler.new Books.new 1 4 96).run replayInsideCycle
    (∀ e ∈ replayInsideCycle, e.Of threeOrders 96) ∧ h.inCycle = true ∧
      h'.recovery.completed = 1 ∧ h'.arb.nextExpected = 7 ∧
      ¬ SameView (h'.consumer.books.book 2) ((threeOrders.booksAt 6).book 2) := by
  refine ⟨?_, by decide +kernel, by decide +kernel, by decide +kernel, fun hview => ?_⟩
  · intro e he
    simp only [replayInsideCycle, List.mem_cons, List.not_mem_nil, or_false] at he
    rcases he with rfl | rfl | rfl | rfl | rfl | rfl | rfl | rfl
    · exact of_orderAt 0 (by decide) (by decide)
    · exact of_orderAt 0 (by decide) (by decide)
    · exact of_orderAt 0 (by decide) (by decide)
    · exact of_heartbeat_threeOrders 0 (by decide) (by decide)
    · exact of_heartbeat_threeOrders 0 (by decide) (by decide)
    · trivial
    · exact of_orderDatagram 0 (by decide) 1 _
    · exact answer_threeOrders (by decide)
  · have hlen := hview.len
    revert hlen
    decide +kernel

end MarketData.Handler
