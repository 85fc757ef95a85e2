import MarketData.Book.Received
import MarketData.Handler.Adoption
import MarketData.Handler.Whole
import MarketData.Matching.RoundTrip

/-!
# `Handler/Contents.lean` — what is in the books

Most of what is said about the handler is said of sequences: which messages its books reflect, and
how often. This module is about the books themselves. The publisher's books as of a sequence are the
messages up to it on empty books (`Publication.booksAt`), and what the handler holds is compared with
them, symbol by symbol.

## Messages go on top, fragments do not

There are two kinds of steps. All but one put messages of the stream on top of whatever is there
(`Grown`, with `step_changes` to say that nothing else happens); the exception is a snapshot
fragment that is followed, which may empty the books first. So what the books hold is determined by
what was there at the last adoption and the messages since, and **all the uncertainty is in the
cycle that was adopted**. What becomes of a cycle is in `Handler/Following.lean`.

## What stands for a cycle

`Publication.Cycle` is a list of fragments with the flags in their places and each symbol's orders
as the publisher's books have them. How many orders go into a fragment is left open, since it depends
on the publisher's datagram size and on nothing here. That `publish_snapshot` sends such a list is
`cycle_cycleFragments`, for any books that answer like those of the stream; that the publisher's own
books do is the subject of `Matching/Reproduction.lean`.
-/

set_option autoImplicit false

namespace MarketData.Handler

open MarketData.Wire MarketData.Book MarketData.Run MarketData.Book.Arrivals
open MarketData.Matching (snapshotOrdersOf_eq)
open MarketData.Matching.FeedPublisher (snapshotOrdersOf)

variable {B : Type} [OrderBook B] {S : Publication} {maxBytes : Nat}

/-! ## The publisher's books -/

namespace Publication

/-- The messages at these sequences, on top of the books. -/
def onTop (S : Publication) (books : BookSet B) (seqs : List Nat) : BookSet B :=
  seqs.foldl (fun books s => (applyMessage books (S.message s)).2) books

/-- The publisher's books as of a sequence. -/
def booksAt (S : Publication) (n : Nat) : Books := S.onTop Books.new (List.range' 1 n)

/-- The fragments of a snapshot cycle as of a sequence. -/
def Cycle (S : Publication) (lastSequence : UInt64) (ds : List Snapshot) : Prop :=
  IsCycle lastSequence
    (fun symbolId => snapshotOrdersOf ((S.booksAt lastSequence.toNat).book symbolId)) ds

@[simp] theorem onTop_nil (books : BookSet B) : S.onTop books [] = books := rfl

theorem onTop_append (books : BookSet B) (l m : List Nat) :
    S.onTop books (l ++ m) = S.onTop (S.onTop books l) m := List.foldl_append

theorem fresh_onTop (books : BookSet B) (seqs : List Nat) :
    (S.onTop books seqs).fresh = books.fresh := by
  induction seqs generalizing books with
  | nil => rfl
  | cons s seqs ih =>
    show (S.onTop (applyMessage books (S.message s)).2 seqs).fresh = _
    rw [ih, BookSet.fresh_applyMessage]

theorem twin_onTop {s t : Books} (h : Twin s t) (seqs : List Nat) :
    Twin (S.onTop s seqs) (S.onTop t seqs) := by
  induction seqs generalizing s t with
  | nil => exact h
  | cons n seqs ih => exact ih (h.applyMessage (S.message n))

theorem twin_booksAt (S : Publication) (n : Nat) : Twin (S.booksAt n) (S.booksAt n) :=
  twin_onTop Twin.new _

theorem fresh_booksAt (S : Publication) (n : Nat) : (S.booksAt n).fresh = ReferenceBook.new :=
  fresh_onTop _ _

theorem booksAt_add (S : Publication) (n k : Nat) :
    S.booksAt (n + k) = S.onTop (S.booksAt n) (List.range' (n + 1) k) := by
  rw [booksAt, booksAt, ← onTop_append, Nat.add_comm n 1, List.range'_append_1]

/-- **What the publisher sends is a cycle**: the fragments of books that answer like those of the
stream, in pieces of any size. -/
theorem cycle_cycleFragments {k : Nat} (hk : 1 ≤ k) {lastSequence : UInt64} {books : Books}
    (hfresh : books.fresh = ReferenceBook.new) (hne : books.toList ≠ [])
    (hview : ∀ symbolId,
      SameView (books.book symbolId) ((S.booksAt lastSequence.toNat).book symbolId)) :
    S.Cycle lastSequence
      (Matching.FeedPublisher.cycleFragments k lastSequence true books.toList) := by
  have hcycle : IsCycle lastSequence (fun symbolId => snapshotOrdersOf (books.book symbolId))
      (Matching.FeedPublisher.cycleFragments k lastSequence true books.toList) :=
    Matching.isCycle_cycleFragments hk hfresh hne
  have htarget : (fun symbolId => snapshotOrdersOf (books.book symbolId)) =
      fun symbolId => snapshotOrdersOf ((S.booksAt lastSequence.toNat).book symbolId) := by
    funext symbolId
    have hside := (hview symbolId).forEachOrder
    show (books.book symbolId).ordersInQueueOrder .bid ++ _ = _
    rw [snapshotOrdersOf]
    exact congrArg₂ (· ++ ·) (hside .bid) (hside .ask)
  rw [htarget] at hcycle
  exact hcycle

end Publication

/-- A book that holds a symbol's orders as a snapshot lists them answers like the publisher's. -/
theorem Publication.sameView_of_holds {H : B → List RestingOrder → Prop} {Fits : B → Op → Prop}
    (law : Book.Keeps H Fits) {n : Nat} {symbolId : UInt16} {b : B}
    (h : H b (snapshotOrdersOf ((S.booksAt n).book symbolId))) :
    SameView b ((S.booksAt n).book symbolId) := by
  obtain ⟨os, hos, -⟩ := S.twin_booksAt n symbolId
  rw [snapshotOrdersOf_eq hos] at h
  exact ((law.shows h).of_inQueueOrder hos.valid).sameView hos.shows

/-- A reference book that does holds the publisher's list. -/
theorem Publication.twin_of_holds {n : Nat} {books : Books}
    (h : ∀ symbolId, Reps (books.book symbolId) (snapshotOrdersOf ((S.booksAt n).book symbolId))) :
    Twin books (S.booksAt n) := by
  intro symbolId
  obtain ⟨os, hos, -⟩ := S.twin_booksAt n symbolId
  have hbook := h symbolId
  rw [snapshotOrdersOf_eq hos] at hbook
  exact ⟨os, hbook.of_inQueueOrder hos.valid, hos⟩

/-! ## Steps that put messages on top -/

@[simp] theorem Consumer.books_applyAll (c : Consumer B) (gapped : Bool) (seqs : List Nat) :
    (c.applyAll S gapped seqs).books = S.onTop c.books seqs := by
  induction seqs generalizing c with
  | nil => rfl
  | cons s seqs ih => exact ih (c.applyNext gapped s (S.message s))

/-- The messages at `seqs` have been put on top of the books, and nothing else was done to them. -/
structure Grown (S : Publication) (h h' : FeedHandler B) (seqs : List Nat) : Prop where
  books : h'.consumer.books = S.onTop h.consumer.books seqs
  seqs : h'.ledger.seqs = h.ledger.seqs ++ seqs
  base : h'.ledger.base = h.ledger.base
  torn : h'.ledger.torn = h.ledger.torn
  fragments : h'.ledger.fragments = h.ledger.fragments
  inCycle : h'.inCycle = h.inCycle

namespace Grown

variable {h h' h'' : FeedHandler B} {seqs more : List Nat}

theorem of_applyAll (g : Bool) (hbooks : h'.consumer.books = (h.consumer.applyAll S g seqs).books)
    (hledger : h'.ledger = h.ledger.add seqs) (hin : h'.inCycle = h.inCycle) :
    Grown S h h' seqs := by
  refine ⟨hbooks.trans (Consumer.books_applyAll _ _ _), ?_, ?_, ?_, ?_, hin⟩ <;> rw [hledger] <;> rfl

theorem of_same (hbooks : h'.consumer.books = h.consumer.books) (hledger : h'.ledger = h.ledger)
    (hin : h'.inCycle = h.inCycle) : Grown S h h' [] :=
  of_applyAll false hbooks (by rw [hledger, Ledger.add_nil]) hin

theorem trans (hone : Grown S h h' seqs) (htwo : Grown S h' h'' more) :
    Grown S h h'' (seqs ++ more) where
  books := by rw [htwo.books, hone.books, Publication.onTop_append]
  seqs := by rw [htwo.seqs, hone.seqs, List.append_assoc]
  base := htwo.base.trans hone.base
  torn := htwo.torn.trans hone.torn
  fragments := htwo.fragments.trans hone.fragments
  inCycle := htwo.inCycle.trans hone.inCycle

/-- Giving a recovery up is noted, and the books stay. -/
theorem of_forsaken (hbooks : h'.consumer.books = h.consumer.books)
    (hledger : h'.ledger = h.ledger.touch .forsaken) (hin : h'.inCycle = h.inCycle) :
    Grown S h h' [] := by
  refine ⟨hbooks, ?_, ?_, ?_, ?_, hin⟩ <;> rw [hledger] <;> simp [Ledger.touch]

theorem overflowed (hover : FeedHandler.Overflowed h h') : Grown S h h' [] := by
  cases hover with
  | rearmed => exact of_same rfl rfl rfl
  | ended => exact of_same rfl rfl rfl
  | forsaken =>
    refine of_forsaken rfl ?_ rfl
    simp [FeedHandler.ledger, FeedHandler.touch, FeedHandler.count]

theorem joined (h : FeedHandler B) (first : Nat) (a : Arbitrator) (r : RecoveryBuffer) :
    Grown S h { h.joinStream first with arb := a, recovery := r } [] := by
  refine of_same ?_ (Whole.ledger_joinStream h first) ?_
  · unfold FeedHandler.joinStream
    split <;> rfl
  · unfold FeedHandler.joinStream
    split <;> rfl

theorem admitted {a : Arbitrator} {d : Delivery} (hadm : FeedHandler.Admitted S h a d h') :
    ∃ seqs, Grown S h h' seqs := by
  cases hadm with
  | same => exact ⟨[], of_same rfl rfl rfl⟩
  | gap => exact ⟨[], of_same rfl rfl rfl⟩
  | applied =>
    have hjoined := joined (S := S) h d.firstSequence a (h.joinStream d.firstSequence).recovery
    refine ⟨_, hjoined.trans (of_applyAll (a.state = .gapped) rfl ?_ rfl)⟩
    show (Consumer.applyAll S _ _ _).ledger = _
    rw [Consumer.ledger_applyAll]
    rfl
  | held => exact ⟨[], joined h d.firstSequence a _⟩
  | overflowed _ _ _ hover =>
    have hjoined := joined (S := S) h d.firstSequence a (h.joinStream d.firstSequence).recovery
    exact ⟨_, hjoined.trans (overflowed hover)⟩

theorem drained (hs : Sourced S maxBytes h) : ∃ seqs, Grown S h h.drain seqs := by
  unfold FeedHandler.drain
  split
  · have hstow := FeedHandler.drainIntoRecovery_stowed hs
    generalize h.drainIntoRecovery = stowed at hstow
    cases hstow with
    | all => exact ⟨[], of_same rfl rfl rfl⟩
    | @overflowed kept lost hsplit n h' hover =>
      have hfull : Grown S h { h.count (.unverified n) with
          arb := h.arb.drainReady.2
          recovery := { h.recovery with held := h.recovery.held ++ kept } } [] :=
        of_same rfl rfl rfl
      exact ⟨_, hfull.trans (overflowed hover)⟩
  · rw [FeedHandler.drainIntoBooks_eq hs]
    refine ⟨_, of_applyAll h.gapped rfl ?_ rfl⟩
    exact Consumer.ledger_applyAll _ _ _

theorem replayed {r : RangeRequest} {ds : List Buf} {answer : Bool × FeedHandler B}
    (hrep : FeedHandler.Replayed S h r ds answer) : ∃ seqs, Grown S h answer.2 seqs := by
  have hanswered : Grown S h { h with consumer := h.answeredBy S r ds } (answerSeqs r ds) :=
    of_applyAll false rfl (Consumer.ledger_applyAll _ _ _) rfl
  cases hrep with
  | uncovered => exact ⟨_, hanswered⟩
  | reopened =>
    refine ⟨_, hanswered.trans (of_applyAll false rfl ?_ rfl)⟩
    show (Consumer.count (Consumer.applyAll S _ _ _) _).ledger = _
    rw [Consumer.ledger_count, Consumer.ledger_applyAll]
    rfl
  | completed =>
    refine ⟨_, hanswered.trans (of_applyAll false rfl ?_ rfl)⟩
    show (Consumer.touch (Consumer.count (Consumer.applyAll S _ _ _) _) _).ledger = _
    rw [Consumer.ledger_touch, Consumer.ledger_count, Consumer.ledger_applyAll]
    rfl

theorem quiet (hs : Sourced S maxBytes h) (gapTimeout deadline : Bool) :
    ∃ seqs, Grown S h (h.onQuiet gapTimeout deadline) seqs := by
  have hdrain : ∃ seqs, Grown S h h.drainQuiet seqs := by
    unfold FeedHandler.drainQuiet
    split
    · exact ⟨[], of_same rfl rfl rfl⟩
    · rename_i hrec
      have hdrained := drained hs
      rw [FeedHandler.drain, if_neg hrec] at hdrained
      exact hdrained
  have hdeclare : ∀ h : FeedHandler B, Grown S h (h.declareStalled gapTimeout) [] := by
    intro h
    unfold FeedHandler.declareStalled
    split
    · split <;> exact of_same rfl rfl rfl
    · exact of_same rfl rfl rfl
  have hdeadline : ∀ h : FeedHandler B, Grown S h (h.checkDeadline deadline) [] := by
    intro h
    unfold FeedHandler.checkDeadline
    split
    · refine of_forsaken rfl ?_ rfl
      simp [FeedHandler.ledger, FeedHandler.touch, FeedHandler.count]
    · exact of_same rfl rfl rfl
  obtain ⟨seqs, hgrown⟩ := hdrain
  exact ⟨_, (hgrown.trans (hdeclare _)).trans (hdeadline _)⟩

end Grown

/-- **Every step** puts messages on top of the books, or takes a snapshot fragment. -/
theorem FeedHandler.step_changes {h : FeedHandler B} (hs : Sourced S maxBytes h) {e : Event}
    (he : e.Of S maxBytes) :
    (∃ seqs, Grown S h (h.step e) seqs) ∨ ∃ channel bytes d, e = .datagram channel bytes ∧
      IsFragment bytes d ∧ Taken S h d (h.step e) := by
  have hnothing : Grown S h h [] := .of_same rfl rfl rfl
  unfold FeedHandler.step
  split
  · exact .inl ⟨_, hnothing⟩
  cases e with
  | datagram channel bytes =>
    rcases he with ⟨first, count, hd⟩ | ⟨d, hfrag, -⟩
    · left
      show ∃ seqs, Grown S h (h.receive channel bytes) seqs
      unfold FeedHandler.receive
      rw [if_neg (by simp [hd.incremental])]
      obtain ⟨hw, hst, hwin⟩ := hs.accept_window channel hd
      have hadm := FeedHandler.accept_admitted hs channel (d := ⟨first, count, bytes⟩) hd
      have hon := (hs.admitted hw hst hwin hd hadm).1
      obtain ⟨seqs, hgrown⟩ := Grown.admitted hadm
      dsimp only
      split
      · exact ⟨seqs, hgrown⟩
      · obtain ⟨more, hmore⟩ := Grown.drained hon
        exact ⟨_, hgrown.trans hmore⟩
    · show (∃ seqs, Grown S h (h.receive channel bytes) seqs) ∨ _
      rw [FeedHandler.receive, if_pos hfrag.snapshot]
      by_cases hrec : h.recovery.isRecovering = true
      · refine .inr ⟨channel, bytes, d, rfl, hfrag, ?_⟩
        show Taken S h d (h.receive channel bytes)
        rw [FeedHandler.receive, if_pos hfrag.snapshot]
        exact FeedHandler.handleSnapshot_taken hs hrec hfrag
      · rw [FeedHandler.handleSnapshot, if_neg hrec]
        exact .inl ⟨_, hnothing⟩
  | answer datagrams =>
    left
    show ∃ seqs, Grown S h (h.answered datagrams) seqs
    unfold FeedHandler.answered
    split
    · exact ⟨_, hnothing⟩
    · rename_i request hpending
      by_cases hrec : h.recovery.isRecovering = true
      · obtain ⟨g, hg⟩ := (isRecovering_iff hs).mp hrec
        obtain ⟨seqs, hgrown⟩ := Grown.replayed (applyReplay_replayed hs hg request he)
        exact ⟨_, hgrown.trans (.of_same rfl rfl rfl)⟩
      · rw [FeedHandler.applyReplay, if_neg hrec]
        exact ⟨_, .of_same rfl rfl rfl⟩
  | refused => exact .inl ⟨[], .of_same rfl rfl rfl⟩
  | request =>
    left
    show ∃ seqs, Grown S h h.request seqs
    unfold FeedHandler.request
    split
    · dsimp only
      split
      · exact ⟨[], .of_same rfl rfl rfl⟩
      · exact ⟨_, hnothing⟩
    · exact ⟨_, hnothing⟩
  | quiet gapTimeout deadline => exact .inl (Grown.quiet hs gapTimeout deadline)

end MarketData.Handler
