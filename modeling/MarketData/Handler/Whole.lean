import MarketData.Handler.Adoption

/-!
# `Handler/Whole.lean` — no sequence is forgotten

How far the books are meant to reach is the frontier while the handler is live, and the start of
the hole while it waits for one to be filled (`reach`). `Whole` says they do reach that far: as
long as no recovery has been given up and no snapshot cycle has emptied the books, every
sequence below that point is reflected. Every step keeps it but one: an answer that starts above
the hole awaited, or that completes the recovery while the frontier has run past everything the
answer and the held traffic carry. That happens when a gap declared in the meantime has its
datagrams still in the reorder window, where `held_discontinuity` does not look.

## When an answer is taken for complete

`Completing` is the code's own test, on the state before and the answer: the coverage reaches the
start of the range and the held traffic behind it has no hole (`applyReplay_eq_true_iff` says that
`apply_replay` answers `true` just then). `Supplied` is what would make the answer right, that every
sequence from the hole up to the frontier is in the answer or held. **The first does not imply the
second**, and `AnswerFits` asks for the second where the first holds.

## What whole books are not

A settled handler's books reflect every sequence below `reach`, which does not exclude that some are
reflected twice; that is `Handler/Once.lean`. Nor is anything said while a snapshot cycle is under
way: its start empties the books, and they are `Settled` again when it ends.
-/

set_option autoImplicit false

namespace MarketData.Handler

open MarketData.Wire MarketData.Book MarketData.Run MarketData.Tiling

variable {B : Type} {S : Publication} {maxBytes : Nat}

/-- How far the books are meant to reach, exclusive. -/
def reach (h : FeedHandler B) : Nat :=
  match h.recovery.state with
  | .idle => h.arb.nextExpected
  | .awaitingSnapshot g => g
  | .reconciling n => n

/-- Nothing has been given up since the books were last whole, and they have not been emptied. -/
structure Settled (h : FeedHandler B) : Prop where
  running : h.ended = false
  intact : h.ledger.torn = false
  kept : h.ledger.forsaken = false

/-- The books of a settled handler reflect everything they are meant to reach. -/
def Whole (h : FeedHandler B) : Prop := Settled h → h.ledger.Below (reach h)

theorem below_one (l : Ledger) : l.Below 1 := fun _ hs hlt => absurd hlt (Nat.not_lt.mpr hs)

/-- Messages on top of the books unsettle nothing. -/
theorem Settled.of_add {h h' : FeedHandler B} (hset : Settled h') {seqs : List Nat}
    (hledger : h'.ledger = h.ledger.add seqs) (hended : h'.ended = h.ended) : Settled h :=
  ⟨hended ▸ hset.running, (congrArg Ledger.torn hledger).symm.trans hset.intact,
    (congrArg Ledger.forsaken hledger).symm.trans hset.kept⟩

theorem reach_idle {h : FeedHandler B} (hidle : h.recovery.state = .idle) :
    reach h = h.arb.nextExpected := by
  simp [reach, hidle]

theorem reach_awaiting {h : FeedHandler B} {g : Nat}
    (hg : h.recovery.state = .awaitingSnapshot g) : reach h = g := by
  simp [reach, hg]

namespace Whole

variable {h h' : FeedHandler B}

theorem of_idle (hidle : h.recovery.state = .idle)
    (hbelow : Settled h → h.ledger.Below h.arb.nextExpected) : Whole h :=
  fun hset => (reach_idle hidle).symm ▸ hbelow hset

theorem of_awaiting {g : Nat} (hg : h.recovery.state = .awaitingSnapshot g)
    (hbelow : Settled h → h.ledger.Below g) : Whole h :=
  fun hset => (reach_awaiting hg).symm ▸ hbelow hset

/-- A step that adds nothing to the books and does not move the point they are to reach. -/
theorem of_same (hw : Whole h) (hsettled : Settled h' → Settled h)
    (hledger : h'.ledger.base = h.ledger.base ∧ h'.ledger.seqs = h.ledger.seqs)
    (hreach : reach h' = reach h) : Whole h' := by
  intro hset s hs hlt
  have hold := hw (hsettled hset) s hs (hreach ▸ hlt)
  unfold Ledger.Reflects at hold ⊢
  rw [hledger.1, hledger.2]
  exact hold

theorem overflowed (hover : FeedHandler.Overflowed h h') : Whole h' := by
  cases hover with
  | rearmed => exact fun _ => below_one _
  | ended => exact fun hset => nomatch hset.running
  | forsaken =>
    intro hset
    have hno := hset.kept
    simp [FeedHandler.ledger, FeedHandler.touch, Ledger.touch] at hno

/-- Beginning a recovery at the frontier does not move the point the books are to reach. -/
theorem begin (hw : Whole h) (a : Arbitrator) :
    Whole { h with arb := a, recovery := h.recovery.begin h.arb.nextExpected } := by
  refine hw.of_same (fun hset => ⟨hset.running, hset.intact, hset.kept⟩) ⟨rfl, rfl⟩ ?_
  unfold reach RecoveryBuffer.begin RecoveryBuffer.isRecovering
  cases hstate : h.recovery.state <;> simp [hstate]

theorem ledger_joinStream (h : FeedHandler B) (first : Nat) :
    (h.joinStream first).ledger = h.ledger := by
  unfold FeedHandler.joinStream
  split <;> rfl

theorem ended_joinStream (h : FeedHandler B) (first : Nat) :
    (h.joinStream first).ended = h.ended := by
  unfold FeedHandler.joinStream
  split <;> rfl

theorem settled_joinStream {first : Nat} (hset : Settled (h.joinStream first)) : Settled h := by
  obtain ⟨hrun, hintact, hkept⟩ := hset
  rw [ledger_joinStream] at hintact hkept
  rw [ended_joinStream] at hrun
  exact ⟨hrun, hintact, hkept⟩

/-- The books of a handler that is about to take its next datagram reach up to it, or, if the
datagram makes a mid-stream join, everything is the hole. -/
theorem joined (hw : Whole h) (hs : Sourced S maxBytes h) {first : Nat}
    (hfirst : h.startedStream = true → first = h.arb.nextExpected)
    (hset : Settled (h.joinStream first)) :
    ((h.joinStream first).recovery.state = .idle → h.ledger.Below first) ∧
      ∀ g, (h.joinStream first).recovery.state = .awaitingSnapshot g → h.ledger.Below g := by
  have hold := hw (settled_joinStream hset)
  by_cases hst : h.startedStream = true
  · have hsame : h.joinStream first = h := by
      rw [FeedHandler.joinStream, if_pos hst]
    rw [hsame]
    refine ⟨fun hidle => ?_, fun g hg => ?_⟩
    · rw [reach_idle hidle] at hold
      exact hfirst hst ▸ hold
    · exact reach_awaiting hg ▸ hold
  · have hidle := (hs.unstarted (by simpa using hst)).2.1
    have hrec : (h.joinStream first).recovery =
        if first ≠ 1 then h.recovery.begin 1 else h.recovery := by
      rw [FeedHandler.joinStream, if_neg hst]
    have hbegin : (h.recovery.begin 1).state = .awaitingSnapshot 1 := by
      simp [RecoveryBuffer.begin, RecoveryBuffer.isRecovering, hidle]
    rw [hrec]
    split
    · rw [hbegin]
      refine ⟨(fun hno => by cases hno), fun g hg => ?_⟩
      cases hg
      exact below_one _
    · rename_i hone
      refine ⟨fun _ => ?_, fun g hg => ?_⟩
      · rw [show first = 1 by simpa using hone]
        exact below_one _
      · rw [hidle] at hg
        cases hg

variable [OrderBook B]

theorem admitted (hw : Whole h) (hs : Sourced S maxBytes h) {a : Arbitrator} {d : Delivery}
    (hadm : FeedHandler.Admitted S h a d h') : Whole h' := by
  cases hadm with
  | same hst hn =>
    refine hw.of_same (fun hset => ⟨hset.running, hset.intact, hset.kept⟩) ⟨rfl, rfl⟩ ?_
    unfold reach
    rw [hn]
  | gap hst => exact hw.begin a
  | applied hfirst hidle hn =>
    refine of_idle hidle fun hset => ?_
    have hledger : ∀ g, ((h.joinStream d.firstSequence).consumer.applyAll S g
        (List.range' d.firstSequence d.count)).ledger =
          h.ledger.add (List.range' d.firstSequence d.count) := by
      intro g
      rw [Consumer.ledger_applyAll, ← FeedHandler.ledger, ledger_joinStream]
    have hset' : Settled (h.joinStream d.firstSequence) :=
      hset.of_add ((hledger _).trans (by rw [ledger_joinStream])) rfl
    show (Consumer.applyAll S _ _ _).ledger.Below a.nextExpected
    rw [hledger, hn]
    exact ((hw.joined hs hfirst hset').1 hidle).add fun s hle hlt =>
      List.mem_range'_1.mpr ⟨hle, hlt⟩
  | held hfirst hrec hn =>
    refine of_awaiting hrec fun hset => ?_
    have hset' : Settled (h.joinStream d.firstSequence) := ⟨hset.running, hset.intact, hset.kept⟩
    show (h.joinStream d.firstSequence).ledger.Below _
    rw [ledger_joinStream]
    exact (hw.joined hs hfirst hset').2 _ hrec
  | overflowed hfirst hrec hn hover => exact overflowed hover

theorem drain (hw : Whole h) (hs : Sourced S maxBytes h) : Whole h.drain := by
  unfold FeedHandler.drain
  split
  · rename_i hrec
    obtain ⟨g, hg⟩ := (isRecovering_iff hs).mp hrec
    have hstow := FeedHandler.drainIntoRecovery_stowed hs
    generalize h.drainIntoRecovery = stowed at hstow
    cases hstow with
    | all =>
      refine of_awaiting hg fun hset => ?_
      have hold := hw ⟨hset.running, hset.intact, hset.kept⟩
      rw [reach_awaiting hg] at hold
      exact hold
    | overflowed hsplit n hover => exact overflowed hover
  · rename_i hrec
    have hidle := isRecovering_eq_false.mp (by simpa using hrec)
    rw [FeedHandler.drainIntoBooks_eq hs]
    refine of_idle hidle fun hset => ?_
    have hledger := Consumer.ledger_applyAll (S := S) h.consumer h.gapped
      (List.range' h.arb.nextExpected (h.arb.drainReady.2.nextExpected - h.arb.nextExpected))
    have hbelow := hw (hset.of_add hledger rfl)
    rw [reach_idle hidle] at hbelow
    show (Consumer.applyAll S _ _ _).ledger.Below h.arb.drainReady.2.nextExpected
    rw [hledger]
    exact Ledger.Below.add hbelow fun s hle hlt => List.mem_range'_1.mpr ⟨hle, by omega⟩

/-- A fragment that is not the end of a cycle moves nothing the books reflect, unless it empties
them. -/
theorem fragment (hw : Whole h) (d : Snapshot) {f : HandlerStats → HandlerStats} {b : Bool} :
    Whole { (h.applyFragment d).count f with inCycle := b } := by
  by_cases hstart : d.cycleStart = true
  · intro hset
    have hno := hset.intact
    simp [FeedHandler.ledger, FeedHandler.count, FeedHandler.applyFragment, hstart, Consumer.ledger,
      Consumer.count, Consumer.touch, Ledger.touch] at hno
  · have hledger : ({ (h.applyFragment d).count f with inCycle := b } : FeedHandler B).ledger =
        h.ledger.touch (.fragment d) := by
      simp [FeedHandler.ledger, FeedHandler.count, FeedHandler.applyFragment, hstart,
        Consumer.ledger, Consumer.count, Consumer.touch]
    refine hw.of_same (fun hset => ?_) (by rw [hledger]; exact ⟨rfl, rfl⟩) rfl
    obtain ⟨hrun, hintact, hkept⟩ := hset
    rw [hledger] at hintact hkept
    exact ⟨hrun, hintact, hkept⟩

theorem taken (hw : Whole h) {d : Snapshot} (htaken : FeedHandler.Taken S h d h') : Whole h' := by
  cases htaken with
  | discarded =>
    exact hw.of_same (fun hset => ⟨hset.running, hset.intact, hset.kept⟩) ⟨rfl, rfl⟩ rfl
  | failed => exact hw.fragment d
  | applied => exact hw.fragment d (f := id)
  | @reopened drain stop huse hin hok hend hdrain hrest =>
    refine of_awaiting (g := stop) rfl fun _ s hs hlt => ?_
    show (Consumer.applyAll S _ _ _).ledger.Reflects s
    rw [Consumer.ledger_applyAll, Ledger.reflects_add, Consumer.ledger_touch]
    by_cases hle : s ≤ d.lastSequence.toNat
    · exact .inl (.inl ⟨hs, hle⟩)
    · exact .inr (List.mem_range'_1.mpr (by omega))
  | completed huse hin hok hend hdrain hrest =>
    refine of_idle rfl fun _ s hs hlt => ?_
    show (Consumer.touch (Consumer.count (Consumer.applyAll S _ _ _) _) _).ledger.Reflects s
    rw [Consumer.ledger_touch, Consumer.ledger_count, Consumer.ledger_applyAll,
      Consumer.ledger_count, Consumer.ledger_touch]
    have hlt' : s < d.lastSequence.toNat + 1 := hlt
    exact .inl ⟨hs, Nat.le_of_lt_succ hlt'⟩

/-- Every sequence from the hole on up to the frontier is in the answer, within the range asked
for, or in the held traffic. -/
def Supplied (h : FeedHandler B) (r : RangeRequest) (ds : List Buf) (g : Nat) : Prop :=
  ∀ s, g ≤ s → s < h.arb.nextExpected →
    (∃ d ∈ h.recovery.held, Covers Delivery.seg s d) ∨
      (s ≤ r.through ∧ ∃ d ∈ ds, Covers span s d)

omit [OrderBook B] in
theorem replayed (hw : Whole h) (hs : Sourced S maxBytes h) {g : Nat}
    (hg : h.recovery.state = .awaitingSnapshot g) {r : RangeRequest} {ds : List Buf}
    (hds : AnswerOf S maxBytes ds) (hfrom : r.fromSeq ≤ g) {answer : Bool × FeedHandler B}
    (hsupplied : answer.1 = true → Supplied h r ds g)
    [OrderBook B] (hrep : FeedHandler.Replayed S h r ds answer) : Whole answer.2 := by
  have hanswered : (h.answeredBy S r ds).ledger = h.ledger.add (answerSeqs r ds) :=
    Consumer.ledger_applyAll _ _ _
  have hcovered : ∀ {s}, 1 ≤ s → g ≤ s → s ≤ (FeedHandler.coverage r ds).through →
      s ∈ answerSeqs r ds := fun hs hle hcov =>
    mem_answerSeqs_of_covered hds (Nat.le_trans hfrom hle) hs hcov
  cases hrep with
  | uncovered hcov =>
    refine of_awaiting hg fun hset => ?_
    have hbelow := hw (hset.of_add hanswered rfl)
    rw [reach_awaiting hg] at hbelow
    show (h.answeredBy S r ds).ledger.Below g
    rw [hanswered]
    exact Ledger.Below.add hbelow fun s hle hlt => absurd hlt (Nat.not_lt.mpr hle)
  | @reopened drain stop hcov hdrain hrest =>
    refine of_awaiting (g := stop) rfl fun hset => ?_
    have hledger : (Consumer.count (Consumer.applyAll S false (h.answeredBy S r ds)
        (List.range' ((FeedHandler.coverage r ds).through + 1)
          (stop - ((FeedHandler.coverage r ds).through + 1)))) (.unverified drain.unverified)).ledger =
        h.ledger.add (answerSeqs r ds ++ List.range' ((FeedHandler.coverage r ds).through + 1)
          (stop - ((FeedHandler.coverage r ds).through + 1))) := by
      rw [Consumer.ledger_count, Consumer.ledger_applyAll, hanswered, Ledger.add_add]
    have hbelow := hw (hset.of_add hledger rfl)
    rw [reach_awaiting hg] at hbelow
    show (Consumer.count _ _).ledger.Below stop
    rw [hledger]
    intro s hs hlt
    rw [Ledger.reflects_add]
    by_cases hlow : s < g
    · exact .inl (hbelow s hs hlow)
    · right
      by_cases hle : s ≤ (FeedHandler.coverage r ds).through
      · exact List.mem_append_left _ (hcovered hs (Nat.le_of_not_lt hlow) hle)
      · exact List.mem_append_right _ (List.mem_range'_1.mpr (by omega))
  | completed hcov hdrain hrest =>
    refine of_idle rfl fun hset => ?_
    have hledger : (Consumer.touch (Consumer.count (Consumer.applyAll S false (h.answeredBy S r ds)
        (heldSeqs ((FeedHandler.coverage r ds).through + 1) h.recovery.held)) .recovered)
          .completed).ledger = h.ledger.add (answerSeqs r ds ++
            heldSeqs ((FeedHandler.coverage r ds).through + 1) h.recovery.held) := by
      rw [Consumer.ledger_touch, Consumer.ledger_count, Consumer.ledger_applyAll, hanswered,
        Ledger.add_add]
      rfl
    have hbelow := hw (hset.of_add hledger rfl)
    rw [reach_awaiting hg] at hbelow
    show (Consumer.touch _ _).ledger.Below h.arb.clearGapped.nextExpected
    rw [hledger, Arbitrator.nextExpected_clearGapped]
    intro s hs' hlt
    rw [Ledger.reflects_add]
    by_cases hlow : s < g
    · exact .inl (hbelow s hs' hlow)
    · right
      have hge := Nat.le_of_not_lt hlow
      by_cases hle : s ≤ (FeedHandler.coverage r ds).through
      · exact List.mem_append_left _ (hcovered hs' hge hle)
      rcases hsupplied rfl s hge hlt with hheld | ⟨hthrough, hanswer⟩
      · exact List.mem_append_right _ ((mem_heldSeqs hs.held).mpr ⟨by omega, hheld⟩)
      · exact List.mem_append_left _
          (mem_answerSeqs.mpr ⟨⟨Nat.le_trans hfrom hge, hthrough⟩, hanswer⟩)

theorem drainQuiet (hw : Whole h) (hs : Sourced S maxBytes h) : Whole h.drainQuiet := by
  unfold FeedHandler.drainQuiet
  split
  · exact hw
  · rename_i hrec
    have hdrain := hw.drain hs
    rw [FeedHandler.drain, if_neg hrec] at hdrain
    exact hdrain

omit [OrderBook B] in
theorem declareStalled (hw : Whole h) (hs : Sourced S maxBytes h) (g : Bool) :
    Whole (h.declareStalled g) := by
  obtain ⟨hstalled, -⟩ := Arbitrator.declareGapIfStalled_stalled hs.arb
  unfold FeedHandler.declareStalled
  split
  · generalize h.arb.declareGapIfStalled = stalled at hstalled
    obtain ⟨gap, a⟩ := stalled
    cases hstalled with
    | idle hno => exact hw
    | gap hsome hne hn hh hm hk => exact hw.begin a
  · exact hw

omit [OrderBook B] in
theorem checkDeadline (hw : Whole h) (d : Bool) : Whole (h.checkDeadline d) := by
  unfold FeedHandler.checkDeadline
  split
  · intro hset
    have hno := hset.kept
    simp [FeedHandler.ledger, FeedHandler.touch, Ledger.touch] at hno
  · exact hw

end Whole

variable [OrderBook B]

/-- What `apply_replay` takes for a complete recovery: the answer reaches the start of the range, and
what is held behind it has no hole. -/
def FeedHandler.Completing (h : FeedHandler B) (r : RangeRequest) (ds : List Buf) : Prop :=
  r.fromSeq ≤ (coverage r ds).through ∧
    h.recovery.heldDiscontinuity ((coverage r ds).through + 1) = none

theorem FeedHandler.applyReplay_eq_true_iff {h : FeedHandler B} {g : Nat}
    (hg : h.recovery.state = .awaitingSnapshot g) (r : RangeRequest) (ds : List Buf) :
    (h.applyReplay r ds).1 = true ↔ h.Completing r ds := by
  have hrec : h.recovery.isRecovering = true := by
    rw [RecoveryBuffer.isRecovering, hg]
    rfl
  unfold applyReplay Completing
  rw [if_pos hrec]
  dsimp only
  split
  · rename_i hcov
    exact iff_of_false Bool.false_ne_true fun h => absurd h.1 (Nat.not_le_of_lt hcov)
  rename_i hcov
  split
  · rename_i hhole
    rw [hhole]
    exact iff_of_false Bool.false_ne_true fun h => by cases h.2
  · rename_i hhole
    refine iff_of_true ?_ ⟨Nat.le_of_not_lt hcov, hhole⟩
    unfold replayAndComplete
    simp only [RecoveryBuffer.adoptReplay, hg]

/-- The condition on an answer that meets an open recovery: it starts no later than the hole
awaited, and where it will be taken for complete, the books were whole below the hole and everything
from there up to the frontier is in the answer or held. -/
def AnswerFits (h : FeedHandler B) (e : Event) : Prop :=
  ∀ ds r g, e = .answer ds → h.pendingReplay = some r → h.recovery.state = .awaitingSnapshot g →
    r.fromSeq ≤ g ∧ (h.Completing r ds →
      h.ledger.torn = false ∧ h.ledger.forsaken = false ∧ Whole.Supplied h r ds g)

/-- **Every step forgets nothing.** -/
theorem Whole.step {h : FeedHandler B} (hw : Whole h) (hs : Sourced S maxBytes h) {e : Event}
    (he : e.Of S maxBytes) (hfits : AnswerFits h e) : Whole (h.step e) := by
  unfold FeedHandler.step
  split
  · exact hw
  cases e with
  | datagram channel bytes =>
    show Whole (h.receive channel bytes)
    unfold FeedHandler.receive
    rcases he with ⟨first, count, hd⟩ | ⟨d, hfrag, hbound⟩
    · rw [if_neg (by simp [hd.incremental])]
      obtain ⟨hw', hst, hwin⟩ := hs.accept_window channel hd
      have hadm := FeedHandler.accept_admitted hs channel (d := ⟨first, count, bytes⟩) hd
      have hon := hs.admitted hw' hst hwin hd hadm
      have hwhole := hw.admitted hs hadm
      dsimp only
      split
      · exact hwhole
      · exact hwhole.drain hon.1
    · rw [if_pos hfrag.snapshot]
      by_cases hrec : h.recovery.isRecovering = true
      · exact hw.taken (FeedHandler.handleSnapshot_taken hs hrec hfrag)
      · rw [FeedHandler.handleSnapshot, if_neg hrec]
        exact hw
  | answer datagrams =>
    show Whole (h.answered datagrams)
    unfold FeedHandler.answered
    split
    · exact hw
    · rename_i request hpending
      have hreplayed : Whole (h.applyReplay request datagrams).2 := by
        by_cases hrec : h.recovery.isRecovering = true
        · obtain ⟨g, hg⟩ := (isRecovering_iff hs).mp hrec
          obtain ⟨hfrom, hcomplete⟩ := hfits datagrams request g rfl hpending hg
          have hdone := FeedHandler.applyReplay_eq_true_iff hg request datagrams
          exact hw.replayed hs hg he hfrom (fun htrue => (hcomplete (hdone.mp htrue)).2.2)
            (FeedHandler.applyReplay_replayed hs hg request he)
        · rw [FeedHandler.applyReplay, if_neg hrec]
          exact hw
      exact hreplayed.of_same (fun hset => ⟨hset.running, hset.intact, hset.kept⟩) ⟨rfl, rfl⟩ rfl
  | refused =>
    exact hw.of_same (fun hset => ⟨hset.running, hset.intact, hset.kept⟩) ⟨rfl, rfl⟩ rfl
  | request =>
    show Whole h.request
    unfold FeedHandler.request
    split
    · dsimp only
      split
      · exact hw.of_same (fun hset => ⟨hset.running, hset.intact, hset.kept⟩) ⟨rfl, rfl⟩ rfl
      · exact hw
    · exact hw
  | quiet gapTimeout deadline =>
    exact ((hw.drainQuiet hs).declareStalled hs.drainQuiet gapTimeout).checkDeadline deadline

/-- The step completes a recovery with a replayed range. -/
def CompletesByReplay (h : FeedHandler B) (e : Event) : Prop :=
  ∃ ds, e = .answer ds ∧ (h.step e).recovery.completed = h.recovery.completed + 1

/-- A step that completes a recovery with a replay is an answer `apply_replay` calls complete. -/
theorem CompletesByReplay.answer {h : FeedHandler B} (hs : Sourced S maxBytes h) {e : Event}
    (he : e.Of S maxBytes) (hc : CompletesByReplay h e) :
    ∃ ds r g, e = .answer ds ∧ h.pendingReplay = some r ∧ h.ended = false ∧
      h.recovery.state = .awaitingSnapshot g ∧ (h.applyReplay r ds).1 = true ∧
      h.step e = { (h.applyReplay r ds).2 with pendingReplay := none } := by
  obtain ⟨ds, rfl, hcompleted⟩ := hc
  have hended : h.ended = false := by
    by_contra hno
    rw [FeedHandler.step, if_pos (by simpa using hno)] at hcompleted
    omega
  have hstep : h.step (.answer ds) = h.answered ds := by
    rw [FeedHandler.step, if_neg (by simp [hended])]
  cases hpending : h.pendingReplay with
  | none =>
    rw [hstep, FeedHandler.answered, hpending] at hcompleted
    exact absurd hcompleted (Nat.ne_of_lt (Nat.lt_succ_self _))
  | some r =>
    have hanswered : h.answered ds = { (h.applyReplay r ds).2 with pendingReplay := none } := by
      rw [FeedHandler.answered, hpending]
    rw [hstep, hanswered] at hcompleted
    by_cases hrec : h.recovery.isRecovering = true
    · obtain ⟨g, hg⟩ := (isRecovering_iff hs).mp hrec
      refine ⟨ds, r, g, rfl, rfl, hended, hg, ?_, hstep.trans hanswered⟩
      have hrep := FeedHandler.applyReplay_replayed hs hg r he
      generalize h.applyReplay r ds = answer at hrep hcompleted
      cases hrep with
      | uncovered => exact absurd hcompleted (Nat.ne_of_lt (Nat.lt_succ_self _))
      | reopened => exact absurd hcompleted (Nat.ne_of_lt (Nat.lt_succ_self _))
      | completed => rfl
    · rw [FeedHandler.applyReplay, if_neg hrec] at hcompleted
      exact absurd hcompleted (Nat.ne_of_lt (Nat.lt_succ_self _))

/-- An answer that fits leaves the handler settled when it completes the recovery. -/
theorem CompletesByReplay.settled {h : FeedHandler B} (hs : Sourced S maxBytes h) {e : Event}
    (he : e.Of S maxBytes) (hfit : AnswerFits h e) (hc : CompletesByReplay h e) :
    Settled (h.step e) ∧ (h.step e).recovery.state = .idle := by
  obtain ⟨ds, r, g, rfl, hpending, hended, hg, htrue, hstep⟩ := hc.answer hs he
  obtain ⟨hintact, hkept, -⟩ := (hfit ds r g rfl hpending hg).2
    ((FeedHandler.applyReplay_eq_true_iff hg r ds).mp htrue)
  have hrep := FeedHandler.applyReplay_replayed hs hg r he
  rw [hstep]
  generalize h.applyReplay r ds = answer at hrep htrue
  cases hrep with
  | uncovered => cases htrue
  | reopened => cases htrue
  | completed hcov hdrain hrest =>
    have hledger : ∀ c : Consumer B, c.ledger.torn = false → c.ledger.forsaken = false →
        ∀ seqs, (((c.applyAll S false seqs).count .recovered).touch .completed).ledger.torn = false ∧
          (((c.applyAll S false seqs).count .recovered).touch .completed).ledger.forsaken = false := by
      intro c hc hc' seqs
      rw [Consumer.ledger_touch, Consumer.ledger_count, Consumer.ledger_applyAll]
      exact ⟨hc, hc'⟩
    have hanswered : (h.answeredBy S r ds).ledger = h.ledger.add (answerSeqs r ds) :=
      Consumer.ledger_applyAll _ _ _
    obtain ⟨ht, hf⟩ := hledger (h.answeredBy S r ds) (by rw [hanswered]; exact hintact)
      (by rw [hanswered]; exact hkept)
      (heldSeqs ((FeedHandler.coverage r ds).through + 1) h.recovery.held)
    exact ⟨⟨hended, ht, hf⟩, rfl⟩

omit [OrderBook B] in
theorem whole_new (books : BookSet B) (w k m : Nat) : Whole (FeedHandler.new books w k m) :=
  fun _ _ _ hlt => absurd hlt (Nat.not_lt_zero _)

/-- **A recovery completed by a replay leaves no hole**: in a run whose answers all fit the
recovery they meet, when one completes it and the feed is live again, every sequence below the
frontier is in the books. -/
theorem replay_completion_leaves_no_hole (S : Publication) (books : BookSet B) (w k m : Nat)
    (es : List Event) (hes : ∀ e ∈ es, e.Of S m)
    (hfits : Along FeedHandler.step AnswerFits (.new books w k m) es) :
    Along FeedHandler.step (fun h e => CompletesByReplay h e → (h.step e).arb.state = .live →
      ∀ s, 1 ≤ s → s < (h.step e).arb.nextExpected → (h.step e).ledger.Reflects s)
      (.new books w k m) es := by
  have hof : Along FeedHandler.step (fun _ e => e.Of S m) (.new books w k m) es :=
    along_of_forall fun _ => hes
  refine (hof.and hfits).of_invariant (fun h => Sourced S m h ∧ Whole h)
    (fun h e hinv hc => ⟨hinv.1.step hc.1, hinv.2.step hinv.1 hc.1 hc.2⟩) ?_
    ⟨sourced_new S books w k m, whole_new books w k m⟩
  rintro h e ⟨hs, hw⟩ ⟨he, hfit⟩ hcompletes -
  obtain ⟨hsettled, hidle⟩ := hcompletes.settled hs he hfit
  have hbelow := hw.step hs he hfit hsettled
  rw [reach_idle hidle] at hbelow
  exact hbelow

/-- Sequence 2 is lost on both arms; 3 and 4 are held, and the answer brings 2 to 4. -/
def replayedGap : List Event :=
  [.datagram 0 (heartbeatAt 1), .datagram 0 (heartbeatAt 3), .datagram 0 (heartbeatAt 4), .request,
    .answer [heartbeatAt 2, heartbeatAt 3, heartbeatAt 4]]

theorem answer_of_heartbeats {ss : List Nat} (hss : ∀ s ∈ ss, 1 ≤ s ∧ s + 1 < 2 ^ 64) :
    (Event.answer (ss.map heartbeatAt)).Of heartbeats 96 := by
  intro d hd
  obtain ⟨s, hs, rfl⟩ := List.mem_map.mp hd
  exact ⟨s, 1, copy_heartbeatAt (hss s hs).1 (hss s hs).2 (by decide)⟩

theorem replay_completion_after_one_gap :
    let h := (FeedHandler.new Books.new 1 4 96).run replayedGap
    h.recovery.completed = 1 ∧ h.arb.state = .live ∧ h.arb.nextExpected = 5 ∧
      ∀ s, 1 ≤ s → s < 5 → h.ledger.Reflects s := by
  have hes : ∀ e ∈ replayedGap, e.Of heartbeats 96 := by
    intro e he
    simp only [replayedGap, List.mem_cons, List.not_mem_nil, or_false] at he
    rcases he with rfl | rfl | rfl | rfl | rfl
    · exact of_heartbeatAt 0 (by decide) (by decide)
    · exact of_heartbeatAt 0 (by decide) (by decide)
    · exact of_heartbeatAt 0 (by decide) (by decide)
    · trivial
    · exact @answer_of_heartbeats [2, 3, 4] (by decide)
  have hfits : Along FeedHandler.step AnswerFits (.new Books.new 1 4 96) replayedGap := by
    refine ⟨fun _ _ _ h => (nomatch h), fun _ _ _ h => (nomatch h), fun _ _ _ h => (nomatch h),
      fun _ _ _ h => (nomatch h), ?_, trivial⟩
    intro ds r g hds hr hg
    cases hds
    have hpending : r = ⟨2, 4⟩ :=
      Option.some.inj (hr.symm.trans (by decide +kernel))
    have hhole : g = 2 :=
      Recovery.awaitingSnapshot.inj (hg.symm.trans (by decide +kernel))
    subst hpending hhole
    refine ⟨Nat.le_refl 2, fun _ => ⟨by decide +kernel, by decide +kernel, ?_⟩⟩
    intro s hge hlt
    have hle : s ≤ 4 := Nat.le_of_lt_succ (Nat.lt_of_lt_of_eq hlt (by decide +kernel))
    refine .inr ⟨hle, ?_⟩
    obtain rfl | rfl | rfl : s = 2 ∨ s = 3 ∨ s = 4 := by omega
    · exact ⟨heartbeatAt 2, by simp, by decide +kernel⟩
    · exact ⟨heartbeatAt 3, by simp, by decide +kernel⟩
    · exact ⟨heartbeatAt 4, by simp, by decide +kernel⟩
  obtain ⟨-, -, -, -, hlast, -⟩ :=
    replay_completion_leaves_no_hole heartbeats Books.new 1 4 96 replayedGap hes hfits
  refine ⟨by decide +kernel, by decide +kernel, by decide +kernel, ?_⟩
  intro s hpos hlt
  exact hlast ⟨_, rfl, by decide +kernel⟩ (by decide +kernel) s hpos
    (Nat.lt_of_lt_of_eq hlt (by decide +kernel))

/-- As before, but 5 is lost too: 6 waits in the reorder window when a quiet pass gives up on 5,
and the answer for 2 to 4 completes the recovery. -/
def forgottenGap : List Event :=
  [.datagram 0 (heartbeatAt 1), .datagram 0 (heartbeatAt 3), .datagram 0 (heartbeatAt 4), .request,
    .datagram 0 (heartbeatAt 6), .quiet true false,
    .answer [heartbeatAt 2, heartbeatAt 3, heartbeatAt 4]]

theorem replay_completion_forgets_a_gap :
    let h := (FeedHandler.new Books.new 1 4 96).run forgottenGap
    h.recovery.completed = 1 ∧ h.arb.state = .live ∧ h.arb.nextExpected = 6 ∧
      ¬ h.ledger.Reflects 5 := by
  refine ⟨by decide +kernel, by decide +kernel, by decide +kernel, by decide +kernel⟩

end MarketData.Handler
