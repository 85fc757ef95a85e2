import MarketData.Handler.Once

/-!
# `Handler/Late.lean` — an answer that comes late

A replay request survives the recovery that sent it. `apply_replay` looks whether a recovery is
open before it touches the books, not whether it is the recovery the request was sent for: the
start of the hole awaited is never compared with the start of the range. In a run of orderly
steps an answer only ever adds what the books do not have, and one for another hole changes
nothing; the run at the end shows what an answer for an earlier hole does.

## How an answer gets to be late

The request is sent for a hole; before it comes back a snapshot closes the recovery, traffic goes
on, and a new gap opens another one. The answer then meets an open recovery that is not its own.
Every message of it is in the books already, having come with the snapshot, and is applied over it.

`AddsOnlyNew` says what a harmless answer is without naming the recovery it belongs to: what it adds
is not there yet, each message once, and nothing at all where its range does not start at the hole.
That the second half can be asked in the same breath is due to `Orderly` (`Handler/Once.lean`),
which leaves out answers for another hole *that carry anything of their range*; an empty one passes.

What the promise does not cover is an answer that is late and yet for the same hole. It starts at
the hole awaited, and is then as good as one that is not late.
-/

set_option autoImplicit false

namespace MarketData.Handler

open MarketData.Wire MarketData.Book MarketData.Run

variable {B : Type} [OrderBook B] {S : Publication} {maxBytes : Nat}

/-- The step is an answer to the request outstanding. -/
def Answers (h : FeedHandler B) (e : Event) (r : RangeRequest) : Prop :=
  ∃ ds, e = .answer ds ∧ h.pendingReplay = some r ∧ h.ended = false

/-- An answer adds messages the books do not reflect, each once, and nothing at all if it is not
for the hole awaited. -/
structure AddsOnlyNew (h : FeedHandler B) (e : Event) (r : RangeRequest) : Prop where
  other : h.recovery.gapFrom ≠ some r.fromSeq → h.step e = { h with pendingReplay := none }
  adds : (h.step e).ledger = h.ledger.add (appliedSince h (h.step e))
  nodup : (appliedSince h (h.step e)).Nodup
  fresh : ∀ s ∈ appliedSince h (h.step e), ¬ h.ledger.Reflects s

theorem AddsOnlyNew.of_idle {h : FeedHandler B} {e : Event} {r : RangeRequest}
    (hstep : h.step e = { h with pendingReplay := none }) : AddsOnlyNew h e r := by
  have hledger : (h.step e).ledger = h.ledger.add [] := by
    rw [hstep, Ledger.add_nil]
    rfl
  have hnone := appliedSince_eq hledger
  refine ⟨fun _ => hstep, ?_, ?_, ?_⟩
  · rw [hnone]
    exact hledger
  · rw [hnone]
    exact List.nodup_nil
  · rw [hnone]
    exact fun s hs => nomatch hs

theorem Once.addsOnlyNew {h : FeedHandler B} (ho : Once h) (hs : Sourced S maxBytes h) {e : Event}
    (he : e.Of S maxBytes) (hord : Orderly h e) {r : RangeRequest} (hans : Answers h e r) :
    AddsOnlyNew h e r := by
  have hafter := ho.step hs he hord
  obtain ⟨ds, rfl, hpending, hended⟩ := hans
  have hr := ho.pending r hpending
  have hstep : h.step (.answer ds) = { (h.applyReplay r ds).2 with pendingReplay := none } := by
    rw [FeedHandler.step, if_neg (by simp [hended])]
    show h.answered ds = _
    rw [FeedHandler.answered, hpending]
  by_cases hrec : h.recovery.isRecovering = true
  · obtain ⟨g, hg⟩ := (isRecovering_iff hs).mp hrec
    by_cases hempty : answerSeqs r ds = []
    · refine .of_idle ?_
      rw [hstep, Once.applyReplay_of_empty hs hg hr he hempty]
    · obtain ⟨rfl, -, -⟩ := hord.answer ds r g rfl hpending hg hempty
      obtain ⟨new, hadd, hf⟩ := applyReplay_filled (r := r) hs hg he
      have hledger : (h.step (.answer ds)).ledger = h.ledger.add new := by
        rw [hstep]
        exact hadd
      have hnew := appliedSince_eq hledger
      refine ⟨fun hne => ?_, ?_, ?_, ?_⟩
      · exact absurd (by rw [RecoveryBuffer.gapFrom, hg]) hne
      · rw [hnew]
        exact hledger
      · -- What the books reflect afterwards is in order, so what was added is.
        have hsorted := hafter.ledger.sorted
        rw [hledger] at hsorted
        have hsub : new.Sublist ((h.ledger.add new).base :: (h.ledger.add new).seqs) :=
          (List.sublist_append_right _ _).cons _
        rw [hnew]
        exact (hsorted.sublist hsub).imp Nat.ne_of_lt
      · intro s hmem hreflects
        rw [hnew] at hmem
        have hlt := ho.ledger.below s hreflects
        rw [reach_awaiting hg] at hlt
        exact absurd (hf.from_le hmem) (Nat.not_le.mpr hlt)
  · refine .of_idle ?_
    rw [hstep, FeedHandler.applyReplay, if_neg hrec]

/-- **A late answer changes nothing**: in a run of orderly steps an answer adds only messages the
books do not reflect, each once, and one whose range does not start at the hole awaited changes
nothing. -/
theorem late_answer_adds_only_new (S : Publication) (books : BookSet B) (w k m : Nat)
    (es : List Event) (hes : ∀ e ∈ es, e.Of S m)
    (hord : Along FeedHandler.step Orderly (.new books w k m) es) :
    Along FeedHandler.step (fun h e => ∀ r, Answers h e r → AddsOnlyNew h e r)
      (.new books w k m) es := by
  have hof : Along FeedHandler.step (fun _ e => e.Of S m) (.new books w k m) es :=
    along_of_forall fun _ => hes
  exact (hof.and hord).of_invariant (fun h => Sourced S m h ∧ Once h)
    (fun h e hinv hc => ⟨hinv.1.step hc.1, hinv.2.step hinv.1 hc.1 hc.2⟩)
    (fun h e hinv hc r hans => hinv.2.addsOnlyNew hinv.1 hc.1 hc.2 hans)
    ⟨sourced_new S books w k m, once_new books w k m⟩

/-- A datagram of the stream is orderly unless its copy waits at the frontier. -/
theorem orderly_heartbeatAt {h : FeedHandler B} {channel s : Nat} (hpos : 1 ≤ s)
    (hlt : s + 1 < 2 ^ 64)
    (hnone : s = h.arb.nextExpected → ∀ t ∈ h.arb.held, t.firstSequence ≠ h.arb.nextExpected)
    (hretries : (h.step (.datagram channel (heartbeatAt s))).initialJoinRetries =
      h.initialJoinRetries) : Orderly h (.datagram channel (heartbeatAt s)) := by
  have hcopy := copy_heartbeatAt hpos hlt (Nat.le_refl 40)
  refine ⟨?_, ?_, ?_, ?_⟩
  · rintro c bytes ⟨⟩ first count hcarries - hf
    obtain ⟨rfl, -⟩ := hcarries.unique hcopy.copy.carries
    exact hnone hf
  · rintro c bytes d ⟨⟩ hfrag
    exact absurd hfrag (not_isFragment_heartbeatAt hpos hlt)
  · exact fun hlt => absurd hlt (by rw [hretries]; exact Nat.lt_irrefl _)
  · intro ds r g hds
    cases hds

theorem orderly_request (h : FeedHandler B) : Orderly h .request := by
  refine ⟨(fun _ _ he => by cases he), (fun _ _ _ he => by cases he), fun hlt => ?_,
    fun _ _ _ he => (nomatch he)⟩
  have hsame : (h.step .request).initialJoinRetries = h.initialJoinRetries := by
    unfold FeedHandler.step
    split
    · rfl
    · show h.request.initialJoinRetries = _
      unfold FeedHandler.request
      split
      · dsimp only
        split <;> rfl
      · rfl
  rw [hsame] at hlt
  exact absurd hlt (Nat.lt_irrefl _)

theorem late_answer_after_one_gap :
    let h := (FeedHandler.new Books.new 1 4 96).run askedForOne
    Answers h (.answer ([2, 3, 4].map heartbeatAt)) ⟨2, 4⟩ ∧
      AddsOnlyNew h (.answer ([2, 3, 4].map heartbeatAt)) ⟨2, 4⟩ := by
  have hes : ∀ e ∈ askedForOne ++ [.answer ([2, 3, 4].map heartbeatAt)], e.Of heartbeats 96 := by
    intro e he
    simp only [askedForOne, List.cons_append, List.nil_append, List.mem_cons, List.not_mem_nil,
      or_false] at he
    rcases he with rfl | rfl | rfl | rfl | rfl
    · exact of_heartbeatAt 0 (by decide) (by decide)
    · exact of_heartbeatAt 0 (by decide) (by decide)
    · exact of_heartbeatAt 0 (by decide) (by decide)
    · trivial
    · exact answer_of_heartbeats (by decide)
  have hplace : ∀ h : FeedHandler ReferenceBook, h.arb.nextExpected = 5 →
      Once.AnswerInPlace h ⟨2, 4⟩ ([2, 3, 4].map heartbeatAt) 2 := by
    intro h hn _
    have hr : RangeRequest.Proper ⟨2, 4⟩ := ⟨by decide, by decide⟩
    have hds : AnswerOf heartbeats 96 ([2, 3, 4].map heartbeatAt) :=
      answer_of_heartbeats (by decide)
    have hall : ∀ s ∈ answerSeqs ⟨2, 4⟩ ([2, 3, 4].map heartbeatAt),
        s ≤ (FeedHandler.coverage ⟨2, 4⟩ ([2, 3, 4].map heartbeatAt)).through := by
      decide +kernel
    refine ⟨rfl, by rw [hn]; decide, by decide +kernel, fun s hs => ?_⟩
    exact (inOrder_iff hr hds (mem_answerSeqs.mp hs).1.1).mpr (hall s hs)
  have hord : Along FeedHandler.step Orderly (.new Books.new 1 4 96)
      (askedForOne ++ [.answer ([2, 3, 4].map heartbeatAt)]) := by
    refine ⟨orderly_heartbeatAt (by decide) (by decide) (by decide +kernel) (by decide +kernel),
      orderly_heartbeatAt (by decide) (by decide) (by decide +kernel) (by decide +kernel),
      orderly_heartbeatAt (by decide) (by decide) (by decide +kernel) (by decide +kernel),
      orderly_request _, ⟨(fun _ _ he => by cases he), (fun _ _ _ he => by cases he),
        fun hlt => absurd hlt (by decide +kernel), ?_⟩, trivial⟩
    intro ds r g hds hr hg
    cases hds
    have hpending : r = ⟨2, 4⟩ := Option.some.inj (hr.symm.trans (by decide +kernel))
    have hhole : g = 2 := Recovery.awaitingSnapshot.inj (hg.symm.trans (by decide +kernel))
    subst hpending hhole
    exact hplace _ (by decide +kernel)
  have halong := late_answer_adds_only_new heartbeats Books.new 1 4 96 _ hes hord
  obtain ⟨-, -, -, -, hlast, -⟩ := halong
  have hans : Answers ((FeedHandler.new Books.new 1 4 96).run askedForOne)
      (.answer ([2, 3, 4].map heartbeatAt)) ⟨2, 4⟩ :=
    ⟨_, rfl, by decide +kernel, by decide +kernel⟩
  exact ⟨hans, hlast ⟨2, 4⟩ hans⟩

/-- The range 2 to 4 is asked for, a snapshot as of 4 closes the recovery, and 5 is lost. -/
def overtakenBySnapshot : List Event :=
  askedForOne ++ [.datagram 0 (emptyCycle 4), .datagram 0 (heartbeatAt 6),
    .datagram 0 (heartbeatAt 7)]

theorem late_answer_applied_again :
    let h := (FeedHandler.new Books.new 1 4 96).run overtakenBySnapshot
    (∀ e ∈ overtakenBySnapshot, e.Of heartbeats 96) ∧ h.pendingReplay = some ⟨2, 4⟩ ∧
      h.recovery.gapFrom = some 5 ∧ h.ledger.base = 4 ∧
      appliedSince h (h.step (.answer ([2, 3, 4].map heartbeatAt))) = [2, 3, 4] := by
  refine ⟨?_, by decide +kernel, by decide +kernel, by decide +kernel, by decide +kernel⟩
  intro e he
  simp only [overtakenBySnapshot, askedForOne, List.cons_append, List.nil_append, List.mem_cons,
    List.not_mem_nil, or_false] at he
  rcases he with rfl | rfl | rfl | rfl | rfl | rfl | rfl
  · exact of_heartbeatAt 0 (by decide) (by decide)
  · exact of_heartbeatAt 0 (by decide) (by decide)
  · exact of_heartbeatAt 0 (by decide) (by decide)
  · trivial
  · exact of_emptyCycle 0 (by decide)
  · exact of_heartbeatAt 0 (by decide) (by decide)
  · exact of_heartbeatAt 0 (by decide) (by decide)

end MarketData.Handler
