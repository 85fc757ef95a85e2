import MarketData.Lib.Run
import MarketData.Wire.SnapshotCodec
import MarketData.Handler.Loop

/-!
# `Handler/Verdict.lean` — what `is_clean` says about the applied messages

A message that does not apply is counted as a real error unless a gap is outstanding or the run
joined mid-stream (`Consumer.noteResult`). `Charged` follows that through every function of the
loop: a run that did not join mid-stream has an error on its books of account for every message
that failed with no gap outstanding. The flag for a mid-stream join is set at the first datagram
the arbitrator releases and never taken back, so a run that joined mid-stream, recovered and
then failed to apply a live message still calls itself clean.

## Any bytes

Unlike most of what is said about the handler, this is said of every run whatsoever: nothing has to
come from the publisher, datagrams may be garbage, answers may be lies. The accounts are about what
the loop *did*, and `Charged` is a relation between the consumer before and after any function of
it. It composes, so the step lemma is a walk through the functions of the loop with one line for
each.

`sinceRecovery` is the part of the history a verdict vouches for. Before the last recovery the books
may have been anything, and a message that failed then was repaired with the rest; what failed with
a gap outstanding is expected to fail. What is left has to be charged, and in a run that starts at
the first sequence it is.

A clean verdict says nothing here about messages that never arrived. That is the business of the
gaps the verdict reads as well.
-/

set_option autoImplicit false

namespace MarketData.Handler

open MarketData.Wire MarketData.Book

/-- A message that failed to apply with no gap outstanding. -/
def Touch.isFailure : Touch → Bool
  | .message _ gapped failed => !gapped && failed
  | _ => false

variable {B : Type}

/-- From `c` to `c'` every failure has been charged to `applyErrors`, unless the run joined
mid-stream. -/
structure Charged (c c' : Consumer B) : Prop where
  joined : c'.stats.joinedMidStream = c.stats.joinedMidStream
  errors : c.stats.applyErrors ≤ c'.stats.applyErrors
  charged : c.stats.joinedMidStream = false → ∀ t ∈ c'.history, t.isFailure = true →
    t ∈ c.history ∨ c.stats.applyErrors < c'.stats.applyErrors

namespace Charged

theorem refl (c : Consumer B) : Charged c c :=
  ⟨rfl, Nat.le_refl _, fun _ _ ht _ => .inl ht⟩

theorem trans {c₁ c₂ c₃ : Consumer B} (h : Charged c₁ c₂) (h' : Charged c₂ c₃) :
    Charged c₁ c₃ := by
  refine ⟨h'.joined.trans h.joined, Nat.le_trans h.errors h'.errors, ?_⟩
  intro hjoined t ht hfail
  rcases h'.charged (h.joined.trans hjoined) t ht hfail with hold | hlt
  · rcases h.charged hjoined t hold hfail with hold | hlt
    · exact .inl hold
    · exact .inr (Nat.lt_of_lt_of_le hlt h'.errors)
  · exact .inr (Nat.lt_of_le_of_lt h.errors hlt)

theorem foldl {α : Type} (f : Consumer B → α → Consumer B) (hf : ∀ c a, Charged c (f c a))
    (as : List α) (c : Consumer B) : Charged c (as.foldl f c) := by
  induction as generalizing c with
  | nil => exact refl c
  | cons a as ih => exact (hf c a).trans (ih _)

theorem touch (c : Consumer B) {t : Touch} (ht : t.isFailure = false) : Charged c (c.touch t) := by
  refine ⟨rfl, Nat.le_refl _, ?_⟩
  intro _ u hu hfail
  rcases List.mem_append.mp hu with hold | hnew
  · exact .inl hold
  · rw [List.mem_singleton.mp hnew, ht] at hfail
    cases hfail

/-- A counter update that leaves the join alone and takes no error back. -/
theorem count (c : Consumer B) (f : HandlerStats → HandlerStats)
    (h : ∀ s, (f s).joinedMidStream = s.joinedMidStream ∧ s.applyErrors ≤ (f s).applyErrors) :
    Charged c (c.count f) :=
  ⟨(h _).1, (h _).2, fun _ _ ht _ => .inl ht⟩

/-- A counter update that is about neither. -/
theorem tally (c : Consumer B) (f : HandlerStats → HandlerStats)
    (h : ∀ s, (f s).joinedMidStream = s.joinedMidStream ∧ (f s).applyErrors = s.applyErrors) :
    Charged c (c.count f) :=
  .count c f fun s => ⟨(h s).1, Nat.le_of_eq (h s).2.symm⟩

end Charged

namespace Consumer

@[simp] theorem joinedMidStream_noteSequence (s : HandlerStats) (gapped : Bool) (seq : Nat) :
    (noteSequence s gapped seq).joinedMidStream = s.joinedMidStream := by
  unfold noteSequence
  dsimp only
  split <;> split <;> rfl

@[simp] theorem applyErrors_noteSequence (s : HandlerStats) (gapped : Bool) (seq : Nat) :
    (noteSequence s gapped seq).applyErrors = s.applyErrors := by
  unfold noteSequence
  dsimp only
  split <;> split <;> rfl

@[simp] theorem joinedMidStream_noteTrade (s : HandlerStats) (m : Message) :
    (noteTrade s m).joinedMidStream = s.joinedMidStream := by
  cases m <;> rfl

@[simp] theorem applyErrors_noteTrade (s : HandlerStats) (m : Message) :
    (noteTrade s m).applyErrors = s.applyErrors := by
  cases m <;> rfl

@[simp] theorem joinedMidStream_noteResult (s : HandlerStats) (gapped : Bool)
    (r : Except ApplyError Unit) : (noteResult s gapped r).joinedMidStream = s.joinedMidStream := by
  cases r with
  | ok => rfl
  | error e =>
    simp only [noteResult]
    split <;> rfl

theorem applyErrors_noteResult (s : HandlerStats) (gapped : Bool) (r : Except ApplyError Unit) :
    (noteResult s gapped r).applyErrors =
      s.applyErrors + if !gapped && !s.joinedMidStream && failed r then 1 else 0 := by
  cases r with
  | ok => simp [noteResult, failed]
  | error e =>
    simp only [noteResult, failed]
    cases gapped <;> cases s.joinedMidStream <;> rfl

variable [OrderBook B]

/-- **One message**: a failure outside a gap is charged at once. -/
theorem charged_applyNext (c : Consumer B) (gapped : Bool) (seq : Nat) (m : Message) :
    Charged c (c.applyNext gapped seq m) := by
  refine ⟨by simp [applyNext], by simp [applyNext, applyErrors_noteResult], ?_⟩
  intro hjoined t ht hfail
  rcases List.mem_append.mp ht with hold | hnew
  · exact .inl hold
  · right
    rw [List.mem_singleton.mp hnew] at hfail
    simp only [Touch.isFailure] at hfail
    simp only [applyNext, applyErrors_noteTrade, applyErrors_noteResult, applyErrors_noteSequence,
      joinedMidStream_noteSequence, hjoined]
    simp [hfail]

theorem charged_consumeMessages (gapped : Bool) (lo hi : Nat) (c : Consumer B)
    (ms : List (Except WireError (UInt64 × Message))) :
    Charged c (consumeMessages gapped lo hi c ms) := by
  induction ms generalizing c with
  | nil => exact .refl c
  | cons m ms ih =>
    cases m with
    | error e => exact .tally c .badDatagram fun _ => ⟨rfl, rfl⟩
    | ok m =>
      obtain ⟨seq, m⟩ := m
      rw [consumeMessages]
      split
      · exact ih c
      · exact (charged_applyNext c gapped seq.toNat m).trans (ih _)

theorem charged_consume (c : Consumer B) (d : Buf) (gapped : Bool) (lo hi : Nat) :
    Charged c (c.consume d gapped lo hi) := by
  unfold consume
  split
  · exact .tally c .badDatagram fun _ => ⟨rfl, rfl⟩
  · exact charged_consumeMessages gapped lo hi c _

theorem charged_consumeHeld (c : Consumer B) (handed : List (Nat × Buf)) :
    Charged c (c.consumeHeld handed) :=
  .foldl (fun c (d : Nat × Buf) => c.consume d.2 false d.1 maxSequence)
    (fun c d => charged_consume c d.2 false d.1 maxSequence) handed c

end Consumer

namespace FeedHandler

open Consumer

/-- What a step that does not join the stream does to the accounts. -/
structure Carries (h h' : FeedHandler B) : Prop where
  started : h'.startedStream = h.startedStream
  charged : Charged h.consumer h'.consumer

namespace Carries

theorem refl (h : FeedHandler B) : Carries h h := ⟨rfl, .refl _⟩

theorem trans {h₁ h₂ h₃ : FeedHandler B} (h : Carries h₁ h₂) (h' : Carries h₂ h₃) :
    Carries h₁ h₃ := ⟨h'.started.trans h.started, h.charged.trans h'.charged⟩

/-- Everything but the consumer and the flag for the first datagram may change. -/
theorem of_same {h h' : FeedHandler B} (hstarted : h'.startedStream = h.startedStream)
    (hconsumer : h'.consumer = h.consumer) : Carries h h' :=
  ⟨hstarted, hconsumer ▸ .refl _⟩

end Carries

/-- The accounts of a run that has not joined mid-stream. -/
structure Accounted (h : FeedHandler B) : Prop where
  joined : h.consumer.stats.joinedMidStream = false
  charged : ∀ t ∈ h.consumer.history, t.isFailure = true → 0 < h.consumer.stats.applyErrors

theorem Accounted.carries {h h' : FeedHandler B} (ha : Accounted h) (hc : Carries h h') :
    Accounted h' := by
  refine ⟨hc.charged.joined.trans ha.joined, ?_⟩
  intro t ht hfail
  rcases hc.charged.charged ha.joined t ht hfail with hold | hlt
  · exact Nat.lt_of_lt_of_le (ha.charged t hold hfail) hc.charged.errors
  · exact Nat.lt_of_le_of_lt (Nat.zero_le _) hlt

theorem Accounted.joinStream {h : FeedHandler B} (ha : Accounted h) {first : Nat}
    (hfirst : h.startedStream = false → first = 1) : Accounted (h.joinStream first) := by
  unfold FeedHandler.joinStream
  split
  · exact ha
  · rename_i hstarted
    refine ⟨?_, fun t ht hfail => ha.charged t ht hfail⟩
    show (h.consumer.stats.joinedMidStream || decide (first ≠ 1)) = false
    simp [ha.joined, hfirst (by simpa using hstarted)]

theorem carries_recoveryOverflowed (h : FeedHandler B) : Carries h h.recoveryOverflowed := by
  unfold recoveryOverflowed
  dsimp only
  split
  · split
    · exact ⟨rfl, .tally h.consumer .recoveryFailed fun _ => ⟨rfl, rfl⟩⟩
    · exact ⟨rfl, .tally h.consumer .recoveryFailed fun _ => ⟨rfl, rfl⟩⟩
  · have hfailed := Charged.tally h.consumer .recoveryFailed fun _ => ⟨rfl, rfl⟩
    have habandoned := hfailed.trans (.tally _ .abandoned fun _ => ⟨rfl, rfl⟩)
    exact ⟨rfl, habandoned.trans (.touch _ (t := .forsaken) rfl)⟩

theorem carries_holdLive (h : FeedHandler B) (d : Delivery) : Carries h (h.holdLive d) := by
  unfold holdLive
  split
  · exact .of_same rfl rfl
  · exact carries_recoveryOverflowed h

variable [OrderBook B]

theorem carries_takeFragment (h : FeedHandler B) (d : Snapshot) :
    Carries h (h.takeFragment d).2 := by
  have happly : Carries h (h.applyFragment d) := by
    refine ⟨rfl, ?_⟩
    have htouch : Charged h.consumer
        (if d.cycleStart then h.consumer.touch .cleared else h.consumer) := by
      split
      · exact .touch _ rfl
      · exact .refl _
    have hfragment := htouch.trans (.touch _ (t := .fragment d) rfl)
    exact ⟨hfragment.joined, hfragment.errors, hfragment.charged⟩
  refine happly.trans ?_
  unfold takeFragment
  dsimp only
  split
  · exact ⟨rfl, .count (h.applyFragment d).consumer .applyError
      fun _ => ⟨rfl, Nat.le_succ _⟩⟩
  split
  · split
    · exact ⟨rfl, (Charged.touch (h.applyFragment d).consumer (t := .adopted _) rfl).trans
        (charged_consumeHeld _ _)⟩
    · have hadopted := (Charged.touch (h.applyFragment d).consumer
        (t := .adopted d.lastSequence.toNat) rfl).trans
          (.tally _ (.adopted d.lastSequence.toNat) fun _ => ⟨rfl, rfl⟩)
      have hreplayed := hadopted.trans (charged_consumeHeld _
        ((h.applyFragment d).recovery.adoptSnapshot d.lastSequence.toNat).replay)
      have hrecovered := hreplayed.trans (.tally _ .recovered fun _ => ⟨rfl, rfl⟩)
      exact ⟨rfl, hrecovered.trans (.touch _ (t := .completed) rfl)⟩
  · exact .refl _

theorem carries_snapshotMessages (h : FeedHandler B)
    (ms : List (Except WireError (UInt64 × Message))) : Carries h (h.snapshotMessages ms) := by
  induction ms generalizing h with
  | nil => exact .refl h
  | cons m ms ih =>
    cases m with
    | error e => exact ⟨rfl, .tally h.consumer .badDatagram fun _ => ⟨rfl, rfl⟩⟩
    | ok m =>
      obtain ⟨seq, m⟩ := m
      have hone : Carries h (h.snapshotMessage m).2 := by
        unfold snapshotMessage
        split
        · split
          · exact ⟨rfl, .tally h.consumer .discarded fun _ => ⟨rfl, rfl⟩⟩
          · exact carries_takeFragment h _
        · exact .refl h
      rw [snapshotMessages]
      split
      · rename_i h₁ heq
        rw [heq] at hone
        exact hone.trans (ih h₁)
      · rename_i h₁ heq
        rw [heq] at hone
        exact hone

theorem carries_handleSnapshot (h : FeedHandler B) (d : Buf) : Carries h (h.handleSnapshot d) := by
  unfold handleSnapshot
  split
  · split
    · exact ⟨rfl, .tally h.consumer .badDatagram fun _ => ⟨rfl, rfl⟩⟩
    · exact carries_snapshotMessages h _
  · exact .refl h

theorem carries_applyReplay (h : FeedHandler B) (r : RangeRequest) (ds : List Buf) :
    Carries h (h.applyReplay r ds).2 := by
  have hanswer : Charged h.consumer (applyAnswer h.consumer r ds) :=
    .foldl (fun c d => c.consume d false r.fromSeq r.through)
      (fun c d => charged_consume c d false r.fromSeq r.through) ds _
  unfold applyReplay
  split
  · dsimp only
    split
    · exact ⟨rfl, hanswer⟩
    split
    · have hdrained := hanswer.trans (charged_consumeHeld _ (h.recovery.drainContiguous r.fromSeq
        (coverage r ds).through).1.applied)
      exact ⟨rfl, hdrained.trans (.tally _ (.unverified _) fun _ => ⟨rfl, rfl⟩)⟩
    · unfold replayAndComplete
      split
      · exact ⟨rfl, hanswer⟩
      · rename_i recovery _
        have hreplayed := hanswer.trans (charged_consumeHeld _ recovery.replay)
        have hrecovered := hreplayed.trans (.tally _ .recovered fun _ => ⟨rfl, rfl⟩)
        exact ⟨rfl, hrecovered.trans (.touch _ (t := .completed) rfl)⟩
  · exact .refl h

theorem carries_drainIntoBooks (h : FeedHandler B) : Carries h h.drainIntoBooks :=
  ⟨rfl, .foldl (fun c (d : Delivery) => c.consume d.bytes h.gapped 0 maxSequence)
    (fun c d => charged_consume c d.bytes h.gapped 0 maxSequence) _ _⟩

theorem carries_drain (h : FeedHandler B) : Carries h h.drain := by
  unfold drain
  split
  · unfold drainIntoRecovery
    dsimp only
    split
    · have hcounted : Carries h { h with
          consumer := h.consumer.count (.unverified (holdAll h.recovery h.arb.drainReady.1).1)
          arb := h.arb.drainReady.2
          recovery := (holdAll h.recovery h.arb.drainReady.1).2 } :=
        ⟨rfl, .tally h.consumer (.unverified _) fun _ => ⟨rfl, rfl⟩⟩
      exact hcounted.trans (carries_recoveryOverflowed _)
    · exact .of_same rfl rfl
  · exact carries_drainIntoBooks h

theorem carries_onQuiet (h : FeedHandler B) (g d : Bool) : Carries h (h.onQuiet g d) := by
  have hdrain : Carries h h.drainQuiet := by
    unfold drainQuiet
    split
    · exact .refl h
    · exact carries_drainIntoBooks h
  have hstalled (h : FeedHandler B) : Carries h (h.declareStalled g) := by
    unfold declareStalled
    split
    · split <;> exact .of_same rfl rfl
    · exact .refl h
  have hdeadline (h : FeedHandler B) : Carries h (h.checkDeadline d) := by
    unfold checkDeadline
    split
    · exact ⟨rfl, (Charged.tally h.consumer (fun s => s.recoveryFailed.abandoned) fun _ => ⟨rfl, rfl⟩).trans
        (.touch _ (t := .forsaken) rfl)⟩
    · exact .refl h
  exact (hdrain.trans (hstalled _)).trans (hdeadline _)

/-- The step hands over the first datagram of the run, and it is not sequence 1. -/
def joinsMidStream (h : FeedHandler B) : Event → Bool
  | .datagram channel bytes =>
    !isSnapshotDatagram bytes && !h.startedStream &&
      match (h.arb.accept channel bytes).1 with
      | .ready first _ => decide (first ≠ 1)
      | _ => false
  | _ => false

/-- What happens to a released datagram once the stream has been joined. -/
theorem carries_onReady (h : FeedHandler B) (bytes : Buf) (first count : Nat) :
    Carries h (if h.recovery.isRecovering then h.holdLive ⟨first, count, bytes⟩
      else { h with consumer := h.consumer.consume bytes h.gapped 0 maxSequence }) := by
  split
  · exact carries_holdLive h _
  · exact ⟨rfl, charged_consume h.consumer bytes h.gapped 0 maxSequence⟩

theorem Accounted.onAccepted {h : FeedHandler B} (ha : Accounted h) (bytes : Buf)
    {outcome : Accepted}
    (hfirst : h.startedStream = false → ∀ first count, outcome = .ready first count → first = 1) :
    Accounted (h.onAccepted bytes outcome) := by
  cases outcome with
  | ready first count =>
    have hj := ha.joinStream (fun hs => hfirst hs first count rfl)
    exact hj.carries (carries_onReady _ bytes first count)
  | forcedGap gap => exact ha.carries (.of_same rfl rfl)
  | buffered => exact ha
  | duplicate => exact ha
  | malformed e => exact ha.carries ⟨rfl, .tally h.consumer .badDatagram fun _ => ⟨rfl, rfl⟩⟩

/-- **One step of the loop keeps the accounts**, unless it joins mid-stream. -/
theorem Accounted.step {h : FeedHandler B} (ha : Accounted h) {e : Event}
    (he : h.joinsMidStream e = false) : Accounted (h.step e) := by
  unfold FeedHandler.step
  split
  · exact ha
  cases e with
  | datagram channel bytes =>
    show Accounted (h.receive channel bytes)
    unfold receive
    split
    · exact ha.carries (carries_handleSnapshot h bytes)
    · rename_i hsnap
      have harb : Accounted { h with arb := (h.arb.accept channel bytes).2 } :=
        ha.carries (.of_same rfl rfl)
      have hready : h.startedStream = false → ∀ first count,
          (h.arb.accept channel bytes).1 = .ready first count → first = 1 := by
        intro hs first count hr
        simpa [joinsMidStream, hsnap, hs, hr] using he
      have hon := harb.onAccepted bytes hready
      dsimp only
      split
      · exact hon
      · exact hon.carries (carries_drain _)
  | answer datagrams =>
    show Accounted (h.answered datagrams)
    unfold answered
    split
    · exact ha
    · exact (ha.carries (carries_applyReplay h _ datagrams)).carries (.of_same rfl rfl)
  | refused => exact ha.carries (.of_same rfl rfl)
  | request =>
    show Accounted h.request
    unfold request
    split
    · dsimp only
      split
      · exact ha.carries (.of_same rfl rfl)
      · exact ha
    · exact ha
  | quiet gapTimeout deadline => exact ha.carries (carries_onQuiet h gapTimeout deadline)

end FeedHandler

/-- What was done to the books after the last recovery completed, or from the start. -/
def sinceRecovery (history : List Touch) : List Touch :=
  (history.reverse.takeWhile (· ≠ .completed)).reverse

theorem mem_of_mem_sinceRecovery {history : List Touch} {t : Touch} (h : t ∈ sinceRecovery history) :
    t ∈ history := by
  rw [sinceRecovery, List.mem_reverse] at h
  exact List.mem_reverse.mp ((List.takeWhile_sublist _).subset h)

variable [OrderBook B]

/-- **A clean verdict is sound for a run that starts at sequence 1**: whatever arrived, no message
applied after the last recovery with no gap outstanding failed. -/
theorem clean_run_applied_everything (books : BookSet B) (w k m : Nat) (es : List Event)
    (hjoin : Run.Along FeedHandler.step (fun h e => h.joinsMidStream e = false)
      (.new books w k m) es)
    (hclean : let h := (FeedHandler.new books w k m).run es
      h.consumer.stats.isClean h.arb h.recovery.isRecovering = true) :
    ∀ t ∈ sinceRecovery ((FeedHandler.new books w k m).run es).consumer.history,
      t.isFailure = false := by
  have hnew : (FeedHandler.new books w k m).Accounted := ⟨rfl, fun t ht => nomatch ht⟩
  have hrun := hjoin.invariant FeedHandler.Accounted (fun h e ha he => ha.step he) hnew
  have hzero : ((FeedHandler.new books w k m).run es).consumer.stats.applyErrors = 0 := by
    simp only [HandlerStats.isClean, Bool.and_eq_true, decide_eq_true_eq] at hclean
    exact hclean.1.1.1.1.1.2
  intro t ht
  by_contra hfail
  have hpos := hrun.charged t (mem_of_mem_sinceRecovery ht) (by simpa using hfail)
  rw [show (List.foldl FeedHandler.step _ es) = (FeedHandler.new books w k m).run es from rfl,
    hzero] at hpos
  exact absurd hpos (Nat.lt_irrefl 0)

/-- Order 9 is added and deleted. -/
def addThenDelete : List Event :=
  [.datagram 0 (packet 0 1 [addOrderBlock 9 100 5 1 .bid]),
    .datagram 1 (packet 0 2 [deleteOrderBlock 9 1 .bid])]

theorem clean_run_applied_add_and_delete :
    let h := (FeedHandler.new Books.new 2 2 96).run addThenDelete
    h.consumer.history = [.message 1 false false, .message 2 false false] ∧
      ∀ t ∈ sinceRecovery h.consumer.history, t.isFailure = false := by
  refine ⟨by decide +kernel, ?_⟩
  exact clean_run_applied_everything Books.new 2 2 96 addThenDelete
    ⟨by decide +kernel, by decide +kernel, trivial⟩ (by decide +kernel)

/-- The run joins at sequence 3, recovers from an empty snapshot as of 3, and is then told to
delete an order nobody added. -/
def joinThenFail : List Event :=
  [.datagram 0 (packet 0 3 [heartbeatBlock 3]),
    .datagram 0 (packet packetFlagSnapshot 1
      [snapshotBlock 3 1 (snapshotFlagCycleStart ||| snapshotFlagCycleEnd) []]),
    .datagram 0 (packet 0 4 [deleteOrderBlock 9 1 .bid])]

theorem clean_run_hides_a_failure :
    let h := (FeedHandler.new Books.new 2 2 96).run joinThenFail
    h.consumer.stats.isClean h.arb h.recovery.isRecovering = true ∧
      sinceRecovery h.consumer.history = [.message 4 false true] := by
  constructor <;> decide +kernel

end MarketData.Handler
