import MarketData.Handler.Sourced

/-!
# `Handler/Inversion.lean` — what each step of the loop can do

On input of the publisher every step of the handler is one of a few things: `Replayed` lists
what an answer can do in an open recovery, `Taken` what a snapshot fragment can do, and the
equations at the end what the arbitrator's answer and a drain do. Each is proved once from the
code; the statements about whole runs go through these and never unfold the loop again.

## Why the constructors carry equations

A constructor of `Replayed` or `Taken` gives the handler after the step as a record of the handler
before it, with the fields that changed, and the guards that led there. Four kinds of statement are
made about these steps: that everything buffered stays a copy, that nothing is forgotten, that
nothing is applied twice, and that failures are charged. Each looks at other fields, and with the
whole state given each reads off what it needs by `rfl`. Had the inversion lemmas said only what one
invariant needs, there would be four of each.

`Sourced` is the first of these invariants and the one the others stand on. It says that whatever is
in the window or in the recovery buffer is a copy of a published datagram, so that what comes out of
either is applied as messages of the stream. It also fixes a few things about the handler's flags,
among them that no step ends in the state that is entered and left within one call.
-/

set_option autoImplicit false

namespace MarketData.Handler

open MarketData.Wire MarketData.Book MarketData.Tiling

variable {B : Type} {S : Publication} {maxBytes : Nat}

/-- What the books of a handler reflect. -/
def FeedHandler.ledger (h : FeedHandler B) : Ledger := h.consumer.ledger

/-- Everything the handler has buffered is a copy of a published datagram. -/
structure Sourced (S : Publication) (maxBytes : Nat) (h : FeedHandler B) : Prop where
  arb : h.arb.Wf S.cut maxBytes
  window : ∀ s ∈ h.arb.held, S.Copy maxBytes s.bytes s.firstSequence s.count
  held : CopiesOf S maxBytes h.recovery.held
  size : h.recovery.maxDatagramBytes = maxBytes
  /-- Reconciling is left in the call that enters it. -/
  state : ∀ n, h.recovery.state ≠ .reconciling n
  started : h.startedStream = true → h.arb.started = true
  unstarted : h.startedStream = false →
    h.arb.started = false ∧ h.recovery.state = .idle ∧ h.consumer.history = []

theorem sourced_new (S : Publication) (books : BookSet B) (w k m : Nat) :
    Sourced S m (FeedHandler.new books w k m) where
  arb := Arbitrator.wf_new S.cut w m
  window s hs := by
    have hnil := (Arbitrator.wf_new S.cut w m).idle rfl
    exact absurd (hnil ▸ hs : s ∈ []) List.not_mem_nil
  held d hd := nomatch hd
  size := rfl
  state n := by simp [FeedHandler.new, RecoveryBuffer.new]
  started hst := nomatch hst
  unstarted _ := ⟨rfl, rfl, rfl⟩

theorem isRecovering_iff {h : FeedHandler B} (hs : Sourced S maxBytes h) :
    h.recovery.isRecovering = true ↔ ∃ g, h.recovery.state = .awaitingSnapshot g := by
  rw [RecoveryBuffer.isRecovering, decide_eq_true_iff]
  cases hstate : h.recovery.state with
  | idle => simp
  | awaitingSnapshot g => simp
  | reconciling n => exact absurd hstate (hs.state n)

theorem isRecovering_eq_false {h : FeedHandler B} :
    h.recovery.isRecovering = false ↔ h.recovery.state = .idle := by
  simp [RecoveryBuffer.isRecovering]

namespace FeedHandler

variable [OrderBook B]

/-! ## An answer in an open recovery -/

/-- The consumer once every datagram of the answer has been applied. -/
def answeredBy (S : Publication) (h : FeedHandler B) (r : RangeRequest) (ds : List Buf) :
    Consumer B :=
  h.consumer.applyAll S false (answerSeqs r ds)

/-- What an answer does while a recovery is open. -/
inductive Replayed (S : Publication) (h : FeedHandler B) (r : RangeRequest) (ds : List Buf) :
    Bool × FeedHandler B → Prop
  /-- The answer does not begin at the hole: what it holds is applied, the hole stays. -/
  | uncovered (hcov : (coverage r ds).through < r.fromSeq) :
      Replayed S h r ds (false, { h with consumer := h.answeredBy S r ds })
  /-- The held traffic has a hole of its own: it is applied up to there. -/
  | reopened {drain : RecoveryBuffer.Drain} {stop : Nat}
      (hcov : r.fromSeq ≤ (coverage r ds).through)
      (hdrain : RecoveryBuffer.Drained S ((coverage r ds).through + 1) h.recovery.held drain stop)
      (hrest : drain.rest ≠ []) :
      Replayed S h r ds (false, { h with
        consumer := ((h.answeredBy S r ds).applyAll S false (List.range'
          ((coverage r ds).through + 1) (stop - ((coverage r ds).through + 1)))).count
            (.unverified drain.unverified)
        recovery := { h.recovery with held := drain.rest, state := .awaitingSnapshot stop } })
  | completed {stop : Nat} {drain : RecoveryBuffer.Drain}
      (hcov : r.fromSeq ≤ (coverage r ds).through)
      (hdrain : RecoveryBuffer.Drained S ((coverage r ds).through + 1) h.recovery.held drain stop)
      (hrest : drain.rest = []) :
      Replayed S h r ds (true, { h with
        consumer := (((h.answeredBy S r ds).applyAll S false
          (heldSeqs ((coverage r ds).through + 1) h.recovery.held)).count .recovered).touch .completed
        arb := h.arb.clearGapped
        recovery := { h.recovery with
          held := [], state := .idle, completed := h.recovery.completed + 1 } })

/-- **`apply_replay`, inverted.** -/
theorem applyReplay_replayed {h : FeedHandler B} (hs : Sourced S maxBytes h) {g : Nat}
    (hg : h.recovery.state = .awaitingSnapshot g) (r : RangeRequest) {ds : List Buf}
    (hds : AnswerOf S maxBytes ds) : Replayed S h r ds (h.applyReplay r ds) := by
  have hrec : h.recovery.isRecovering = true := (isRecovering_iff hs).mpr ⟨g, hg⟩
  obtain ⟨stop, hdrain⟩ :=
    RecoveryBuffer.drainFrom_spec r.fromSeq hs.held ((coverage r ds).through + 1)
  unfold applyReplay
  rw [if_pos hrec, applyAnswer_copies hds]
  dsimp only
  split
  · rename_i hcov
    exact .uncovered hcov
  rename_i hcov
  have hle := Nat.le_of_not_lt hcov
  split
  · rename_i reopenFrom through hhole
    rw [RecoveryBuffer.heldDiscontinuity, hdrain.hole] at hhole
    obtain ⟨d, hd, heq⟩ := Option.map_eq_some_iff.mp hhole
    obtain ⟨rfl, -⟩ := Prod.mk.inj heq
    have hrest : (RecoveryBuffer.drainFrom r.fromSeq ((coverage r ds).through + 1)
        h.recovery.held).rest ≠ [] := by
      intro hnil
      rw [hnil] at hd
      cases hd
    have hreopened := Replayed.reopened hle hdrain hrest
    unfold replayAndReopen
    dsimp only [RecoveryBuffer.drainContiguous, RecoveryBuffer.reopen]
    rw [hdrain.applied]
    exact hreopened
  · rename_i hhole
    rw [RecoveryBuffer.heldDiscontinuity, hdrain.hole] at hhole
    have hrest : (RecoveryBuffer.drainFrom r.fromSeq ((coverage r ds).through + 1)
        h.recovery.held).rest = [] := List.head?_eq_none_iff.mp (Option.map_eq_none_iff.mp hhole)
    have hcompleted := Replayed.completed hle hdrain hrest
    unfold replayAndComplete
    simp only [RecoveryBuffer.adoptReplay, hg]
    dsimp only [RecoveryBuffer.replay, RecoveryBuffer.complete, RecoveryBuffer.reset]
    rw [Consumer.consumeHeld_replayFrom hs.held]
    exact hcompleted

/-! ## A snapshot fragment in an open recovery -/

/-- What a fragment does while a recovery is open. -/
inductive Taken (S : Publication) (h : FeedHandler B) (d : Snapshot) : FeedHandler B → Prop
  /-- It is too old, or its cycle was not joined at the start. -/
  | discarded : Taken S h d (h.count .discarded)
  /-- It does not apply: the cycle is given up. -/
  | failed (huse : h.recovery.snapshotIsUsable d.lastSequence.toNat = true)
      (hin : d.cycleStart = true ∨ h.inCycle = true) :
      Taken S h d { (h.applyFragment d).count .applyError with inCycle := false }
  | applied (huse : h.recovery.snapshotIsUsable d.lastSequence.toNat = true)
      (hin : d.cycleStart = true ∨ h.inCycle = true)
      (hok : ∃ books, Book.applyFragment h.consumer.books d = (.ok (), books))
      (hend : d.cycleEnd = false) : Taken S h d (h.applyFragment d)
  /-- The cycle ends, and the held traffic behind it has a hole. -/
  | reopened {drain : RecoveryBuffer.Drain} {stop : Nat}
      (huse : h.recovery.snapshotIsUsable d.lastSequence.toNat = true)
      (hin : d.cycleStart = true ∨ h.inCycle = true)
      (hok : ∃ books, Book.applyFragment h.consumer.books d = (.ok (), books))
      (hend : d.cycleEnd = true)
      (hdrain : RecoveryBuffer.Drained S (d.lastSequence.toNat + 1) h.recovery.held drain stop)
      (hrest : drain.rest ≠ []) :
      Taken S h d { h.applyFragment d with
        consumer := ((h.applyFragment d).consumer.touch (.adopted d.lastSequence.toNat)).applyAll S
          false (List.range' (d.lastSequence.toNat + 1) (stop - (d.lastSequence.toNat + 1)))
        recovery := { h.recovery with held := drain.rest, state := .awaitingSnapshot stop }
        inCycle := false }
  /-- The cycle ends, and the recovery with it. -/
  | completed {drain : RecoveryBuffer.Drain} {stop : Nat}
      (huse : h.recovery.snapshotIsUsable d.lastSequence.toNat = true)
      (hin : d.cycleStart = true ∨ h.inCycle = true)
      (hok : ∃ books, Book.applyFragment h.consumer.books d = (.ok (), books))
      (hend : d.cycleEnd = true)
      (hdrain : RecoveryBuffer.Drained S (d.lastSequence.toNat + 1) h.recovery.held drain stop)
      (hrest : drain.rest = []) :
      Taken S h d { h.applyFragment d with
        consumer := (((((h.applyFragment d).consumer.touch (.adopted d.lastSequence.toNat)).count
          (.adopted d.lastSequence.toNat)).applyAll S false
            (heldSeqs (d.lastSequence.toNat + 1) h.recovery.held)).count .recovered).touch .completed
        arb := h.arb.resyncTo (d.lastSequence.toNat + 1)
        recovery := { h.recovery with
          held := [], state := .idle, completed := h.recovery.completed + 1 }
        inCycle := false }

theorem takeFragment_taken {h : FeedHandler B} (hs : Sourced S maxBytes h) {d : Snapshot}
    (huse : h.recovery.snapshotIsUsable d.lastSequence.toNat = true)
    (hin : d.cycleStart = true ∨ h.inCycle = true) : Taken S h d (h.takeFragment d).2 := by
  obtain ⟨stop, hdrain⟩ :=
    RecoveryBuffer.drainFrom_spec 0 hs.held (d.lastSequence.toNat + 1)
  unfold takeFragment
  dsimp only
  split
  · exact .failed huse hin
  rename_i hres
  have hok : ∃ books, Book.applyFragment h.consumer.books d = (.ok (), books) :=
    ⟨(Book.applyFragment h.consumer.books d).2, Prod.ext hres rfl⟩
  split
  · rename_i hend
    split
    · rename_i reopenFrom through hhole
      rw [RecoveryBuffer.heldDiscontinuity, hdrain.hole] at hhole
      obtain ⟨x, hx, heq⟩ := Option.map_eq_some_iff.mp hhole
      obtain ⟨rfl, -⟩ := Prod.mk.inj heq
      have hrest : (RecoveryBuffer.drainFrom 0 (d.lastSequence.toNat + 1)
          h.recovery.held).rest ≠ [] := by
        intro hnil
        rw [hnil] at hx
        cases hx
      have hreopened := Taken.reopened huse hin hok hend hdrain hrest
      unfold adoptAndReopen
      dsimp only [RecoveryBuffer.drainContiguous, RecoveryBuffer.reopen]
      rw [show (h.applyFragment d).recovery = h.recovery from rfl, hdrain.applied]
      exact hreopened
    · rename_i hhole
      rw [RecoveryBuffer.heldDiscontinuity] at hhole
      have hrest : (RecoveryBuffer.drainFrom 0 (d.lastSequence.toNat + 1)
          h.recovery.held).rest = [] :=
        List.head?_eq_none_iff.mp (Option.map_eq_none_iff.mp (hdrain.hole.symm.trans hhole))
      have hcompleted := Taken.completed huse hin hok hend hdrain hrest
      unfold adoptSnapshot
      dsimp only [RecoveryBuffer.replay, RecoveryBuffer.adoptSnapshot, RecoveryBuffer.complete,
        RecoveryBuffer.reset]
      rw [show (h.applyFragment d).recovery = h.recovery from rfl,
        Consumer.consumeHeld_replayFrom hs.held]
      exact hcompleted
  · rename_i hend
    exact .applied huse hin hok (by simpa using hend)

/-- **`handle_snapshot`, inverted**, at a datagram with one fragment. -/
theorem handleSnapshot_taken {h : FeedHandler B} (hs : Sourced S maxBytes h)
    (hrec : h.recovery.isRecovering = true) {bytes : Buf} {d : Snapshot}
    (hd : IsFragment bytes d) : Taken S h d (h.handleSnapshot bytes) := by
  obtain ⟨seq, hreads⟩ := hd.reads
  have hone : h.handleSnapshot bytes = (h.snapshotMessage (.snapshot d)).2 := by
    unfold handleSnapshot
    rw [if_pos hrec, hreads]
    dsimp only
    rw [snapshotMessages]
    split
    · rename_i heq
      rw [heq]
      rfl
    · rename_i heq
      rw [heq]
  rw [hone]
  unfold snapshotMessage
  dsimp only
  split
  · exact .discarded
  · rename_i hcond
    simp only [Bool.or_eq_true, Bool.and_eq_true, Bool.not_eq_true', not_or, not_and,
      Bool.not_eq_false] at hcond
    refine takeFragment_taken hs (by simpa using hcond.1) ?_
    cases hstart : d.cycleStart with
    | true => exact .inl rfl
    | false => exact .inr (hcond.2 hstart)

/-! ## Live traffic -/

omit [OrderBook B] in
/-- A copy fits its slot, so holding it cuts nothing off. -/
theorem hold_copy {r : RecoveryBuffer} (hsize : r.maxDatagramBytes = maxBytes) {d : Delivery}
    (hd : d.bytes.length ≤ maxBytes) {r' : RecoveryBuffer} (h : r.hold d = some r') :
    r' = { r with held := r.held ++ [d] } := by
  subst hsize
  unfold RecoveryBuffer.hold at h
  split at h
  · cases h
  · rw [List.take_of_length_le hd] at h
    exact (Option.some.inj h).symm

/-- What a full recovery buffer does: the initial join starts over, or ends the loop, any other
recovery is given up. -/
inductive Overflowed (h : FeedHandler B) : FeedHandler B → Prop
  | rearmed (hjoined : h.consumer.stats.joinedMidStream = true) (hnone : h.recovery.completed = 0) :
      Overflowed h { h.count .recoveryFailed with
        initialJoinRetries := h.initialJoinRetries + 1
        recovery := { h.recovery with held := [], state := .awaitingSnapshot 1 } }
  | ended : Overflowed h { h.count .recoveryFailed with
      recovery := { h.recovery with held := [], state := .idle }, ended := true }
  | forsaken : Overflowed h ({ (h.count .recoveryFailed).count .abandoned with
      recovery := { h.recovery with held := [], state := .idle } }.touch .forsaken)

omit [OrderBook B] in
theorem recoveryOverflowed_cases (h : FeedHandler B) : Overflowed h h.recoveryOverflowed := by
  unfold recoveryOverflowed
  dsimp only
  split
  · rename_i hcond
    simp only [Bool.and_eq_true, decide_eq_true_eq] at hcond
    split
    · exact .rearmed hcond.1 hcond.2
    · exact .ended
  · exact .forsaken

/-- What accepting a copy of a datagram does, up to the drain that follows. -/
inductive Admitted (S : Publication) (h : FeedHandler B) (a : Arbitrator) (d : Delivery) :
    FeedHandler B → Prop
  /-- A duplicate, or buffered behind a hole. -/
  | same (hst : h.startedStream = true) (hn : a.nextExpected = h.arb.nextExpected) :
      Admitted S h a d { h with arb := a }
  /-- A full window gives up on the hole at the frontier. -/
  | gap (hst : h.startedStream = true) :
      Admitted S h a d { h with arb := a, recovery := h.recovery.begin h.arb.nextExpected }
  /-- In order, and no recovery is open. -/
  | applied (hfirst : h.startedStream = true → d.firstSequence = h.arb.nextExpected)
      (hidle : (h.joinStream d.firstSequence).recovery.state = .idle)
      (hn : a.nextExpected = d.firstSequence + d.count) :
      Admitted S h a d { h.joinStream d.firstSequence with
        arb := a
        consumer := (h.joinStream d.firstSequence).consumer.applyAll S (a.state = .gapped)
          (List.range' d.firstSequence d.count) }
  /-- In order, and held for the open recovery. -/
  | held (hfirst : h.startedStream = true → d.firstSequence = h.arb.nextExpected) {g : Nat}
      (hrec : (h.joinStream d.firstSequence).recovery.state = .awaitingSnapshot g)
      (hn : a.nextExpected = d.firstSequence + d.count) :
      Admitted S h a d { h.joinStream d.firstSequence with
        arb := a
        recovery := { (h.joinStream d.firstSequence).recovery with
          held := (h.joinStream d.firstSequence).recovery.held ++ [d] } }
  /-- In order, and the open recovery has no room for it. -/
  | overflowed (hfirst : h.startedStream = true → d.firstSequence = h.arb.nextExpected) {g : Nat}
      (hrec : (h.joinStream d.firstSequence).recovery.state = .awaitingSnapshot g)
      (hn : a.nextExpected = d.firstSequence + d.count) {h' : FeedHandler B}
      (hover : Overflowed { h.joinStream d.firstSequence with arb := a } h') :
      Admitted S h a d h'

theorem onReady_admitted {h : FeedHandler B} (hs : Sourced S maxBytes h) {a : Arbitrator}
    {d : Delivery} (hd : S.Copy maxBytes d.bytes d.firstSequence d.count)
    (hfirst : h.startedStream = true → d.firstSequence = h.arb.nextExpected)
    (hn : a.nextExpected = d.firstSequence + d.count) :
    Admitted S h a d
      ({ h with arb := a }.onAccepted d.bytes (.ready d.firstSequence d.count)) := by
  have hjoin : { h with arb := a }.joinStream d.firstSequence =
      { h.joinStream d.firstSequence with arb := a } := by
    unfold joinStream
    split <;> rfl
  have hsize : (h.joinStream d.firstSequence).recovery.maxDatagramBytes = maxBytes := by
    rw [← hs.size]
    unfold joinStream RecoveryBuffer.begin
    dsimp only
    split
    · rfl
    · split
      · split <;> rfl
      · rfl
  unfold onAccepted
  dsimp only
  rw [hjoin]
  dsimp only
  cases hstate : (h.joinStream d.firstSequence).recovery.state with
  | idle =>
    rw [if_neg (by simp [RecoveryBuffer.isRecovering, hstate]), Consumer.consume_copy hd,
      seqsIn_all hd.lt]
    exact .applied hfirst hstate hn
  | awaitingSnapshot g =>
    rw [if_pos (by simp [RecoveryBuffer.isRecovering, hstate])]
    unfold holdLive
    dsimp only
    split
    · rename_i r hr
      rw [hold_copy hsize hd.fits hr]
      exact .held hfirst hstate hn
    · exact .overflowed hfirst hstate hn (recoveryOverflowed_cases _)
  | reconciling n =>
    exfalso
    unfold joinStream RecoveryBuffer.begin at hstate
    dsimp only at hstate
    split at hstate
    · exact hs.state n hstate
    · split at hstate
      · split at hstate
        · exact hs.state n hstate
        · cases hstate
      · exact hs.state n hstate

/-- **`accept` and what the loop does with its answer**, at a copy of a datagram. -/
theorem accept_admitted {h : FeedHandler B} (hs : Sourced S maxBytes h) (channel : Nat)
    {d : Delivery} (hd : S.Copy maxBytes d.bytes d.firstSequence d.count) :
    Admitted S h (h.arb.accept channel d.bytes).2 d
      ({ h with arb := (h.arb.accept channel d.bytes).2 }.onAccepted d.bytes
        (h.arb.accept channel d.bytes).1) := by
  obtain ⟨b, hopen, hwb, hplaced, -⟩ := Arbitrator.accept_placed hs.arb channel hd.copy
  have hpos := S.cut.pos hd.copy.mem
  have hnext : h.startedStream = true → b.nextExpected = h.arb.nextExpected := by
    intro hst
    rw [hopen.next, if_pos (hs.started hst)]
  -- The first datagram opens the stream at itself, so it is in order.
  have hopened : h.startedStream = false → b.nextExpected = d.firstSequence := by
    intro hst
    rw [hopen.next, if_neg (by simp [(hs.unstarted hst).1])]
  have hst_of : b.nextExpected < d.firstSequence ∨ d.firstSequence + d.count ≤ b.nextExpected →
      h.startedStream = true := by
    intro hne
    by_contra hst
    have := hopened (by simpa using hst)
    omega
  cases hplaced' : (h.arb.accept channel d.bytes).1 with
  | ready first count =>
    rw [hplaced'] at hplaced
    cases hplaced with
    | ready hf hn => exact onReady_admitted hs hd (fun hst => hf.trans (hnext hst)) hn
  | buffered =>
    rw [hplaced'] at hplaced
    cases hplaced with
    | buffered hlt hnew hroom hn =>
      have hst := hst_of (.inl hlt)
      exact .same hst (hn.trans (hnext hst))
  | duplicate =>
    rw [hplaced'] at hplaced
    cases hplaced with
    | behind hle hn =>
      have hst := hst_of (.inr hle)
      exact .same hst (hn.trans (hnext hst))
    | copy hlt hheld hn =>
      have hst := hst_of (.inl hlt)
      exact .same hst (hn.trans (hnext hst))
  | forcedGap gap =>
    have hforced := hplaced.forced hplaced'
    have hlt : b.nextExpected < d.firstSequence := by
      rw [hplaced'] at hplaced
      cases hplaced with
      | lost hlt => exact hlt
      | kept hlt => exact hlt
      | dropped hlt => exact hlt
    have hst := hst_of (.inl hlt)
    have hgap : gap.fromSeq = h.arb.nextExpected := hforced.1.trans (hnext hst)
    show Admitted S h _ d { h with
      arb := (h.arb.accept channel d.bytes).2, recovery := h.recovery.begin gap.fromSeq }
    rw [hgap]
    exact .gap hst
  | malformed e =>
    rw [hplaced'] at hplaced
    cases hplaced

/-! ## Draining -/

omit [OrderBook B] in
theorem Sourced.drained {h : FeedHandler B} (hs : Sourced S maxBytes h) :
    CopiesOf S maxBytes h.arb.drainReady.1 := by
  obtain ⟨gone, hperm, hout⟩ := (Arbitrator.drainReady_handed hs.arb).split
  intro d hd
  rw [hout] at hd
  obtain ⟨s, hs', rfl⟩ := List.mem_map.mp hd
  exact hs.window s (hperm.mem_iff.mpr (List.mem_append_left _ hs'))

/-- **`drain_into_books`**: everything up to the new frontier is applied. -/
theorem drainIntoBooks_eq {h : FeedHandler B} (hs : Sourced S maxBytes h) :
    h.drainIntoBooks = { h with
      arb := h.arb.drainReady.2
      consumer := h.consumer.applyAll S h.gapped (List.range' h.arb.nextExpected
        (h.arb.drainReady.2.nextExpected - h.arb.nextExpected)) } := by
  have hhanded := Arbitrator.drainReady_handed hs.arb
  unfold drainIntoBooks
  dsimp only
  rw [Consumer.consume_drained (Sourced.drained hs), hhanded.tiles.points_eq]

/-- What a drain into the recovery buffer does: everything is held, or the buffer overflows. -/
inductive Stowed (h : FeedHandler B) : FeedHandler B → Prop
  | all : Stowed h { h with
      arb := h.arb.drainReady.2
      recovery := { h.recovery with held := h.recovery.held ++ h.arb.drainReady.1 } }
  | overflowed {kept lost : List Delivery} (hsplit : h.arb.drainReady.1 = kept ++ lost) (n : Nat)
      {h' : FeedHandler B} (hover : Overflowed { h.count (.unverified n) with
        arb := h.arb.drainReady.2
        recovery := { h.recovery with held := h.recovery.held ++ kept } } h') :
      Stowed h h'

omit [OrderBook B] in
theorem holdAll_copies {out : List Delivery} (hout : CopiesOf S maxBytes out)
    {r : RecoveryBuffer} (hsize : r.maxDatagramBytes = maxBytes) :
    ∃ kept lost, out = kept ++ lost ∧
      holdAll r out = ((lost.map (·.count)).sum, { r with held := r.held ++ kept }) := by
  induction out generalizing r with
  | nil => exact ⟨[], [], rfl, by simp [holdAll]⟩
  | cons d out ih =>
    rw [holdAll]
    split
    · rename_i r' hr
      have hr' := hold_copy hsize (hout d List.mem_cons_self).fits hr
      obtain ⟨kept, lost, hsplit, hall⟩ :=
        ih (fun x hx => hout x (List.mem_cons_of_mem _ hx)) (r := r') (by rw [hr']; exact hsize)
      refine ⟨d :: kept, lost, by rw [hsplit]; rfl, ?_⟩
      rw [hall, hr']
      simp
    · exact ⟨[], d :: out, rfl, by simp⟩

omit [OrderBook B] in
theorem drainIntoRecovery_stowed {h : FeedHandler B} (hs : Sourced S maxBytes h) :
    Stowed h h.drainIntoRecovery := by
  have hcopies := Sourced.drained hs
  obtain ⟨kept, lost, hsplit, hall⟩ := holdAll_copies hcopies hs.size
  unfold drainIntoRecovery
  dsimp only
  rw [hall]
  dsimp only
  split
  · exact .overflowed hsplit _ (recoveryOverflowed_cases _)
  · rename_i hzero
    have hnil : lost = [] := by
      cases lost with
      | nil => rfl
      | cons d lost =>
        have hd := hcopies d (by rw [hsplit]; simp)
        have := S.cut.pos hd.copy.mem
        simp only [List.map_cons, List.sum_cons] at hzero
        omega
    rw [hnil, List.append_nil] at hsplit
    rw [← hsplit]
    exact .all

end FeedHandler

/-! ## Everything buffered stays a copy -/

namespace Sourced

open FeedHandler

variable {h h' : FeedHandler B}

theorem started_of_recovering (hs : Sourced S maxBytes h) {g : Nat}
    (hg : h.recovery.state = .awaitingSnapshot g) : h.startedStream = true := by
  by_contra hst
  have hidle := (hs.unstarted (by simpa using hst)).2.1
  rw [hg] at hidle
  cases hidle

/-- A step of a started handler that leaves the arbitrator alone. -/
theorem withRecovery (hs : Sourced S maxBytes h) (harb : h'.arb = h.arb)
    (hheld : CopiesOf S maxBytes h'.recovery.held)
    (hsize : h'.recovery.maxDatagramBytes = h.recovery.maxDatagramBytes)
    (hstate : ∀ n, h'.recovery.state ≠ .reconciling n)
    (hst : h'.startedStream = true) (hst₀ : h.startedStream = true) : Sourced S maxBytes h' where
  arb := harb ▸ hs.arb
  window := harb ▸ hs.window
  held := hheld
  size := hsize.trans hs.size
  state := hstate
  started _ := harb ▸ hs.started hst₀
  unstarted hno := absurd (hst.symm.trans hno) (by simp)

theorem overflowed (hs : Sourced S maxBytes h) (hst : h.startedStream = true)
    (hover : Overflowed h h') : Sourced S maxBytes h' := by
  cases hover with
  | rearmed => exact hs.withRecovery rfl (fun d hd => nomatch hd) rfl (by simp) hst hst
  | ended => exact hs.withRecovery rfl (fun d hd => nomatch hd) rfl (by simp) hst hst
  | forsaken =>
    exact hs.withRecovery rfl (fun d hd => nomatch hd) rfl (by simp [touch]) hst hst

theorem accept_window (hs : Sourced S maxBytes h) (channel : Nat) {bytes : Buf} {first count : Nat}
    (hd : S.Copy maxBytes bytes first count) :
    (h.arb.accept channel bytes).2.Wf S.cut maxBytes ∧
      (h.arb.accept channel bytes).2.started = true ∧
      ∀ s ∈ (h.arb.accept channel bytes).2.held, S.Copy maxBytes s.bytes s.firstSequence s.count := by
  obtain ⟨b, hopen, hwb, hplaced, hw⟩ := Arbitrator.accept_placed hs.arb channel hd.copy
  refine ⟨hw, hplaced.keeps.1.trans hopen.started, ?_⟩
  have hwin : ∀ s ∈ b.held, S.Copy maxBytes s.bytes s.firstSequence s.count := by
    rw [hopen.held]
    exact hs.window
  -- What is newly buffered is the datagram, whole: it fits the slot.
  have hnew : ∀ {s : Slot}, s ∈ (h.arb.accept channel bytes).2.held → s.firstSequence = first →
      s.count = count → s.bytes = bytes.take s.buf.length →
      S.Copy maxBytes s.bytes s.firstSequence s.count := by
    intro s hs' hfirst hcount hbytes
    have hlen := hw.bufs s (Arbitrator.mem_held.mp hs').1
    rw [hbytes, hlen, List.take_of_length_le hd.fits, hfirst, hcount]
    exact hd
  intro s hs'
  generalize h.arb.accept channel bytes = accepted at hplaced hnew hs'
  obtain ⟨outcome, a⟩ := accepted
  cases hplaced with
  | behind hle hn hh => exact hwin s (hh ▸ hs')
  | ready hf hn hh => exact hwin s (hh ▸ hs')
  | copy hlt hheld hn hh => exact hwin s (hh ▸ hs')
  | lost hlt hno hfull hbelow hn hh => exact hwin s (hh ▸ hs')
  | dropped hlt hno hover habove hn hh => exact hwin s (hh ▸ hs')
  | buffered hlt hno hroom hn hh =>
    obtain ⟨t, hfirst, hcount, hbytes, hperm⟩ := hh
    rcases List.mem_cons.mp (hperm.mem_iff.mp hs') with rfl | hold
    · exact hnew hs' hfirst hcount hbytes
    · exact hwin s hold
  | kept hlt hno hfull habove hspare hn hh =>
    obtain ⟨t, hfirst, hcount, hbytes, hperm⟩ := hh
    rcases List.mem_cons.mp (hperm.mem_iff.mp hs') with rfl | hold
    · exact hnew hs' hfirst hcount hbytes
    · exact hwin s hold

/-- The handler around an arbitrator that has accepted a copy. -/
theorem joined (hs : Sourced S maxBytes h) {a : Arbitrator} (ha : a.Wf S.cut maxBytes)
    (hst : a.started = true)
    (hwin : ∀ s ∈ a.held, S.Copy maxBytes s.bytes s.firstSequence s.count) (first : Nat) :
    Sourced S maxBytes { h.joinStream first with arb := a } := by
  unfold joinStream
  split
  · rename_i hstarted
    exact ⟨ha, hwin, hs.held, hs.size, hs.state, fun _ => hst,
      fun hno => absurd (hstarted.symm.trans hno) (by simp)⟩
  · have hidle := (hs.unstarted (by simpa using ‹¬h.startedStream = true›)).2.1
    dsimp only
    split
    · refine ⟨ha, hwin, ?_, ?_, ?_, fun _ => hst, fun hno => nomatch hno⟩
      · simp [RecoveryBuffer.begin, RecoveryBuffer.isRecovering, hidle, CopiesOf]
      · simpa [RecoveryBuffer.begin, RecoveryBuffer.isRecovering, hidle] using hs.size
      · simp [RecoveryBuffer.begin, RecoveryBuffer.isRecovering, hidle]
    · exact ⟨ha, hwin, hs.held, hs.size, hs.state, fun _ => hst, fun hno => nomatch hno⟩

theorem startedStream_joinStream (h : FeedHandler B) (first : Nat) :
    (h.joinStream first).startedStream = true := by
  unfold joinStream
  split
  · assumption
  · rfl

theorem withBegin (hs : Sourced S maxBytes h) (hst : h.startedStream = true) (n : Nat) :
    Sourced S maxBytes { h with recovery := h.recovery.begin n } := by
  unfold RecoveryBuffer.begin
  split
  · exact hs
  · exact hs.withRecovery rfl (fun d hd => nomatch hd) rfl (by simp) hst hst

variable [OrderBook B]

theorem admitted (hs : Sourced S maxBytes h) {a : Arbitrator} (ha : a.Wf S.cut maxBytes)
    (hst : a.started = true)
    (hwin : ∀ s ∈ a.held, S.Copy maxBytes s.bytes s.firstSequence s.count) {d : Delivery}
    (hd : S.Copy maxBytes d.bytes d.firstSequence d.count) (hadm : Admitted S h a d h') :
    Sourced S maxBytes h' ∧ h'.startedStream = true := by
  have hjoined := hs.joined ha hst hwin d.firstSequence
  have hstarted := startedStream_joinStream h d.firstSequence
  cases hadm with
  | same hst' hn =>
    exact ⟨⟨ha, hwin, hs.held, hs.size, hs.state, fun _ => hst,
      fun hno => absurd (hst'.symm.trans hno) (by simp)⟩, hst'⟩
  | gap hst' =>
    have hsame : Sourced S maxBytes { h with arb := a } :=
      ⟨ha, hwin, hs.held, hs.size, hs.state, fun _ => hst,
        fun hno => absurd (hst'.symm.trans hno) (by simp)⟩
    exact ⟨hsame.withBegin hst' _, hst'⟩
  | applied hfirst hidle hn =>
    exact ⟨hjoined.withRecovery rfl hjoined.held rfl hjoined.state hstarted hstarted, hstarted⟩
  | held hfirst hrec hn =>
    refine ⟨hjoined.withRecovery rfl ?_ rfl hjoined.state hstarted hstarted, hstarted⟩
    intro x hx
    rcases List.mem_append.mp hx with hx | hx
    · exact hjoined.held x hx
    · rw [List.mem_singleton.mp hx]
      exact hd
  | overflowed hfirst hrec hn hover =>
    have hstarted' : h'.startedStream = true := by
      cases hover <;> exact hstarted
    exact ⟨hjoined.overflowed hstarted hover, hstarted'⟩

theorem drain (hs : Sourced S maxBytes h) (hst : h.startedStream = true) :
    Sourced S maxBytes h.drain := by
  have hhanded := Arbitrator.drainReady_handed hs.arb
  obtain ⟨gone, hperm, -⟩ := hhanded.split
  have hwin : ∀ s ∈ h.arb.drainReady.2.held, S.Copy maxBytes s.bytes s.firstSequence s.count :=
    fun s hs' => hs.window s (hperm.mem_iff.mpr (List.mem_append_right _ hs'))
  have hstarted : h.arb.drainReady.2.started = true :=
    hhanded.steady.started.trans (hs.started hst)
  have harb : ∀ {r : RecoveryBuffer} {c : Consumer B}, CopiesOf S maxBytes r.held →
      r.maxDatagramBytes = maxBytes → (∀ n, r.state ≠ .reconciling n) →
      Sourced S maxBytes { h with arb := h.arb.drainReady.2, recovery := r, consumer := c } :=
    fun hheld hsize hstate => ⟨hhanded.wf, hwin, hheld, hsize, hstate, fun _ => hstarted,
      fun hno => absurd (hst.symm.trans hno) (by simp)⟩
  have hdrained := FeedHandler.Sourced.drained hs
  unfold FeedHandler.drain
  split
  · have hstow := drainIntoRecovery_stowed hs
    generalize h.drainIntoRecovery = stowed at hstow
    cases hstow with
    | all =>
      refine harb ?_ hs.size hs.state
      intro d hd
      rcases List.mem_append.mp hd with hd | hd
      · exact hs.held d hd
      · exact hdrained d hd
    | @overflowed kept lost hsplit n _ hover =>
      have hkept : CopiesOf S maxBytes (h.recovery.held ++ kept) := by
        intro d hd
        rcases List.mem_append.mp hd with hd | hd
        · exact hs.held d hd
        · exact hdrained d (hsplit ▸ List.mem_append_left _ hd)
      have hfull := harb (r := { h.recovery with held := h.recovery.held ++ kept })
        (c := h.consumer.count (.unverified n)) hkept hs.size hs.state
      exact hfull.overflowed hst hover
  · rw [drainIntoBooks_eq hs]
    exact harb hs.held hs.size hs.state

theorem taken (hs : Sourced S maxBytes h) (hst : h.startedStream = true) {d : Snapshot}
    (hbound : S.cut.Boundary (d.lastSequence.toNat + 1)) (htaken : Taken S h d h') :
    Sourced S maxBytes h' := by
  cases htaken with
  | discarded => exact hs.withRecovery rfl hs.held rfl hs.state hst hst
  | failed => exact hs.withRecovery rfl hs.held rfl hs.state hst hst
  | applied => exact hs.withRecovery rfl hs.held rfl hs.state hst hst
  | reopened huse hin hok hend hdrain hrest =>
    exact hs.withRecovery rfl (fun x hx => hs.held x (hdrain.rest.subset hx)) rfl (by simp) hst hst
  | completed huse hin hok hend hdrain hrest =>
    refine ⟨hs.arb.resyncTo hbound, by simp, (fun x hx => nomatch hx), hs.size, by simp,
      fun _ => rfl, fun hno => ?_⟩
    exact absurd (hst.symm.trans hno) (by simp)

theorem replayed (hs : Sourced S maxBytes h) (hst : h.startedStream = true) {r : RangeRequest}
    {ds : List Buf} {answer : Bool × FeedHandler B} (hrep : Replayed S h r ds answer) :
    Sourced S maxBytes answer.2 := by
  cases hrep with
  | uncovered => exact hs.withRecovery rfl hs.held rfl hs.state hst hst
  | reopened hcov hdrain hrest =>
    exact hs.withRecovery rfl (fun x hx => hs.held x (hdrain.rest.subset hx)) rfl (by simp) hst hst
  | completed hcov hdrain hrest =>
    refine ⟨hs.arb.clearGapped, by simpa using hs.window, (fun x hx => nomatch hx), hs.size, by simp,
      fun _ => by simpa using hs.started hst, fun hno => ?_⟩
    exact absurd (hst.symm.trans hno) (by simp)

theorem drainQuiet (hs : Sourced S maxBytes h) : Sourced S maxBytes h.drainQuiet := by
  unfold FeedHandler.drainQuiet
  split
  · exact hs
  · rename_i hrec
    by_cases hst : h.startedStream = true
    · have hdrain := hs.drain hst
      rw [FeedHandler.drain, if_neg hrec] at hdrain
      exact hdrain
    · -- Nothing has arrived, so there is nothing to drain.
      have hempty := hs.arb.idle (hs.unstarted (by simpa using hst)).1
      have hhanded := Arbitrator.drainReady_handed hs.arb
      obtain ⟨gone, hperm, hout⟩ := hhanded.split
      have hgone : gone = [] ∧ h.arb.drainReady.2.held = [] := by
        have hlen := hperm.length_eq
        rw [hempty] at hlen
        simpa using hlen.symm
      rw [drainIntoBooks_eq hs]
      have hn : h.arb.drainReady.2.nextExpected = h.arb.nextExpected := by
        have htiles := hhanded.tiles
        rw [hout, hgone.1] at htiles
        exact htiles.symm
      rw [hn, Nat.sub_self]
      refine ⟨hhanded.wf, ?_, hs.held, hs.size, hs.state, fun hno => absurd hno hst, fun hno => ?_⟩
      · rw [show _ = h.arb.drainReady.2.held from rfl, hgone.2]
        simp
      · obtain ⟨harb, hidle, hhist⟩ := hs.unstarted hno
        exact ⟨hhanded.steady.started.trans harb, hidle, hhist⟩

omit [OrderBook B] in
theorem declareStalled (hs : Sourced S maxBytes h) (g : Bool) :
    Sourced S maxBytes (h.declareStalled g) := by
  obtain ⟨hstalled, hw⟩ := Arbitrator.declareGapIfStalled_stalled hs.arb
  unfold FeedHandler.declareStalled
  split
  · generalize h.arb.declareGapIfStalled = stalled at hstalled hw
    obtain ⟨gap, a⟩ := stalled
    cases hstalled with
    | idle hno => exact hs
    | gap hsome hne hn hh hm hk =>
      obtain ⟨s, hs'⟩ := List.exists_mem_of_ne_nil _ hsome
      have hstarted := hs.arb.started_of_held hs'
      have hst : h.startedStream = true := by
        by_contra hno
        rw [(hs.unstarted (by simpa using hno)).1] at hstarted
        cases hstarted
      have harb : Sourced S maxBytes { h with arb := a } :=
        ⟨hw, by rw [show ({ h with arb := a } : FeedHandler B).arb.held = a.held from rfl, hh]
                exact hs.window,
          hs.held, hs.size, hs.state, fun _ => hk.started.trans hstarted,
          fun hno => absurd (hst.symm.trans hno) (by simp)⟩
      exact harb.withBegin hst _
  · exact hs

omit [OrderBook B] in
theorem checkDeadline (hs : Sourced S maxBytes h) (d : Bool) :
    Sourced S maxBytes (h.checkDeadline d) := by
  unfold FeedHandler.checkDeadline
  split
  · rename_i hcond
    obtain ⟨g, hg⟩ := (isRecovering_iff hs).mp (Bool.and_eq_true_iff.mp hcond).1
    have hst := hs.started_of_recovering hg
    exact hs.withRecovery rfl (fun x hx => nomatch hx) rfl
      (by simp [RecoveryBuffer.fail, RecoveryBuffer.reset, FeedHandler.count, FeedHandler.touch])
      hst hst
  · exact hs

/-- **Every step keeps everything buffered a copy.** -/
theorem step (hs : Sourced S maxBytes h) {e : Event} (he : e.Of S maxBytes) :
    Sourced S maxBytes (h.step e) := by
  unfold FeedHandler.step
  split
  · exact hs
  cases e with
  | datagram channel bytes =>
    show Sourced S maxBytes (h.receive channel bytes)
    unfold receive
    rcases he with ⟨first, count, hd⟩ | ⟨d, hfrag, hbound⟩
    · rw [if_neg (by simp [hd.incremental])]
      obtain ⟨hw, hst, hwin⟩ := hs.accept_window channel hd
      have hadm := accept_admitted hs channel (d := ⟨first, count, bytes⟩) hd
      obtain ⟨hon, hstarted⟩ := hs.admitted hw hst hwin hd hadm
      dsimp only
      split
      · exact hon
      · exact hon.drain hstarted
    · rw [if_pos hfrag.snapshot]
      by_cases hrec : h.recovery.isRecovering = true
      · obtain ⟨g, hg⟩ := (isRecovering_iff hs).mp hrec
        exact hs.taken (hs.started_of_recovering hg) hbound (handleSnapshot_taken hs hrec hfrag)
      · rw [handleSnapshot, if_neg hrec]
        exact hs
  | answer datagrams =>
    show Sourced S maxBytes (h.answered datagrams)
    unfold answered
    split
    · exact hs
    · rename_i request hpending
      have hreplayed : Sourced S maxBytes (h.applyReplay request datagrams).2 := by
        by_cases hrec : h.recovery.isRecovering = true
        · obtain ⟨g, hg⟩ := (isRecovering_iff hs).mp hrec
          exact hs.replayed (hs.started_of_recovering hg) (applyReplay_replayed hs hg _ he)
        · rw [applyReplay, if_neg hrec]
          exact hs
      exact ⟨hreplayed.arb, hreplayed.window, hreplayed.held, hreplayed.size, hreplayed.state,
        hreplayed.started, hreplayed.unstarted⟩
  | refused => exact ⟨hs.arb, hs.window, hs.held, hs.size, hs.state, hs.started, hs.unstarted⟩
  | request =>
    show Sourced S maxBytes h.request
    unfold request
    split
    · dsimp only
      split
      · exact ⟨hs.arb, hs.window, hs.held, hs.size, hs.state, hs.started, hs.unstarted⟩
      · exact hs
    · exact hs
  | quiet gapTimeout deadline =>
    exact (hs.drainQuiet.declareStalled gapTimeout).checkDeadline deadline

end Sourced

end MarketData.Handler
