import MarketData.Handler.Frontier
import MarketData.Handler.ExactlyOnce

/-!
# `Handler/Once.lean` — no sequence is applied over itself

The counterpart of `Handler/Whole.lean`: nothing the books reflect lies at or past the point they
are meant to reach, so whatever goes to them next is new. `Once` is the invariant, with what it
needs of the held traffic and the window. Four steps can break it, and `Orderly` names them: a
datagram taken off the wire while its copy waits at the frontier, a snapshot adopted behind the
end of the held traffic, an initial join started over after a snapshot was taken, and an answer
that is not for the hole awaited, reaches past the frontier, or is broken.

## One invariant for every source of messages

Messages reach the books from four sides: off the wire, out of the window, out of the recovery
buffer, and in an answer. Each would be simple on its own. What makes them dangerous is that they
overlap, and **that they do not is one inequality**: what is in the books is below what each of them
may still bring. `Upto` is that inequality for a ledger, in the strong form that the messages are in
order as well, so that appending the next run keeps it.

In an open recovery the held traffic lies between the hole and the frontier, in order (`Waiting`). A
snapshot may reach into it, or past it, and the held messages it covers are then skipped; it may not
lie behind its end, for the reason given in `Handler/Adoption.lean`.

Each of the four exceptions is a condition on the event and the state before it. None is excluded
for the proof's convenience: for each there is a run of the code that applies something twice.
-/

set_option autoImplicit false

namespace MarketData.Handler

open MarketData.Wire MarketData.Book MarketData.Run MarketData.Tiling
open FeedHandler (coverage)

/-! ## Ledgers in order -/

/-- What the books reflect is in order, each message once, and below `n`. -/
structure Ledger.Upto (l : Ledger) (n : Nat) : Prop where
  sorted : (l.base :: l.seqs).Pairwise (· < ·)
  below : ∀ s, l.Reflects s → s < n

namespace Ledger.Upto

variable {l : Ledger} {m n : Nat}

theorem mono (h : l.Upto n) (hle : n ≤ m) : l.Upto m :=
  ⟨h.sorted, fun s hs => Nat.lt_of_lt_of_le (h.below s hs) hle⟩

theorem congr {l' : Ledger} (h : l.Upto n) (hbase : l'.base = l.base) (hseqs : l'.seqs = l.seqs) :
    l'.Upto n := by
  refine ⟨by rw [hbase, hseqs]; exact h.sorted, fun s hs => h.below s ?_⟩
  unfold Reflects at hs ⊢
  rw [hbase, hseqs] at hs
  exact hs

/-- Books that reflect nothing. -/
theorem of_empty (hbase : l.base = 0) (hseqs : l.seqs = []) (n : Nat) : l.Upto n := by
  refine ⟨by rw [hseqs]; exact List.pairwise_singleton .., fun s hs => ?_⟩
  unfold Reflects at hs
  rw [hbase, hseqs] at hs
  rcases hs with hs | hs
  · omega
  · cases hs

theorem add (h : l.Upto n) (hle : n ≤ m) {seqs : List Nat} (hsorted : seqs.Pairwise (· < ·))
    (hmem : ∀ s ∈ seqs, 1 ≤ s ∧ n ≤ s ∧ s < m) : (l.add seqs).Upto m := by
  have hlt : ∀ t ∈ l.base :: l.seqs, ∀ s ∈ seqs, t < s := by
    intro t ht s hs
    obtain ⟨hpos, hge, -⟩ := hmem s hs
    rcases List.mem_cons.mp ht with rfl | ht
    · by_cases hzero : l.base = 0
      · omega
      · have := h.below l.base (.inl ⟨by omega, Nat.le_refl _⟩)
        omega
    · have := h.below t (.inr ht)
      omega
  refine ⟨?_, fun s hs => ?_⟩
  · show ((l.base :: l.seqs) ++ seqs).Pairwise (· < ·)
    exact List.pairwise_append.mpr ⟨h.sorted, hsorted, hlt⟩
  · rcases reflects_add.mp hs with hs | hs
    · exact Nat.lt_of_lt_of_le (h.below s hs) hle
    · exact (hmem s hs).2.2

theorem add_range' (h : l.Upto n) (hpos : 1 ≤ n) (hle : n ≤ m) :
    (l.add (List.range' n (m - n))).Upto m := by
  refine h.add hle List.pairwise_lt_range' fun s hs => ?_
  rw [List.mem_range'_1] at hs
  omega

/-- Books that reflect everything below `n`, and in order, reflect one run of messages on top of
their snapshot. -/
theorem seqs_eq (h : l.Upto n) (hbelow : l.Below n) :
    l.seqs = List.range' (l.base + 1) (n - 1 - l.base) := by
  have hpast := (List.pairwise_cons.mp h.sorted).1
  refine List.Pairwise.eq_of_mem_iff (List.pairwise_cons.mp h.sorted).2 List.pairwise_lt_range'
    fun s => ?_
  rw [List.mem_range'_1]
  constructor
  · intro hs
    have hlo := hpast s hs
    have hhi := h.below s (.inr hs)
    omega
  · intro hs
    rcases hbelow s (by omega) (by omega) with hbase | hmem
    · omega
    · exact hmem

end Ledger.Upto

/-! ## The invariant -/

variable {B : Type} {S : Publication} {maxBytes : Nat}

/-- An open recovery: the held traffic lies, in order, between the hole and the frontier. -/
structure Waiting (held : List Delivery) (g n : Nat) : Prop where
  pos : 1 ≤ g
  le : g ≤ n
  line : InLine held
  within : ∀ d ∈ held, g ≤ d.firstSequence ∧ d.firstSequence + d.count ≤ n

theorem Waiting.nil {g n : Nat} (hpos : 1 ≤ g) (hle : g ≤ n) : Waiting [] g n :=
  ⟨hpos, hle, List.Pairwise.nil, fun _ hd => (nomatch hd)⟩

theorem Waiting.mono {held : List Delivery} {g m n : Nat} (h : Waiting held g m) (hle : m ≤ n) :
    Waiting held g n :=
  ⟨h.pos, Nat.le_trans h.le hle, h.line,
    fun d hd => ⟨(h.within d hd).1, Nat.le_trans (h.within d hd).2 hle⟩⟩

/-- The next stretch of the stream is held. -/
theorem Waiting.append {held out : List Delivery} {g m n : Nat} (h : Waiting held g m)
    (ht : Tiles Delivery.seg m out n) : Waiting (held ++ out) g n := by
  have hle := ht.le
  refine ⟨h.pos, Nat.le_trans h.le hle, List.pairwise_append.mpr ⟨h.line, ht.pairwise, ?_⟩, ?_⟩
  · intro x hx y hy
    exact Nat.le_trans (h.within x hx).2 (ht.bounds hy).1
  · intro d hd
    rcases List.mem_append.mp hd with hd | hd
    · exact ⟨(h.within d hd).1, Nat.le_trans (h.within d hd).2 hle⟩
    · exact ⟨Nat.le_trans h.le (ht.bounds hd).1, (ht.bounds hd).2.2⟩

theorem Waiting.sublist {held held' : List Delivery} {g n : Nat} (h : Waiting held g n)
    (hsub : held'.Sublist held) : Waiting held' g n :=
  ⟨h.pos, h.le, h.line.sublist hsub, fun d hd => h.within d (hsub.subset hd)⟩

/-- What a drain of held traffic leaves waits for the hole it stopped at. -/
theorem Waiting.drained {held : List Delivery} {g n expected stop : Nat}
    {drain : RecoveryBuffer.Drain} (h : Waiting held g n) (hpos : 1 ≤ expected)
    (hdrain : RecoveryBuffer.Drained S expected held drain stop) (hrest : drain.rest ≠ []) :
    Waiting drain.rest stop n := by
  have hle := hdrain.le
  have hline : InLine drain.rest := h.line.sublist hdrain.rest.sublist
  have hpast : ∀ d ∈ drain.rest, stop ≤ d.firstSequence := by
    intro d hd
    cases hsplit : drain.rest with
    | nil => exact absurd hsplit hrest
    | cons x rest =>
      have hx : stop < x.firstSequence := hdrain.past x (by rw [hsplit]; rfl)
      rw [hsplit] at hd hline
      rcases List.mem_cons.mp hd with rfl | hd
      · exact Nat.le_of_lt hx
      · have : x.firstSequence + x.count ≤ d.firstSequence := (List.pairwise_cons.mp hline).1 d hd
        omega
  have hwithin := fun d hd => (h.within d (hdrain.rest.subset hd)).2
  obtain ⟨x, hx⟩ := List.exists_mem_of_ne_nil _ hrest
  refine ⟨by omega, ?_, hline, fun d hd => ⟨hpast d hd, hwithin d hd⟩⟩
  have := hpast x hx
  have := hwithin x hx
  omega

structure Once (h : FeedHandler B) : Prop where
  ledger : h.ledger.Upto (reach h)
  /-- Nothing in the reorder window lies behind the frontier. -/
  fresh : h.arb.Fresh
  hole : ∀ g, h.recovery.state = .awaitingSnapshot g →
    Waiting h.recovery.held g h.arb.nextExpected
  started : h.startedStream = true → 1 ≤ h.arb.nextExpected
  pending : ∀ r, h.pendingReplay = some r → r.Proper

namespace Once

variable {h h' : FeedHandler B}

theorem reach_le (ho : Once h) (hs : Sourced S maxBytes h) : reach h ≤ h.arb.nextExpected := by
  cases hstate : h.recovery.state with
  | idle => exact Nat.le_of_eq (reach_idle hstate)
  | awaitingSnapshot g => exact reach_awaiting hstate ▸ (ho.hole g hstate).le
  | reconciling n => exact absurd hstate (hs.state n)

theorem of_idle (hidle : h.recovery.state = .idle) (hledger : h.ledger.Upto h.arb.nextExpected)
    (hfresh : h.arb.Fresh) (hpos : 1 ≤ h.arb.nextExpected)
    (hpending : ∀ r, h.pendingReplay = some r → r.Proper) : Once h where
  ledger := (reach_idle hidle).symm ▸ hledger
  fresh := hfresh
  hole g hg := absurd (hidle.symm.trans hg) (by simp)
  started _ := hpos
  pending := hpending

theorem of_awaiting {g : Nat} (hg : h.recovery.state = .awaitingSnapshot g)
    (hledger : h.ledger.Upto g) (hfresh : h.arb.Fresh)
    (hwait : Waiting h.recovery.held g h.arb.nextExpected)
    (hpending : ∀ r, h.pendingReplay = some r → r.Proper) : Once h where
  ledger := (reach_awaiting hg).symm ▸ hledger
  fresh := hfresh
  hole _ hg' := Recovery.awaitingSnapshot.inj (hg.symm.trans hg') ▸ hwait
  started _ := Nat.le_trans hwait.pos hwait.le
  pending := hpending

/-- A step that changes neither the arbitrator nor the recovery nor what the books reflect. -/
theorem of_same (ho : Once h) (harb : h'.arb = h.arb) (hrec : h'.recovery = h.recovery)
    (hbase : h'.ledger.base = h.ledger.base) (hseqs : h'.ledger.seqs = h.ledger.seqs)
    (hst : h'.startedStream = h.startedStream)
    (hpending : ∀ r, h'.pendingReplay = some r → r.Proper) : Once h' where
  ledger := by
    have hreach : reach h' = reach h := by
      unfold reach
      rw [hrec, harb]
    exact hreach ▸ ho.ledger.congr hbase hseqs
  fresh := harb ▸ ho.fresh
  hole := by rw [hrec, harb]; exact ho.hole
  started := by rw [hst, harb]; exact ho.started
  pending := hpending

/-- The frontier moves on while a recovery is open, or stays where it is. -/
theorem of_advance (ho : Once h) {a : Arbitrator} (hfresh : a.Fresh)
    (hle : h.arb.nextExpected ≤ a.nextExpected)
    (hsame : h.recovery.state = .idle → a.nextExpected = h.arb.nextExpected) :
    Once { h with arb := a } where
  ledger := by
    refine ho.ledger.mono (Nat.le_of_eq ?_)
    unfold reach
    cases hstate : h.recovery.state with
    | idle => exact (hsame hstate).symm
    | awaitingSnapshot g => rfl
    | reconciling n => rfl
  fresh := hfresh
  hole g hg := (ho.hole g hg).mono hle
  started hst := Nat.le_trans (ho.started hst) hle
  pending := ho.pending

/-- A recovery begins at the frontier, if none is open. -/
theorem begin (ho : Once h) (hst : h.startedStream = true) {a : Arbitrator} (hfresh : a.Fresh)
    (hle : h.arb.nextExpected ≤ a.nextExpected) :
    Once { h with arb := a, recovery := h.recovery.begin h.arb.nextExpected } := by
  by_cases hrec : h.recovery.isRecovering = true
  · have hsame : h.recovery.begin h.arb.nextExpected = h.recovery := by
      rw [RecoveryBuffer.begin, if_pos hrec]
    rw [hsame]
    refine ho.of_advance hfresh hle fun hidle => ?_
    simp [RecoveryBuffer.isRecovering, hidle] at hrec
  · have hidle := isRecovering_eq_false.mp (by simpa using hrec)
    have hbegin : h.recovery.begin h.arb.nextExpected =
        { h.recovery with state := .awaitingSnapshot h.arb.nextExpected, held := [] } := by
      rw [RecoveryBuffer.begin, if_neg hrec]
    rw [hbegin]
    exact of_awaiting rfl (reach_idle hidle ▸ ho.ledger) hfresh (.nil (ho.started hst) hle)
      ho.pending

theorem overflowed (ho : Once h) (hs : Sourced S maxBytes h) (hst : h.startedStream = true)
    (hover : FeedHandler.Overflowed h h')
    (hrearm : h.initialJoinRetries < h'.initialJoinRetries → ∀ s, ¬ h.ledger.Reflects s) :
    Once h' := by
  have hpos := ho.started hst
  have hledger := ho.ledger.mono (ho.reach_le hs)
  cases hover with
  | rearmed hjoined hnone =>
    refine of_awaiting rfl ⟨ho.ledger.sorted, fun s hs => ?_⟩ ho.fresh (.nil (Nat.le_refl 1) hpos)
      ho.pending
    exact absurd hs (hrearm (Nat.lt_succ_self _) s)
  | ended => exact of_idle rfl hledger ho.fresh hpos ho.pending
  | forsaken =>
    refine of_idle rfl (Ledger.Upto.congr (l := h.ledger) hledger ?_ ?_) ho.fresh hpos ho.pending
    · simp [FeedHandler.ledger, FeedHandler.touch, FeedHandler.count, Ledger.touch]
    · simp [FeedHandler.ledger, FeedHandler.touch, FeedHandler.count, Ledger.touch]

/-- The handler that is about to take its next datagram. -/
theorem joined (ho : Once h) (hs : Sourced S maxBytes h) {first : Nat} (hpos : 1 ≤ first)
    (hfirst : h.startedStream = true → first = h.arb.nextExpected) :
    ((h.joinStream first).recovery.state = .idle → h.ledger.Upto first) ∧
      ∀ g, (h.joinStream first).recovery.state = .awaitingSnapshot g →
        h.ledger.Upto g ∧ Waiting (h.joinStream first).recovery.held g first := by
  by_cases hst : h.startedStream = true
  · have hsame : h.joinStream first = h := by
      rw [FeedHandler.joinStream, if_pos hst]
    rw [hsame, hfirst hst]
    exact ⟨fun hidle => reach_idle hidle ▸ ho.ledger,
      fun g hg => ⟨reach_awaiting hg ▸ ho.ledger, ho.hole g hg⟩⟩
  · obtain ⟨-, hidle, hhist⟩ := hs.unstarted (by simpa using hst)
    have hempty : ∀ n, h.ledger.Upto n := by
      have hledger : h.ledger = {} := by
        rw [FeedHandler.ledger, Consumer.ledger, hhist]
        rfl
      rw [hledger]
      exact Ledger.Upto.of_empty rfl rfl
    have hrec : (h.joinStream first).recovery =
        if first ≠ 1 then h.recovery.begin 1 else h.recovery := by
      rw [FeedHandler.joinStream, if_neg hst]
    have hbegin : h.recovery.begin 1 =
        { h.recovery with state := .awaitingSnapshot 1, held := [] } := by
      simp [RecoveryBuffer.begin, RecoveryBuffer.isRecovering, hidle]
    refine ⟨fun _ => hempty first, fun g hg => ?_⟩
    rw [hrec] at hg ⊢
    split at hg
    · rename_i hne
      rw [if_pos hne]
      rw [hbegin] at hg ⊢
      cases hg
      exact ⟨hempty 1, .nil (Nat.le_refl 1) hpos⟩
    · rw [hidle] at hg
      cases hg

theorem pendingReplay_joinStream (h : FeedHandler B) (first : Nat) :
    (h.joinStream first).pendingReplay = h.pendingReplay := by
  unfold FeedHandler.joinStream
  split <;> rfl

theorem initialJoinRetries_joinStream (h : FeedHandler B) (first : Nat) :
    (h.joinStream first).initialJoinRetries = h.initialJoinRetries := by
  unfold FeedHandler.joinStream
  split <;> rfl

/-- What accepting a copy does to the window, unless its own copy waits at the frontier. -/
theorem accept_fresh (ho : Once h) (hs : Sourced S maxBytes h) (channel : Nat) {bytes : Buf}
    {first count : Nat} (hd : S.Copy maxBytes bytes first count)
    (hsafe : NoCopyAtFrontier h.arb (.accept channel bytes)) :
    (h.arb.accept channel bytes).2.Fresh ∧
      (h.startedStream = true →
        h.arb.nextExpected ≤ (h.arb.accept channel bytes).2.nextExpected) := by
  obtain ⟨b, hopen, hwb, hplaced, -⟩ := Arbitrator.accept_placed hs.arb channel hd.copy
  have hnext : h.arb.started = true → b.nextExpected = h.arb.nextExpected := fun hst => by
    rw [hopen.next, if_pos hst]
  have hfresh : b.Fresh := by
    intro s hs'
    rw [hopen.held] at hs'
    rw [hnext (hs.arb.started_of_held hs')]
    exact ho.fresh s hs'
  refine ⟨hplaced.fresh hwb hfresh hd.copy ?_, fun hst => ?_⟩
  · intro hf s hs'
    rw [hopen.held] at hs'
    have hst := hs.arb.started_of_held hs'
    rw [hnext hst] at hf ⊢
    exact hsafe first count hd.copy.carries hst hf s hs'
  · rw [← hnext (hs.started hst)]
    exact hplaced.mono hwb hfresh

variable [OrderBook B]

theorem admitted (ho : Once h) (hs : Sourced S maxBytes h) {a : Arbitrator} (hfresh : a.Fresh)
    (hle : h.startedStream = true → h.arb.nextExpected ≤ a.nextExpected) {d : Delivery}
    (hd : S.Copy maxBytes d.bytes d.firstSequence d.count)
    (hjoined : Sourced S maxBytes { h.joinStream d.firstSequence with arb := a })
    (hadm : FeedHandler.Admitted S h a d h')
    (hrearm : h.initialJoinRetries < h'.initialJoinRetries → ∀ s, ¬ h.ledger.Reflects s) :
    Once h' := by
  have hpos : 1 ≤ d.firstSequence := S.positive hd.copy.mem
  have hcount := S.cut.pos hd.copy.mem
  have hledger := Whole.ledger_joinStream h d.firstSequence
  have hpending : ∀ r, (h.joinStream d.firstSequence).pendingReplay = some r → r.Proper := by
    rw [pendingReplay_joinStream]
    exact ho.pending
  cases hadm with
  | same hst hn => exact ho.of_advance hfresh (hle hst) fun _ => hn
  | gap hst => exact ho.begin hst hfresh (hle hst)
  | applied hfirst hidle hn =>
    refine of_idle hidle ?_ hfresh (by dsimp only; omega) hpending
    show (Consumer.applyAll S _ _ _).ledger.Upto a.nextExpected
    rw [Consumer.ledger_applyAll, ← FeedHandler.ledger, hledger, hn]
    have hupto := ((ho.joined hs hpos hfirst).1 hidle).add_range' hpos
      (Nat.le_add_right d.firstSequence d.count)
    rwa [Nat.add_sub_cancel_left] at hupto
  | held hfirst hrec hn =>
    obtain ⟨hupto, hwait⟩ := (ho.joined hs hpos hfirst).2 _ hrec
    refine of_awaiting hrec (hledger.symm ▸ hupto) hfresh ?_ hpending
    have htile : Tiles Delivery.seg d.firstSequence [d] a.nextExpected :=
      tiles_singleton rfl hn.symm (by omega)
    exact hwait.append htile
  | overflowed hfirst hrec hn hover =>
    obtain ⟨hupto, hwait⟩ := (ho.joined hs hpos hfirst).2 _ hrec
    have hfull : Once { h.joinStream d.firstSequence with arb := a } :=
      of_awaiting hrec (hledger.symm ▸ hupto) hfresh (hwait.mono (by dsimp only; omega)) hpending
    refine hfull.overflowed hjoined (Sourced.startedStream_joinStream h d.firstSequence) hover ?_
    intro hlt s hs'
    have hretries : h.initialJoinRetries < h'.initialJoinRetries := by
      rw [← initialJoinRetries_joinStream h d.firstSequence]
      exact hlt
    refine hrearm hretries s ?_
    rw [← hledger]
    exact hs'

theorem drain (ho : Once h) (hs : Sourced S maxBytes h) (hst : h.startedStream = true)
    (hrearm : h.initialJoinRetries < h.drain.initialJoinRetries → ∀ s, ¬ h.ledger.Reflects s) :
    Once h.drain := by
  have hspec := Arbitrator.drainReady_spec hs.arb ho.fresh
  have hsourced := hs.drain hst
  unfold FeedHandler.drain at hrearm hsourced ⊢
  split at hrearm
  · rename_i hrec
    rw [if_pos hrec] at hsourced ⊢
    obtain ⟨g, hg⟩ := (isRecovering_iff hs).mp hrec
    have hledger := ho.ledger
    rw [reach_awaiting hg] at hledger
    have hwait := (ho.hole g hg).append hspec.tiles
    have hstow := FeedHandler.drainIntoRecovery_stowed hs
    generalize h.drainIntoRecovery = stowed at hstow hrearm hsourced
    cases hstow with
    | all => exact of_awaiting hg hledger hspec.drained.fresh hwait ho.pending
    | @overflowed kept lost hsplit n _ hover =>
      have hsub : (h.recovery.held ++ kept).Sublist (h.recovery.held ++ h.arb.drainReady.1) := by
        rw [hsplit]
        exact (List.Sublist.refl _).append (List.sublist_append_left ..)
      have hkept : CopiesOf S maxBytes (h.recovery.held ++ kept) := by
        intro d hd
        rcases List.mem_append.mp (hsub.subset hd) with hd | hd
        · exact hs.held d hd
        · exact FeedHandler.Sourced.drained hs d hd
      have hhanded := Arbitrator.drainReady_handed hs.arb
      obtain ⟨gone, hperm, -⟩ := hhanded.split
      have hfull : Sourced S maxBytes { h.count (.unverified n) with
          arb := h.arb.drainReady.2
          recovery := { h.recovery with held := h.recovery.held ++ kept } } :=
        ⟨hhanded.wf, fun s hs' => hs.window s (hperm.mem_iff.mpr (List.mem_append_right _ hs')),
          hkept, hs.size, hs.state, fun hst => hhanded.steady.started.trans (hs.started hst),
          fun hno => absurd (hst.symm.trans hno) (by simp)⟩
      have hbefore : Once { h.count (.unverified n) with
          arb := h.arb.drainReady.2
          recovery := { h.recovery with held := h.recovery.held ++ kept } } :=
        of_awaiting hg hledger hspec.drained.fresh (hwait.sublist hsub) ho.pending
      exact hbefore.overflowed hfull hst hover hrearm
  · rename_i hrec
    rw [if_neg hrec]
    have hidle := isRecovering_eq_false.mp (by simpa using hrec)
    have hle := hspec.tiles.le
    have hpos := ho.started hst
    rw [FeedHandler.drainIntoBooks_eq hs]
    refine of_idle hidle ?_ hspec.drained.fresh (Nat.le_trans hpos hle) ho.pending
    show (Consumer.applyAll S _ _ _).ledger.Upto h.arb.drainReady.2.nextExpected
    rw [Consumer.ledger_applyAll]
    exact (reach_idle hidle ▸ ho.ledger).add_range' hpos hle

/-- A fragment that does not end a cycle adds nothing to what the books reflect. -/
theorem fragment (ho : Once h) (d : Snapshot) {f : HandlerStats → HandlerStats} {b : Bool} :
    Once { (h.applyFragment d).count f with inCycle := b } := by
  by_cases hstart : d.cycleStart = true
  · have hledger : ({ (h.applyFragment d).count f with inCycle := b } : FeedHandler B).ledger =
        (h.ledger.touch .cleared).touch (.fragment d) := by
      simp [FeedHandler.ledger, FeedHandler.count, FeedHandler.applyFragment, hstart,
        Consumer.ledger, Consumer.count, Consumer.touch]
    refine ⟨?_, ho.fresh, ho.hole, ho.started, ho.pending⟩
    rw [hledger]
    exact Ledger.Upto.of_empty rfl rfl _
  · have hledger : ({ (h.applyFragment d).count f with inCycle := b } : FeedHandler B).ledger =
        h.ledger.touch (.fragment d) := by
      simp [FeedHandler.ledger, FeedHandler.count, FeedHandler.applyFragment, hstart,
        Consumer.ledger, Consumer.count, Consumer.touch]
    exact ho.of_same rfl rfl (by rw [hledger]; rfl) (by rw [hledger]; rfl) rfl ho.pending

/-- A snapshot behind the end of the held traffic is not adopted. -/
def SnapshotFits (h : FeedHandler B) (d : Snapshot) : Prop :=
  h.recovery.snapshotIsUsable d.lastSequence.toNat = true → d.cycleStart = true ∨ h.inCycle = true →
    d.cycleEnd = true → h.recovery.heldDiscontinuity (d.lastSequence.toNat + 1) = none →
      ∀ x ∈ h.recovery.held, x.firstSequence + x.count ≤ d.lastSequence.toNat + 1

theorem taken (ho : Once h) (hs : Sourced S maxBytes h) {g : Nat}
    (hg : h.recovery.state = .awaitingSnapshot g) {d : Snapshot} (hfits : SnapshotFits h d)
    (htaken : FeedHandler.Taken S h d h') : Once h' := by
  have hwait := ho.hole g hg
  have hadopted : ∀ (l : Ledger) {n : Nat}, d.lastSequence.toNat + 1 ≤ n →
      ((l.touch (.adopted d.lastSequence.toNat)).add (List.range' (d.lastSequence.toNat + 1)
        (n - (d.lastSequence.toNat + 1)))).Upto n := by
    intro l n hle
    have hbase : (l.touch (.adopted d.lastSequence.toNat)).Upto (d.lastSequence.toNat + 1) := by
      refine ⟨List.pairwise_singleton .., fun s hs' => ?_⟩
      rcases hs' with hs' | hs'
      · exact Nat.lt_succ_of_le hs'.2
      · cases hs'
    exact hbase.add_range' (Nat.le_add_left ..) hle
  cases htaken with
  | discarded => exact ho.of_same rfl rfl rfl rfl rfl ho.pending
  | failed => exact ho.fragment d
  | applied => exact ho.fragment d (f := id)
  | @reopened drain stop huse hin hok hend hdrain hrest =>
    refine of_awaiting (g := stop) rfl ?_ ho.fresh
      (hwait.drained (Nat.le_add_left ..) hdrain hrest) ho.pending
    show (Consumer.applyAll S _ _ _).ledger.Upto stop
    rw [Consumer.ledger_applyAll, Consumer.ledger_touch]
    exact hadopted _ hdrain.le
  | completed huse hin hok hend hdrain hrest =>
    have hhole : h.recovery.heldDiscontinuity (d.lastSequence.toNat + 1) = none := by
      rw [RecoveryBuffer.heldDiscontinuity, hdrain.hole, hrest]
      rfl
    have hnone : heldSeqs (d.lastSequence.toNat + 1) h.recovery.held = [] := by
      refine List.eq_nil_iff_forall_not_mem.mpr fun s hs' => ?_
      obtain ⟨hlo, x, hx, hcover⟩ := (mem_heldSeqs hs.held).mp hs'
      have := hfits huse hin hend hhole x hx
      simp only [Covers, Delivery.seg] at hcover
      omega
    refine of_idle rfl ?_ ?_ (Nat.le_add_left ..) ho.pending
    · show (Consumer.touch (Consumer.count (Consumer.applyAll S _ _ _) _) _).ledger.Upto
        (d.lastSequence.toNat + 1)
      rw [hnone, Consumer.ledger_touch, Consumer.ledger_count, Consumer.ledger_applyAll,
        Consumer.ledger_count, Consumer.ledger_touch]
      have hupto := hadopted (h.applyFragment d).consumer.ledger (Nat.le_refl _)
      rw [Nat.sub_self] at hupto
      exact hupto
    · intro s hs'
      simp at hs'

/-- An answer leaves the frontier, the window and the request where they are. -/
theorem applyReplay_frame (hs : Sourced S maxBytes h) {g : Nat}
    (hg : h.recovery.state = .awaitingSnapshot g) (r : RangeRequest) {ds : List Buf}
    (hds : AnswerOf S maxBytes ds) :
    (h.applyReplay r ds).2.arb.nextExpected = h.arb.nextExpected ∧
      (h.applyReplay r ds).2.arb.held = h.arb.held ∧
      (h.applyReplay r ds).2.pendingReplay = h.pendingReplay := by
  have hrep := FeedHandler.applyReplay_replayed hs hg r hds
  generalize h.applyReplay r ds = answer at hrep
  cases hrep with
  | uncovered => exact ⟨rfl, rfl, rfl⟩
  | reopened => exact ⟨rfl, rfl, rfl⟩
  | completed =>
    exact ⟨Arbitrator.nextExpected_clearGapped _, Arbitrator.held_clearGapped _, rfl⟩

/-- An answer that carries anything of its range is for the hole awaited, ends below the
frontier and is unbroken. -/
def AnswerInPlace (h : FeedHandler B) (r : RangeRequest) (ds : List Buf) (g : Nat) : Prop :=
  answerSeqs r ds ≠ [] → r.fromSeq = g ∧ r.through < h.arb.nextExpected ∧ Unbroken r ds

/-- An answer without anything of its range does nothing. -/
theorem applyReplay_of_empty (hs : Sourced S maxBytes h) {g : Nat}
    (hg : h.recovery.state = .awaitingSnapshot g) {r : RangeRequest} (hr : r.Proper)
    {ds : List Buf} (hds : AnswerOf S maxBytes ds) (hempty : answerSeqs r ds = []) :
    h.applyReplay r ds = (false, h) := by
  have hcov : (coverage r ds).through < r.fromSeq := by
    by_contra hno
    have hmem := mem_answerSeqs_of_covered hds (Nat.le_refl _) hr.pos (Nat.le_of_not_lt hno)
    rw [hempty] at hmem
    cases hmem
  have hrep := FeedHandler.applyReplay_replayed hs hg r hds
  generalize h.applyReplay r ds = answer at hrep
  cases hrep with
  | uncovered => rw [FeedHandler.answeredBy, hempty, Consumer.applyAll_nil]
  | reopened hle => exact absurd hcov (Nat.not_lt.mpr hle)
  | completed hle => exact absurd hcov (Nat.not_lt.mpr hle)

theorem replayed (ho : Once h) (hs : Sourced S maxBytes h) {g : Nat}
    (hg : h.recovery.state = .awaitingSnapshot g) {r : RangeRequest} (hr : r.Proper)
    {ds : List Buf} (hds : AnswerOf S maxBytes ds) (hplace : AnswerInPlace h r ds g) :
    Once (h.applyReplay r ds).2 := by
  by_cases hempty : answerSeqs r ds = []
  · rw [applyReplay_of_empty hs hg hr hds hempty]
    exact ho
  obtain ⟨rfl, hthrough, hunbroken⟩ := hplace hempty
  obtain ⟨new, hadd, hf⟩ := applyReplay_filled (r := r) hs hg hds
  obtain ⟨hnext, hheld, hpending⟩ := applyReplay_frame hs hg r hds
  have hwait := ho.hole r.fromSeq hg
  have hledger := ho.ledger
  rw [reach_awaiting hg] at hledger
  have hbounds := coverage_bounds hr hds
  have hpos := hr.pos
  have hfresh : (h.applyReplay r ds).2.arb.Fresh := by
    unfold Arbitrator.Fresh
    rw [hnext, hheld]
    exact ho.fresh
  have hpend : ∀ r', (h.applyReplay r ds).2.pendingReplay = some r' → r'.Proper := by
    rw [hpending]
    exact ho.pending
  have hanswer : (h.ledger.add (answerSeqs r ds)).Upto ((coverage r ds).through + 1) := by
    rw [hunbroken.answerSeqs_eq hr hds]
    exact hledger.add_range' hpos (by omega)
  cases hf with
  | uncovered hcov =>
    obtain ⟨s, hs'⟩ := List.exists_mem_of_ne_nil _ hempty
    have := (mem_answerSeqs.mp hs').1
    have := hunbroken.le_coverage hr hds hs'
    omega
  | reopened hcov hdrain hrest hkept hstate =>
    refine of_awaiting hstate ?_ hfresh ?_ hpend
    · rw [hadd, ← Ledger.add_add]
      exact hanswer.add_range' (Nat.le_add_left ..) hdrain.le
    · rw [hkept, hnext]
      exact hwait.drained (Nat.le_add_left ..) hdrain hrest
  | completed hcov hdrain hrest hstate =>
    refine of_idle hstate ?_ hfresh (by rw [hnext]; exact Nat.le_trans hwait.pos hwait.le) hpend
    rw [hadd, hnext, ← Ledger.add_add]
    refine hanswer.add (by omega) (heldSeqs_sorted hwait.line _) fun s hs' => ?_
    obtain ⟨hlo, x, hx, hcover⟩ := (mem_heldSeqs hs.held).mp hs'
    have := (hwait.within x hx).2
    simp only [Covers, Delivery.seg] at hcover
    omega

theorem drainQuiet (ho : Once h) (hs : Sourced S maxBytes h) : Once h.drainQuiet := by
  unfold FeedHandler.drainQuiet
  split
  · exact ho
  · rename_i hrec
    by_cases hst : h.startedStream = true
    · have hbooks : h.drain = h.drainIntoBooks := by
        rw [FeedHandler.drain, if_neg hrec]
      have hdrain := ho.drain hs hst fun hlt => by
        rw [hbooks] at hlt
        exact absurd hlt (Nat.lt_irrefl _)
      rw [hbooks] at hdrain
      exact hdrain
    · -- Nothing has arrived, so there is nothing to drain.
      have hspec := Arbitrator.drainReady_spec hs.arb ho.fresh
      obtain ⟨gone, hperm, hout⟩ := hspec.split
      rw [hs.arb.idle (hs.unstarted (by simpa using hst)).1] at hperm
      have hgone : gone = [] := (List.append_eq_nil_iff.mp (List.nil_perm.mp hperm)).1
      have hn : h.arb.drainReady.2.nextExpected = h.arb.nextExpected := by
        have htiles := hspec.tiles
        rw [hout, hgone] at htiles
        exact htiles.symm
      rw [FeedHandler.drainIntoBooks_eq hs, hn, Nat.sub_self]
      exact ho.of_advance hspec.drained.fresh (Nat.le_of_eq hn.symm) fun _ => hn

omit [OrderBook B] in
theorem declareStalled (ho : Once h) (hs : Sourced S maxBytes h) (b : Bool) :
    Once (h.declareStalled b) := by
  obtain ⟨hstalled, hw⟩ := Arbitrator.declareGapIfStalled_stalled hs.arb
  unfold FeedHandler.declareStalled
  split
  · generalize h.arb.declareGapIfStalled = stalled at hstalled hw
    obtain ⟨gap, a⟩ := stalled
    cases hstalled with
    | idle hno => exact ho
    | gap hsome hne hn hh hm hk =>
      obtain ⟨s, hs'⟩ := List.exists_mem_of_ne_nil _ hsome
      have hst : h.startedStream = true := by
        by_contra hno
        have hstarted := hs.arb.started_of_held hs'
        rw [(hs.unstarted (by simpa using hno)).1] at hstarted
        cases hstarted
      refine ho.begin hst ?_ ?_
      · intro s hs'
        rw [hn]
        exact Arbitrator.gapTarget_le (hh ▸ hs')
      · rw [hn]
        exact ho.fresh.le_gapTarget hsome
  · exact ho

omit [OrderBook B] in
theorem checkDeadline (ho : Once h) (hs : Sourced S maxBytes h) (b : Bool) :
    Once (h.checkDeadline b) := by
  unfold FeedHandler.checkDeadline
  split
  · rename_i hcond
    obtain ⟨g, hg⟩ := (isRecovering_iff hs).mp (Bool.and_eq_true_iff.mp hcond).1
    have hwait := ho.hole g hg
    have hledger := ho.ledger.mono (ho.reach_le hs)
    refine of_idle rfl (Ledger.Upto.congr (l := h.ledger) hledger ?_ ?_) ho.fresh
      (Nat.le_trans hwait.pos hwait.le) ho.pending
    · simp [FeedHandler.ledger, FeedHandler.touch, FeedHandler.count, Ledger.touch]
    · simp [FeedHandler.ledger, FeedHandler.touch, FeedHandler.count, Ledger.touch]
  · exact ho

end Once

variable [OrderBook B]

/-- What keeps a step from applying anything over itself. -/
structure Orderly (h : FeedHandler B) (e : Event) : Prop where
  /-- A datagram is not taken off the wire while its copy waits at the frontier. -/
  copy : ∀ channel bytes, e = .datagram channel bytes →
    NoCopyAtFrontier h.arb (.accept channel bytes)
  /-- A snapshot behind the end of the held traffic is not adopted. -/
  snapshot : ∀ channel bytes d, e = .datagram channel bytes → IsFragment bytes d →
    Once.SnapshotFits h d
  /-- The initial join is started over only while the books reflect nothing. -/
  rearm : h.initialJoinRetries < (h.step e).initialJoinRetries → ∀ s, ¬ h.ledger.Reflects s
  /-- An answer in an open recovery is for its hole, ends below the frontier and is unbroken. -/
  answer : ∀ ds r g, e = .answer ds → h.pendingReplay = some r →
    h.recovery.state = .awaitingSnapshot g → Once.AnswerInPlace h r ds g

omit [OrderBook B] in
theorem initialJoinRetries_overflowed {h h' : FeedHandler B} (hover : FeedHandler.Overflowed h h') :
    h.initialJoinRetries ≤ h'.initialJoinRetries := by
  cases hover with
  | rearmed => exact Nat.le_succ _
  | ended => exact Nat.le_refl _
  | forsaken => exact Nat.le_refl _

theorem initialJoinRetries_admitted {h h' : FeedHandler B} {a : Arbitrator} {d : Delivery}
    (hadm : FeedHandler.Admitted S h a d h') : h.initialJoinRetries ≤ h'.initialJoinRetries := by
  have hjoin := Once.initialJoinRetries_joinStream h d.firstSequence
  cases hadm with
  | same => exact Nat.le_refl _
  | gap => exact Nat.le_refl _
  | applied => exact Nat.le_of_eq hjoin.symm
  | held => exact Nat.le_of_eq hjoin.symm
  | overflowed _ _ _ hover =>
    have hle := initialJoinRetries_overflowed hover
    exact Nat.le_trans (Nat.le_of_eq hjoin.symm) hle

theorem initialJoinRetries_drain {h : FeedHandler B} (hs : Sourced S maxBytes h) :
    h.initialJoinRetries ≤ h.drain.initialJoinRetries := by
  unfold FeedHandler.drain
  split
  · have hstow := FeedHandler.drainIntoRecovery_stowed hs
    generalize h.drainIntoRecovery = stowed at hstow
    cases hstow with
    | all => exact Nat.le_refl _
    | overflowed hsplit n hover =>
      have hle := initialJoinRetries_overflowed hover
      exact hle
  · exact Nat.le_refl _

/-- A datagram that leaves a recovery open has put nothing into the books. -/
theorem ledger_admitted {h h' : FeedHandler B} {a : Arbitrator} {d : Delivery}
    (hadm : FeedHandler.Admitted S h a d h') (hrec : h'.recovery.isRecovering = true) :
    h'.ledger = h.ledger := by
  have hjoin := Whole.ledger_joinStream h d.firstSequence
  cases hadm with
  | same => rfl
  | gap => rfl
  | applied hfirst hidle => simp [RecoveryBuffer.isRecovering, hidle] at hrec
  | held => exact hjoin
  | overflowed _ _ _ hover =>
    cases hover with
    | rearmed => exact hjoin
    | ended => simp [RecoveryBuffer.isRecovering] at hrec
    | forsaken => simp [RecoveryBuffer.isRecovering, FeedHandler.touch] at hrec

theorem Once.received {h : FeedHandler B} (ho : Once h) (hs : Sourced S maxBytes h)
    (channel : Nat) {bytes : Buf} {first count : Nat} (hd : S.Copy maxBytes bytes first count)
    (hsafe : NoCopyAtFrontier h.arb (.accept channel bytes))
    (hrearm : h.initialJoinRetries < (h.receive channel bytes).initialJoinRetries →
      ∀ s, ¬ h.ledger.Reflects s) : Once (h.receive channel bytes) := by
  obtain ⟨hw, hst, hwin⟩ := hs.accept_window channel hd
  obtain ⟨hfresh, hle⟩ := ho.accept_fresh hs channel hd hsafe
  have hadm := FeedHandler.accept_admitted hs channel (d := ⟨first, count, bytes⟩) hd
  obtain ⟨hon, hstarted⟩ := hs.admitted hw hst hwin hd hadm
  have hretries := initialJoinRetries_admitted hadm
  unfold FeedHandler.receive at hrearm ⊢
  rw [if_neg (by simp [hd.incremental])] at hrearm ⊢
  dsimp only at hrearm ⊢
  have hmore := initialJoinRetries_drain hon
  have hledger := ledger_admitted hadm
  have hadmitted := fun hr => ho.admitted hs hfresh hle hd (hs.joined hw hst hwin first) hadm hr
  generalize ({ h with arb := (h.arb.accept channel bytes).2 } : FeedHandler B).onAccepted bytes
    (h.arb.accept channel bytes).1 = h' at *
  split at hrearm
  · rename_i hended
    rw [if_pos hended]
    exact hadmitted hrearm
  · rename_i hended
    rw [if_neg hended]
    have hon' := hadmitted fun hlt => hrearm (Nat.lt_of_lt_of_le hlt hmore)
    refine hon'.drain hon hstarted fun hlt s => ?_
    by_cases hrec : h'.recovery.isRecovering = true
    · rw [hledger hrec]
      exact hrearm (Nat.lt_of_le_of_lt hretries hlt) s
    · rw [FeedHandler.drain, if_neg hrec] at hlt
      exact absurd hlt (Nat.lt_irrefl _)

/-- **Every orderly step applies nothing over itself.** -/
theorem Once.step {h : FeedHandler B} (ho : Once h) (hs : Sourced S maxBytes h) {e : Event}
    (he : e.Of S maxBytes) (hord : Orderly h e) : Once (h.step e) := by
  have hrearm := hord.rearm
  unfold FeedHandler.step at hrearm ⊢
  split at hrearm
  · rename_i hended
    rw [if_pos hended]
    exact ho
  rename_i hended
  rw [if_neg hended]
  cases e with
  | datagram channel bytes =>
    rcases he with ⟨first, count, hd⟩ | ⟨d, hfrag, hbound⟩
    · exact ho.received hs channel hd (hord.copy channel bytes rfl) hrearm
    · show Once (h.receive channel bytes)
      rw [FeedHandler.receive, if_pos hfrag.snapshot]
      by_cases hrec : h.recovery.isRecovering = true
      · obtain ⟨g, hg⟩ := (isRecovering_iff hs).mp hrec
        exact ho.taken hs hg (hord.snapshot channel bytes d rfl hfrag)
          (FeedHandler.handleSnapshot_taken hs hrec hfrag)
      · rw [FeedHandler.handleSnapshot, if_neg hrec]
        exact ho
  | answer datagrams =>
    show Once (h.answered datagrams)
    unfold FeedHandler.answered
    split
    · exact ho
    · rename_i request hpending
      have hreplayed : Once (h.applyReplay request datagrams).2 := by
        by_cases hrec : h.recovery.isRecovering = true
        · obtain ⟨g, hg⟩ := (isRecovering_iff hs).mp hrec
          exact ho.replayed hs hg (ho.pending request hpending) he
            (hord.answer datagrams request g rfl hpending hg)
        · rw [FeedHandler.applyReplay, if_neg hrec]
          exact ho
      exact hreplayed.of_same rfl rfl rfl rfl rfl fun r hr => by cases hr
  | refused => exact ho.of_same rfl rfl rfl rfl rfl fun r hr => by cases hr
  | request =>
    show Once h.request
    unfold FeedHandler.request
    split
    · rename_i g hnone hgap
      have hwait := ho.hole g (state_of_gapFrom hgap)
      dsimp only
      split
      · rename_i hcond
        refine ho.of_same rfl rfl rfl rfl rfl ?_
        rintro r ⟨⟩
        exact ⟨hwait.pos, hcond.1⟩
      · exact ho
    · exact ho
  | quiet gapTimeout deadline =>
    exact (((ho.drainQuiet hs).declareStalled hs.drainQuiet gapTimeout)).checkDeadline
      (hs.drainQuiet.declareStalled gapTimeout) deadline

omit [OrderBook B] in
theorem once_new (books : BookSet B) (w k m : Nat) : Once (FeedHandler.new books w k m) where
  ledger := Ledger.Upto.of_empty rfl rfl _
  fresh s hs := by simp [FeedHandler.new, Arbitrator.held, Arbitrator.new] at hs
  hole g hg := nomatch hg
  started hst := nomatch hst
  pending r hr := nomatch hr

end MarketData.Handler
