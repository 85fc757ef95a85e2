import MarketData.Handler.Lost

/-!
# `Handler/Accounting.lean` — every sequence is delivered or declared missing, once

Runs in which the window is drained after every call. The log of such a run *tiles* the stream:
every output, delivery or gap, starts where the one before it ended. Exactly-once accounting is
what a tiling means (`Lib/Tiling.lean`), read separately for the two kinds of output.

## One list instead of four promises

That nothing is delivered twice, that nothing is both delivered and declared lost, that nothing
below the frontier is neither, and that everything comes in order are four statements about sets of
sequences, and none of them is inductive on its own. **That consecutive outputs touch is**, and it
is one statement about a list. `Tiled` adds to it the two counters, which are sums over the same
list, so that they never have to be compared with a set.

The drain after every call is not a technicality. Between a call and its drain a datagram can lie at
the frontier and in the window at once, and what the next call then does is the subject of
`Handler/Frontier.lean`. The main loop of the handler does drain after every datagram, and does not
on its quiet path; here the quiet path drains as well.

Which datagrams arrive, how often, on which arm and in which order is free. That a gap names only
what was lost is a different question, and is answered in `Handler/Lost.lean`.
-/

set_option autoImplicit false

namespace MarketData.Handler

open MarketData.Run MarketData.Tiling
open MarketData.Wire (Buf)

/-- The invariant: the log tiles the stream from its first sequence to the frontier, and the
counters agree with it. -/
structure Tiled (P : Partition) (maxBytes : Nat) (t : Trace) : Prop where
  wf : t.arb.Wf P maxBytes
  fresh : t.arb.Fresh
  room : t.arb.Room
  tiles : Tiles Output.seg t.arb.firstSequence t.log t.arb.nextExpected
  total : t.arb.messagesDelivered + t.arb.messagesMissed + t.arb.firstSequence
    = t.arb.nextExpected
  dropped : ∀ arm, (t.arb.arms arm).droppedWindowFull = 0
  idle : t.arb.started = false →
    t.log = [] ∧ t.arb.messagesDelivered = 0 ∧ t.arb.messagesMissed = 0

variable {P : Partition} {maxBytes : Nat} {t : Trace}

theorem tiled_init (P : Partition) (w m : Nat) : Tiled P m (Trace.init w m) :=
  ⟨Arbitrator.wf_new P w m, (sound_init P w m).fresh, Or.inl (Nat.zero_le _), rfl, rfl,
    fun _ => rfl, fun _ => ⟨rfl, rfl, rfl⟩⟩

/-- One call of a started arbitrator that accounts for the way its frontier moved. -/
theorem Tiled.extend {b b' : Arbitrator} {log out : List Output}
    (htiles : Tiles Output.seg b.firstSequence log b.nextExpected)
    (htotal : b.messagesDelivered + b.messagesMissed + b.firstSequence = b.nextExpected)
    (hdropped : ∀ arm, (b.arms arm).droppedWindowFull = 0) (hstarted : b'.started = true)
    (hw : b'.Wf P maxBytes) (hfresh : b'.Fresh) (hroom : b'.Room)
    (hout : Tiles Output.seg b.nextExpected out b'.nextExpected)
    (hmoved : Arbitrator.Moved b b') (hsteady : Arbitrator.Steady b b') (given : List Buf) :
    Tiled P maxBytes ⟨given, log ++ out, b'⟩ := by
  refine ⟨hw, hfresh, hroom, ?_, ?_, ?_, ?_⟩
  · rw [hsteady.first]
    exact htiles.append hout
  · have hm : _ = _ := hmoved
    have hf := hsteady.first
    dsimp only
    omega
  · intro arm
    exact (hsteady.dropped arm).trans (hdropped arm)
  · intro hfalse
    rw [hstarted] at hfalse
    cases hfalse

theorem tiles_delivered {ds : List Delivery} {a b : Nat} (h : Tiles Delivery.seg a ds b) :
    Tiles Output.seg a (ds.map .delivered) b := by
  induction ds generalizing a with
  | nil => exact h
  | cons d ds ih => exact ⟨h.1, h.2.1, ih h.2.2⟩

/-- A gap up to a target beyond the frontier accounts for everything in between. -/
theorem tiles_gap {n m target : Nat} (h : n < target) (hm : m = target) :
    Tiles Output.seg n [.gap ⟨n, max (target - 1) n⟩] m := by
  refine tiles_singleton rfl ?_ (hm ▸ h)
  show max (target - 1) n + 1 = m
  omega

/-- Opening the stream leaves a log that tiles up to where the stream opens. -/
theorem Tiled.opened (h : Tiled P maxBytes t) {first : Nat} {b : Arbitrator}
    (hopen : Arbitrator.Opened t.arb first b) :
    Tiles Output.seg b.firstSequence t.log b.nextExpected ∧
    b.messagesDelivered + b.messagesMissed + b.firstSequence = b.nextExpected ∧
    ∀ arm, (b.arms arm).droppedWindowFull = 0 := by
  have hdropped : ∀ arm, (b.arms arm).droppedWindowFull = 0 := fun arm =>
    (hopen.dropped arm).trans (h.dropped arm)
  rw [hopen.firstSequence, hopen.next, hopen.delivered, hopen.missed]
  cases hst : t.arb.started with
  | true => exact ⟨h.tiles, h.total, hdropped⟩
  | false =>
    obtain ⟨hlog, hdel, hmiss⟩ := h.idle hst
    rw [hlog, hdel, hmiss]
    refine ⟨rfl, ?_, hdropped⟩
    simp

theorem Tiled.accept (h : Tiled P maxBytes t) (hdr : t.arb.Drained) {arm first count : Nat}
    {d : Buf} (hd : Copy P d first count) : Tiled P maxBytes (t.step (.accept arm d)) := by
  obtain ⟨b, hopen, hwb, hplaced, hw⟩ := Arbitrator.accept_placed h.wf arm hd
  obtain ⟨htiles, htotal, hdropped⟩ := h.opened hopen
  have hdrb : b.Drained := by
    intro s hs
    rw [hopen.held] at hs
    rw [hopen.next, if_pos (h.wf.started_of_held hs)]
    exact hdr s hs
  have hroomb : b.occupied ≤ b.capacity := by
    rw [hopen.occupied, hopen.capacity]
    cases h.room with
    | inl hle => exact hle
    | inr hsome => exact absurd hdr.noneAtFrontier hsome
  have hfresh := hplaced.fresh hwb hdrb.fresh hd fun _ => hdrb.noneAtFrontier
  have hstarted := hplaced.keeps.1.trans hopen.started
  show Tiled P maxBytes ⟨t.given ++ [d], t.log ++ (t.arb.accept arm d).1.outputs d,
    (t.arb.accept arm d).2⟩
  generalize (t.arb.accept arm d).1 = r at hplaced
  generalize (t.arb.accept arm d).2 = b' at hplaced hw hfresh hstarted
  -- Where the window does not change, the room in it does not either.
  have hsame : b'.held = b.held → b'.capacity = b.capacity → b'.Room := by
    intro hh hc
    refine Or.inl ?_
    rw [hw.occupied_eq, hh, hc, ← hwb.occupied_eq]
    exact hroomb
  cases hplaced with
  | behind hb hn hh hs hm hk =>
    exact Tiled.extend htiles htotal hdropped hstarted hw hfresh (hsame hh hk.capacity)
      (tiles_nil.mpr hn.symm) hm hk _
  | ready hf hn hh hs hm hk =>
    have hpos := P.pos hd.mem
    have hseg : Tiles Delivery.seg b.nextExpected [⟨first, count, d⟩] b'.nextExpected :=
      tiles_singleton hf (by rw [hn]; rfl) (by rw [hn]; omega)
    exact Tiled.extend htiles htotal hdropped hstarted hw hfresh (hsame hh hk.capacity)
      (tiles_delivered hseg) hm hk _
  | copy hlt hheld hn hh hs hm hk =>
    exact Tiled.extend htiles htotal hdropped hstarted hw hfresh (hsame hh hk.capacity)
      (tiles_nil.mpr hn.symm) hm hk _
  | buffered hlt hnew hlow hn hh hs hm hk =>
    obtain ⟨s', -, -, -, hperm⟩ := hh
    refine Tiled.extend htiles htotal hdropped hstarted hw hfresh (Or.inl ?_)
      (tiles_nil.mpr hn.symm) hm hk _
    rw [hw.occupied_eq, hperm.length_eq, List.length_cons, ← hwb.occupied_eq, hk.capacity]
    exact hlow
  | lost hlt hnew hfull hbelow hn hh hm hk =>
    have hgap := hdrb.lt_gapTarget (hwb.held_ne_nil hfull)
    exact Tiled.extend htiles htotal hdropped hstarted hw hfresh (hsame hh hk.capacity)
      (tiles_gap hgap hn) (hm hgap) hk _
  | kept hlt hnew hfull habove hspare hn hh hm hk =>
    have hne := hwb.held_ne_nil hfull
    have hgap := hdrb.lt_gapTarget hne
    obtain ⟨s', -, -, -, hperm⟩ := hh
    refine Tiled.extend htiles htotal hdropped hstarted hw hfresh
      (Arbitrator.Room.of_gapTarget hne hn ?_) (tiles_gap hgap hn) (hm hgap) hk _
    intro s hs
    exact hperm.mem_iff.mpr (List.mem_cons_of_mem _ hs)
  | dropped hlt hnew hover habove hn hh hc hst hfs =>
    exact absurd hover (Nat.not_lt.mpr hroomb)

theorem Tiled.drainReady (h : Tiled P maxBytes t) :
    Tiled P maxBytes (t.step .drainReady) ∧ (t.step .drainReady).arb.Drained := by
  have hspec := Arbitrator.drainReady_spec h.wf h.fresh
  refine ⟨?_, hspec.drained⟩
  cases hst : t.arb.started with
  | true =>
    exact Tiled.extend h.tiles h.total h.dropped (hspec.steady.started.trans hst) hspec.wf
      hspec.drained.fresh (Or.inl (h.room.drained h.wf hspec)) (tiles_delivered hspec.tiles)
      hspec.moved hspec.steady _
  | false =>
    -- Nothing is held before the stream starts: the drain finds nothing.
    have hnone : t.arb.findSlotCovering t.arb.nextExpected = none := by
      refine h.wf.findSlotCovering_eq_none.mpr fun s hs => ?_
      rw [h.wf.idle hst] at hs
      cases hs
    have hid : t.step .drainReady = t := by
      have hlen : t.arb.window.length = t.arb.capacity + 1 := h.wf.size
      have hdrain : t.arb.drainReady = ([], t.arb) := by
        rw [Arbitrator.drainReady, hlen, Arbitrator.drainLoop_none hnone]
      simp [Trace.step, Arbitrator.call, hdrain]
    rw [hid]
    exact h

theorem Tiled.declareGapIfStalled (h : Tiled P maxBytes t) (hdr : t.arb.Drained) :
    Tiled P maxBytes (t.step .declareGapIfStalled) := by
  obtain ⟨hstall, hw⟩ := Arbitrator.declareGapIfStalled_stalled h.wf
  show Tiled P maxBytes ⟨t.given, t.log ++ t.arb.declareGapIfStalled.1.toList.map .gap,
    t.arb.declareGapIfStalled.2⟩
  generalize t.arb.declareGapIfStalled.1 = r at hstall
  generalize t.arb.declareGapIfStalled.2 = b' at hstall hw
  cases hstall with
  | idle hno =>
    have hlog : t.log ++ (none : Option Gap).toList.map Output.gap = t.log := by simp
    rw [hlog]
    exact h
  | gap hsome hne hn hh hm hk =>
    have hgap := hdr.lt_gapTarget hsome
    obtain ⟨s, hs⟩ := List.exists_mem_of_ne_nil _ hsome
    have hstarted := hk.started.trans (h.wf.started_of_held hs)
    refine Tiled.extend h.tiles h.total h.dropped hstarted hw ?_
      (Arbitrator.Room.of_gapTarget hsome hn ?_) (tiles_gap hgap hn) (hm hgap) hk _
    · intro x hx
      rw [hn]
      exact Arbitrator.gapTarget_le (hh ▸ hx)
    · intro x hx
      exact hh ▸ hx

/-! ## Runs that drain after every call -/

/-- A drain after every call. -/
def drainAfterEach : List Call → List Call
  | [] => []
  | c :: cs => c :: .drainReady :: drainAfterEach cs

theorem Tiled.call (h : Tiled P maxBytes t) (hdr : t.arb.Drained) {c : Call} (hc : c.Of P) :
    Tiled P maxBytes (t.step c) := by
  cases c with
  | accept arm d =>
    obtain ⟨first, count, hd⟩ := hc
    exact h.accept hdr hd
  | drainReady => exact h.drainReady.1
  | declareGapIfStalled => exact h.declareGapIfStalled hdr

theorem Tiled.run (cs : List Call) (hof : ∀ c ∈ cs, c.Of P) (h : Tiled P maxBytes t)
    (hdr : t.arb.Drained) : Tiled P maxBytes ((drainAfterEach cs).foldl Trace.step t) := by
  induction cs generalizing t with
  | nil => exact h
  | cons c cs ih =>
    have hc := h.call hdr (hof c (by simp))
    exact ih (fun c' hc' => hof c' (List.mem_cons_of_mem _ hc')) hc.drainReady.1 hc.drainReady.2

/-! ## Reading the tiling by kind of output -/

/-- Every sequence from the first of the stream to the frontier is delivered exactly once or lies
in exactly one declared gap, never both; and the counters say so. -/
structure ExactlyOnce (t : Trace) : Prop where
  increasing : (deliveredSeqs t.log).Pairwise (· < ·)
  once : ∀ s, t.arb.firstSequence ≤ s → s < t.arb.nextExpected →
    ((deliveredSeqs t.log).count s = 1 ∧ (gaps t.log).countP (·.Contains s) = 0) ∨
    ((deliveredSeqs t.log).count s = 0 ∧ (gaps t.log).countP (·.Contains s) = 1)
  within : ∀ s, s ∈ deliveredSeqs t.log ∨ (∃ g ∈ gaps t.log, g.Contains s) →
    t.arb.firstSequence ≤ s ∧ s < t.arb.nextExpected
  gaps_nonempty : ∀ g ∈ gaps t.log, g.fromSeq ≤ g.through
  gaps_increasing : (gaps t.log).Pairwise fun g g' => g.through < g'.fromSeq
  total : t.arb.messagesDelivered + t.arb.messagesMissed
    = t.arb.nextExpected - t.arb.firstSequence
  dropped : ∀ arm, (t.arb.arms arm).droppedWindowFull = 0

/-- An output covers a sequence as a delivery or as a gap. -/
theorem countP_outputs (log : List Output) (s : Nat) :
    log.countP (Covers Output.seg s) =
      (deliveredSeqs log).count s + (gaps log).countP (·.Contains s) := by
  rw [deliveredSeqs_eq_points, count_points]
  induction log with
  | nil => rfl
  | cons o log ih =>
    rw [List.countP_cons, ih]
    cases o with
    | delivered d =>
      rw [deliveries_delivered_cons, gaps_delivered_cons, List.countP_cons]
      exact Nat.add_right_comm ..
    | gap g =>
      have hcov : Covers Output.seg s (.gap g) ↔ g.Contains s :=
        and_congr_right fun _ => Nat.lt_succ_iff
      rw [deliveries_gap_cons, gaps_gap_cons, List.countP_cons, Nat.add_assoc]
      simp only [hcov]

theorem mem_deliveredSeqs_or_gap {log : List Output} {s : Nat}
    (h : s ∈ deliveredSeqs log ∨ ∃ g ∈ gaps log, g.Contains s) :
    ∃ o ∈ log, Covers Output.seg s o := by
  cases h with
  | inl hs =>
    obtain ⟨d, hd, hcov⟩ := mem_deliveredSeqs.mp hs
    exact ⟨.delivered d, mem_deliveries.mp hd, hcov⟩
  | inr hg =>
    obtain ⟨g, hg, hc⟩ := hg
    exact ⟨.gap g, mem_gaps.mp hg, hc.1, Nat.lt_succ_of_le hc.2⟩

theorem Tiled.exactlyOnce (h : Tiled P maxBytes t) : ExactlyOnce t := by
  refine ⟨?_, ?_, ?_, ?_, ?_, ?_, h.dropped⟩
  · rw [deliveredSeqs_eq_points]
    refine points_sorted (h.tiles.pairwise.filterMap _ fun o o' hle d hd d' hd' => ?_)
    cases o with
    | gap g => cases hd
    | delivered x =>
      cases o' with
      | gap g => cases hd'
      | delivered x' => cases hd; cases hd'; exact hle
  · intro s hlo hhi
    have hone := h.tiles.countP_eq_one hlo hhi
    rw [countP_outputs] at hone
    omega
  · intro s hs
    obtain ⟨o, ho, hlo, hhi⟩ := mem_deliveredSeqs_or_gap hs
    obtain ⟨h1, -, h3⟩ := h.tiles.bounds ho
    exact ⟨Nat.le_trans h1 hlo, Nat.lt_of_lt_of_le hhi h3⟩
  · intro g hg
    exact Nat.le_of_lt_succ (h.tiles.bounds (mem_gaps.mp hg)).2.1
  · refine h.tiles.pairwise.filterMap _ fun o o' hle g hg g' hg' => ?_
    cases o with
    | delivered x => cases hg
    | gap x =>
      cases o' with
      | delivered x => cases hg'
      | gap x' => cases hg; cases hg'; exact hle
  · have := h.total
    omega

/-- **Exactly-once accounting.** For any partition of the stream into datagrams and any
interleaving, loss, duplication and reordering of them over the two arms, with the window drained
after every call. -/
theorem exactly_once_accounting (P : Partition) (w m : Nat) (cs : List Call)
    (hof : ∀ c ∈ cs, c.Of P) :
    ExactlyOnce ((drainAfterEach cs).foldl Trace.step (Trace.init w m)) := by
  have hdr : (Trace.init w m).arb.Drained := by
    intro s hs
    simp [Trace.init, Arbitrator.held, Arbitrator.new] at hs
  exact (Tiled.run cs hof (tiled_init P w m) hdr).exactlyOnce

/-- Sequence 2 is lost, 3 arrives twice and is given up for, 5 is still waited on. -/
theorem exactly_once_accounting_lost_two :
    ExactlyOnce ((drainAfterEach [.accept 0 (bareDatagram 1 1), .accept 1 (bareDatagram 3 1),
      .declareGapIfStalled, .accept 0 (bareDatagram 3 1),
      .accept 0 (bareDatagram 5 1)]).foldl Trace.step (Trace.init 2 64)) := by
  refine exactly_once_accounting Partition.singles 2 64 _ ?_
  intro c hc
  simp only [List.mem_cons, List.not_mem_nil, or_false] at hc
  rcases hc with rfl | rfl | rfl | rfl | rfl
  · exact accept_bare_of_singles 0 (by decide)
  · exact accept_bare_of_singles 1 (by decide)
  · trivial
  · exact accept_bare_of_singles 0 (by decide)
  · exact accept_bare_of_singles 0 (by decide)

end MarketData.Handler
