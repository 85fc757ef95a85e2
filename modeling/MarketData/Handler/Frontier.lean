import MarketData.Handler.Runs

/-!
# `Handler/Frontier.lean` — the frontier never moves back

The three calls in any order. `drain_ready` need not follow every call: the quiet path of the
handler declares a gap and goes back to the sockets. Between the two, a datagram can be
delivered off the wire while its copy from the other arm waits at the frontier, and the copy
left behind drags the frontier back at the next gap. `frontier_never_retreats` says that this
is the only way it moves back; the run that makes it do so is exhibited after it.

## What a stale copy does

Everything buffered lies at the frontier or ahead of it: that is the invariant, `Sound`, together
with the deliveries being in order and below the frontier. `accept` delivers what is due without a
look at the window, so a copy of it that waits there is behind the frontier from then on. Nothing
goes wrong yet. It does when the next hole is given up, since **the lowest buffered datagram is
where the frontier is moved to**, and the lowest is now the stale one.

`NoCopyAtFrontier` therefore speaks of the moment the copy becomes stale, not of the gap that comes
later: it reads the datagram offered and the window before the call. It excludes no loss, no
duplication and no order of the calls; in particular, a run that drains after every call satisfies
it without being asked.
-/

set_option autoImplicit false

namespace MarketData.Handler

open MarketData.Run MarketData.Tiling
open MarketData.Wire (Buf)

/-- The invariant of such a run: nothing buffered is behind the frontier, and everything
delivered is below it, in order. -/
structure Sound (P : Partition) (maxBytes : Nat) (t : Trace) : Prop where
  wf : t.arb.Wf P maxBytes
  fresh : t.arb.Fresh
  ordered : Ordered t.log t.arb.nextExpected
  idle : t.arb.started = false → t.log = [] ∧ t.arb.nextExpected = 0

/-- The datagram the call offers is not at the frontier with its own copy still in the window
there. The two remaining calls offer nothing. -/
def NoCopyAtFrontier (a : Arbitrator) : Call → Prop
  | .accept _ d => ∀ first count, Carries d first count → a.started = true →
      first = a.nextExpected → a.NoneAtFrontier
  | _ => True

/-- What a call does to the frontier of a sound run: it does not move back, a gap starts at it,
and the run stays sound. -/
structure Advances (P : Partition) (maxBytes : Nat) (t : Trace) (c : Call) : Prop where
  sound : Sound P maxBytes (t.step c)
  mono : t.arb.nextExpected ≤ (t.step c).arb.nextExpected
  gap : ∀ g, .gap g ∈ (t.arb.call c).1 → g.fromSeq = t.arb.nextExpected

variable {P : Partition} {maxBytes : Nat} {t : Trace}

theorem sound_init (P : Partition) (w m : Nat) : Sound P m (Trace.init w m) := by
  refine ⟨Arbitrator.wf_new P w m, ?_, ⟨List.Pairwise.nil, ?_⟩, fun _ => ⟨rfl, rfl⟩⟩
  · intro s hs
    simp [Trace.init, Arbitrator.held, Arbitrator.new] at hs
  · intro s hs
    simp [Trace.init, deliveredSeqs, deliveries] at hs

/-- What opening the stream does to a sound run: the frontier it leaves is not behind the old
one, nothing buffered is behind it, and it is the old one if anything is buffered at all. -/
theorem Sound.opened (h : Sound P maxBytes t) {first : Nat} {b : Arbitrator}
    (hopen : Arbitrator.Opened t.arb first b) :
    t.arb.nextExpected ≤ b.nextExpected ∧ b.Fresh ∧
    ∀ s ∈ b.held, t.arb.started = true ∧ b.nextExpected = t.arb.nextExpected := by
  have hheld : ∀ s ∈ b.held, t.arb.started = true ∧ b.nextExpected = t.arb.nextExpected := by
    intro s hs
    rw [hopen.held] at hs
    have hst := h.wf.started_of_held hs
    exact ⟨hst, by rw [hopen.next, if_pos hst]⟩
  refine ⟨?_, ?_, hheld⟩
  · cases hst : t.arb.started with
    | true => rw [hopen.next, if_pos hst]
    | false => rw [(h.idle hst).2]; exact Nat.zero_le _
  · intro s hs
    rw [(hheld s hs).2]
    rw [hopen.held] at hs
    exact h.fresh s hs

/-- The obligations of one call, with its outputs and the arbitrator after it named. -/
theorem Advances.of_call {c : Call} {out : List Output} {a' : Arbitrator}
    (hcall : t.arb.call c = (out, a')) (hw : a'.Wf P maxBytes) (hfresh : a'.Fresh)
    (hord : Ordered (t.log ++ out) a'.nextExpected)
    (hidle : a'.started = false → t.log ++ out = [] ∧ a'.nextExpected = 0)
    (hmono : t.arb.nextExpected ≤ a'.nextExpected)
    (hgap : ∀ g, .gap g ∈ out → g.fromSeq = t.arb.nextExpected) :
    Advances P maxBytes t c := by
  have harb : (t.step c).arb = a' := by simp [Trace.step, hcall]
  have hlog : (t.step c).log = t.log ++ out := by simp [Trace.step, hcall]
  refine ⟨⟨harb ▸ hw, harb ▸ hfresh, ?_, ?_⟩, harb ▸ hmono, hcall ▸ hgap⟩
  · rw [hlog, harb]; exact hord
  · rw [hlog, harb]; exact hidle

theorem Sound.accept (h : Sound P maxBytes t) {arm first count : Nat} {d : Buf}
    (hd : Copy P d first count) (hsafe : NoCopyAtFrontier t.arb (.accept arm d)) :
    Advances P maxBytes t (.accept arm d) := by
  obtain ⟨b, hopen, hwb, hplaced, hw⟩ := Arbitrator.accept_placed h.wf arm hd
  obtain ⟨hle, hfresh, hheldb⟩ := h.opened hopen
  have hnone : first = b.nextExpected → b.NoneAtFrontier := by
    intro hf s hs
    obtain ⟨hst, hnext⟩ := hheldb s hs
    rw [hnext] at hf ⊢
    exact hsafe first count hd.carries hst hf s (hopen.held ▸ hs)
  have hfresh' := hplaced.fresh hwb hfresh hd hnone
  have hmono := Nat.le_trans hle (hplaced.mono hwb hfresh)
  have hcall : t.arb.call (.accept arm d) =
      ((t.arb.accept arm d).1.outputs d, (t.arb.accept arm d).2) := rfl
  generalize (t.arb.accept arm d).1 = r at hplaced hcall
  generalize (t.arb.accept arm d).2 = b' at hplaced hw hcall hfresh' hmono
  refine .of_call hcall hw hfresh' ?_ ?_ hmono ?_
  · -- Only a datagram at the frontier is handed over here.
    cases hplaced with
    | ready hf hn =>
      have hpos := P.pos hd.mem
      have hseg : Tiles Delivery.seg b.nextExpected [⟨first, count, d⟩] b'.nextExpected :=
        tiles_singleton hf (by rw [hn]; rfl) (by rw [hn]; omega)
      exact h.ordered.extend hle hseg
    | behind => exact h.ordered.quiet rfl hmono
    | copy => exact h.ordered.quiet rfl hmono
    | buffered => exact h.ordered.quiet rfl hmono
    | lost => exact h.ordered.quiet rfl hmono
    | kept => exact h.ordered.quiet rfl hmono
    | dropped => exact h.ordered.quiet rfl hmono
  · intro hfalse
    rw [hplaced.keeps.1, hopen.started] at hfalse
    cases hfalse
  · intro g hg
    obtain ⟨hfrom, hfull⟩ := hplaced.forced (eq_forcedGap_of_mem hg)
    obtain ⟨s, hs⟩ := List.exists_mem_of_ne_nil _ (hwb.held_ne_nil hfull)
    rw [hfrom, (hheldb s hs).2]

theorem Sound.drainReady (h : Sound P maxBytes t) : Advances P maxBytes t .drainReady := by
  have hspec := Arbitrator.drainReady_spec h.wf h.fresh
  refine .of_call rfl hspec.wf hspec.drained.fresh
    (h.ordered.extend (Nat.le_refl _) hspec.tiles) ?_ hspec.tiles.le ?_
  · intro hst
    rw [hspec.steady.started] at hst
    -- Nothing is held before the stream starts, so nothing was drained.
    obtain ⟨gone, hperm, hout⟩ := hspec.split
    rw [h.wf.idle hst] at hperm
    have hgone : gone = [] := (List.append_eq_nil_iff.mp (List.nil_perm.mp hperm)).1
    have hnext := hspec.tiles
    rw [hout, hgone] at hnext ⊢
    rw [← (h.idle hst).2]
    exact ⟨by rw [(h.idle hst).1]; rfl, hnext.symm⟩
  · intro g hg
    simp at hg

theorem Sound.declareGapIfStalled (h : Sound P maxBytes t) :
    Advances P maxBytes t .declareGapIfStalled := by
  obtain ⟨hstall, hw⟩ := Arbitrator.declareGapIfStalled_stalled h.wf
  have hcall : t.arb.call .declareGapIfStalled =
      (t.arb.declareGapIfStalled.1.toList.map .gap, t.arb.declareGapIfStalled.2) := rfl
  generalize t.arb.declareGapIfStalled.1 = r at hstall hcall
  generalize t.arb.declareGapIfStalled.2 = b' at hstall hw hcall
  cases hstall with
  | idle hno =>
    refine .of_call hcall hw h.fresh (h.ordered.quiet rfl (Nat.le_refl _)) ?_ (Nat.le_refl _) ?_
    · intro hst
      rw [(h.idle hst).1]
      exact ⟨rfl, (h.idle hst).2⟩
    · intro g hg
      simp at hg
  | gap hsome hne hn hh hm hk =>
    have hmono : t.arb.nextExpected ≤ b'.nextExpected := hn ▸ h.fresh.le_gapTarget hsome
    obtain ⟨s, hs⟩ := List.exists_mem_of_ne_nil _ hsome
    refine .of_call hcall hw ?_ (h.ordered.quiet rfl hmono) ?_ hmono ?_
    · intro s hs
      rw [hn]
      exact Arbitrator.gapTarget_le (hh ▸ hs)
    · intro hst
      rw [hk.started, h.wf.started_of_held hs] at hst
      cases hst
    · intro g hg
      simp at hg
      rw [hg]

/-- **One call**, whichever it is, advances a sound run. -/
theorem Sound.call (h : Sound P maxBytes t) {c : Call} (hc : c.Of P)
    (hsafe : NoCopyAtFrontier t.arb c) : Advances P maxBytes t c := by
  cases c with
  | accept arm d =>
    obtain ⟨first, count, hd⟩ := hc
    exact h.accept hd hsafe
  | drainReady => exact h.drainReady
  | declareGapIfStalled => exact h.declareGapIfStalled

/-- What is asked of one call: the frontier does not move back, nothing is delivered twice, and
a declared gap starts at the frontier and names only sequences not yet delivered. -/
structure KeepsFrontier (t : Trace) (c : Call) : Prop where
  mono : t.arb.nextExpected ≤ (t.step c).arb.nextExpected
  once : (deliveredSeqs (t.step c).log).Nodup
  gap : ∀ g, .gap g ∈ (t.arb.call c).1 →
    g.fromSeq = t.arb.nextExpected ∧ ∀ s, g.Contains s → s ∉ deliveredSeqs t.log

theorem Sound.keepsFrontier (h : Sound P maxBytes t) {c : Call} (ha : Advances P maxBytes t c) :
    KeepsFrontier t c := by
  refine ⟨ha.mono, ha.sound.ordered.1.imp Nat.ne_of_lt, fun g hg => ?_⟩
  have hfrom := ha.gap g hg
  refine ⟨hfrom, fun s hs hdel => ?_⟩
  have hlt := h.ordered.2 s hdel
  have hge := hs.1
  rw [hfrom] at hge
  exact absurd hlt (Nat.not_lt.mpr hge)

/-- **The frontier never moves back**, over any order of the three calls, as long as no datagram
is accepted at the frontier while its own copy waits there in the window. -/
theorem frontier_never_retreats (P : Partition) (w m : Nat) (cs : List Call)
    (hof : ∀ c ∈ cs, c.Of P)
    (hsafe : Along Trace.step (fun t c => NoCopyAtFrontier t.arb c) (Trace.init w m) cs) :
    Along Trace.step KeepsFrontier (Trace.init w m) cs := by
  have hof' : Along Trace.step (fun _ c => c.Of P) (Trace.init w m) cs :=
    along_of_forall fun _ c hc => hof c hc
  refine (hof'.and hsafe).of_invariant (Sound P m) ?_ ?_ (sound_init P w m)
  · intro t c h hc
    exact (h.call hc.1 hc.2).sound
  · intro t c h hc
    exact h.keepsFrontier (h.call hc.1 hc.2)

theorem noCopyAtFrontier_bare {a : Arbitrator} {arm : Nat} {first : UInt64} {count : UInt16}
    (h : a.started = true → first.toNat = a.nextExpected →
      ∀ s ∈ a.held, s.firstSequence ≠ a.nextExpected) :
    NoCopyAtFrontier a (.accept arm (bareDatagram first count)) := by
  intro f c hcarries hst hf
  have hfirst := (hcarries.unique (carries_bareDatagram first count)).1
  exact h hst (hfirst ▸ hf)

theorem accept_bare_of_singles (arm : Nat) {first : UInt64} (h : first.toNat + 1 < 2 ^ 64) :
    (Call.accept arm (bareDatagram first 1)).Of Partition.singles :=
  ⟨first.toNat, 1, carries_bareDatagram first 1, rfl, h⟩

/-- Sequence 2 is lost, 3 is buffered and given up on, then drained before its copy comes. -/
theorem frontier_never_retreats_drained :
    Along Trace.step KeepsFrontier (Trace.init 2 64)
      [.accept 0 (bareDatagram 1 1), .accept 0 (bareDatagram 3 1), .declareGapIfStalled,
       .drainReady, .accept 1 (bareDatagram 3 1)] := by
  refine frontier_never_retreats Partition.singles 2 64 _ ?_ ?_
  · intro c hc
    simp only [List.mem_cons, List.not_mem_nil, or_false] at hc
    rcases hc with rfl | rfl | rfl | rfl | rfl
    · exact accept_bare_of_singles 0 (by decide)
    · exact accept_bare_of_singles 0 (by decide)
    · trivial
    · trivial
    · exact accept_bare_of_singles 1 (by decide)
  · refine ⟨noCopyAtFrontier_bare ?_, noCopyAtFrontier_bare ?_, trivial, trivial,
      noCopyAtFrontier_bare ?_, trivial⟩ <;> decide +kernel

/-- The same datagrams without the drain: 3 is delivered off the wire with its copy still held,
and the gap over 4 takes the frontier from 4 back to 3. -/
theorem frontier_retreats_over_stale_copy :
    ¬ ∀ (P : Partition) (w m : Nat) (cs : List Call), (∀ c ∈ cs, c.Of P) →
      Along Trace.step KeepsFrontier (Trace.init w m) cs := by
  intro hall
  have hrun := hall Partition.singles 2 64
    [.accept 0 (bareDatagram 1 1), .accept 0 (bareDatagram 3 1), .declareGapIfStalled,
     .accept 1 (bareDatagram 3 1), .accept 0 (bareDatagram 5 1), .declareGapIfStalled] (by
      intro c hc
      simp only [List.mem_cons, List.not_mem_nil, or_false] at hc
      rcases hc with rfl | rfl | rfl | rfl | rfl | rfl
      · exact accept_bare_of_singles 0 (by decide)
      · exact accept_bare_of_singles 0 (by decide)
      · trivial
      · exact accept_bare_of_singles 1 (by decide)
      · exact accept_bare_of_singles 0 (by decide)
      · trivial)
  have hmono := hrun.2.2.2.2.2.1.mono
  revert hmono
  decide +kernel

end MarketData.Handler
