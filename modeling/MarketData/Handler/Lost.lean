import MarketData.Handler.Frontier

/-!
# `Handler/Lost.lean` — a gap names only what was never received

When the window is full, the datagram that does not fit forces a gap, and is filed only after
the frontier has moved to the lowest buffered datagram. Where it lies above that one it takes
the spare slot. Where it lies *below* it, it has just been declared lost together with the hole
it sits in: it is counted as a duplicate and never delivered. A second way to give up on
something received is to force a gap while a buffered datagram already waits at the frontier,
which then is the gap.

`KeepsArrival` rules out these two and the stale copy of `Handler/Frontier.lean`, and nothing
else. In every run that keeps to it no gap names a sequence of a datagram given to `accept` so
far, and every datagram that was not already behind the frontier is delivered: at once, or when
the frontier gets to it, which a bounded number of quiet periods ensures.

## Received, and then?

Two promises are kept apart here. That a gap names only what was never received is about the past of
a run and is a property of each of its prefixes. That everything received is delivered is about its
future: at any moment a datagram may still wait. `Lossless` keeps the three places a received
datagram can be in, behind the frontier, delivered, or waiting, and `quietPeriods` supplies the
future, as many periods as the window has slots.

The spare slot is why the window has one more than it advertises, and `Room` is the invariant about
it: unless a drain is due, there is a slot for the datagram that forces a gap.
-/

set_option autoImplicit false

namespace MarketData.Handler

open MarketData.Run MarketData.Tiling
open MarketData.Wire (Buf)

/-- The window has room for the datagram that forces a gap, unless a drain is due. -/
def Arbitrator.Room (a : Arbitrator) : Prop := a.occupied ≤ a.capacity ∨ ¬ a.NoneAtFrontier

/-- Accepting a datagram from `first` on would force a gap: it lies ahead of the hole, is not
held already, and the window is full. -/
def Arbitrator.Forces (a : Arbitrator) (first : Nat) : Prop :=
  a.nextExpected < first ∧ (∀ s ∈ a.held, s.firstSequence ≠ first) ∧ a.capacity ≤ a.occupied

/-- The calls that lose nothing. A datagram offered at the frontier has no copy waiting there; a
datagram that forces a gap finds none waiting there either, and lies above the lowest buffered
one. -/
def KeepsArrival (a : Arbitrator) : Call → Prop
  | .accept _ d => ∀ first count, Carries d first count → a.started = true →
      (first = a.nextExpected → a.NoneAtFrontier) ∧
      (a.Forces first → a.NoneAtFrontier ∧ a.gapTarget < first)
  | _ => True

/-- No gap the call declares names a sequence of a datagram given to `accept` up to and
including this call. -/
def NamesOnlyUnreceived (t : Trace) (c : Call) : Prop :=
  ∀ g, .gap g ∈ (t.arb.call c).1 → ∀ d ∈ (t.step c).given, ∀ first count,
    Carries d first count → ∀ s, first ≤ s → s < first + count → ¬ g.Contains s

/-- The datagram `(first, count)` has been handed to the consumer. -/
def Delivered (first count : Nat) (t : Trace) : Prop :=
  ∃ x ∈ deliveries t.log, x.firstSequence = first ∧ x.count = count

/-- The datagram `(first, count)` waits in the window. -/
def Waits (first count : Nat) (a : Arbitrator) : Prop :=
  ∃ s ∈ a.held, s.firstSequence = first ∧ s.count = count

theorem KeepsArrival.noCopyAtFrontier {a : Arbitrator} {c : Call} (h : KeepsArrival a c) :
    NoCopyAtFrontier a c := by
  cases c with
  | accept arm d =>
    intro first count hcarries hst hfirst
    exact (h first count hcarries hst).1 hfirst
  | drainReady => trivial
  | declareGapIfStalled => trivial

/-- The invariant of a run that loses nothing: over a sound run, the window has room for one
more unless a drain is due, and what was given is behind the frontier or waits. -/
structure Lossless (P : Partition) (maxBytes : Nat) (t : Trace) : Prop where
  sound : Sound P maxBytes t
  room : t.arb.Room
  received : ∀ d ∈ t.given, ∀ first count, Carries d first count →
    first + count ≤ t.arb.nextExpected ∨ Waits first count t.arb

variable {P : Partition} {maxBytes : Nat} {t : Trace}

theorem lossless_init (P : Partition) (w m : Nat) : Lossless P m (Trace.init w m) :=
  ⟨sound_init P w m, Or.inl (Nat.zero_le _), fun d hd => absurd hd (by simp [Trace.init])⟩

/-! ## One `accept` -/

namespace Arbitrator

variable {a b : Arbitrator} {first count : Nat} {d : Buf} {r : Accepted}

theorem Room.of_same (h : a.Room) (hw : Wf P maxBytes a) (hwb : Wf P maxBytes b)
    (hh : b.held = a.held) (hn : b.nextExpected = a.nextExpected)
    (hc : b.capacity = a.capacity) : b.Room := by
  unfold Room NoneAtFrontier
  rw [hwb.occupied_eq, hh, hn, hc, ← hw.occupied_eq]
  exact h

theorem Room.of_gapTarget (hne : a.held ≠ []) (hn : b.nextExpected = a.gapTarget)
    (hmono : ∀ s ∈ a.held, s ∈ b.held) : b.Room := by
  obtain ⟨s, hs, ht⟩ := gapTarget_mem hne
  exact Or.inr fun hnone => hnone s (hmono s hs) (ht.trans hn.symm)

/-- **Where an accepted datagram goes** in a run that loses nothing: it is behind the frontier,
or it is handed over, or it waits. -/
theorem Placed.goes (h : Placed a first count d r b) (hw : Wf P maxBytes a)
    (hwb : Wf P maxBytes b) (hfresh : a.Fresh) (hd : Copy P d first count) (hroom : a.Room)
    (hfirst : first = a.nextExpected → a.NoneAtFrontier)
    (hforces : a.Forces first → a.NoneAtFrontier ∧ a.gapTarget < first) :
    b.Room ∧
    ((first + count ≤ a.nextExpected ∧ b.nextExpected = a.nextExpected) ∨
      (r = .ready first count ∧ b.nextExpected = first + count) ∨ Waits first count b) ∧
    ∀ g, r = .forcedGap g → g.fromSeq = a.nextExpected ∧ g.through < b.nextExpected := by
  cases h with
  | behind hb hn hh hs hm hk =>
    exact ⟨hroom.of_same hw hwb hh hn hk.capacity, Or.inl ⟨hb, hn⟩, fun g hg => by cases hg⟩
  | ready hf hn hh hs hm hk =>
    refine ⟨Or.inl ?_, Or.inr (Or.inl ⟨rfl, hn⟩), fun g hg => by cases hg⟩
    rw [hwb.occupied_eq, hh, hk.capacity, ← hw.occupied_eq]
    cases hroom with
    | inl hle => exact hle
    | inr hsome => exact absurd (hfirst hf) hsome
  | copy hlt hheld hn hh hs hm hk =>
    refine ⟨hroom.of_same hw hwb hh hn hk.capacity, Or.inr (Or.inr ?_), fun g hg => by cases hg⟩
    obtain ⟨s, hs, heq⟩ := hheld
    have hmem := (hw.slots s hs).1
    have hpos := P.pos hmem
    have hpos' := P.pos hd.mem
    exact ⟨s, hh ▸ hs, heq, (P.disjoint hmem hd.mem (by omega) (by omega)).2⟩
  | buffered hlt hnew hlow hn hh hs hm hk =>
    obtain ⟨s', h1, h2, -, hperm⟩ := hh
    refine ⟨Or.inl ?_, Or.inr (Or.inr ⟨s', hperm.mem_iff.mpr (List.mem_cons_self ..), h1, h2⟩),
      fun g hg => by cases hg⟩
    rw [hwb.occupied_eq, hperm.length_eq, List.length_cons, ← hw.occupied_eq, hk.capacity]
    exact hlow
  | lost hlt hnew hfull hbelow hn hh hm hk =>
    -- The forcing datagram lies above the lowest buffered one, not in the hole below it.
    have habove := (hforces ⟨hlt, hnew, hfull⟩).2
    have hpos := P.pos hd.mem
    omega
  | kept hlt hnew hfull habove hspare hn hh hm hk =>
    have hne := hw.held_ne_nil hfull
    have hgap := ((hforces ⟨hlt, hnew, hfull⟩).1.drained hfresh).lt_gapTarget hne
    obtain ⟨s', h1, h2, -, hperm⟩ := hh
    refine ⟨Room.of_gapTarget hne hn ?_,
      Or.inr (Or.inr ⟨s', hperm.mem_iff.mpr (List.mem_cons_self ..), h1, h2⟩), ?_⟩
    · intro s hs
      exact hperm.mem_iff.mpr (List.mem_cons_of_mem _ hs)
    · intro g hg
      cases hg
      rw [hn]
      exact ⟨rfl, Nat.max_lt.mpr ⟨by omega, hgap⟩⟩
  | dropped hlt hnew hover habove hn hh hc hst hfs =>
    -- The spare slot is taken only while a datagram waits at the frontier.
    have hnone := (hforces ⟨hlt, hnew, Nat.le_of_lt hover⟩).1
    cases hroom with
    | inl hle => exact absurd hover (Nat.not_lt.mpr hle)
    | inr hsome => exact absurd hnone hsome

/-- After a drain there is room for one more, however full the window was. -/
theorem Room.drained (h : a.Room) (hw : Wf P maxBytes a) {out : List Delivery}
    (hspec : DrainSpec P maxBytes a out b) : b.occupied ≤ b.capacity := by
  rw [hspec.wf.occupied_eq, hspec.steady.capacity]
  cases h with
  | inl hle =>
    obtain ⟨gone, hperm, -⟩ := hspec.split
    have hlen := hperm.length_eq
    rw [List.length_append, ← hw.occupied_eq] at hlen
    omega
  | inr hsome =>
    obtain ⟨s, hs, hfirst⟩ := not_noneAtFrontier.mp hsome
    have hlt := hspec.shrinks hs hfirst
    have hle := hw.held_length_le
    omega

end Arbitrator

/-! ## The invariant, call by call -/

/-- Where a gap ends below everything that waits and starts at the frontier, it names nothing
that was received. -/
theorem not_contains_of_received {g : Gap} {n target first count s : Nat} {a : Arbitrator}
    (hfrom : g.fromSeq = n) (hthrough : g.through < target)
    (hlow : ∀ x ∈ a.held, target ≤ x.firstSequence)
    (hrec : first + count ≤ n ∨ Waits first count a) (hlo : first ≤ s) (hhi : s < first + count) :
    ¬ g.Contains s := by
  intro hc
  have h1 := hc.1
  have h2 := hc.2
  cases hrec with
  | inl hle => omega
  | inr hw =>
    obtain ⟨x, hx, hf, -⟩ := hw
    have := hlow x hx
    omega

/-- What one call of a run that loses nothing does. -/
structure Keeps (P : Partition) (maxBytes : Nat) (t : Trace) (c : Call) : Prop where
  lossless : Lossless P maxBytes (t.step c)
  names : NamesOnlyUnreceived t c
  /-- What was delivered or waits is delivered or waits after the call. -/
  owed : ∀ first count, Delivered first count t ∨ Waits first count t.arb →
    Delivered first count (t.step c) ∨ Waits first count (t.step c).arb
  /-- A datagram that is not behind the frontier when it is offered is delivered or waits. -/
  taken : ∀ arm d, c = .accept arm d → ∀ first count, Carries d first count →
    (t.arb.started = false ∨ t.arb.nextExpected < first + count) →
    Delivered first count (t.step c) ∨ Waits first count (t.step c).arb

theorem Delivered.mono {first count : Nat} (h : Delivered first count t) (c : Call) :
    Delivered first count (t.step c) := by
  obtain ⟨x, hx, h1⟩ := h
  exact ⟨x, by simp [Trace.step, hx], h1⟩

/-- The conditions on an accepted datagram, at the arbitrator `place` sees. -/
theorem Lossless.opened (h : Lossless P maxBytes t) {arm first count : Nat} {d : Buf}
    {b : Arbitrator} (hcarries : Carries d first count)
    (hsafe : KeepsArrival t.arb (.accept arm d)) (hopen : Arbitrator.Opened t.arb first b)
    (hwb : b.Wf P maxBytes) :
    b.Room ∧ (first = b.nextExpected → b.NoneAtFrontier) ∧
    (b.Forces first → b.NoneAtFrontier ∧ b.gapTarget < first) := by
  obtain ⟨-, hfresh, hheldb⟩ := h.sound.opened hopen
  -- Once anything is held, the stream has started and opening it changes nothing.
  have hsame : b.held ≠ [] → t.arb.started = true ∧ b.nextExpected = t.arb.nextExpected := by
    intro hne
    obtain ⟨s, hs⟩ := List.exists_mem_of_ne_nil _ hne
    exact hheldb s hs
  have hnone : b.held ≠ [] → (t.arb.NoneAtFrontier ↔ b.NoneAtFrontier) := by
    intro hne
    unfold Arbitrator.NoneAtFrontier
    rw [(hsame hne).2, hopen.held]
  refine ⟨?_, ?_, ?_⟩
  · by_cases hne : b.held = []
    · refine Or.inl ?_
      rw [hwb.occupied_eq, hne]
      exact Nat.zero_le _
    · cases h.room with
      | inl hle => exact Or.inl (by rw [hopen.occupied, hopen.capacity]; exact hle)
      | inr hsome => exact Or.inr fun hb => hsome ((hnone hne).mpr hb)
  · intro hf s hs
    have hne : b.held ≠ [] := List.ne_nil_of_mem hs
    obtain ⟨hst, hn⟩ := hsame hne
    exact (hnone hne).mp ((hsafe first count hcarries hst).1 (hf.trans hn)) s hs
  · intro hforces
    have hne := hwb.held_ne_nil hforces.2.2
    obtain ⟨hst, hn⟩ := hsame hne
    have hforces' : t.arb.Forces first := by
      unfold Arbitrator.Forces at hforces ⊢
      rw [hn, hopen.held, hopen.capacity, hopen.occupied] at hforces
      exact hforces
    obtain ⟨h1, h2⟩ := (hsafe first count hcarries hst).2 hforces'
    refine ⟨(hnone hne).mp h1, ?_⟩
    unfold Arbitrator.gapTarget at h2 ⊢
    rw [hopen.held, hn]
    exact h2

theorem Lossless.accept (h : Lossless P maxBytes t) {arm first count : Nat} {d : Buf}
    (hd : Copy P d first count) (hsafe : KeepsArrival t.arb (.accept arm d)) :
    Keeps P maxBytes t (.accept arm d) := by
  have hadv := h.sound.accept hd hsafe.noCopyAtFrontier
  obtain ⟨b, hopen, hwb, hplaced, hw⟩ := Arbitrator.accept_placed h.sound.wf arm hd
  obtain ⟨hle, hfresh, hheldb⟩ := h.sound.opened hopen
  obtain ⟨hroomb, hfirst, hforces⟩ := h.opened hd.carries hsafe hopen hwb
  obtain ⟨hroom, hgoes, hgap⟩ := hplaced.goes hwb hw hfresh hd hroomb hfirst hforces
  have hmono : b.nextExpected ≤ (t.arb.accept arm d).2.nextExpected := hplaced.mono hwb hfresh
  have hwaits : ∀ {f c : Nat}, Waits f c t.arb → Waits f c (t.arb.accept arm d).2 := by
    intro f c hwait
    obtain ⟨s, hs, h1⟩ := hwait
    exact ⟨s, hplaced.held_mono (hopen.held ▸ hs), h1⟩
  have hreceived : ∀ x ∈ (t.step (.accept arm d)).given, ∀ f c, Carries x f c →
      f + c ≤ b.nextExpected ∨ Waits f c (t.arb.accept arm d).2 ∨
      f + c ≤ (t.arb.accept arm d).2.nextExpected ∧
        (t.arb.accept arm d).1 = .ready first count := by
    intro x hx f c hcarries
    rcases List.mem_append.mp hx with hx | hx
    · cases h.received x hx f c hcarries with
      | inl hbehind => exact Or.inl (Nat.le_trans hbehind hle)
      | inr hwait => exact Or.inr (Or.inl (hwaits hwait))
    · cases List.mem_singleton.mp hx
      obtain ⟨rfl, rfl⟩ := hcarries.unique hd.carries
      rcases hgoes with ⟨hb, -⟩ | ⟨hr, hn⟩ | hw'
      · exact Or.inl hb
      · exact Or.inr (Or.inr ⟨Nat.le_of_eq hn.symm, hr⟩)
      · exact Or.inr (Or.inl hw')
  refine ⟨⟨hadv.sound, hroom, ?_⟩, ?_, ?_, ?_⟩
  · intro x hx f c hcarries
    rcases hreceived x hx f c hcarries with hb | hw' | ⟨hn, -⟩
    · exact Or.inl (Nat.le_trans hb hmono)
    · exact Or.inr hw'
    · exact Or.inl hn
  · intro g hg x hx f c hcarries s hlo hhi
    have hr := eq_forcedGap_of_mem hg
    obtain ⟨hfrom, hthrough⟩ := hgap g hr
    have hrec : f + c ≤ b.nextExpected ∨ Waits f c (t.arb.accept arm d).2 := by
      rcases hreceived x hx f c hcarries with hb | hw' | ⟨-, hready⟩
      · exact Or.inl hb
      · exact Or.inr hw'
      · rw [hr] at hready
        cases hready
    exact not_contains_of_received hfrom hthrough hadv.sound.fresh hrec hlo hhi
  · intro f c howed
    cases howed with
    | inl hdel => exact Or.inl (hdel.mono _)
    | inr hwait => exact Or.inr (hwaits hwait)
  · intro arm' d' heq f c hcarries hahead
    cases heq
    obtain ⟨rfl, rfl⟩ := hcarries.unique hd.carries
    rcases hgoes with ⟨hb, -⟩ | ⟨hr, -⟩ | hw'
    · have hpos := P.pos hd.mem
      cases hst : t.arb.started with
      | true =>
        rw [hopen.next, if_pos hst] at hb
        cases hahead with
        | inl hfalse => rw [hst] at hfalse; cases hfalse
        | inr hlt => exact absurd hb (Nat.not_le.mpr hlt)
      | false =>
        rw [hopen.next, if_neg (by simp [hst])] at hb
        omega
    · refine Or.inl ⟨⟨f, c, d⟩, ?_, rfl, rfl⟩
      refine mem_deliveries.mpr (List.mem_append_right _ ?_)
      simp [Arbitrator.call, hr, Accepted.outputs]
    · exact Or.inr hw'

theorem Lossless.drainReady (h : Lossless P maxBytes t) : Keeps P maxBytes t .drainReady := by
  have hadv := h.sound.drainReady
  have hspec := Arbitrator.drainReady_spec h.sound.wf h.sound.fresh
  obtain ⟨gone, hperm, hout⟩ := hspec.split
  -- A datagram that waited is handed over and ends at or below the new frontier, or waits on.
  have hmoved : ∀ {f c : Nat}, Waits f c t.arb →
      (Delivered f c (t.step .drainReady) ∧ f + c ≤ t.arb.drainReady.2.nextExpected) ∨
      Waits f c t.arb.drainReady.2 := by
    intro f c hwait
    obtain ⟨s, hs, rfl, rfl⟩ := hwait
    rcases List.mem_append.mp (hperm.mem_iff.mp hs) with hs | hs
    · have hmem : s.delivery ∈ t.arb.drainReady.1 := by
        rw [hout]; exact List.mem_map_of_mem hs
      refine Or.inl ⟨⟨s.delivery, ?_, rfl, rfl⟩, (hspec.tiles.bounds hmem).2.2⟩
      exact mem_deliveries.mpr (List.mem_append_right _ (List.mem_map_of_mem hmem))
    · exact Or.inr ⟨s, hs, rfl, rfl⟩
  refine ⟨⟨hadv.sound, Or.inl (h.room.drained h.sound.wf hspec), ?_⟩, ?_, ?_, ?_⟩
  · intro d hd f c hcarries
    cases h.received d hd f c hcarries with
    | inl hbehind => exact Or.inl (Nat.le_trans hbehind hadv.mono)
    | inr hwait =>
      cases hmoved hwait with
      | inl hgone => exact Or.inl hgone.2
      | inr hwait => exact Or.inr hwait
  · intro g hg
    simp [Arbitrator.call] at hg
  · intro f c howed
    cases howed with
    | inl hdel => exact Or.inl (hdel.mono _)
    | inr hwait => exact (hmoved hwait).imp And.left id
  · intro arm d heq
    cases heq

theorem Lossless.declareGapIfStalled (h : Lossless P maxBytes t) :
    Keeps P maxBytes t .declareGapIfStalled := by
  have hadv := h.sound.declareGapIfStalled
  obtain ⟨hstall, hw⟩ := Arbitrator.declareGapIfStalled_stalled h.sound.wf
  have harb : (t.step .declareGapIfStalled).arb = t.arb.declareGapIfStalled.2 := rfl
  have hcall : (t.arb.call .declareGapIfStalled).1 =
      t.arb.declareGapIfStalled.1.toList.map .gap := rfl
  generalize t.arb.declareGapIfStalled.1 = r at hstall hcall
  generalize t.arb.declareGapIfStalled.2 = b at hstall hw harb
  have hheld : b.held = t.arb.held := by
    cases hstall with
    | idle => rfl
    | gap hsome hne hn hh => exact hh
  have hwaits : ∀ {f c : Nat}, Waits f c t.arb → Waits f c b := by
    intro f c hwait
    unfold Waits
    rw [hheld]
    exact hwait
  have hmono : t.arb.nextExpected ≤ b.nextExpected := harb ▸ hadv.mono
  refine ⟨⟨hadv.sound, ?_, ?_⟩, ?_, ?_, ?_⟩
  · rw [harb]
    cases hstall with
    | idle hno => exact h.room
    | gap hsome hne hn hh =>
      exact Arbitrator.Room.of_gapTarget hsome hn fun s hs => hh ▸ hs
  · intro d hd f c hcarries
    rw [harb]
    exact (h.received d hd f c hcarries).imp (fun hb => Nat.le_trans hb hmono) hwaits
  · intro g hg d hd f c hcarries s hlo hhi
    rw [hcall] at hg
    cases hstall with
    | idle => simp at hg
    | gap hsome hne hn hh hm hk =>
      have hlt := (Arbitrator.NoneAtFrontier.drained hne h.sound.fresh).lt_gapTarget hsome
      simp at hg
      subst hg
      refine not_contains_of_received rfl (Nat.max_lt.mpr ⟨by omega, hlt⟩) ?_
        (h.received d hd f c hcarries) hlo hhi
      intro x hx
      exact Arbitrator.gapTarget_le hx
  · intro f c howed
    rw [harb]
    exact howed.imp (fun hdel => hdel.mono _) hwaits
  · intro arm d heq
    cases heq

theorem Lossless.call (h : Lossless P maxBytes t) {c : Call} (hc : c.Of P)
    (hsafe : KeepsArrival t.arb c) : Keeps P maxBytes t c := by
  cases c with
  | accept arm d =>
    obtain ⟨first, count, hd⟩ := hc
    exact h.accept hd hsafe
  | drainReady => exact h.drainReady
  | declareGapIfStalled => exact h.declareGapIfStalled

/-! ## Quiet periods empty the window -/

/-- `n` quiet periods: give up on the hole, if there is one, and drain. -/
def quietPeriods : Nat → List Call
  | 0 => []
  | n + 1 => .declareGapIfStalled :: .drainReady :: quietPeriods n

theorem Lossless.stalled_held (h : Lossless P maxBytes t) :
    (t.step .declareGapIfStalled).arb.held = t.arb.held := by
  obtain ⟨hstall, -⟩ := Arbitrator.declareGapIfStalled_stalled h.sound.wf
  show t.arb.declareGapIfStalled.2.held = t.arb.held
  generalize t.arb.declareGapIfStalled.1 = r at hstall
  generalize t.arb.declareGapIfStalled.2 = b at hstall
  cases hstall with
  | idle => rfl
  | gap hsome hnone hn hh => exact hh

/-- After a quiet call something waits at the frontier, if anything waits at all. -/
theorem Lossless.stalled_waits (h : Lossless P maxBytes t) (hne : t.arb.held ≠ []) :
    ∃ s ∈ t.arb.held, s.firstSequence = (t.step .declareGapIfStalled).arb.nextExpected := by
  obtain ⟨hstall, -⟩ := Arbitrator.declareGapIfStalled_stalled h.sound.wf
  show ∃ s ∈ t.arb.held, s.firstSequence = t.arb.declareGapIfStalled.2.nextExpected
  generalize t.arb.declareGapIfStalled.1 = r at hstall
  generalize t.arb.declareGapIfStalled.2 = b at hstall
  cases hstall with
  | idle hno =>
    cases hno with
    | inl hnil => exact absurd hnil hne
    | inr hsome => exact hsome
  | gap hsome hnone hn hh =>
    rw [hn]
    exact Arbitrator.gapTarget_mem hsome

/-- A quiet period takes at least one datagram out of a window that is not empty. -/
theorem Lossless.quiet_shrinks (h : Lossless P maxBytes t) {n : Nat}
    (hn : t.arb.held.length ≤ n + 1) :
    ((t.step .declareGapIfStalled).step .drainReady).arb.held.length ≤ n := by
  have hl := h.declareGapIfStalled.lossless
  have hspec := Arbitrator.drainReady_spec hl.sound.wf hl.sound.fresh
  show (t.step .declareGapIfStalled).arb.drainReady.2.held.length ≤ n
  by_cases hne : t.arb.held = []
  · obtain ⟨gone, hperm, -⟩ := hspec.split
    rw [h.stalled_held, hne] at hperm
    rw [(List.append_eq_nil_iff.mp (List.nil_perm.mp hperm)).2]
    exact Nat.zero_le n
  · obtain ⟨s, hs, hfirst⟩ := h.stalled_waits hne
    have hlt := hspec.shrinks (h.stalled_held.symm ▸ hs) hfirst
    rw [h.stalled_held] at hlt
    omega

/-- As many quiet periods as there are buffered datagrams leave none. -/
theorem Lossless.quiet (n : Nat) (h : Lossless P maxBytes t) (hn : t.arb.held.length ≤ n) :
    ((quietPeriods n).foldl Trace.step t).arb.held = [] ∧
    ∀ first count, Delivered first count t ∨ Waits first count t.arb →
      Delivered first count ((quietPeriods n).foldl Trace.step t) := by
  induction n generalizing t with
  | zero =>
    have hnil : t.arb.held = [] := List.length_eq_zero_iff.mp (Nat.le_zero.mp hn)
    refine ⟨hnil, fun first count howed => ?_⟩
    cases howed with
    | inl hdel => exact hdel
    | inr hwait =>
      obtain ⟨s, hs, -⟩ := hwait
      rw [hnil] at hs
      cases hs
  | succ n ih =>
    have hk := h.declareGapIfStalled
    have hk' := hk.lossless.drainReady
    obtain ⟨hnil, hdel⟩ := ih hk'.lossless (h.quiet_shrinks hn)
    exact ⟨hnil, fun first count howed =>
      hdel first count (hk'.owed _ _ (hk.owed _ _ howed))⟩

/-! ## Whole runs -/

/-- **A gap names only what was never received**, in every run of calls that lose nothing: no
declared gap names a sequence of a datagram given so far, the one that forced it included; and
every datagram that was not behind the frontier when it was offered is delivered, or waits and is
delivered after as many quiet periods as there are datagrams in the window. -/
theorem gap_names_only_the_lost (P : Partition) (w m : Nat) (cs : List Call)
    (hof : ∀ c ∈ cs, c.Of P)
    (hsafe : Along Trace.step (fun t c => KeepsArrival t.arb c) (Trace.init w m) cs) :
    Along Trace.step NamesOnlyUnreceived (Trace.init w m) cs ∧
    ∀ pre arm d post, cs = pre ++ .accept arm d :: post → ∀ first count, Carries d first count →
      (pre.foldl Trace.step (Trace.init w m)).arb.started = false ∨
        (pre.foldl Trace.step (Trace.init w m)).arb.nextExpected < first + count →
      (Delivered first count (cs.foldl Trace.step (Trace.init w m)) ∨
        Waits first count (cs.foldl Trace.step (Trace.init w m)).arb) ∧
      Delivered first count ((cs ++ quietPeriods
        (cs.foldl Trace.step (Trace.init w m)).arb.occupied).foldl Trace.step
        (Trace.init w m)) := by
  have hof' : Along Trace.step (fun _ c => c.Of P) (Trace.init w m) cs :=
    along_of_forall fun _ c hc => hof c hc
  have hsafe' := hof'.and hsafe
  refine ⟨hsafe'.of_invariant (Lossless P m) ?_ ?_ (lossless_init P w m), ?_⟩
  · intro t c h hc
    exact (h.call hc.1 hc.2).lossless
  · intro t c h hc
    exact (h.call hc.1 hc.2).names
  · intro pre arm d post hcs first count hcarries hahead
    rw [hcs] at hsafe'
    obtain ⟨hpre, hacc, hpost⟩ := along_append.mp hsafe'
    have hlpre : Lossless P m (pre.foldl Trace.step (Trace.init w m)) :=
      hpre.invariant (Lossless P m) (fun t c h hc => (h.call hc.1 hc.2).lossless)
        (lossless_init P w m)
    have hkacc := hlpre.call hacc.1 hacc.2
    -- From the moment it is taken, the datagram stays delivered or waiting.
    obtain ⟨hl, howed⟩ := hpost.invariant
      (fun t => Lossless P m t ∧ (Delivered first count t ∨ Waits first count t.arb))
      (fun t c h hc => ⟨(h.1.call hc.1 hc.2).lossless, (h.1.call hc.1 hc.2).owed _ _ h.2⟩)
      ⟨hkacc.lossless, hkacc.taken arm d rfl first count hcarries hahead⟩
    have hrun : cs.foldl Trace.step (Trace.init w m) = post.foldl Trace.step
        ((pre.foldl Trace.step (Trace.init w m)).step (.accept arm d)) := by
      rw [hcs, List.foldl_append, List.foldl_cons]
    rw [List.foldl_append, hrun]
    refine ⟨howed, ?_⟩
    exact (hl.quiet _ (Nat.le_of_eq hl.sound.wf.occupied_eq.symm)).2 first count howed

/-- A drain after every `accept`, and nowhere else. -/
def drainAfterAccept : List Call → List Call
  | [] => []
  | .accept arm d :: cs => .accept arm d :: .drainReady :: drainAfterAccept cs
  | c :: cs => c :: drainAfterAccept cs

theorem keepsArrival_bare {a : Arbitrator} {arm : Nat} {first : UInt64} {count : UInt16}
    (h : (first.toNat = a.nextExpected → ∀ s ∈ a.held, s.firstSequence ≠ a.nextExpected) ∧
      (a.capacity ≤ a.occupied → (∀ s ∈ a.held, s.firstSequence ≠ a.nextExpected) ∧
        a.gapTarget < first.toNat)) :
    KeepsArrival a (.accept arm (bareDatagram first count)) := by
  intro f c hcarries _
  obtain ⟨rfl, rfl⟩ := hcarries.unique (carries_bareDatagram first count)
  exact ⟨h.1, fun hforces => h.2 hforces.2.2⟩

/-- Sequence 2 is lost and 5, above everything buffered, forces the gap. -/
def forcedFromAbove : List Call :=
  [.accept 0 (bareDatagram 1 1), .drainReady, .accept 0 (bareDatagram 3 1), .drainReady,
   .accept 1 (bareDatagram 4 1), .drainReady, .accept 0 (bareDatagram 5 1)]

theorem gap_names_only_the_lost_above :
    Along Trace.step NamesOnlyUnreceived (Trace.init 2 64) forcedFromAbove ∧
    Delivered 5 1 ((forcedFromAbove ++ quietPeriods 3).foldl Trace.step (Trace.init 2 64)) := by
  have hrun := gap_names_only_the_lost Partition.singles 2 64 forcedFromAbove (by
      intro c hc
      simp only [forcedFromAbove, List.mem_cons, List.not_mem_nil, or_false] at hc
      rcases hc with rfl | rfl | rfl | rfl | rfl | rfl | rfl
      · exact accept_bare_of_singles 0 (by decide)
      · trivial
      · exact accept_bare_of_singles 0 (by decide)
      · trivial
      · exact accept_bare_of_singles 1 (by decide)
      · trivial
      · exact accept_bare_of_singles 0 (by decide)) (by
      refine ⟨keepsArrival_bare ?_, trivial, keepsArrival_bare ?_, trivial,
        keepsArrival_bare ?_, trivial, keepsArrival_bare ?_, trivial⟩ <;> decide +kernel)
  refine ⟨hrun.1, ?_⟩
  exact (hrun.2 (forcedFromAbove.take 6) 0 (bareDatagram 5 1) [] rfl 5 1
    (carries_bareDatagram 5 1) (Or.inr (by decide +kernel))).2

/-- Sequences 2 to 4 are late, 5 and 6 fill the window, and 3 arrives: the gap it forces is 2 to
4, itself included. -/
theorem gap_names_its_own_forcing_datagram :
    ¬ ∀ (P : Partition) (w m : Nat) (cs : List Call), (∀ c ∈ cs, c.Of P) →
      Along Trace.step NamesOnlyUnreceived (Trace.init w m) (drainAfterAccept cs) := by
  intro hall
  have hrun := hall Partition.singles 2 64
    [.accept 0 (bareDatagram 1 1), .accept 0 (bareDatagram 5 1), .accept 0 (bareDatagram 6 1),
     .accept 1 (bareDatagram 3 1)] (by
      intro c hc
      simp only [List.mem_cons, List.not_mem_nil, or_false] at hc
      rcases hc with rfl | rfl | rfl | rfl
      · exact accept_bare_of_singles 0 (by decide)
      · exact accept_bare_of_singles 0 (by decide)
      · exact accept_bare_of_singles 0 (by decide)
      · exact accept_bare_of_singles 1 (by decide))
  have hnames := hrun.2.2.2.2.2.2.1
  exact hnames ⟨2, 4⟩ (by decide +kernel) (bareDatagram 3 1) (by decide +kernel) 3 1
    (carries_bareDatagram 3 1) 3 (by decide) (by decide) (by decide)

end MarketData.Handler
