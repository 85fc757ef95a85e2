import Mathlib.Data.List.Nodup
import Mathlib.Tactic.Linarith
import MarketData.Lib.Slots
import MarketData.Lib.Tiling
import MarketData.Wire.Packet
import MarketData.Handler.Arbitrator

/-!
# `Handler/Arbitration.lean` — what each call of the arbitrator does

The arbitrator's calls are analysed once, here, against a fixed cut of the stream into
datagrams (`Partition`). `Wf` is the representation invariant that every call keeps in any
order; `accept_placed`, `drainReady_spec` and `declareGapIfStalled_stalled` say everything the
three calls can do to the frontier and to the held datagrams. The statements about whole runs
(`Handler/Accounting.lean`, `Handler/Redundancy.lean`) use only these.

## One cut for both arms

The two arms send the same datagrams, so a datagram is known by its first sequence, and two copies
of one have the same count. That is what `Partition` says, as a function from a first sequence to a
count, and it is **the only thing assumed of the publisher**: `Copy` says that some bytes carry a
header that names a datagram of the cut. Without it, a datagram could begin in the middle of
another, and `findSlot`, which compares first sequences, would not find what it looks for.

## Inversion lemmas

`Placed` has a constructor for every way out of `accept`, the three answers to a full window among
them, and each says what became of the frontier, the held datagrams and the counters; `DrainSpec`
and `Stalled` do the same for the other two calls. They are stated with the held datagrams up to a
permutation. Which slot a datagram lies in is the concern of the store and the search, and ends
here.

Beyond these there are the two ways out of a gap, `resyncTo` and `clearGapped`, which the recovery
uses and no call of the arbitrator does.
-/

set_option autoImplicit false

namespace MarketData.Handler

open MarketData.Words MarketData.Slots MarketData.Wire

/-- A fixed cut of the sequence stream into non-empty, non-overlapping datagrams, given by their
first sequence and count, none of which runs past the end of the `u64` range. -/
structure Partition where
  mem : Nat → Nat → Prop
  pos : ∀ {f c}, mem f c → 0 < c
  bounded : ∀ {f c}, mem f c → f + c < 2 ^ 64
  disjoint : ∀ {f c f' c'}, mem f c → mem f' c' → f < f' + c' → f' < f + c → f = f' ∧ c = c'

/-- The bytes carry a header that names `count` messages from `first`. -/
def Carries (d : Buf) (first count : Nat) : Prop :=
  ∃ h, PacketHeader.wrap d = .ok h ∧ h.firstSequence.toNat = first ∧
    h.messageCount.toNat = count

/-- `d` is a copy of a datagram of the partition. -/
structure Copy (P : Partition) (d : Buf) (first count : Nat) : Prop where
  carries : Carries d first count
  mem : P.mem first count

theorem Carries.unique {d : Buf} {f c f' c' : Nat} (h : Carries d f c) (h' : Carries d f' c') :
    f = f' ∧ c = c' := by
  obtain ⟨x, hx, hf, hc⟩ := h
  obtain ⟨y, hy, hf', hc'⟩ := h'
  rw [hx] at hy
  cases hy
  exact ⟨hf.symm.trans hf', hc.symm.trans hc'⟩

/-- The stream cut into datagrams of one message each. -/
def Partition.singles : Partition where
  mem f c := c = 1 ∧ f + 1 < 2 ^ 64
  pos h := by rw [h.1]; exact Nat.one_pos
  bounded h := by rw [h.1]; exact h.2
  disjoint h h' hlt hlt' := by
    rw [h.1, h'.1] at *
    exact ⟨by omega, rfl⟩

/-- A datagram that is its header and nothing else. -/
def bareDatagram (first : UInt64) (count : UInt16) : Buf :=
  putU16 (packetHeaderBlock 0 0 first 0) 4 count

theorem carries_bareDatagram (first : UInt64) (count : UInt16) :
    Carries (bareDatagram first count) first.toNat count.toNat := by
  have hheader := (isHeader_packetHeaderBlock 0 0 first 0).patchCount count
  obtain ⟨header, hwrap, hc, hf, -⟩ := hheader.wrap []
  rw [List.append_nil] at hwrap
  exact ⟨header, hwrap, by rw [hf], by rw [hc]⟩

/-- The point `n` is not strictly inside any datagram of the partition. -/
def Partition.Boundary (P : Partition) (n : Nat) : Prop :=
  n < 2 ^ 64 ∧ ∀ f c, P.mem f c → n ≤ f ∨ f + c ≤ n

theorem Partition.boundary_first (P : Partition) {f c : Nat} (h : P.mem f c) :
    P.Boundary f := by
  refine ⟨by have := P.bounded h; omega, fun f' c' h' => ?_⟩
  by_contra hcon
  have := P.disjoint h h' (by omega) (by have := P.pos h; omega)
  omega

theorem Partition.boundary_end (P : Partition) {f c : Nat} (h : P.mem f c) :
    P.Boundary (f + c) := by
  refine ⟨P.bounded h, fun f' c' h' => ?_⟩
  by_contra hcon
  have := P.disjoint h h' (by have := P.pos h; omega) (by omega)
  omega

namespace Arbitrator

/-- What every call keeps, in any order of calls. -/
structure Wf (P : Partition) (maxBytes : Nat) (a : Arbitrator) : Prop where
  size : a.window.length = a.capacity + 1
  capacity_pos : 0 < a.capacity
  occupied_eq : a.occupied = a.held.length
  bufs : ∀ s ∈ a.window, s.buf.length = maxBytes
  slots : ∀ s ∈ a.held, P.mem s.firstSequence s.count ∧
    ∃ d, Carries d s.firstSequence s.count ∧ s.bytes = d.take maxBytes
  nodup : (a.held.map (·.firstSequence)).Nodup
  idle : a.started = false → a.held = []
  boundary : a.started = true → P.Boundary a.nextExpected

variable {P : Partition} {maxBytes : Nat} {a : Arbitrator}

theorem Wf.bounded (h : Wf P maxBytes a) {s : Slot} (hs : s ∈ a.held) :
    s.firstSequence + s.count < 2 ^ 64 := by
  have := P.bounded (h.slots s hs).1
  omega

theorem mem_held {s : Slot} : s ∈ a.held ↔ s ∈ a.window ∧ s.occupied = true := by
  simp [held]

theorem Wf.started_of_held (h : Wf P maxBytes a) {s : Slot} (hs : s ∈ a.held) :
    a.started = true := by
  cases hst : a.started with
  | true => rfl
  | false => rw [h.idle hst] at hs; exact absurd hs (by simp)

theorem wf_new (P : Partition) (w m : Nat) : Wf P m (Arbitrator.new w m) := by
  have hheld : (Arbitrator.new w m).held = [] := by
    simp [held, new]
  refine ⟨by simp [new], by simp [new], by rw [hheld]; rfl, ?_, ?_, ?_, fun _ => hheld, ?_⟩
  · intro s hs
    have : s = _ := List.eq_of_mem_replicate hs
    subst this
    simp
  · rw [hheld]; intro s hs; exact absurd hs (by simp)
  · rw [hheld]; simp
  · intro hst; exact absurd hst (by simp [new])

/-- A window as full as it is meant to get is not empty, whatever its capacity. -/
theorem Wf.held_ne_nil (h : Wf P maxBytes a) (hfull : a.capacity ≤ a.occupied) :
    a.held ≠ [] := by
  intro hnil
  have hocc := h.occupied_eq
  rw [hnil, List.length_nil] at hocc
  have := h.capacity_pos
  omega

/-! ## Searching the window -/

theorem Wf.freeSlot_isSome (h : Wf P maxBytes a) (hroom : a.occupied ≤ a.capacity) :
    a.freeSlot.isSome := by
  refine findIdx?_free_isSome (p := Slot.occupied) ?_
  have : a.held.length < a.window.length := by
    rw [h.size, ← h.occupied_eq]; omega
  exact this

theorem Wf.held_length_le (h : Wf P maxBytes a) : a.held.length ≤ a.capacity + 1 := by
  rw [← h.size]
  exact List.length_filter_le ..

theorem findSlot_isSome {n : Nat} :
    (a.findSlot n).isSome = true ↔ ∃ s ∈ a.held, s.firstSequence = n := by
  rw [findSlot, List.findIdx?_isSome, List.any_eq_true]
  constructor
  · rintro ⟨s, hs, hp⟩
    simp only [Bool.and_eq_true, beq_iff_eq] at hp
    exact ⟨s, mem_held.mpr ⟨hs, hp.1⟩, hp.2⟩
  · rintro ⟨s, hs, hn⟩
    obtain ⟨hw, ho⟩ := mem_held.mp hs
    exact ⟨s, hw, by simp [ho, hn]⟩

/-- The frontier is a boundary, so a slot that covers it starts there. -/
theorem Wf.covers_iff (h : Wf P maxBytes a) {s : Slot} (hs : s ∈ a.held) :
    (s.firstSequence ≤ a.nextExpected ∧
      a.nextExpected < wrapAdd s.firstSequence s.count) ↔
    s.firstSequence = a.nextExpected := by
  have hb := (h.boundary (h.started_of_held hs)).2 _ _ (h.slots s hs).1
  have hpos := P.pos (h.slots s hs).1
  rw [wrapAdd_eq (h.bounded hs)]
  omega

theorem Wf.findSlotCovering_eq_some (h : Wf P maxBytes a) {i : Nat}
    (hf : a.findSlotCovering a.nextExpected = some i) :
    ∃ hi : i < a.window.length, a.window[i] ∈ a.held ∧
      (a.window[i]).firstSequence = a.nextExpected := by
  obtain ⟨hi, hp, -⟩ := List.findIdx?_eq_some_iff_getElem.mp hf
  simp only [Bool.and_eq_true, decide_eq_true_eq] at hp
  have hmem : a.window[i] ∈ a.held := mem_held.mpr ⟨List.getElem_mem hi, hp.1.1⟩
  exact ⟨hi, hmem, (h.covers_iff hmem).mp ⟨hp.1.2, hp.2⟩⟩

theorem Wf.findSlotCovering_eq_none (h : Wf P maxBytes a) :
    a.findSlotCovering a.nextExpected = none ↔
      ∀ s ∈ a.held, s.firstSequence ≠ a.nextExpected := by
  rw [findSlotCovering, List.findIdx?_eq_none_iff]
  constructor
  · intro hall s hs heq
    have hc := (h.covers_iff hs).mpr heq
    have := hall s (mem_held.mp hs).1
    simp [(mem_held.mp hs).2, hc.1, hc.2] at this
  · intro hall s hs
    by_contra hp
    simp only [Bool.not_eq_false, Bool.and_eq_true, decide_eq_true_eq] at hp
    have hmem : s ∈ a.held := mem_held.mpr ⟨hs, hp.1.1⟩
    exact hall s hmem ((h.covers_iff hmem).mp ⟨hp.1.2, hp.2⟩)

/-! ## The lowest buffered datagram -/

theorem gapTarget_mem (h : a.held ≠ []) : ∃ s ∈ a.held, s.firstSequence = a.gapTarget := by
  unfold gapTarget
  cases hm : (a.held.map (·.firstSequence)).min? with
  | none =>
    rw [List.min?_eq_none_iff, List.map_eq_nil_iff] at hm
    exact absurd hm h
  | some t =>
    have ht : t ∈ a.held.map (·.firstSequence) := List.min?_mem hm
    simpa using ht

theorem gapTarget_le {s : Slot} (hs : s ∈ a.held) : a.gapTarget ≤ s.firstSequence := by
  unfold gapTarget
  cases hm : (a.held.map (·.firstSequence)).min? with
  | none =>
    rw [List.min?_eq_none_iff, List.map_eq_nil_iff] at hm
    rw [hm] at hs
    exact absurd hs (by simp)
  | some t =>
    have := (List.min?_eq_some_iff.mp hm).2 s.firstSequence (List.mem_map_of_mem hs)
    simpa using this

/-! ## The primitive updates

Counters are written on one arm at a time and read by nothing; every other update changes the
window or the frontier, never both except through the calls below. -/

/-- A counter update that leaves `dropped_window_full` alone, as all but one do. -/
def KeepsDropped (f : ArmCounters → ArmCounters) : Prop :=
  ∀ c, (f c).droppedWindowFull = c.droppedWindowFull

theorem tally_dropped {f : ArmCounters → ArmCounters} (hf : KeepsDropped f) (i j : Nat) :
    ((a.tally j f).arms i).droppedWindowFull = (a.arms i).droppedWindowFull := by
  by_cases hij : i = j
  · subst hij
    simpa [tally] using hf (a.arms i)
  · simp [tally, Function.update_of_ne hij]

theorem Wf.tally (h : Wf P maxBytes a) (i : Nat) (f : ArmCounters → ArmCounters) :
    Wf P maxBytes (a.tally i f) :=
  ⟨h.size, h.capacity_pos, h.occupied_eq, h.bufs, h.slots, h.nodup, h.idle, h.boundary⟩

theorem Wf.deliver (h : Wf P maxBytes a) {first count : Nat} (hm : P.mem first count) :
    Wf P maxBytes (a.deliver first count) := by
  refine ⟨h.size, h.capacity_pos, h.occupied_eq, h.bufs, h.slots, h.nodup, h.idle, fun _ => ?_⟩
  have hb := P.bounded hm
  show P.Boundary (wrapAdd first count)
  rw [wrapAdd_eq (by omega)]
  exact P.boundary_end hm

theorem Wf.start (h : Wf P maxBytes a) {first count : Nat} (hm : P.mem first count) :
    Wf P maxBytes (a.start first) := by
  unfold Arbitrator.start
  split
  · exact h
  · rename_i hst
    refine ⟨h.size, h.capacity_pos, h.occupied_eq, h.bufs, h.slots, h.nodup, fun hfalse => ?_,
      fun _ => P.boundary_first hm⟩
    exact absurd hfalse (by simp)

theorem Wf.declareGap (h : Wf P maxBytes a) (hne : a.held ≠ []) :
    Wf P maxBytes a.declareGap.2 := by
  refine ⟨h.size, h.capacity_pos, h.occupied_eq, h.bufs, h.slots, h.nodup, h.idle, fun _ => ?_⟩
  obtain ⟨s, hs, ht⟩ := gapTarget_mem hne
  show P.Boundary a.gapTarget
  rw [← ht]
  exact P.boundary_first (h.slots s hs).1

theorem length_buf_fill (old : Slot) (arm first count : Nat) (d : Buf) :
    (fill old arm first count d).buf.length = old.buf.length := by
  simp only [fill, List.length_append, List.length_take, List.length_drop]
  omega

/-- What storing a datagram leaves in its slot: as much of it as the slot's buffer holds. -/
theorem bytes_fill (old : Slot) (arm first count : Nat) (d : Buf) :
    (fill old arm first count d).bytes = d.take old.buf.length := by
  rw [Slot.bytes]
  simp only [fill]
  rw [List.take_left' (by simp), Nat.min_comm, ← List.take_eq_take_min]

/-- **Storing.** A free slot takes the datagram; the held datagrams gain exactly it. -/
theorem Wf.store (h : Wf P maxBytes a) {i first count : Nat} {d : Buf} (arm : Nat)
    (hi : a.freeSlot = some i) (hd : Copy P d first count)
    (hnew : ∀ s ∈ a.held, s.firstSequence ≠ first) (hst : a.started = true) :
    Wf P maxBytes (a.store i arm first count d) ∧
    ∃ s : Slot, s.firstSequence = first ∧ s.count = count ∧
        s.bytes = d.take s.buf.length ∧
      (a.store i arm first count d).held.Perm (s :: a.held) := by
  obtain ⟨hlt, hfree, -⟩ := List.findIdx?_eq_some_iff_getElem.mp hi
  have hfree' : (a.window[i]).occupied = false := by simpa using hfree
  have hbuf : (a.window[i]).buf.length = maxBytes := h.bufs _ (List.getElem_mem hlt)
  have hperm : (a.store i arm first count d).held.Perm
      (fill a.window[i] arm first count d :: a.held) :=
    filter_modify_perm_cons (f := fun old => fill old arm first count d) hlt hfree' rfl
  have hbytes := bytes_fill a.window[i] arm first count d
  have hlen := length_buf_fill a.window[i] arm first count d
  refine ⟨⟨?_, h.capacity_pos, ?_, ?_, ?_, ?_, ?_, h.boundary⟩,
    _, rfl, rfl, by rw [hbytes, hlen], hperm⟩
  · show (a.window.modify i _).length = _
    rw [List.length_modify]; exact h.size
  · rw [hperm.length_eq, List.length_cons, ← h.occupied_eq]; rfl
  · intro s hs
    have hs' : s ∈ a.window.modify i fun old => fill old arm first count d := hs
    obtain ⟨j, hj, rfl⟩ := List.mem_iff_getElem.mp hs'
    rw [List.length_modify] at hj
    rw [List.getElem_modify]
    have hold := h.bufs _ (List.getElem_mem hj)
    split
    · rw [length_buf_fill]; exact hold
    · exact hold
  · intro s hs
    rcases List.mem_cons.mp (hperm.mem_iff.mp hs) with rfl | hs
    · exact ⟨hd.mem, d, hd.carries, by rw [hbytes, hbuf]⟩
    · exact h.slots s hs
  · refine (hperm.map _).nodup_iff.mpr ?_
    rw [List.map_cons, List.nodup_cons]
    refine ⟨fun hm => ?_, h.nodup⟩
    obtain ⟨s, hs, heq⟩ := List.mem_map.mp hm
    exact hnew s hs heq
  · intro hfalse
    have : a.started = false := hfalse
    rw [hst] at this
    exact absurd this (by simp)

/-! ## `accept`, inverted -/

/-- What no call changes once the stream has started. -/
structure Steady (a b : Arbitrator) : Prop where
  capacity : b.capacity = a.capacity
  started : b.started = a.started
  first : b.firstSequence = a.firstSequence
  dropped : ∀ i, (b.arms i).droppedWindowFull = (a.arms i).droppedWindowFull

theorem Steady.refl (a : Arbitrator) : Steady a a := ⟨rfl, rfl, rfl, fun _ => rfl⟩

theorem Steady.trans {a b c : Arbitrator} (h : Steady a b) (h' : Steady b c) : Steady a c :=
  ⟨h'.capacity.trans h.capacity, h'.started.trans h.started, h'.first.trans h.first,
    fun i => (h'.dropped i).trans (h.dropped i)⟩

theorem Steady.tally (a : Arbitrator) {f : ArmCounters → ArmCounters} (hf : KeepsDropped f)
    (i : Nat) : Steady a (a.tally i f) :=
  ⟨rfl, rfl, rfl, fun j => tally_dropped hf j i⟩

/-- The two message counters account for the way the frontier moved. -/
def Moved (a b : Arbitrator) : Prop :=
  b.messagesDelivered + b.messagesMissed + a.nextExpected
    = a.messagesDelivered + a.messagesMissed + b.nextExpected

theorem Moved.trans {a b c : Arbitrator} (h : Moved a b) (h' : Moved b c) : Moved a c := by
  unfold Moved at *
  omega

/-- Everything a started arbitrator can do with a copy of a datagram of the partition: the
answer, the frontier, the held datagrams. The three answers to a full window differ in where
the datagram lies against the lowest buffered one and in whether a slot is left for it. -/
inductive Placed (a : Arbitrator) (first count : Nat) (d : Buf) : Accepted → Arbitrator → Prop
  | behind {b : Arbitrator} (hle : first + count ≤ a.nextExpected)
      (hn : b.nextExpected = a.nextExpected) (hh : b.held = a.held) (hs : b.state = a.state)
      (hm : Moved a b) (hk : Steady a b) : Placed a first count d .duplicate b
  | ready {b : Arbitrator} (hf : first = a.nextExpected)
      (hn : b.nextExpected = first + count) (hh : b.held = a.held)
      (hs : b.state = if a.state ≠ .gapped then .live else a.state)
      (hm : Moved a b) (hk : Steady a b) : Placed a first count d (.ready first count) b
  | copy {b : Arbitrator} (hlt : a.nextExpected < first)
      (hheld : ∃ s ∈ a.held, s.firstSequence = first)
      (hn : b.nextExpected = a.nextExpected) (hh : b.held = a.held) (hs : b.state = a.state)
      (hm : Moved a b) (hk : Steady a b) : Placed a first count d .duplicate b
  | buffered {b : Arbitrator} (hlt : a.nextExpected < first)
      (hnew : ∀ s ∈ a.held, s.firstSequence ≠ first) (hroom : a.occupied < a.capacity)
      (hn : b.nextExpected = a.nextExpected)
      (hh : ∃ s : Slot, s.firstSequence = first ∧ s.count = count ∧
        s.bytes = d.take s.buf.length ∧
        b.held.Perm (s :: a.held))
      (hs : b.state = a.state) (hm : Moved a b) (hk : Steady a b) :
      Placed a first count d .buffered b
  /-- The datagram lies below the lowest buffered one, inside the range just given up on. -/
  | lost {b : Arbitrator} (hlt : a.nextExpected < first)
      (hnew : ∀ s ∈ a.held, s.firstSequence ≠ first) (hfull : a.capacity ≤ a.occupied)
      (hbelow : first + count ≤ a.gapTarget)
      (hn : b.nextExpected = a.gapTarget) (hh : b.held = a.held)
      (hm : a.nextExpected < a.gapTarget → Moved a b) (hk : Steady a b) :
      Placed a first count d
        (.forcedGap ⟨a.nextExpected, max (a.gapTarget - 1) a.nextExpected⟩) b
  /-- The datagram lies above the lowest buffered one and takes the spare slot. -/
  | kept {b : Arbitrator} (hlt : a.nextExpected < first)
      (hnew : ∀ s ∈ a.held, s.firstSequence ≠ first) (hfull : a.capacity ≤ a.occupied)
      (habove : a.gapTarget < first) (hspare : a.occupied ≤ a.capacity)
      (hn : b.nextExpected = a.gapTarget)
      (hh : ∃ s : Slot, s.firstSequence = first ∧ s.count = count ∧
        s.bytes = d.take s.buf.length ∧
        b.held.Perm (s :: a.held))
      (hm : a.nextExpected < a.gapTarget → Moved a b) (hk : Steady a b) :
      Placed a first count d
        (.forcedGap ⟨a.nextExpected, max (a.gapTarget - 1) a.nextExpected⟩) b
  /-- Not even the spare slot is free: the datagram is dropped and counted. -/
  | dropped {b : Arbitrator} (hlt : a.nextExpected < first)
      (hnew : ∀ s ∈ a.held, s.firstSequence ≠ first) (hover : a.capacity < a.occupied)
      (habove : a.gapTarget < first)
      (hn : b.nextExpected = a.gapTarget) (hh : b.held = a.held) (hc : b.capacity = a.capacity)
      (hst : b.started = a.started) (hfs : b.firstSequence = a.firstSequence) :
      Placed a first count d
        (.forcedGap ⟨a.nextExpected, max (a.gapTarget - 1) a.nextExpected⟩) b

theorem Moved.deliver {first count : Nat} (hf : first = a.nextExpected)
    (hb : first + count < 2 ^ 64) : Moved a (a.deliver first count) := by
  unfold Moved
  simp only [Arbitrator.deliver, wrapAdd_eq hb]
  omega

theorem Moved.declareGap (h : a.nextExpected < a.gapTarget) : Moved a a.declareGap.2 := by
  unfold Moved
  simp only [Arbitrator.declareGap, Gap.messages]
  omega

theorem Steady.declareGap (a : Arbitrator) : Steady a a.declareGap.2 :=
  ⟨rfl, rfl, rfl, fun _ => rfl⟩

theorem Steady.store (a : Arbitrator) (i arm first count : Nat) (d : Buf) :
    Steady a (a.store i arm first count d) := ⟨rfl, rfl, rfl, fun _ => rfl⟩

theorem Steady.deliver (a : Arbitrator) (first count : Nat) :
    Steady a (a.deliver first count) := ⟨rfl, rfl, rfl, fun _ => rfl⟩

/-- `keep_after_gap` after the frontier moved to the lowest buffered datagram. -/
theorem keepAfterGap_placed (h : Wf P maxBytes a) (hst : a.started = true)
    {idx first count : Nat} {d : Buf} (hd : Copy P d first count)
    (hlt : a.nextExpected < first) (hnew : ∀ s ∈ a.held, s.firstSequence ≠ first)
    (hfull : a.capacity ≤ a.occupied) :
    Placed a first count d (.forcedGap ⟨a.nextExpected, max (a.gapTarget - 1) a.nextExpected⟩)
      (a.declareGap.2.keepAfterGap idx first count d) ∧
    Wf P maxBytes (a.declareGap.2.keepAfterGap idx first count d) := by
  have hne := h.held_ne_nil hfull
  have hw := h.declareGap hne
  obtain ⟨s, hs, ht⟩ := gapTarget_mem hne
  have hbd := P.bounded hd.mem
  have hpos := P.pos hd.mem
  have hnext : a.declareGap.2.nextExpected = a.gapTarget := rfl
  unfold keepAfterGap
  rw [satAdd_eq (by omega), hnext]
  by_cases hbelow : first + count ≤ a.gapTarget
  · rw [if_pos hbelow]
    refine ⟨.lost hlt hnew hfull hbelow rfl rfl (fun hg => ?_) ?_, hw.tally _ _⟩
    · exact (Moved.declareGap hg).trans rfl
    · exact (Steady.declareGap a).trans (Steady.tally _ (by intro _; rfl) _)
  · -- Beyond the lowest buffered datagram, or overlapping it; the partition excludes overlap.
    have habove : a.gapTarget < first := by
      have hsd := P.boundary_first (h.slots s hs).1
      rw [ht] at hsd
      rcases hsd.2 _ _ hd.mem with hge | hle
      · rcases Nat.lt_or_eq_of_le hge with hgt | heq
        · exact hgt
        · exact absurd (ht.trans heq) (hnew s hs)
      · exact absurd hle hbelow
    rw [if_neg hbelow, if_neg (by omega)]
    by_cases hspare : a.occupied ≤ a.capacity
    · obtain ⟨i, hi⟩ := Option.isSome_iff_exists.mp (hw.freeSlot_isSome hspare)
      obtain ⟨hw', s', hs1, hs2, hs3, hperm⟩ :=
        hw.store idx hi hd hnew hst
      rw [hi]
      dsimp only
      refine ⟨.kept hlt hnew hfull habove hspare rfl ⟨s', hs1, hs2, hs3, hperm⟩
        (fun hg => ?_) ?_, hw'.tally _ _⟩
      · exact (Moved.declareGap hg).trans rfl
      · exact ((Steady.declareGap a).trans (Steady.store ..)).trans
          (Steady.tally _ (by intro _; rfl) _)
    · cases hi : a.declareGap.2.freeSlot with
      | some i =>
        exfalso
        obtain ⟨hil, hfree, -⟩ := List.findIdx?_eq_some_iff_getElem.mp hi
        -- Every slot is occupied, so there is no free one to find.
        have hall : a.held.length = a.window.length := by
          have hle := h.held_length_le
          have := h.size
          have := h.occupied_eq
          omega
        have hocc := (List.length_filter_eq_length_iff.mp hall) _ (List.getElem_mem hil)
        exact absurd hfree (by simpa using hocc)
      | none =>
        exact ⟨.dropped hlt hnew (by omega) habove rfl rfl rfl rfl rfl, hw.tally _ _⟩

/-- **`accept` after the header, inverted.** -/
theorem place_placed (h : Wf P maxBytes a) (hst : a.started = true)
    {idx first count : Nat} {d : Buf} (hd : Copy P d first count) :
    Placed a first count d (a.place idx first count d).1 (a.place idx first count d).2 ∧
    Wf P maxBytes (a.place idx first count d).2 := by
  have hbd := P.bounded hd.mem
  have hpos := P.pos hd.mem
  unfold place
  rw [satAdd_eq (by omega)]
  by_cases hbehind : first + count ≤ a.nextExpected
  · rw [if_pos hbehind]
    dsimp only
    exact ⟨.behind hbehind rfl rfl rfl rfl (Steady.tally _ (by intro _; rfl) _), h.tally _ _⟩
  rw [if_neg hbehind]
  by_cases hready : first ≤ a.nextExpected
  · rw [if_pos hready]
    dsimp only
    have hf : first = a.nextExpected := by
      rcases (h.boundary hst).2 _ _ hd.mem with hge | hle
      · omega
      · exact absurd hle hbehind
    refine ⟨.ready hf (wrapAdd_eq (by omega)) rfl rfl ?_ ?_, (h.tally _ _).deliver hd.mem⟩
    · exact Moved.deliver (a := a.tally idx _) hf (by omega)
    · exact (Steady.tally _ (by intro _; rfl) _).trans (Steady.deliver ..)
  rw [if_neg hready]
  by_cases hcopy : (a.findSlot first).isSome = true
  · rw [if_pos hcopy]
    dsimp only
    exact ⟨.copy (by omega) (findSlot_isSome.mp hcopy) rfl rfl rfl rfl
      (Steady.tally _ (by intro _; rfl) _), h.tally _ _⟩
  rw [if_neg hcopy]
  have hnew : ∀ s ∈ a.held, s.firstSequence ≠ first := fun s hs heq =>
    hcopy (findSlot_isSome.mpr ⟨s, hs, heq⟩)
  by_cases hroom : a.occupied < a.capacity
  · rw [if_pos hroom]
    obtain ⟨i, hi⟩ := Option.isSome_iff_exists.mp (h.freeSlot_isSome (Nat.le_of_lt hroom))
    obtain ⟨hw', s', hs1, hs2, hs3, hperm⟩ := h.store idx hi hd hnew hst
    rw [hi]
    dsimp only
    exact ⟨.buffered (by omega) hnew hroom rfl ⟨s', hs1, hs2, hs3, hperm⟩ rfl rfl
      ((Steady.store ..).trans (Steady.tally _ (by intro _; rfl) _)), hw'.tally _ _⟩
  · rw [if_neg hroom]
    exact keepAfterGap_placed h hst hd (by omega) hnew (by omega)

/-- The arbitrator `place` sees inside `accept`: counted, and started if it was not. -/
structure Opened (a : Arbitrator) (first : Nat) (b : Arbitrator) : Prop where
  started : b.started = true
  next : b.nextExpected = if a.started then a.nextExpected else first
  state : b.state = if a.started then a.state else .live
  firstSequence : b.firstSequence = if a.started then a.firstSequence else first
  held : b.held = a.held
  occupied : b.occupied = a.occupied
  capacity : b.capacity = a.capacity
  delivered : b.messagesDelivered = a.messagesDelivered
  missed : b.messagesMissed = a.messagesMissed
  dropped : ∀ i, (b.arms i).droppedWindowFull = (a.arms i).droppedWindowFull

theorem start_opened (a : Arbitrator) (first : Nat) : Opened a first (a.start first) := by
  cases hst : a.started with
  | true =>
    have : a.start first = a := by rw [Arbitrator.start, if_pos hst]
    rw [this]
    constructor <;> simp [hst]
  | false =>
    have : a.start first = { a with started := true, firstSequence := first,
                                    nextExpected := first, state := .live } := by
      rw [Arbitrator.start, if_neg (by simp [hst])]
    rw [this]
    constructor <;> simp [hst, Arbitrator.held]

/-- **`accept`, inverted**, at a copy of a datagram of the partition. -/
theorem accept_placed (h : Wf P maxBytes a) (arm : Nat) {first count : Nat} {d : Buf}
    (hd : Copy P d first count) :
    ∃ b, Opened a first b ∧ Wf P maxBytes b ∧
      Placed b first count d (a.accept arm d).1 (a.accept arm d).2 ∧
      Wf P maxBytes (a.accept arm d).2 := by
  obtain ⟨hdr, hwrap, hfirst, hcount⟩ := hd.carries
  have hpos := P.pos hd.mem
  let seen (c : ArmCounters) : ArmCounters :=
    { c with datagrams := c.datagrams + 1, bytes := c.bytes + d.length }
  let counted : Arbitrator :=
    { a.tally (arm % 2) seen with highestSeen := max a.highestSeen (satAdd first count) }
  have hacc : a.accept arm d = (counted.start first).place (arm % 2) first count d := by
    unfold accept
    simp only [hwrap, hfirst, hcount]
    rw [if_neg (by omega)]
    rfl
  have hw : Wf P maxBytes counted :=
    ⟨h.size, h.capacity_pos, h.occupied_eq, h.bufs, h.slots, h.nodup, h.idle, h.boundary⟩
  have hopen := start_opened counted first
  have hws := hw.start hd.mem
  refine ⟨counted.start first, ?_, hws, ?_⟩
  · exact ⟨hopen.started, hopen.next, hopen.state, hopen.firstSequence, hopen.held,
      hopen.occupied, hopen.capacity, hopen.delivered, hopen.missed,
      fun i => (hopen.dropped i).trans (tally_dropped (f := seen) (fun _ => rfl) i _)⟩
  · rw [hacc]
    exact place_placed hws hopen.started hd

/-! ## `drain_ready` -/

/-- Nothing buffered lies behind the frontier. -/
def Fresh (a : Arbitrator) : Prop := ∀ s ∈ a.held, a.nextExpected ≤ s.firstSequence

/-- Everything buffered lies beyond a hole: there is nothing to drain. -/
def Drained (a : Arbitrator) : Prop := ∀ s ∈ a.held, a.nextExpected < s.firstSequence

/-- No buffered datagram waits at the frontier. -/
def NoneAtFrontier (a : Arbitrator) : Prop := ∀ s ∈ a.held, s.firstSequence ≠ a.nextExpected

theorem not_noneAtFrontier :
    ¬ a.NoneAtFrontier ↔ ∃ s ∈ a.held, s.firstSequence = a.nextExpected := by
  simp [NoneAtFrontier]

theorem Drained.fresh (h : Drained a) : Fresh a := fun s hs => Nat.le_of_lt (h s hs)

theorem Drained.noneAtFrontier (h : Drained a) : a.NoneAtFrontier := fun s hs =>
  (Nat.ne_of_lt (h s hs)).symm

theorem NoneAtFrontier.drained (h : a.NoneAtFrontier) (hfresh : Fresh a) : Drained a :=
  fun s hs => Nat.lt_of_le_of_ne (hfresh s hs) (h s hs).symm

theorem Fresh.le_gapTarget (h : Fresh a) (hne : a.held ≠ []) : a.nextExpected ≤ a.gapTarget := by
  obtain ⟨s, hs, ht⟩ := gapTarget_mem hne
  rw [← ht]
  exact h s hs

theorem Drained.lt_gapTarget (h : Drained a) (hne : a.held ≠ []) :
    a.nextExpected < a.gapTarget := by
  obtain ⟨s, hs, ht⟩ := gapTarget_mem hne
  rw [← ht]
  exact h s hs

section Placements

variable {b : Arbitrator} {first count : Nat} {d : Buf} {r : Accepted}

/-- No placement takes anything out of the window. -/
theorem Placed.held_mono (h : Placed a first count d r b) {s : Slot} (hs : s ∈ a.held) :
    s ∈ b.held := by
  cases h with
  | behind hb hn hh => rw [hh]; exact hs
  | ready hf hn hh => rw [hh]; exact hs
  | copy hlt hheld hn hh => rw [hh]; exact hs
  | buffered hlt hnew hroom hn hh =>
    obtain ⟨s', -, -, -, hperm⟩ := hh
    exact hperm.mem_iff.mpr (List.mem_cons_of_mem _ hs)
  | lost hlt hnew hfull hbelow hn hh => rw [hh]; exact hs
  | kept hlt hnew hfull habove hspare hn hh =>
    obtain ⟨s', -, -, -, hperm⟩ := hh
    exact hperm.mem_iff.mpr (List.mem_cons_of_mem _ hs)
  | dropped hlt hnew hover habove hn hh => rw [hh]; exact hs

/-- No placement moves the frontier of a fresh window back. -/
theorem Placed.mono (h : Placed a first count d r b) (hw : Wf P maxBytes a) (hfresh : a.Fresh) :
    a.nextExpected ≤ b.nextExpected := by
  cases h with
  | behind hb hn => exact Nat.le_of_eq hn.symm
  | ready hf hn => rw [hn, hf]; exact Nat.le_add_right ..
  | copy hlt hheld hn => exact Nat.le_of_eq hn.symm
  | buffered hlt hnew hroom hn => exact Nat.le_of_eq hn.symm
  | lost hlt hnew hfull hbelow hn => rw [hn]; exact hfresh.le_gapTarget (hw.held_ne_nil hfull)
  | kept hlt hnew hfull habove hspare hn =>
    rw [hn]; exact hfresh.le_gapTarget (hw.held_ne_nil hfull)
  | dropped hlt hnew hover habove hn =>
    rw [hn]; exact hfresh.le_gapTarget (hw.held_ne_nil (Nat.le_of_lt hover))

/-- A placement leaves nothing behind the frontier, unless it delivers a datagram off the wire
whose copy waits in the window. -/
theorem Placed.fresh (h : Placed a first count d r b) (hw : Wf P maxBytes a) (hfresh : a.Fresh)
    (hd : Copy P d first count) (hnone : first = a.nextExpected → a.NoneAtFrontier) :
    b.Fresh := by
  intro s hs
  cases h with
  | behind hb hn hh => rw [hn]; exact hfresh s (hh ▸ hs)
  | ready hf hn hh =>
    rw [hh] at hs
    have hlt := (hnone hf).drained hfresh s hs
    have hmem := (hw.slots s hs).1
    have hpos := P.pos hmem
    rw [hn]
    rcases (P.boundary_end hd.mem).2 _ _ hmem with hle | hle
    · exact hle
    · have := (P.disjoint hmem hd.mem (by omega) (by omega)).1
      omega
  | copy hlt hheld hn hh => rw [hn]; exact hfresh s (hh ▸ hs)
  | buffered hlt hnew hroom hn hh =>
    obtain ⟨s', h1, -, -, hperm⟩ := hh
    rw [hn]
    rcases List.mem_cons.mp (hperm.mem_iff.mp hs) with rfl | hs
    · rw [h1]; exact Nat.le_of_lt hlt
    · exact hfresh s hs
  | lost hlt hnew hfull hbelow hn hh => rw [hn]; exact gapTarget_le (hh ▸ hs)
  | kept hlt hnew hfull habove hspare hn hh =>
    obtain ⟨s', h1, -, -, hperm⟩ := hh
    rw [hn]
    rcases List.mem_cons.mp (hperm.mem_iff.mp hs) with rfl | hs
    · rw [h1]; exact Nat.le_of_lt habove
    · exact gapTarget_le hs
  | dropped hlt hnew hover habove hn hh => rw [hn]; exact gapTarget_le (hh ▸ hs)

theorem Placed.keeps (h : Placed a first count d r b) :
    b.started = a.started ∧ b.firstSequence = a.firstSequence ∧ b.capacity = a.capacity := by
  cases h with
  | behind hb hn hh hs hm hk => exact ⟨hk.started, hk.first, hk.capacity⟩
  | ready hf hn hh hs hm hk => exact ⟨hk.started, hk.first, hk.capacity⟩
  | copy hlt hheld hn hh hs hm hk => exact ⟨hk.started, hk.first, hk.capacity⟩
  | buffered hlt hnew hroom hn hh hs hm hk => exact ⟨hk.started, hk.first, hk.capacity⟩
  | lost hlt hnew hfull hbelow hn hh hm hk => exact ⟨hk.started, hk.first, hk.capacity⟩
  | kept hlt hnew hfull habove hspare hn hh hm hk => exact ⟨hk.started, hk.first, hk.capacity⟩
  | dropped hlt hnew hover habove hn hh hc hst hfs => exact ⟨hst, hfs, hc⟩

/-- A forced gap starts at the frontier, and only a full window forces one. -/
theorem Placed.forced (h : Placed a first count d r b) {g : Gap} (hr : r = .forcedGap g) :
    g.fromSeq = a.nextExpected ∧ a.capacity ≤ a.occupied := by
  cases h with
  | behind => cases hr
  | ready => cases hr
  | copy => cases hr
  | buffered => cases hr
  | lost hlt hnew hfull => cases hr; exact ⟨rfl, hfull⟩
  | kept hlt hnew hfull => cases hr; exact ⟨rfl, hfull⟩
  | dropped hlt hnew hover => cases hr; exact ⟨rfl, Nat.le_of_lt hover⟩

end Placements

end Arbitrator

/-- The segment of the stream a delivered datagram accounts for. -/
def Delivery.seg (d : Delivery) : Nat × Nat := (d.firstSequence, d.firstSequence + d.count)

/-- What a drained slot hands over. -/
def Slot.delivery (s : Slot) : Delivery := ⟨s.firstSequence, s.count, s.bytes⟩

namespace Arbitrator

variable {P : Partition} {maxBytes : Nat} {a : Arbitrator}

theorem release_spec (h : Wf P maxBytes a) {i : Nat}
    (hf : a.findSlotCovering a.nextExpected = some i) :
    ∃ s : Slot, s.firstSequence = a.nextExpected ∧ P.mem s.firstSequence s.count ∧
      (a.release i).1 = s.delivery ∧ a.held.Perm (s :: (a.release i).2.held) ∧
      (a.release i).2.nextExpected = a.nextExpected + s.count ∧
      (a.release i).2.state = (if a.state ≠ .gapped then .live else a.state) ∧
      Wf P maxBytes (a.release i).2 ∧ Moved a (a.release i).2 ∧ Steady a (a.release i).2 := by
  obtain ⟨hi, hmem, hfirst⟩ := h.findSlotCovering_eq_some hf
  have hslot := h.slots _ hmem
  have hbound := h.bounded hmem
  have hget : a.window.getD i ⟨0, 0, 0, false, 0, []⟩ = a.window[i] := by
    simp [List.getD_eq_getElem?_getD, List.getElem?_eq_getElem hi]
  have hperm : a.held.Perm (a.window[i] :: (a.release i).2.held) :=
    filter_perm_cons_modify (p := Slot.occupied)
      (f := fun s => { s with occupied := false }) hi (mem_held.mp hmem).2 rfl
  have hsub : ∀ s ∈ (a.release i).2.held, s ∈ a.held := fun s hs =>
    hperm.mem_iff.mpr (List.mem_cons_of_mem _ hs)
  have hnext : (a.release i).2.nextExpected = a.nextExpected + (a.window[i]).count := by
    simp only [release, hget, Arbitrator.deliver]
    rw [wrapAdd_eq hbound, hfirst]
  refine ⟨a.window[i], hfirst, hslot.1, ?_, hperm, hnext, rfl, ?_, ?_, ?_⟩
  · simp only [release, hget, Slot.delivery]
  · have hlen := hperm.length_eq
    have hnd := ((hperm.map (·.firstSequence)).nodup_iff).mp h.nodup
    refine ⟨?_, h.capacity_pos, ?_, ?_, fun s hs => h.slots s (hsub s hs), ?_, ?_, fun _ => ?_⟩
    · show (a.window.modify i _).length = _
      rw [List.length_modify]; exact h.size
    · show a.occupied - 1 = _
      rw [h.occupied_eq, hlen, List.length_cons, Nat.add_sub_cancel]
    · intro s hs
      have hs' : s ∈ a.window.modify i fun s => { s with occupied := false } := hs
      obtain ⟨j, hj, rfl⟩ := List.mem_iff_getElem.mp hs'
      rw [List.length_modify] at hj
      rw [List.getElem_modify]
      have hold := h.bufs _ (List.getElem_mem hj)
      split <;> exact hold
    · exact (List.nodup_cons.mp hnd).2
    · intro hst
      have : a.started = false := hst
      rw [h.started_of_held hmem] at this
      exact absurd this (by simp)
    · rw [hnext, ← hfirst]
      exact P.boundary_end hslot.1
  · have hmv : Moved a _ := Moved.deliver (a := a) hfirst hbound
    unfold Moved at hmv ⊢
    simp only [release, hget, Arbitrator.deliver, Arbitrator.tally] at hmv ⊢
    exact hmv
  · have hd := fun j => tally_dropped (a := a) (f := fun c =>
      { c with datagramsFirst := c.datagramsFirst + 1,
               messagesFirst := c.messagesFirst + (a.window.getD i ⟨0, 0, 0, false, 0, []⟩).count })
      (fun _ => rfl) j (a.window.getD i ⟨0, 0, 0, false, 0, []⟩).arm
    exact ⟨rfl, rfl, rfl, hd⟩

/-- What a run of the drain loop leaves behind, and what it handed over on the way. -/
structure DrainSpec (P : Partition) (maxBytes : Nat) (a : Arbitrator)
    (out : List Delivery) (b : Arbitrator) : Prop where
  wf : Wf P maxBytes b
  drained : Drained b
  tiles : Tiling.Tiles Delivery.seg a.nextExpected out b.nextExpected
  /-- The held datagrams split into the ones handed over, in order, and the ones still held. -/
  split : ∃ gone : List Slot, a.held.Perm (gone ++ b.held) ∧ out = gone.map Slot.delivery
  state : a.state = .live ∨ a.state = .gapped → b.state = a.state
  moved : Moved a b
  steady : Steady a b

theorem drainLoop_none {fuel : Nat} (hf : a.findSlotCovering a.nextExpected = none) :
    drainLoop (fuel + 1) a = ([], a) := by
  rw [drainLoop, hf]

theorem drainLoop_some {fuel i : Nat} (hf : a.findSlotCovering a.nextExpected = some i) :
    drainLoop (fuel + 1) a = ((a.release i).1 :: (drainLoop fuel (a.release i).2).1,
      (drainLoop fuel (a.release i).2).2) := by
  rw [drainLoop, hf]

theorem drainLoop_spec : ∀ (fuel : Nat) {a : Arbitrator}, Wf P maxBytes a → Fresh a →
    a.held.length ≤ fuel →
    DrainSpec P maxBytes a (drainLoop fuel a).1 (drainLoop fuel a).2 := by
  intro fuel
  induction fuel with
  | zero =>
    intro a h _ hlen
    have hnil : a.held = [] := List.length_eq_zero_iff.mp (Nat.le_zero.mp hlen)
    refine ⟨h, fun s hs => ?_, rfl, ⟨[], by simp [drainLoop], rfl⟩, fun _ => rfl, rfl,
      Steady.refl a⟩
    have hs' : s ∈ a.held := hs
    rw [hnil] at hs'
    exact absurd hs' (by simp)
  | succ fuel ih =>
    intro a h hfresh hlen
    cases hf : a.findSlotCovering a.nextExpected with
    | none =>
      rw [drainLoop_none hf]
      have hne := h.findSlotCovering_eq_none.mp hf
      refine ⟨h, fun s hs => ?_, rfl, ⟨[], by simp, rfl⟩, fun _ => rfl, rfl, Steady.refl a⟩
      exact Nat.lt_of_le_of_ne (hfresh s hs) (hne s hs).symm
    | some i =>
      rw [drainLoop_some hf]
      obtain ⟨s, hs1, hs2, hout, hperm, hnext, hstate, hw, hmv, hst⟩ := release_spec h hf
      have hpos := P.pos hs2
      -- Everything else in the window starts where `s` ends or later.
      have hfresh' : Fresh (a.release i).2 := by
        intro s' hs'
        have hs'a : s' ∈ a.held := hperm.mem_iff.mpr (List.mem_cons_of_mem _ hs')
        have hne : s'.firstSequence ≠ s.firstSequence := by
          have hnd := ((hperm.map (·.firstSequence)).nodup_iff).mp h.nodup
          have hnot := (List.nodup_cons.mp hnd).1
          exact fun heq => hnot (List.mem_map.mpr ⟨s', hs', heq⟩)
        have hge := hfresh s' hs'a
        rcases (P.boundary_end hs2).2 _ _ (h.slots s' hs'a).1 with hle | hle
        · rw [hnext]; omega
        · have := P.pos (h.slots s' hs'a).1
          exact absurd (P.disjoint (h.slots s' hs'a).1 hs2 (by omega) (by omega)).1 hne
      have hlen' : (a.release i).2.held.length ≤ fuel := by
        have := hperm.length_eq
        rw [List.length_cons] at this
        omega
      have hrec := ih hw hfresh' hlen'
      obtain ⟨gone, hgone, hmap⟩ := hrec.split
      refine ⟨hrec.wf, hrec.drained, ?_, ⟨s :: gone, ?_, ?_⟩, fun hlive => ?_,
        hmv.trans hrec.moved, hst.trans hrec.steady⟩
      · rw [hout]
        have hstop : s.delivery.seg.2 = (a.release i).2.nextExpected := by
          rw [hnext, ← hs1]; rfl
        refine ⟨hs1, ?_, hstop ▸ hrec.tiles⟩
        show a.nextExpected < s.firstSequence + s.count
        omega
      · exact hperm.trans (hgone.cons s)
      · rw [hout, hmap, List.map_cons]
      · have hkeep : (a.release i).2.state = a.state := by
          rw [hstate]
          rcases hlive with hl | hl <;> simp [hl]
        rw [hrec.state (by rw [hkeep]; exact hlive), hkeep]

/-- **`drain_ready` runs to exhaustion.** From a window with nothing behind the frontier it hands
over consecutive datagrams from the frontier on and stops with everything left beyond a hole. -/
theorem drainReady_spec (h : Wf P maxBytes a) (hfresh : Fresh a) :
    DrainSpec P maxBytes a a.drainReady.1 a.drainReady.2 :=
  drainLoop_spec _ h hfresh (List.length_filter_le ..)

/-- What a drain hands over whether or not something stale waits behind the frontier. -/
structure Handed (P : Partition) (maxBytes : Nat) (a : Arbitrator)
    (out : List Delivery) (b : Arbitrator) : Prop where
  wf : Wf P maxBytes b
  tiles : Tiling.Tiles Delivery.seg a.nextExpected out b.nextExpected
  split : ∃ gone : List Slot, a.held.Perm (gone ++ b.held) ∧ out = gone.map Slot.delivery
  steady : Steady a b

theorem drainLoop_handed (fuel : Nat) {a : Arbitrator} (h : Wf P maxBytes a) :
    Handed P maxBytes a (drainLoop fuel a).1 (drainLoop fuel a).2 := by
  induction fuel generalizing a with
  | zero => exact ⟨h, rfl, ⟨[], List.Perm.refl _, rfl⟩, Steady.refl a⟩
  | succ fuel ih =>
    cases hf : a.findSlotCovering a.nextExpected with
    | none =>
      rw [drainLoop_none hf]
      exact ⟨h, rfl, ⟨[], List.Perm.refl _, rfl⟩, Steady.refl a⟩
    | some i =>
      rw [drainLoop_some hf]
      obtain ⟨s, hfirst, hmem, hout, hperm, hnext, -, hw, -, hsteady⟩ := release_spec h hf
      have hrec := ih hw
      obtain ⟨gone, hgone, hmap⟩ := hrec.split
      have hpos := P.pos hmem
      refine ⟨hrec.wf, ?_, ⟨s :: gone, hperm.trans (hgone.cons s), by rw [hout, hmap]; rfl⟩,
        hsteady.trans hrec.steady⟩
      have hstop : s.delivery.seg.2 = (a.release i).2.nextExpected := by
        rw [hnext, ← hfirst]
        rfl
      rw [hout]
      refine ⟨hfirst, ?_, hstop ▸ hrec.tiles⟩
      show a.nextExpected < s.firstSequence + s.count
      omega

theorem drainReady_handed (h : Wf P maxBytes a) :
    Handed P maxBytes a a.drainReady.1 a.drainReady.2 :=
  drainLoop_handed _ h

/-- A drain takes out at least what waits at the frontier. -/
theorem DrainSpec.shrinks {out : List Delivery} {b : Arbitrator}
    (h : DrainSpec P maxBytes a out b) {s : Slot} (hs : s ∈ a.held)
    (hfirst : s.firstSequence = a.nextExpected) : b.held.length < a.held.length := by
  obtain ⟨gone, hperm, -⟩ := h.split
  have hlen := hperm.length_eq
  rw [List.length_append] at hlen
  have hgone : gone ≠ [] := by
    intro hnil
    rw [hnil, List.nil_append] at hperm
    -- The slot would still be held, and a drained window holds nothing at the old frontier.
    have hlt := h.drained s (hperm.mem_iff.mp hs)
    rw [hfirst] at hlt
    exact absurd h.tiles.le (Nat.not_le.mpr hlt)
  have := List.length_pos_iff.mpr hgone
  omega

/-! ## `declare_gap_if_stalled` -/

/-- Everything `declare_gap_if_stalled` can do: nothing, or a gap up to the lowest buffered
datagram when nothing is buffered at the frontier. -/
inductive Stalled (a : Arbitrator) : Option Gap → Arbitrator → Prop
  | idle (hno : a.held = [] ∨ ∃ s ∈ a.held, s.firstSequence = a.nextExpected) :
      Stalled a none a
  | gap {b : Arbitrator} (hsome : a.held ≠ [])
      (hne : ∀ s ∈ a.held, s.firstSequence ≠ a.nextExpected)
      (hn : b.nextExpected = a.gapTarget) (hh : b.held = a.held)
      (hm : a.nextExpected < a.gapTarget → Moved a b) (hk : Steady a b) :
      Stalled a (some ⟨a.nextExpected, max (a.gapTarget - 1) a.nextExpected⟩) b

theorem declareGapIfStalled_stalled (h : Wf P maxBytes a) :
    Stalled a a.declareGapIfStalled.1 a.declareGapIfStalled.2 ∧
    Wf P maxBytes a.declareGapIfStalled.2 := by
  unfold declareGapIfStalled
  by_cases hocc : a.occupied = 0
  · rw [if_pos hocc]
    refine ⟨.idle (Or.inl ?_), h⟩
    exact List.length_eq_zero_iff.mp (h.occupied_eq ▸ hocc)
  rw [if_neg hocc]
  have hne : a.held ≠ [] := by
    intro hnil
    exact hocc (by rw [h.occupied_eq, hnil]; rfl)
  cases hf : a.findSlotCovering a.nextExpected with
  | some i =>
    obtain ⟨hi, hmem, hfirst⟩ := h.findSlotCovering_eq_some hf
    exact ⟨.idle (Or.inr ⟨_, hmem, hfirst⟩), h⟩
  | none =>
    exact ⟨.gap hne (h.findSlotCovering_eq_none.mp hf) rfl rfl Moved.declareGap
      (Steady.declareGap a), h.declareGap hne⟩

/-! ## The two ways out of a gap -/

@[simp] theorem held_resyncTo (a : Arbitrator) (n : Nat) : (a.resyncTo n).held = [] := by
  simp [held, resyncTo]

theorem Wf.resyncTo (h : Wf P maxBytes a) {n : Nat} (hn : P.Boundary n) :
    Wf P maxBytes (a.resyncTo n) := by
  refine ⟨by simpa [Arbitrator.resyncTo] using h.size, h.capacity_pos, by simp; rfl, ?_, ?_, ?_,
    fun _ => held_resyncTo a n, fun _ => hn⟩
  · intro s hs
    obtain ⟨s', hs', rfl⟩ := List.mem_map.mp hs
    exact h.bufs s' hs'
  · simp
  · simp

@[simp] theorem nextExpected_clearGapped (a : Arbitrator) :
    a.clearGapped.nextExpected = a.nextExpected := by
  unfold clearGapped
  split <;> rfl

@[simp] theorem held_clearGapped (a : Arbitrator) : a.clearGapped.held = a.held := by
  unfold clearGapped
  split <;> rfl

@[simp] theorem started_clearGapped (a : Arbitrator) : a.clearGapped.started = a.started := by
  unfold clearGapped
  split <;> rfl

theorem Wf.clearGapped (h : Wf P maxBytes a) : Wf P maxBytes a.clearGapped := by
  unfold Arbitrator.clearGapped
  split
  · exact ⟨h.size, h.capacity_pos, h.occupied_eq, h.bufs, h.slots, h.nodup, h.idle, h.boundary⟩
  · exact h

end Arbitrator

end MarketData.Handler
