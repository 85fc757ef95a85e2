import Mathlib.Algebra.Order.BigOperators.Group.List
import Mathlib.Data.Finset.Card
import Mathlib.Data.Finset.Image
import MarketData.Handler.Accounting

/-!
# `Handler/Redundancy.lean` — loss on one arm at a time costs nothing

A contiguous stream of datagrams, every one of which arrives on one of the arms at least once,
in any interleaving and with any duplication, while the arms drift apart by no more than the
window holds. The frontier then is always the lowest datagram that has not arrived, the window
holds exactly what arrived beyond it, and no gap is ever declared.

## What drift is

The arms share no clock, and how far one is ahead of the other cannot be told from either. What the
window has to hold can: the distinct datagrams that have arrived beyond the lowest one that has not.
`arrivedBeyond` counts them, from the list of arrivals alone, and the hypothesis is that at no
moment there are more than the window's advertised capacity. **The bound is exact**; with one more,
the next arrival finds the window full and gives up on the hole.

## The invariant

`Pending` says where the frontier is and what is in the window, both as functions of the arrivals so
far, and that is why every other fact about the run follows from it. An arrival either is of the
lowest missing datagram, and the drain after it moves the frontier over everything contiguous, or it
is a duplicate, or it takes a free slot.

Datagrams are numbered from zero here and known by their index; `Stream` turns an index into the
first sequence, and gives the partition the rest of the development is stated with.
-/

set_option autoImplicit false

namespace MarketData.Handler

open MarketData.Run MarketData.Tiling
open MarketData.Wire (Buf)

/-- A contiguous stream: its first sequence and the message counts of its datagrams in order. -/
structure Stream where
  start : Nat
  counts : List Nat
  pos : ∀ c ∈ counts, 0 < c
  bounded : start + counts.sum < 2 ^ 64

namespace Stream

/-- The first sequence of datagram `i`, and the end of the stream for `i` past the last one. -/
def offset (S : Stream) (i : Nat) : Nat := S.start + (S.counts.take i).sum

variable {S : Stream}

theorem offset_succ {i : Nat} (hi : i < S.counts.length) :
    S.offset (i + 1) = S.offset i + S.counts[i] := by
  rw [offset, offset, List.take_succ_eq_append_getElem hi, List.sum_append, List.sum_singleton,
    Nat.add_assoc]

theorem offset_length : S.offset S.counts.length = S.start + S.counts.sum := by
  rw [offset, List.take_length]

theorem offset_mono {i j : Nat} (h : i ≤ j) : S.offset i ≤ S.offset j := by
  refine Nat.add_le_add_left ?_ _
  exact (List.take_sublist_take_left h).sum_le_sum fun _ _ => Nat.zero_le _

theorem offset_lt {i j : Nat} (h : i < j) (hi : i < S.counts.length) :
    S.offset i < S.offset j := by
  have hpos := S.pos _ (List.getElem_mem hi)
  have hsucc := offset_succ hi
  have hmono : S.offset (i + 1) ≤ S.offset j := offset_mono h
  omega

theorem offset_inj {i j : Nat} (h : S.offset i = S.offset j) (hi : i < S.counts.length) :
    i = j := by
  rcases Nat.lt_trichotomy i j with hlt | heq | hgt
  · exact absurd h (Nat.ne_of_lt (offset_lt hlt hi))
  · exact heq
  · exact absurd h.symm (Nat.ne_of_lt (offset_lt hgt (Nat.lt_trans hgt hi)))

/-- The cut of the stream into its datagrams. -/
def partition (S : Stream) : Partition where
  mem f c := ∃ i, ∃ hi : i < S.counts.length, f = S.offset i ∧ c = S.counts[i]
  pos h := by
    obtain ⟨i, hi, -, rfl⟩ := h
    exact S.pos _ (List.getElem_mem hi)
  bounded h := by
    obtain ⟨i, hi, rfl, rfl⟩ := h
    rw [← offset_succ hi]
    refine Nat.lt_of_le_of_lt (offset_mono (Nat.succ_le_of_lt hi)) ?_
    rw [offset_length]
    exact S.bounded
  disjoint h h' hlt hlt' := by
    obtain ⟨i, hi, rfl, rfl⟩ := h
    obtain ⟨j, hj, rfl, rfl⟩ := h'
    rw [← offset_succ hj] at hlt
    rw [← offset_succ hi] at hlt'
    have hij : i = j := by
      rcases Nat.lt_trichotomy i j with h | h | h
      · exact absurd hlt' (Nat.not_lt.mpr (offset_mono h))
      · exact h
      · exact absurd hlt (Nat.not_lt.mpr (offset_mono h))
    subst hij
    exact ⟨rfl, rfl⟩

end Stream

/-- A copy of datagram `index` of the stream, arriving on `arm`. -/
structure Arrival (S : Stream) where
  arm : Nat
  datagram : Buf
  index : Fin S.counts.length
  carries : Carries datagram (S.offset index) S.counts[index]

variable {S : Stream} {maxBytes : Nat} {seen : List Nat} {M : Nat} {a b : Arbitrator} {t : Trace}

theorem Arrival.copy (x : Arrival S) :
    Copy S.partition x.datagram (S.offset x.index) S.counts[x.index] :=
  ⟨x.carries, x.index, x.index.isLt, rfl, rfl⟩

/-- `m` is the lowest datagram that has not arrived. -/
def LowestMissing (seen : List Nat) (m : Nat) : Prop := m ∉ seen ∧ ∀ i < m, i ∈ seen

/-- How many distinct datagrams beyond `m` have arrived. -/
def arrivedBeyond (seen : List Nat) (m : Nat) : Nat := (seen.toFinset.filter (m < ·)).card

/-- Everything below datagram `M` has arrived, the frontier is there, and the window holds
exactly what has arrived from it on. -/
structure Pending (S : Stream) (seen : List Nat) (M : Nat) (a : Arbitrator) : Prop where
  below : ∀ i < M, i ∈ seen
  indices : ∀ i ∈ seen, i < S.counts.length
  next : a.nextExpected = S.offset M
  held : ∀ s ∈ a.held, ∃ i ∈ seen, M ≤ i ∧ s.firstSequence = S.offset i
  arrived : ∀ i ∈ seen, M ≤ i → ∃ s ∈ a.held, s.firstSequence = S.offset i
  live : a.state = .live

theorem Pending.le_length (h : Pending S seen M a) : M ≤ S.counts.length := by
  by_contra hlt
  exact Nat.lt_irrefl _ (h.indices _ (h.below _ (Nat.not_le.mp hlt)))

/-- The window holds no more than has arrived beyond the frontier. -/
theorem Pending.held_length_le (h : Pending S seen M a) (hM : M ∉ seen)
    (hw : a.Wf S.partition maxBytes) : a.held.length ≤ arrivedBeyond seen M := by
  have hsub : (a.held.map (·.firstSequence)).toFinset ⊆
      (seen.toFinset.filter (M < ·)).image S.offset := by
    intro n hn
    rw [List.mem_toFinset, List.mem_map] at hn
    obtain ⟨s, hs, rfl⟩ := hn
    obtain ⟨i, hi, hle, heq⟩ := h.held s hs
    have hne : M ≠ i := fun he => hM (he ▸ hi)
    refine Finset.mem_image.mpr ⟨i, Finset.mem_filter.mpr ⟨?_, ?_⟩, heq.symm⟩
    · exact List.mem_toFinset.mpr hi
    · exact Nat.lt_of_le_of_ne hle hne
  calc a.held.length = (a.held.map (·.firstSequence)).toFinset.card := by
        rw [List.toFinset_card_of_nodup hw.nodup, List.length_map]
    _ ≤ ((seen.toFinset.filter (M < ·)).image S.offset).card := Finset.card_le_card hsub
    _ ≤ arrivedBeyond seen M := Finset.card_image_le

/-- A datagram beyond the frontier that has not arrived before counts once more. -/
theorem arrivedBeyond_append {j : Nat} (hnew : j ∉ seen) (hj : M < j) :
    arrivedBeyond (seen ++ [j]) M = arrivedBeyond seen M + 1 := by
  have hset : ((seen ++ [j]).toFinset.filter (M < ·)) =
      insert j (seen.toFinset.filter (M < ·)) := by
    ext i
    simp only [List.toFinset_append, Finset.mem_filter, Finset.mem_union, List.mem_toFinset,
      List.mem_singleton, Finset.mem_insert]
    constructor
    · intro ⟨h1, h2⟩
      exact h1.elim (fun h => Or.inr ⟨h, h2⟩) Or.inl
    · intro h1
      cases h1 with
      | inl h => exact ⟨Or.inr h, h ▸ hj⟩
      | inr h => exact ⟨Or.inl h.1, h.2⟩
  have hnot : j ∉ seen.toFinset.filter (M < ·) := by
    simp [hnew]
  rw [arrivedBeyond, hset, Finset.card_insert_of_notMem hnot, arrivedBeyond]

/-! ## One arrival -/

/-- Nothing new arrived that the window has to hold: the arrival is behind the frontier or held
already. -/
theorem Pending.again (h : Pending S seen M a) {j : Nat} (hj : j ∈ seen)
    (hn : b.nextExpected = a.nextExpected) (hh : b.held = a.held) (hs : b.state = a.state) :
    Pending S (seen ++ [j]) M b := by
  have hmem : ∀ {i : Nat}, i ∈ seen ++ [j] → i ∈ seen := by
    intro i hi
    rcases List.mem_append.mp hi with hi | hi
    · exact hi
    · exact List.mem_singleton.mp hi ▸ hj
  refine ⟨?_, ?_, hn.trans h.next, ?_, ?_, hs.trans h.live⟩
  · intro i hi
    exact List.mem_append_left _ (h.below i hi)
  · intro i hi
    exact h.indices i (hmem hi)
  · intro s hs'
    obtain ⟨i, hi, h1⟩ := h.held s (hh ▸ hs')
    exact ⟨i, List.mem_append_left _ hi, h1⟩
  · intro i hi hle
    rw [hh]
    exact h.arrived i (hmem hi) hle

/-- The datagram at the frontier arrived and was handed over. -/
theorem Pending.advance (h : Pending S seen M a) (hM : M ∉ seen) (hlt : M < S.counts.length)
    (hn : b.nextExpected = S.offset (M + 1)) (hh : b.held = a.held) (hs : b.state = .live) :
    Pending S (seen ++ [M]) (M + 1) b := by
  refine ⟨?_, ?_, hn, ?_, ?_, hs⟩
  · intro i hi
    rcases Nat.lt_succ_iff_lt_or_eq.mp hi with hi | rfl
    · exact List.mem_append_left _ (h.below i hi)
    · simp
  · intro i hi
    rcases List.mem_append.mp hi with hi | hi
    · exact h.indices i hi
    · exact List.mem_singleton.mp hi ▸ hlt
  · intro s hs'
    obtain ⟨i, hi, hle, heq⟩ := h.held s (hh ▸ hs')
    have hne : M ≠ i := fun he => hM (he ▸ hi)
    exact ⟨i, List.mem_append_left _ hi, Nat.lt_of_le_of_ne hle hne, heq⟩
  · intro i hi hle
    rw [hh]
    rcases List.mem_append.mp hi with hi | hi
    · exact h.arrived i hi (Nat.le_of_succ_le hle)
    · rw [List.mem_singleton.mp hi] at hle
      exact absurd hle (Nat.not_succ_le_self M)

/-- A datagram beyond the frontier arrived for the first time and was buffered. -/
theorem Pending.store (h : Pending S seen M a) {j : Nat} {s' : Slot} (hj : j < S.counts.length)
    (hMj : M < j) (hn : b.nextExpected = a.nextExpected)
    (hfirst : s'.firstSequence = S.offset j) (hperm : b.held.Perm (s' :: a.held))
    (hs : b.state = a.state) : Pending S (seen ++ [j]) M b := by
  refine ⟨?_, ?_, hn.trans h.next, ?_, ?_, hs.trans h.live⟩
  · intro i hi
    exact List.mem_append_left _ (h.below i hi)
  · intro i hi
    rcases List.mem_append.mp hi with hi | hi
    · exact h.indices i hi
    · exact List.mem_singleton.mp hi ▸ hj
  · intro s hs'
    rcases List.mem_cons.mp (hperm.mem_iff.mp hs') with rfl | hs'
    · exact ⟨j, by simp, Nat.le_of_lt hMj, hfirst⟩
    · obtain ⟨i, hi, h1⟩ := h.held s hs'
      exact ⟨i, List.mem_append_left _ hi, h1⟩
  · intro i hi hle
    rcases List.mem_append.mp hi with hi | hi
    · obtain ⟨s, hs', heq⟩ := h.arrived i hi hle
      exact ⟨s, hperm.mem_iff.mpr (List.mem_cons_of_mem _ hs'), heq⟩
    · rw [List.mem_singleton.mp hi]
      exact ⟨s', hperm.mem_iff.mpr (List.mem_cons_self ..), hfirst⟩

/-- **One arrival**: while the arms drift apart by no more than the window holds, it is placed
without a gap. -/
theorem Pending.accept (h : Pending S seen M a) (hM : M ∉ seen)
    (hw : a.Wf S.partition maxBytes) (x : Arrival S) {r : Accepted}
    (hp : Arbitrator.Placed a (S.offset x.index) S.counts[x.index] x.datagram r b)
    (hdrift : ∀ m, LowestMissing (seen ++ [x.index.val]) m →
      arrivedBeyond (seen ++ [x.index.val]) m ≤ a.capacity) :
    (∃ M', Pending S (seen ++ [x.index.val]) M' b) ∧ gaps (r.outputs x.datagram) = [] := by
  have hx := x.index.isLt
  have hsucc : S.offset (x.index + 1) = S.offset x.index + S.counts[x.index] := S.offset_succ hx
  -- A full window would mean one datagram too many beyond the lowest missing one.
  have hfull : a.nextExpected < S.offset x.index →
      (∀ s ∈ a.held, s.firstSequence ≠ S.offset x.index) → ¬ a.capacity ≤ a.occupied := by
    intro hlt hnew hcap
    have hMx : M < x.index.val := by
      rw [h.next] at hlt
      by_contra hle
      exact absurd hlt (Nat.not_lt.mpr (Stream.offset_mono (Nat.not_lt.mp hle)))
    have hunseen : x.index.val ∉ seen := by
      intro hmem
      obtain ⟨s, hs, heq⟩ := h.arrived _ hmem (Nat.le_of_lt hMx)
      exact hnew s hs heq
    have hlow : LowestMissing (seen ++ [x.index.val]) M := by
      refine ⟨fun hmem => ?_, fun i hi => List.mem_append_left _ (h.below i hi)⟩
      rcases List.mem_append.mp hmem with hmem | hmem
      · exact hM hmem
      · exact absurd (List.mem_singleton.mp hmem) (Nat.ne_of_lt hMx)
    have hle := hdrift M hlow
    rw [arrivedBeyond_append hunseen hMx] at hle
    have hheld := h.held_length_le hM hw
    rw [hw.occupied_eq] at hcap
    omega
  cases hp with
  | behind hb hn hh hs hm hk =>
    rw [← hsucc, h.next] at hb
    have hlt : x.index.val < M := by
      by_contra hle
      have hMx := Nat.not_lt.mp hle
      exact absurd hb (Nat.not_le.mpr
        (Stream.offset_lt (Nat.lt_succ_of_le hMx) (Nat.lt_of_le_of_lt hMx hx)))
    exact ⟨⟨M, h.again (h.below _ hlt) hn hh hs⟩, rfl⟩
  | ready hf hn hh hs hm hk =>
    have hidx : x.index.val = M := Stream.offset_inj (hf.trans h.next) hx
    subst hidx
    exact ⟨⟨x.index + 1, h.advance hM hx (hn.trans hsucc.symm) hh (by rw [hs, h.live]; rfl)⟩, rfl⟩
  | copy hlt hheld hn hh hs hm hk =>
    obtain ⟨s, hs', heq⟩ := hheld
    obtain ⟨i, hi, -, heq'⟩ := h.held s hs'
    have hidx : x.index.val = i := Stream.offset_inj (heq.symm.trans heq') hx
    exact ⟨⟨M, h.again (hidx ▸ hi) hn hh hs⟩, rfl⟩
  | buffered hlt hnew hroom hn hh hs hm hk =>
    obtain ⟨s', h1, -, -, hperm⟩ := hh
    have hMx : M < x.index.val := by
      rw [h.next] at hlt
      by_contra hle
      exact absurd hlt (Nat.not_lt.mpr (Stream.offset_mono (Nat.not_lt.mp hle)))
    exact ⟨⟨M, h.store hx hMx hn h1 hperm hs⟩, rfl⟩
  | lost hlt hnew hcap => exact absurd hcap (hfull hlt hnew)
  | kept hlt hnew hcap => exact absurd hcap (hfull hlt hnew)
  | dropped hlt hnew hover => exact absurd (Nat.le_of_lt hover) (hfull hlt hnew)

/-! ## Draining -/

/-- Datagrams handed over one after the other from datagram `k` on end at a datagram, and
everything they pass has arrived. -/
theorem tiles_arrived (seen : List Nat) {ds : List Delivery} {k n : Nat}
    (hds : ∀ d ∈ ds, ∃ i ∈ seen, ∃ hi : i < S.counts.length,
      d.firstSequence = S.offset i ∧ d.count = S.counts[i])
    (ht : Tiles Delivery.seg (S.offset k) ds n) :
    ∃ k', n = S.offset k' ∧ k ≤ k' ∧ ∀ i, k ≤ i → i < k' → i ∈ seen := by
  induction ds generalizing k with
  | nil => exact ⟨k, ht.symm, Nat.le_refl k, fun i h1 h2 => absurd h2 (Nat.not_lt.mpr h1)⟩
  | cons d ds ih =>
    obtain ⟨h1, -, h3⟩ := ht
    obtain ⟨i, hi, hlt, hf, hc⟩ := hds d (List.mem_cons_self ..)
    have hik : i = k := Stream.offset_inj (hf.symm.trans h1) hlt
    subst hik
    have hend : d.seg.2 = S.offset (i + 1) := by
      rw [Stream.offset_succ hlt, ← hf, ← hc]
      rfl
    rw [hend] at h3
    obtain ⟨k', hn, hle, hall⟩ := ih (fun x hx => hds x (List.mem_cons_of_mem _ hx)) h3
    refine ⟨k', hn, Nat.le_of_succ_le hle, fun j hj hj' => ?_⟩
    rcases Nat.eq_or_lt_of_le hj with rfl | hj
    · exact hi
    · exact hall j hj hj'

/-- **One drain**: the frontier is then at a datagram that has not arrived. -/
theorem Pending.drain (h : Pending S seen M a) (hw : a.Wf S.partition maxBytes)
    {out : List Delivery} (hspec : Arbitrator.DrainSpec S.partition maxBytes a out b) :
    ∃ M', M' ∉ seen ∧ Pending S seen M' b := by
  obtain ⟨gone, hperm, hout⟩ := hspec.split
  have hsub : ∀ s ∈ b.held, s ∈ a.held := fun s hs =>
    hperm.mem_iff.mpr (List.mem_append_right _ hs)
  have hgone : ∀ s ∈ gone, s ∈ a.held := fun s hs =>
    hperm.mem_iff.mpr (List.mem_append_left _ hs)
  have htiles := hspec.tiles
  rw [h.next] at htiles
  obtain ⟨M', hn, hle, hall⟩ := tiles_arrived seen (by
    intro d hd
    rw [hout, List.mem_map] at hd
    obtain ⟨s, hs, rfl⟩ := hd
    obtain ⟨i, hi, -, heq⟩ := h.held s (hgone s hs)
    obtain ⟨j, hj, hf, hc⟩ := (hw.slots s (hgone s hs)).1
    have hij : i = j := Stream.offset_inj (heq.symm.trans hf) (h.indices i hi)
    subst hij
    exact ⟨i, hi, hj, hf, hc⟩) htiles
  -- What arrived at the new frontier would have been handed over or still be held there.
  have hat : ∀ s ∈ a.held, b.nextExpected ≤ s.firstSequence →
      s ∈ b.held ∧ b.nextExpected < s.firstSequence := by
    intro s hs hge
    rcases List.mem_append.mp (hperm.mem_iff.mp hs) with hs | hs
    · have hmem : s.delivery ∈ out := hout ▸ List.mem_map_of_mem hs
      obtain ⟨-, h2, h3⟩ := hspec.tiles.bounds hmem
      exact absurd (Nat.lt_of_lt_of_le h2 h3) (Nat.not_lt.mpr hge)
    · exact ⟨hs, hspec.drained s hs⟩
  refine ⟨M', ?_, ?_, h.indices, hn, ?_, ?_, ?_⟩
  · intro hmem
    obtain ⟨s, hs, heq⟩ := h.arrived M' hmem hle
    have hlt := (hat s hs (Nat.le_of_eq (hn.trans heq.symm))).2
    rw [hn, heq] at hlt
    exact Nat.lt_irrefl _ hlt
  · intro i hi
    rcases Nat.lt_or_ge i M with hlt | hge
    · exact h.below i hlt
    · exact hall i hge hi
  · intro s hs
    obtain ⟨i, hi, -, heq⟩ := h.held s (hsub s hs)
    refine ⟨i, hi, ?_, heq⟩
    by_contra hlt
    have hlt' := hspec.drained s hs
    rw [hn, heq] at hlt'
    exact absurd hlt' (Nat.not_lt.mpr (Stream.offset_mono (Nat.le_of_lt (Nat.not_le.mp hlt))))
  · intro i hi hM'
    obtain ⟨s, hs, heq⟩ := h.arrived i hi (Nat.le_trans hle hM')
    have hge : b.nextExpected ≤ s.firstSequence := by
      rw [hn, heq]
      exact Stream.offset_mono hM'
    exact ⟨s, (hat s hs hge).1, heq⟩
  · rw [hspec.state (Or.inl h.live)]
    exact h.live

/-! ## Whole runs -/

/-- The calls of a run: a drain after every arrival. -/
def Arrival.calls (xs : List (Arrival S)) : List Call :=
  drainAfterEach (xs.map fun x => .accept x.arm x.datagram)

/-- The datagrams that have arrived. -/
def Arrival.indices (xs : List (Arrival S)) : List Nat := xs.map (·.index.val)

/-- The call leaves the state `Live` and has declared no gap. -/
def StaysLive (t : Trace) (c : Call) : Prop :=
  (t.step c).arb.state = .live ∧ gaps (t.step c).log = []

/-- The invariant between arrivals. -/
structure InStep (S : Stream) (maxBytes cap : Nat) (seen : List Nat) (t : Trace) : Prop where
  tiled : Tiled S.partition maxBytes t
  drained : t.arb.Drained
  started : t.arb.started = true
  first : t.arb.firstSequence = S.start
  capacity : t.arb.capacity = cap
  no_gaps : gaps t.log = []
  pending : ∃ M, M ∉ seen ∧ Pending S seen M t.arb

/-- **One arrival and its drain**, also the first: `b` is the arbitrator once it is open. -/
theorem InStep.arrive (seen : List Nat) {cap : Nat} (htiled : Tiled S.partition maxBytes t)
    (hdr : t.arb.Drained) (hcap : t.arb.capacity = cap) (hgaps : gaps t.log = []) (x : Arrival S)
    (hopened : ∀ b, Arbitrator.Opened t.arb (S.offset x.index) b →
      b.firstSequence = S.start ∧ ∃ M, M ∉ seen ∧ Pending S seen M b)
    (hdrift : ∀ m, LowestMissing (seen ++ [x.index.val]) m →
      arrivedBeyond (seen ++ [x.index.val]) m ≤ cap) :
    StaysLive t (.accept x.arm x.datagram) ∧
    StaysLive (t.step (.accept x.arm x.datagram)) .drainReady ∧
    InStep S maxBytes cap (seen ++ [x.index.val])
      ((t.step (.accept x.arm x.datagram)).step .drainReady) := by
  obtain ⟨b, hopen, hwb, hplaced, hw⟩ := Arbitrator.accept_placed htiled.wf x.arm x.copy
  obtain ⟨hfirst, M, hM, hpend⟩ := hopened b hopen
  have hcapb : b.capacity = cap := hopen.capacity.trans hcap
  obtain ⟨⟨M₁, hpend₁⟩, hout⟩ := hpend.accept hM hwb x hplaced (hcapb ▸ hdrift)
  have htiled₁ : Tiled S.partition maxBytes (t.step (.accept x.arm x.datagram)) :=
    htiled.accept hdr x.copy
  have hspec := Arbitrator.drainReady_spec htiled₁.wf htiled₁.fresh
  obtain ⟨M₂, hM₂, hpend₂⟩ := hpend₁.drain hw hspec
  have hgaps₁ : gaps (t.step (.accept x.arm x.datagram)).log = [] := by
    show gaps (t.log ++ (t.arb.accept x.arm x.datagram).1.outputs x.datagram) = []
    rw [gaps_append, hgaps, hout]
    rfl
  have hgaps₂ : gaps ((t.step (.accept x.arm x.datagram)).step .drainReady).log = [] := by
    show gaps ((t.step (.accept x.arm x.datagram)).log ++ List.map .delivered _) = []
    rw [gaps_append, hgaps₁, gaps_map_delivered]
    rfl
  refine ⟨⟨hpend₁.live, hgaps₁⟩, ⟨hpend₂.live, hgaps₂⟩, htiled₁.drainReady.1,
    htiled₁.drainReady.2, ?_, ?_, ?_, hgaps₂, ⟨M₂, hM₂, hpend₂⟩⟩
  · exact hspec.steady.started.trans (hplaced.keeps.1.trans hopen.started)
  · exact hspec.steady.first.trans (hplaced.keeps.2.1.trans hfirst)
  · exact hspec.steady.capacity.trans (hplaced.keeps.2.2.trans hcapb)

theorem InStep.opened {cap : Nat} (h : InStep S maxBytes cap seen t) {first : Nat}
    {b : Arbitrator} (hopen : Arbitrator.Opened t.arb first b) :
    b.firstSequence = S.start ∧ ∃ M, M ∉ seen ∧ Pending S seen M b := by
  obtain ⟨M, hM, hp⟩ := h.pending
  have hfirst := hopen.firstSequence
  have hnext := hopen.next
  have hstate := hopen.state
  rw [if_pos h.started] at hfirst hnext hstate
  refine ⟨hfirst.trans h.first, M, hM, hp.below, hp.indices, hnext.trans hp.next, ?_, ?_,
    hstate.trans hp.live⟩
  · rw [hopen.held]; exact hp.held
  · rw [hopen.held]; exact hp.arrived

/-- Before the first arrival nothing has arrived, and opening at it puts the frontier there. -/
theorem pending_first {first : Nat} (w m : Nat)
    (hopen : Arbitrator.Opened (Trace.init w m).arb first b) (hfirst : first = S.start) :
    b.firstSequence = S.start ∧ ∃ M, M ∉ ([] : List Nat) ∧ Pending S [] M b := by
  have hf := hopen.firstSequence
  have hn := hopen.next
  have hs := hopen.state
  have hh := hopen.held
  have hnil : (Trace.init w m).arb.held = [] := by
    simp [Trace.init, Arbitrator.held, Arbitrator.new]
  rw [if_neg (by simp [Trace.init, Arbitrator.new])] at hf hn hs
  rw [hnil] at hh
  refine ⟨hf.trans hfirst, 0, by simp, ?_, ?_, ?_, ?_, ?_, hs⟩
  · intro i hi; exact absurd hi (Nat.not_lt_zero i)
  · intro i hi; cases hi
  · rw [hn, hfirst]; simp [Stream.offset]
  · intro s hs'; rw [hh] at hs'; cases hs'
  · intro i hi; cases hi

theorem InStep.run {cap : Nat} (xs : List (Arrival S)) (h : InStep S maxBytes cap seen t)
    (hdrift : ∀ k m, LowestMissing (seen ++ Arrival.indices (xs.take k)) m →
      arrivedBeyond (seen ++ Arrival.indices (xs.take k)) m ≤ cap) :
    Along Trace.step StaysLive t (Arrival.calls xs) ∧
    InStep S maxBytes cap (seen ++ Arrival.indices xs)
      ((Arrival.calls xs).foldl Trace.step t) := by
  induction xs generalizing t seen with
  | nil => exact ⟨trivial, by simpa [Arrival.indices, Arrival.calls, drainAfterEach] using h⟩
  | cons x xs ih =>
    have hsplit : ∀ ys : List (Arrival S), seen ++ Arrival.indices (x :: ys) =
        (seen ++ [x.index.val]) ++ Arrival.indices ys := by
      intro ys
      simp [Arrival.indices]
    obtain ⟨hacc, hdrain, hnext⟩ := InStep.arrive seen h.tiled h.drained h.capacity h.no_gaps x
      (fun b hb => h.opened hb) (hdrift 1)
    obtain ⟨hrest, hend⟩ := ih hnext (by
      intro k m
      have hk := hdrift (k + 1) m
      rw [List.take_succ_cons, hsplit] at hk
      exact hk)
    rw [hsplit]
    exact ⟨⟨hacc, hdrain, hrest⟩, hend⟩

theorem tiles_deliveries {log : List Output} {n m : Nat} (h : Tiles Output.seg n log m)
    (hgaps : gaps log = []) : Tiles Delivery.seg n (deliveries log) m := by
  induction log generalizing n with
  | nil => exact h
  | cons o log ih =>
    cases o with
    | delivered d => exact ⟨h.1, h.2.1, ih h.2.2 hgaps⟩
    | gap g => cases hgaps

/-- **Loss on one arm at a time costs nothing.** The first datagram accepted is the first of the
stream, every datagram arrives at least once, and at every moment at most `window_capacity()`
datagrams beyond the lowest missing one have arrived: no gap is ever declared, the state stays
live, every sequence is delivered once and in order, and the window is empty at the end. -/
theorem redundancy_costs_nothing (S : Stream) (w m : Nat) (x : Arrival S)
    (xs : List (Arrival S)) (hfirst : x.index.val = 0)
    (hall : ∀ i < S.counts.length, i ∈ Arrival.indices (x :: xs))
    (hdrift : ∀ k n, LowestMissing (Arrival.indices ((x :: xs).take k)) n →
      arrivedBeyond (Arrival.indices ((x :: xs).take k)) n ≤
        (Arbitrator.new w m).windowCapacity) :
    Along Trace.step StaysLive (Trace.init w m) (Arrival.calls (x :: xs)) ∧
    deliveredSeqs ((Arrival.calls (x :: xs)).foldl Trace.step (Trace.init w m)).log
      = List.range' S.start S.counts.sum ∧
    gaps ((Arrival.calls (x :: xs)).foldl Trace.step (Trace.init w m)).log = [] ∧
    ((Arrival.calls (x :: xs)).foldl Trace.step (Trace.init w m)).arb.state = .live ∧
    ((Arrival.calls (x :: xs)).foldl Trace.step (Trace.init w m)).arb.occupied = 0 := by
  have hoff : S.offset x.index = S.start := by
    rw [hfirst]
    simp [Stream.offset]
  have hdr : (Trace.init w m).arb.Drained := by
    intro s hs
    simp [Trace.init, Arbitrator.held, Arbitrator.new] at hs
  obtain ⟨hacc, hdrain, hstep⟩ := InStep.arrive [] (tiled_init S.partition w m) hdr rfl
    rfl x (fun b hb => pending_first w m hb hoff) (hdrift 1)
  obtain ⟨hrest, hend⟩ := hstep.run xs (fun k n => hdrift (k + 1) n)
  obtain ⟨M, hM, hp⟩ := hend.pending
  have hlast : M = S.counts.length := by
    rcases Nat.lt_or_eq_of_le hp.le_length with hlt | heq
    · exact absurd (hall M hlt) hM
    · exact heq
  have hheld : ((Arrival.calls (x :: xs)).foldl Trace.step (Trace.init w m)).arb.held = [] := by
    by_contra hne
    obtain ⟨s, hs⟩ := List.exists_mem_of_ne_nil _ hne
    obtain ⟨i, hi, hle, -⟩ := hp.held s hs
    exact absurd (hp.indices i hi) (Nat.not_lt.mpr (hlast ▸ hle))
  refine ⟨⟨hacc, hdrain, hrest⟩, ?_, hend.no_gaps, hp.live, ?_⟩
  · have htiles := tiles_deliveries hend.tiled.tiles hend.no_gaps
    rw [hend.first, hp.next, hlast, Stream.offset_length] at htiles
    have hpts := htiles.points_eq
    rw [← deliveredSeqs_eq_points, Nat.add_sub_cancel_left] at hpts
    exact hpts
  · have hocc := hend.tiled.wf.occupied_eq
    exact hocc.trans (List.length_eq_zero_iff.mpr hheld)

/-- A stream of one datagram more than the window holds cannot drift too far. -/
theorem arrivedBeyond_le (xs : List (Arrival S)) (n : Nat) :
    arrivedBeyond (Arrival.indices xs) n ≤ S.counts.length - 1 := by
  have hsub : (Arrival.indices xs).toFinset.filter (n < ·) ⊆
      (Finset.range S.counts.length).erase 0 := by
    intro i hi
    obtain ⟨hmem, hlt⟩ := Finset.mem_filter.mp hi
    rw [List.mem_toFinset, Arrival.indices, List.mem_map] at hmem
    obtain ⟨x, -, rfl⟩ := hmem
    refine Finset.mem_erase.mpr ⟨?_, Finset.mem_range.mpr x.index.isLt⟩
    exact Nat.ne_of_gt (Nat.lt_of_le_of_lt (Nat.zero_le n) hlt)
  refine Nat.le_trans (Finset.card_le_card hsub) ?_
  cases hlen : S.counts.length with
  | zero => simp
  | succ k => simp

/-- Three datagrams of one message from sequence 1. -/
def threeSingles : Stream := ⟨1, [1, 1, 1], by decide, by decide⟩

/-- The middle datagram is lost on arm A and comes last on arm B. -/
def lateOnB : List (Arrival threeSingles) :=
  [⟨0, bareDatagram 3 1, ⟨2, by decide⟩, carries_bareDatagram 3 1⟩,
   ⟨1, bareDatagram 1 1, ⟨0, by decide⟩, carries_bareDatagram 1 1⟩,
   ⟨1, bareDatagram 2 1, ⟨1, by decide⟩, carries_bareDatagram 2 1⟩]

theorem redundancy_costs_nothing_lateOnB :
    ∃ x : Arrival threeSingles, x.arm = 0 ∧
      deliveredSeqs ((Arrival.calls (x :: lateOnB)).foldl Trace.step (Trace.init 2 64)).log
        = [1, 2, 3] := by
  refine ⟨⟨0, bareDatagram 1 1, ⟨0, by decide⟩, carries_bareDatagram 1 1⟩, rfl, ?_⟩
  refine (redundancy_costs_nothing threeSingles 2 64 _ lateOnB rfl (by decide) ?_).2.1
  intro k n _
  exact arrivedBeyond_le _ n

end MarketData.Handler
