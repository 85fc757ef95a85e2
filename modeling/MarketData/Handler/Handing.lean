import Mathlib.Data.List.Sort
import MarketData.Handler.Arbitration
import MarketData.Handler.Recovery

/-!
# `Handler/Handing.lean` — held traffic goes out once

The recovery buffer hands its datagrams out twice over: `drain_contiguous` when an answer has closed
one hole and another is left, and `replay` when a recovery is over. Each datagram goes out with a
number below which its messages are to be skipped, and it is that number that keeps a message from
being lost or applied again.

## Handing out, without the bytes

Neither function looks into a datagram. `Hands` therefore speaks of the sequences a datagram was
held under, and not of what a decoder makes of its bytes: it relates a list of held datagrams to the
pairs that were handed out, each one to its own bytes, and to the sequences that are left of them.
**It is a relation because a datagram may be passed over**, and which ones are is what the theorems
say. For datagrams that are copies of published ones, the messages the loop applies are just these
sequences (`consumeHeld_hands` in `Handler/Sourced.lean`).

## The two passes agree on the hole

`drain_contiguous` stops where `held_discontinuity` finds its first hole; the source has the scan
twice. `Swept` is what the pass does to any list of datagrams, in order or not. That the datagrams
are in order and disjoint (`InLine`) is needed for the last step only, from what was handed out to
all that was held.

## Two passes over one buffer

`HandedOnce` also follows the buffer from a drain to the adoption that ends the recovery, with more
datagrams held in between. What lies between the hole and the adopted sequence is then not handed
out at all: the adopted snapshot or the answer has it. That an adoption reaches the hole is a
premise, as it is in the source, where the recovery is reopened at the hole and anything older is
refused.
-/

set_option autoImplicit false

namespace MarketData.Handler

open MarketData.Tiling
open MarketData.Wire (Buf)

/-- The sequences of the datagram from `skipBelow` on. -/
def Delivery.onward (d : Delivery) (skipBelow : Nat) : List Nat :=
  (List.range' d.firstSequence d.count).filter fun s => skipBelow ≤ s

/-- Some of the `held` datagrams are handed out, in the order they are held, and `seqs` is what is
left of them. -/
inductive Hands : List Delivery → List (Nat × Buf) → List Nat → Prop where
  | nil : Hands [] [] []
  | skipped {held : List Delivery} {handed : List (Nat × Buf)} {seqs : List Nat} (d : Delivery)
      (h : Hands held handed seqs) : Hands (d :: held) handed seqs
  | out {held : List Delivery} {handed : List (Nat × Buf)} {seqs : List Nat} (d : Delivery)
      (skipBelow : Nat) (h : Hands held handed seqs) :
      Hands (d :: held) ((skipBelow, d.bytes) :: handed) (d.onward skipBelow ++ seqs)

/-- The held datagrams are ordered and disjoint. -/
def InLine (held : List Delivery) : Prop :=
  held.Pairwise fun x y => (Delivery.seg x).2 ≤ (Delivery.seg y).1

theorem points_cons (d : Delivery) (out : List Delivery) :
    points Delivery.seg (d :: out) =
      List.range' d.firstSequence d.count ++ points Delivery.seg out := by
  simp [points, Delivery.seg]

theorem InLine.sorted {held : List Delivery} (h : InLine held) :
    (points Delivery.seg held).Pairwise (· < ·) := points_sorted h

theorem InLine.nodup {held : List Delivery} (h : InLine held) :
    (points Delivery.seg held).Nodup := h.sorted.imp Nat.ne_of_lt

theorem hands_nil (held : List Delivery) : Hands held [] [] := by
  induction held with
  | nil => exact .nil
  | cons d held ih => exact .skipped d ih

/-- A datagram below `n` has nothing from `n` on. -/
theorem Delivery.onward_eq_nil {d : Delivery} {n : Nat} (h : d.firstSequence + d.count ≤ n) :
    d.onward n = [] := by
  refine List.filter_eq_nil_iff.mpr fun s hs => ?_
  rw [List.mem_range'_1] at hs
  simp only [decide_eq_true_eq]
  omega

theorem Delivery.onward_eq_range' {d : Delivery} {n : Nat} (h : d.firstSequence ≤ n) :
    d.onward n = List.range' n (d.firstSequence + d.count - n) := by
  refine List.Pairwise.eq_of_mem_iff ?_ List.pairwise_lt_range' fun s => ?_
  · exact (List.pairwise_lt_range' (s := d.firstSequence) (n := d.count)).filter _
  · simp only [Delivery.onward, List.mem_filter, List.mem_range'_1, decide_eq_true_eq]
    omega

namespace RecoveryBuffer

/-! ## `replay` -/

/-- **`replay`** hands out what is held from the adopted state on. -/
theorem replayFrom_hands (held : List Delivery) (fromSequence : Nat) :
    Hands held (replayFrom fromSequence held)
      ((points Delivery.seg held).filter fun s => fromSequence ≤ s) := by
  induction held with
  | nil => exact .nil
  | cons d held ih =>
    rw [points_cons, List.filter_append]
    by_cases hlt : fromSequence < d.firstSequence + d.count
    · have hhead : replayFrom fromSequence (d :: held) =
          (fromSequence, d.bytes) :: replayFrom fromSequence held := by
        simp [replayFrom, hlt]
      rw [hhead]
      exact .out d fromSequence ih
    · have hhead : replayFrom fromSequence (d :: held) = replayFrom fromSequence held := by
        simp [replayFrom, hlt]
      have hnone : d.onward fromSequence = [] := Delivery.onward_eq_nil (Nat.le_of_not_lt hlt)
      unfold Delivery.onward at hnone
      rw [hhead, hnone, List.nil_append]
      exact .skipped d ih

/-! ## `drain_contiguous` -/

/-- What the loop of `drain_contiguous` does: it hands out `expected` up to `completeThrough`
without a break and keeps a tail of the buffer, empty or beginning past it. -/
structure Swept (expected : Nat) (held : List Delivery) (drain : Drain) : Prop where
  le : expected ≤ drain.completeThrough
  rest : drain.rest <:+ held
  past : ∀ d ∈ drain.rest.head?, drain.completeThrough < d.firstSequence
  hole : discontinuity expected held =
    drain.rest.head?.map fun d => (drain.completeThrough, d.firstSequence - 1)
  gone : ∃ swept, held = swept ++ drain.rest ∧ ∀ d ∈ swept,
    d.firstSequence ≤ drain.completeThrough ∧ d.firstSequence + d.count ≤ drain.completeThrough
  reached : ∀ s, expected ≤ s → s < drain.completeThrough → ∃ d ∈ held, Covers Delivery.seg s d
  hands : Hands held drain.applied (List.range' expected (drain.completeThrough - expected))

theorem range'_split (a b c : Nat) (hab : a ≤ b) (hbc : b ≤ c) :
    List.range' a (c - a) = List.range' a (b - a) ++ List.range' b (c - b) := by
  have happend := List.range'_append_1 (s := a) (m := b - a) (n := c - b)
  rw [Nat.add_sub_cancel' hab] at happend
  rw [happend]
  congr 1
  omega

/-- **`drain_contiguous`**, and with it the scan of `held_discontinuity`. -/
theorem drainFrom_swept (coveredFrom expected : Nat) (held : List Delivery) :
    Swept expected held (drainFrom coveredFrom expected held) := by
  induction held generalizing expected with
  | nil =>
    refine ⟨Nat.le_refl _, List.suffix_refl _, fun d hd => (nomatch hd), rfl,
      ⟨[], rfl, fun d hd => (nomatch hd)⟩, fun s hle hlt => absurd hlt (Nat.not_lt.mpr hle), ?_⟩
    show Hands [] [] (List.range' expected (expected - expected))
    rw [Nat.sub_self]
    exact .nil
  | cons d held ih =>
    rw [drainFrom]
    dsimp only
    split
    · rename_i hpast
      refine ⟨Nat.le_refl _, List.suffix_refl _, by simpa using hpast, ?_,
        ⟨[], rfl, fun x hx => (nomatch hx)⟩, fun s hle hlt => absurd hlt (Nat.not_lt.mpr hle), ?_⟩
      · simp [discontinuity, hpast]
      · rw [Nat.sub_self]
        exact hands_nil _
    · rename_i hstart
      split
      · rename_i hreach
        have hrest := ih (d.firstSequence + d.count)
        generalize drainFrom coveredFrom (d.firstSequence + d.count) held = more at hrest
        have hle := hrest.le
        refine ⟨?_, hrest.rest.trans (List.suffix_cons ..), hrest.past, ?_, ?_, ?_, ?_⟩
        · dsimp only
          omega
        · rw [discontinuity, if_neg hstart, Nat.max_eq_right (Nat.le_of_lt hreach), hrest.hole]
        · obtain ⟨swept, hheld, hswept⟩ := hrest.gone
          refine ⟨d :: swept, congrArg (d :: ·) hheld, fun x hx => ?_⟩
          rcases List.mem_cons.mp hx with rfl | hx
          · exact ⟨Nat.le_trans (Nat.le_add_right _ _) hle, hle⟩
          · exact hswept x hx
        · intro s hlo hlt
          by_cases hin : s < d.firstSequence + d.count
          · exact ⟨d, List.mem_cons_self, Nat.le_trans (Nat.le_of_not_lt hstart) hlo, hin⟩
          · obtain ⟨x, hx, hcov⟩ := hrest.reached s (Nat.le_of_not_lt hin) hlt
            exact ⟨x, List.mem_cons_of_mem _ hx, hcov⟩
        · have hout := Hands.out d expected hrest.hands
          rw [Delivery.onward_eq_range' (Nat.le_of_not_lt hstart),
            ← range'_split _ _ _ (Nat.le_of_lt hreach) hle] at hout
          exact hout
      · rename_i hbehind
        have hrest := ih expected
        generalize drainFrom coveredFrom expected held = more at hrest
        have hle := hrest.le
        have hmax : max expected (d.firstSequence + d.count) = expected :=
          Nat.max_eq_left (Nat.le_of_not_lt hbehind)
        have hsame : Swept expected (d :: held) more := by
          refine ⟨hle, hrest.rest.trans (List.suffix_cons ..), hrest.past, ?_, ?_, ?_,
            .skipped d hrest.hands⟩
          · rw [discontinuity, if_neg hstart, hmax, hrest.hole]
          · obtain ⟨swept, hheld, hswept⟩ := hrest.gone
            refine ⟨d :: swept, congrArg (d :: ·) hheld, fun x hx => ?_⟩
            rcases List.mem_cons.mp hx with rfl | hx
            · exact ⟨Nat.le_trans (Nat.le_of_not_lt hstart) hle,
                Nat.le_trans (Nat.le_of_not_lt hbehind) hle⟩
            · exact hswept x hx
          · intro s hlo hlt
            obtain ⟨x, hx, hcov⟩ := hrest.reached s hlo hlt
            exact ⟨x, List.mem_cons_of_mem _ hx, hcov⟩
        split
        · exact hsame
        · exact ⟨hsame.le, hsame.rest, hsame.past, hsame.hole, hsame.gone, hsame.reached,
            hsame.hands⟩

/-! ## Everything held, once -/

/-- The buffer after a snapshot or a replay as of `last` has been adopted. -/
inductive Adopted (r : RecoveryBuffer) (last : Nat) : RecoveryBuffer → Prop where
  | snapshot : Adopted r last (r.adoptSnapshot last)
  | replay {r' : RecoveryBuffer} (h : r.adoptReplay last = some r') : Adopted r last r'

/-- Whatever was adopted, the held traffic is replayed from just above it. -/
theorem Adopted.replay_eq {r r' : RecoveryBuffer} {last : Nat} (h : r.Adopted last r') :
    r'.replay = replayFrom (last + 1) r.held := by
  cases h with
  | snapshot => rfl
  | replay h =>
    unfold adoptReplay at h
    split at h
    · cases h
      rfl
    · cases h

theorem Adopted.hands {r r' : RecoveryBuffer} {last : Nat} (h : r.Adopted last r') :
    Hands r.held r'.replay ((points Delivery.seg r.held).filter fun s => last < s) :=
  h.replay_eq ▸ replayFrom_hands r.held (last + 1)

namespace Swept

variable {expected : Nat} {held more : List Delivery} {drain : Drain}

/-- Datagrams in order that are kept all begin past the hole. -/
theorem past_all (h : Swept expected held drain) (hline : InLine held) {d : Delivery}
    (hd : d ∈ drain.rest) : drain.completeThrough < d.firstSequence := by
  have hrest : InLine drain.rest := hline.sublist h.rest.sublist
  have hpast := h.past
  cases hkept : drain.rest with
  | nil =>
    rw [hkept] at hd
    cases hd
  | cons x kept =>
    rw [hkept] at hd hpast hrest
    have hx : drain.completeThrough < x.firstSequence := hpast x rfl
    rcases List.mem_cons.mp hd with rfl | hd
    · exact hx
    · have hle : x.firstSequence + x.count ≤ d.firstSequence :=
        (List.pairwise_cons.mp hrest).1 d hd
      omega

/-- The kept datagrams are those that begin past the hole. -/
theorem rest_eq (h : Swept expected held drain) (hline : InLine held) :
    drain.rest = held.filter fun d => drain.completeThrough < d.firstSequence := by
  obtain ⟨swept, hheld, hswept⟩ := h.gone
  have hnone : swept.filter (fun d => drain.completeThrough < d.firstSequence) = [] :=
    List.filter_eq_nil_iff.mpr fun d hd => by simpa using (hswept d hd).1
  have hall : drain.rest.filter (fun d => drain.completeThrough < d.firstSequence) = drain.rest :=
    List.filter_eq_self.mpr fun d hd => by simpa using h.past_all hline hd
  conv => rhs; rw [hheld]
  rw [List.filter_append, hnone, hall, List.nil_append]

/-- What is handed out is all that is held from `expected` to the hole. -/
theorem filter_points (h : Swept expected held drain) (hline : InLine held) :
    (points Delivery.seg held).filter (fun s => expected ≤ s ∧ s < drain.completeThrough) =
      List.range' expected (drain.completeThrough - expected) := by
  refine List.Pairwise.eq_of_mem_iff (hline.sorted.filter _) List.pairwise_lt_range' fun s => ?_
  have hle := h.le
  simp only [List.mem_filter, List.mem_range'_1, decide_eq_true_eq]
  constructor
  · rintro ⟨-, hlo, hlt⟩
    omega
  · rintro ⟨hlo, hlt⟩
    exact ⟨mem_points.mpr (h.reached s hlo (by omega)), hlo, by omega⟩

/-- Past the hole, what is held is what is kept. -/
theorem mem_kept (h : Swept expected held drain) {s : Nat} (hs : drain.completeThrough ≤ s)
    (hmem : s ∈ points Delivery.seg (held ++ more)) :
    s ∈ points Delivery.seg (drain.rest ++ more) := by
  obtain ⟨swept, hheld, hswept⟩ := h.gone
  rw [hheld, List.append_assoc] at hmem
  obtain ⟨d, hd, hcov⟩ := mem_points.mp hmem
  rcases List.mem_append.mp hd with hd | hd
  · have hend := (hswept d hd).2
    have hlt : s < d.firstSequence + d.count := hcov.2
    omega
  · exact mem_points.mpr ⟨d, hd, hcov⟩

/-- After a drain and an adoption that reaches the hole, everything held has been handed out once,
but for what lies between the hole and the adopted sequence. -/
theorem count_eq (h : Swept expected held drain) (hline : InLine (held ++ more)) {last s : Nat}
    (hlast : drain.completeThrough ≤ last + 1) (hs : expected ≤ s)
    (hmem : s ∈ points Delivery.seg (held ++ more)) :
    (List.range' expected (drain.completeThrough - expected) ++
      (points Delivery.seg (drain.rest ++ more)).filter (fun s => last < s)).count s =
      if drain.completeThrough ≤ s ∧ s ≤ last then 0 else 1 := by
  have hle := h.le
  have hkept : InLine (drain.rest ++ more) :=
    hline.sublist (h.rest.sublist.append (List.Sublist.refl more))
  rw [List.count_append, List.count_range_1']
  by_cases hlt : s < drain.completeThrough
  · have hnot : s ∉ (points Delivery.seg (drain.rest ++ more)).filter (fun s => last < s) := by
      simp only [List.mem_filter, decide_eq_true_eq, not_and]
      omega
    rw [List.count_eq_zero.mpr hnot, if_pos (by omega), if_neg (by omega)]
  · have hin := h.mem_kept (Nat.le_of_not_lt hlt) hmem
    rw [if_neg (by omega), Nat.zero_add]
    by_cases hcov : s ≤ last
    · have hnot : s ∉ (points Delivery.seg (drain.rest ++ more)).filter (fun s => last < s) := by
        simp only [List.mem_filter, decide_eq_true_eq, not_and]
        omega
      rw [List.count_eq_zero.mpr hnot, if_pos ⟨Nat.le_of_not_lt hlt, hcov⟩]
    · rw [if_neg (fun hc => hcov hc.2)]
      refine List.count_eq_one_of_mem (hkept.nodup.filter _) (List.mem_filter.mpr ⟨hin, ?_⟩)
      simpa using hcov

end Swept

/-- What is held goes out in order and once. `replay` and `drain_contiguous` are each given what
they hand out, and the drain what it keeps and where it stops. -/
structure HandedOnce (r : RecoveryBuffer) : Prop where
  ordered : (points Delivery.seg r.held).Pairwise (· < ·)
  replayed : ∀ last (r' : RecoveryBuffer), r.Adopted last r' →
    Hands r.held r'.replay ((points Delivery.seg r.held).filter fun s => last < s)
  drained : ∀ a c, Hands r.held (r.drainContiguous a c).1.applied
    ((points Delivery.seg r.held).filter fun s =>
      c + 1 ≤ s ∧ s < (r.drainContiguous a c).1.completeThrough)
  kept : ∀ a c, (r.drainContiguous a c).2 = { r with held := r.held.filter fun d =>
    (r.drainContiguous a c).1.completeThrough < d.firstSequence }
  /-- The drain stops at the hole that the scan reports, if it reports one, and otherwise keeps
  nothing. -/
  stopped : ∀ a c, r.heldDiscontinuity (c + 1) = (r.drainContiguous a c).2.held.head?.map
    fun d => ((r.drainContiguous a c).1.completeThrough, d.firstSequence - 1)
  /-- The drain, and an adoption at `last` after more has been held. -/
  resumed : ∀ a c more last (r₁ r₂ : RecoveryBuffer), InLine (r.held ++ more) →
    r₁.held = (r.drainContiguous a c).2.held ++ more →
    (r.drainContiguous a c).1.completeThrough ≤ last + 1 → r₁.Adopted last r₂ →
    ∃ first later, Hands r.held (r.drainContiguous a c).1.applied first ∧
      Hands r₁.held r₂.replay later ∧ ∀ s ∈ points Delivery.seg (r.held ++ more), c < s →
        (first ++ later).count s =
          if (r.drainContiguous a c).1.completeThrough ≤ s ∧ s ≤ last then 0 else 1

/-- The snapshot is as of 5: the first datagram is behind it, the second straddles it, and 11 and 12
are missing. -/
def straddled : RecoveryBuffer :=
  { RecoveryBuffer.new 8 64 with
    state := .awaitingSnapshot 3
    held := [⟨3, 2, [1]⟩, ⟨5, 3, [2]⟩, ⟨8, 3, [3]⟩, ⟨13, 2, [4]⟩] }

end RecoveryBuffer

end MarketData.Handler
