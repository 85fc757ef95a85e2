import MarketData.Handler.Answer
import MarketData.Handler.Whole

/-!
# `Handler/ExactlyOnce.lean` — a replayed range, applied once

`apply_replay` applies the whole answer before it decides how much of the range the answer
covers; what lies past a break is in the books and yet asked for again, or taken from the held
traffic. So each sequence is applied once, across the answer and the adoption that closes what
is left of the hole, exactly when nothing in the answer below the end of the held traffic comes
twice or past a break.

## From one answer to the next

A single answer may leave the recovery open, and then it is too early to say whether everything came
once: something else has still to close the hole, a later answer or a snapshot. `AppliedOnce`
quantifies over it. At most once is asked of the answer and whatever adoption follows, and at least
once only where the recovery closes. `appliedSince` reads the messages off the histories of the two
states, which is why the consumer keeps one; an adopted snapshot ends the count, for it replaces the
books rather than adding to them.

## The condition

`OnceInOrder` looks at the answer and at the end of the held traffic, nothing else. Past that end an
answer may repeat itself or leave holes as it likes: nothing applied there is ever asked for again
by this recovery. That the held traffic itself is ordered and disjoint (`InLine`) is assumed of the
state; it is what `Handler/Once.lean` proves of every state an orderly run reaches.
-/

set_option autoImplicit false

namespace MarketData.Handler

open MarketData.Wire MarketData.Book MarketData.Tiling
open FeedHandler (coverage Coverage Replayed Taken)

variable {B : Type} {S : Publication} {maxBytes : Nat}

/-! ## Held traffic in order -/

/-- The sequence is below the end of the held traffic. -/
def BelowHeld (held : List Delivery) (s : Nat) : Prop :=
  ∃ d ∈ held, s < d.firstSequence + d.count

theorem heldSeqs_sorted {held : List Delivery} (h : InLine held) (lo : Nat) :
    (heldSeqs lo held).Pairwise (· < ·) := by
  induction held with
  | nil => exact List.Pairwise.nil
  | cons d held ih =>
    obtain ⟨hd, hrest⟩ := List.pairwise_cons.mp h
    rw [heldSeqs_cons]
    refine List.pairwise_append.mpr ⟨seqsIn_sorted .., ih hrest, ?_⟩
    intro s hs t ht
    obtain ⟨x, hx, ht⟩ := List.mem_flatMap.mp ht
    have hle : d.firstSequence + d.count ≤ x.firstSequence := hd x hx
    rw [mem_seqsIn] at hs ht
    omega

theorem InLine.nodup_heldSeqs {held : List Delivery} (h : InLine held) (lo : Nat) :
    (heldSeqs lo held).Nodup :=
  (heldSeqs_sorted h lo).imp Nat.ne_of_lt

/-! ## What was applied between two states -/

/-- The messages that went to the books between two states, where nothing else was done to them. -/
def appliedSince (h h' : FeedHandler B) : List Nat :=
  h'.ledger.seqs.drop h.ledger.seqs.length

theorem appliedSince_eq {h h' : FeedHandler B} {seqs : List Nat}
    (hadd : h'.ledger = h.ledger.add seqs) : appliedSince h h' = seqs := by
  simp [appliedSince, hadd, Ledger.add]

/-- What an answer adds to the books of an open recovery, and how it leaves the recovery. -/
inductive Filled (S : Publication) (h : FeedHandler B) (r : RangeRequest) (ds : List Buf) :
    FeedHandler B → List Nat → Prop
  | uncovered {h' : FeedHandler B} (hcov : (coverage r ds).through < r.fromSeq)
      (hrec : h'.recovery = h.recovery) : Filled S h r ds h' (answerSeqs r ds)
  | reopened {h' : FeedHandler B} {drain : RecoveryBuffer.Drain} {stop : Nat}
      (hcov : r.fromSeq ≤ (coverage r ds).through)
      (hdrain : RecoveryBuffer.Drained S ((coverage r ds).through + 1) h.recovery.held drain stop)
      (hrest : drain.rest ≠ []) (hheld : h'.recovery.held = drain.rest)
      (hstate : h'.recovery.state = .awaitingSnapshot stop) :
      Filled S h r ds h' (answerSeqs r ds ++
        List.range' ((coverage r ds).through + 1) (stop - ((coverage r ds).through + 1)))
  | completed {h' : FeedHandler B} {drain : RecoveryBuffer.Drain} {stop : Nat}
      (hcov : r.fromSeq ≤ (coverage r ds).through)
      (hdrain : RecoveryBuffer.Drained S ((coverage r ds).through + 1) h.recovery.held drain stop)
      (hrest : drain.rest = []) (hstate : h'.recovery.state = .idle) :
      Filled S h r ds h' (answerSeqs r ds ++
        heldSeqs ((coverage r ds).through + 1) h.recovery.held)

variable {h : FeedHandler B} {r : RangeRequest} {ds : List Buf}

theorem applyReplay_filled [OrderBook B] (hs : Sourced S maxBytes h) {g : Nat}
    (hg : h.recovery.state = .awaitingSnapshot g) (hds : AnswerOf S maxBytes ds) :
    ∃ new, (h.applyReplay r ds).2.ledger = h.ledger.add new ∧
      Filled S h r ds (h.applyReplay r ds).2 new := by
  have hrep := FeedHandler.applyReplay_replayed hs hg r hds
  have hanswered : (h.answeredBy S r ds).ledger = h.ledger.add (answerSeqs r ds) :=
    Consumer.ledger_applyAll _ _ _
  generalize h.applyReplay r ds = answer at hrep
  cases hrep with
  | uncovered hcov => exact ⟨_, hanswered, .uncovered hcov rfl⟩
  | @reopened drain stop hcov hdrain hrest =>
    refine ⟨_, ?_, .reopened hcov hdrain hrest rfl rfl⟩
    show (Consumer.count _ _).ledger = _
    rw [Consumer.ledger_count, Consumer.ledger_applyAll, hanswered, Ledger.add_add]
  | completed hcov hdrain hrest =>
    refine ⟨_, ?_, .completed hcov hdrain hrest rfl⟩
    show (Consumer.touch _ _).ledger = _
    rw [Consumer.ledger_touch, Consumer.ledger_count, Consumer.ledger_applyAll, hanswered,
      Ledger.add_add]
    rfl

namespace Filled

variable {h' : FeedHandler B} {new : List Nat}

/-- Every datagram of the answer is applied, whatever it covers. -/
theorem answer_subset (hf : Filled S h r ds h' new) : answerSeqs r ds ⊆ new := by
  cases hf with
  | uncovered => exact List.Subset.refl _
  | reopened => exact List.subset_append_left _ _
  | completed => exact List.subset_append_left _ _

/-- Nothing below the range asked for is applied. -/
theorem from_le (hf : Filled S h r ds h' new) {s : Nat} (hs : s ∈ new) : r.fromSeq ≤ s := by
  have hanswer : ∀ {s}, s ∈ answerSeqs r ds → r.fromSeq ≤ s := fun hs => (mem_answerSeqs.mp hs).1.1
  cases hf with
  | uncovered => exact hanswer hs
  | reopened hcov =>
    rcases List.mem_append.mp hs with hs | hs
    · exact hanswer hs
    · have := (List.mem_range'_1.mp hs).1
      omega
  | completed hcov =>
    rcases List.mem_append.mp hs with hs | hs
    · exact hanswer hs
    · obtain ⟨d, -, hs⟩ := List.mem_flatMap.mp hs
      have := (mem_seqsIn.mp hs).2.1
      omega

/-- What is held past the hole that is left is held on. -/
theorem belowHeld (hf : Filled S h r ds h' new) {g s : Nat}
    (hg : h'.recovery.gapFrom = some g) (hle : g ≤ s) (hb : BelowHeld h.recovery.held s) :
    BelowHeld h'.recovery.held s := by
  obtain ⟨d, hd, hlt⟩ := hb
  cases hf with
  | uncovered hcov hrec => exact hrec ▸ ⟨d, hd, hlt⟩
  | reopened hcov hdrain hrest hheld hstate =>
    simp only [RecoveryBuffer.gapFrom, hstate, Option.some.injEq] at hg
    rcases hdrain.gone d hd with hd | hgone
    · exact ⟨d, hheld ▸ hd, hlt⟩
    · omega
  | completed hcov hdrain hrest hstate =>
    simp [RecoveryBuffer.gapFrom, hstate] at hg

theorem inLine (hf : Filled S h r ds h' new) {g : Nat} (hg : h'.recovery.gapFrom = some g)
    (hline : InLine h.recovery.held) : InLine h'.recovery.held := by
  cases hf with
  | uncovered hcov hrec => exact hrec ▸ hline
  | reopened hcov hdrain hrest hheld hstate =>
    rw [hheld]
    exact hline.sublist hdrain.rest.sublist
  | completed hcov hdrain hrest hstate => simp [RecoveryBuffer.gapFrom, hstate] at hg

/-- How often a message below the end of the held traffic is applied: as often as the answer
carries it, and once more if it is past the coverage and below the hole that is left. -/
theorem count_eq (hf : Filled S h r ds h' new) (hs : Sourced S maxBytes h)
    (hline : InLine h.recovery.held) {s : Nat} (hb : BelowHeld h.recovery.held s) :
    new.count s = (answerSeqs r ds).count s +
      if r.fromSeq ≤ (coverage r ds).through ∧ (coverage r ds).through < s ∧
        (∀ g, h'.recovery.gapFrom = some g → s < g) then 1 else 0 := by
  obtain ⟨d, hd, hlt⟩ := hb
  cases hf with
  | uncovered hcov hrec => rw [if_neg (by omega), Nat.add_zero]
  | @reopened drain stop hcov hdrain hrest hheld hgap =>
    have hiff : (r.fromSeq ≤ (coverage r ds).through ∧ (coverage r ds).through < s ∧
        ∀ g, h'.recovery.gapFrom = some g → s < g) ↔
        (coverage r ds).through + 1 ≤ s ∧ s < stop := by
      simp only [RecoveryBuffer.gapFrom, hgap, Option.some.injEq, forall_eq']
      omega
    rw [List.count_append, List.count_range_1']
    congr 1
    have hle := hdrain.le
    split
    · rw [if_pos (hiff.mpr (by omega))]
    · rw [if_neg (fun hc => absurd (hiff.mp hc) (by omega))]
  | @completed drain stop hcov hdrain hrest hgap =>
    have hstop : s < stop := by
      rcases hdrain.gone d hd with hd | hgone
      · rw [hrest] at hd
        cases hd
      · omega
    rw [List.count_append]
    congr 1
    split
    · rename_i hin
      obtain ⟨x, hx, hcover⟩ := hdrain.reached s (by omega) hstop
      exact List.count_eq_one_of_mem (hline.nodup_heldSeqs _)
        ((mem_heldSeqs hs.held).mpr ⟨by omega, x, hx, hcover⟩)
    · rename_i hout
      refine List.count_eq_zero.mpr fun hmem => hout ⟨hcov, ?_, ?_⟩
      · have := ((mem_heldSeqs hs.held).mp hmem).1
        omega
      · simp [RecoveryBuffer.gapFrom, hgap]

theorem gapFrom_of_uncovered (hf : Filled S h r ds h' new)
    (hstate : h.recovery.state = .awaitingSnapshot r.fromSeq)
    (hcov : (coverage r ds).through < r.fromSeq) : h'.recovery.gapFrom = some r.fromSeq := by
  cases hf with
  | uncovered _ hrec => rw [hrec, RecoveryBuffer.gapFrom, hstate]
  | reopened hle => omega
  | completed hle => omega

theorem lt_gapFrom (hf : Filled S h r ds h' new) (hcov : r.fromSeq ≤ (coverage r ds).through)
    {g : Nat} (hg : h'.recovery.gapFrom = some g) : (coverage r ds).through < g := by
  cases hf with
  | uncovered hlt => omega
  | reopened _ hdrain _ _ hstate =>
    simp only [RecoveryBuffer.gapFrom, hstate, Option.some.injEq] at hg
    exact hg ▸ hdrain.le
  | completed _ _ _ hstate => simp [RecoveryBuffer.gapFrom, hstate] at hg

end Filled

theorem state_of_gapFrom {recovery : RecoveryBuffer} {g : Nat} (hg : recovery.gapFrom = some g) :
    recovery.state = .awaitingSnapshot g := by
  unfold RecoveryBuffer.gapFrom at hg
  split at hg
  · rename_i hstate
    rw [hstate, Option.some.inj hg]
  · cases hg

/-! ## The answer and the adoption that closes what it leaves -/

/-- Below the end of the held traffic nothing in the answer comes twice or past a hole. -/
def OnceInOrder (held : List Delivery) (r : RangeRequest) (ds : List Buf) : Prop :=
  ∀ s ∈ answerSeqs r ds, BelowHeld held s → (answerSeqs r ds).count s = 1 ∧ InOrder r ds s

/-- Such an answer applies everything up to the hole it leaves, once, and nothing past it. -/
theorem Filled.count_once {h' : FeedHandler B} {new : List Nat} (hf : Filled S h r ds h' new)
    (hs : Sourced S maxBytes h) (hr : r.Proper) (hds : AnswerOf S maxBytes ds)
    (hline : InLine h.recovery.held) (hstate : h.recovery.state = .awaitingSnapshot r.fromSeq)
    (honce : OnceInOrder h.recovery.held r ds) {s : Nat} (hfrom : r.fromSeq ≤ s)
    (hb : BelowHeld h.recovery.held s) :
    new.count s = if ∀ g ∈ h'.recovery.gapFrom, s < g then 1 else 0 := by
  rw [hf.count_eq hs hline hb]
  by_cases hle : s ≤ (coverage r ds).through
  · have hmem := mem_answerSeqs_of_covered hds hfrom (Nat.le_trans hr.pos hfrom) hle
    have hcov := Nat.le_trans hfrom hle
    rw [(honce s hmem hb).1, if_neg (fun hc => Nat.not_lt.mpr hle hc.2.1), if_pos]
    exact fun g hg => Nat.lt_of_le_of_lt hle (hf.lt_gapFrom hcov hg)
  · have hnot : s ∉ answerSeqs r ds := fun hmem =>
      hle ((inOrder_iff hr hds hfrom).mp (honce s hmem hb).2)
    rw [List.count_eq_zero.mpr hnot, Nat.zero_add]
    by_cases hcov : r.fromSeq ≤ (coverage r ds).through
    · have hiff : (r.fromSeq ≤ (coverage r ds).through ∧ (coverage r ds).through < s ∧
          ∀ g, h'.recovery.gapFrom = some g → s < g) ↔ ∀ g ∈ h'.recovery.gapFrom, s < g :=
        ⟨fun hc => hc.2.2, fun hc => ⟨hcov, Nat.lt_of_not_le hle, hc⟩⟩
      simp only [hiff]
    · have hgap := hf.gapFrom_of_uncovered hstate (Nat.lt_of_not_le hcov)
      rw [if_neg (fun hc => hcov hc.1), if_neg]
      exact fun hc => absurd (hc _ hgap) (Nat.not_lt.mpr hfrom)

variable [OrderBook B]

/-- Across an answer and the adoption that later closes what is left of the hole, every sequence
from the start of the range to the end of the held traffic is applied at most once, and once
when the recovery closes. -/
structure AppliedOnce (S : Publication) (maxBytes : Nat) (h : FeedHandler B) (r : RangeRequest)
    (ds : List Buf) : Prop where
  once : ∀ s, r.fromSeq ≤ s → BelowHeld h.recovery.held s →
    (appliedSince h (h.applyReplay r ds).2).count s ≤ 1 ∧
      ((h.applyReplay r ds).2.recovery.gapFrom = none →
        (appliedSince h (h.applyReplay r ds).2).count s = 1)
  /-- No later answer for what is left applies any of it again. -/
  fresh : ∀ r' ds', (h.applyReplay r ds).2.recovery.gapFrom = some r'.fromSeq →
    AnswerOf S maxBytes ds' → ∀ s, r.fromSeq ≤ s → BelowHeld h.recovery.held s →
      s ∈ appliedSince h (h.applyReplay r ds).2 →
        s ∉ appliedSince (h.applyReplay r ds).2 ((h.applyReplay r ds).2.applyReplay r' ds').2
  /-- A later answer that is itself in order closes the range. -/
  replayed : ∀ r' ds', r'.Proper → (h.applyReplay r ds).2.recovery.gapFrom = some r'.fromSeq →
    AnswerOf S maxBytes ds' → OnceInOrder (h.applyReplay r ds).2.recovery.held r' ds' →
    ∀ s, r.fromSeq ≤ s → BelowHeld h.recovery.held s →
      (appliedSince h (h.applyReplay r ds).2 ++ appliedSince (h.applyReplay r ds).2
        ((h.applyReplay r ds).2.applyReplay r' ds').2).count s ≤ 1 ∧
      (((h.applyReplay r ds).2.applyReplay r' ds').2.recovery.gapFrom = none →
        (appliedSince h (h.applyReplay r ds).2 ++ appliedSince (h.applyReplay r ds).2
          ((h.applyReplay r ds).2.applyReplay r' ds').2).count s = 1)
  /-- A later snapshot that closes it is reflected once with what is applied on top. -/
  adopted : ∀ bytes d, IsFragment bytes d →
    ((h.applyReplay r ds).2.handleSnapshot bytes).recovery.completed =
      (h.applyReplay r ds).2.recovery.completed + 1 →
    ∀ s, r.fromSeq ≤ s → BelowHeld h.recovery.held s →
      ((h.applyReplay r ds).2.handleSnapshot bytes).ledger.Reflects s ∧
      (((h.applyReplay r ds).2.handleSnapshot bytes).ledger.base ::
        ((h.applyReplay r ds).2.handleSnapshot bytes).ledger.seqs).Pairwise (· < ·)

theorem snapshotIsUsable_iff {recovery : RecoveryBuffer} {g n : Nat}
    (hstate : recovery.state = .awaitingSnapshot g) :
    recovery.snapshotIsUsable n = true ↔ g ≤ n + 1 := by
  simp [RecoveryBuffer.snapshotIsUsable, hstate]

/-- A snapshot that closes a recovery is reflected once with the held traffic on top. -/
theorem handleSnapshot_once (hs : Sourced S maxBytes h) {g : Nat}
    (hg : h.recovery.state = .awaitingSnapshot g) (hline : InLine h.recovery.held) {bytes : Buf}
    {d : Snapshot} (hfrag : IsFragment bytes d)
    (hdone : (h.handleSnapshot bytes).recovery.completed = h.recovery.completed + 1) :
    ((h.handleSnapshot bytes).ledger.base :: (h.handleSnapshot bytes).ledger.seqs).Pairwise (· < ·) ∧
      ∀ s, 1 ≤ s → (g ≤ s → BelowHeld h.recovery.held s) →
        (h.handleSnapshot bytes).ledger.Reflects s := by
  have htaken := FeedHandler.handleSnapshot_taken hs ((isRecovering_iff hs).mpr ⟨g, hg⟩) hfrag
  generalize h.handleSnapshot bytes = h' at htaken hdone
  cases htaken with
  | discarded => exact absurd hdone (Nat.ne_of_lt (Nat.lt_succ_self _))
  | failed => exact absurd hdone (Nat.ne_of_lt (Nat.lt_succ_self _))
  | applied => exact absurd hdone (Nat.ne_of_lt (Nat.lt_succ_self _))
  | reopened => exact absurd hdone (Nat.ne_of_lt (Nat.lt_succ_self _))
  | @completed drain stop huse hin hok hend hdrain hrest =>
    have hledger : ∀ c : Consumer B,
        (((((c.touch (.adopted d.lastSequence.toNat)).count (.adopted d.lastSequence.toNat)).applyAll
          S false (heldSeqs (d.lastSequence.toNat + 1) h.recovery.held)).count
            .recovered).touch .completed).ledger =
        { c.ledger with
          base := d.lastSequence.toNat
          seqs := heldSeqs (d.lastSequence.toNat + 1) h.recovery.held
          torn := false
          forsaken := false } := by
      intro c
      simp [Ledger.touch, Ledger.add]
    rw [FeedHandler.ledger, hledger]
    have hmem : ∀ s, s ∈ heldSeqs (d.lastSequence.toNat + 1) h.recovery.held ↔
        d.lastSequence.toNat + 1 ≤ s ∧ ∃ d ∈ h.recovery.held, Covers Delivery.seg s d :=
      fun _ => mem_heldSeqs hs.held
    refine ⟨List.pairwise_cons.mpr ⟨fun s hs' => ((hmem s).mp hs').1, heldSeqs_sorted hline _⟩, ?_⟩
    intro s hpos hbelow
    by_cases hle : s ≤ d.lastSequence.toNat
    · exact .inl ⟨hpos, hle⟩
    · right
      have huse := (snapshotIsUsable_iff hg).mp huse
      obtain ⟨x, hx, hlt⟩ := hbelow (by omega)
      have hstop : s < stop := by
        rcases hdrain.gone x hx with hx | hgone
        · rw [hrest] at hx
          cases hx
        · omega
      obtain ⟨y, hy, hcover⟩ := hdrain.reached s (by omega) hstop
      exact (hmem s).mpr ⟨by omega, y, hy, hcover⟩

section Replay

variable (hs : Sourced S maxBytes h) (hr : r.Proper)
  (hstate : h.recovery.state = .awaitingSnapshot r.fromSeq) (hline : InLine h.recovery.held)
  (hds : AnswerOf S maxBytes ds)

include hs hstate hds

theorem sourced_applyReplay : Sourced S maxBytes (h.applyReplay r ds).2 :=
  hs.replayed (hs.started_of_recovering hstate) (FeedHandler.applyReplay_replayed hs hstate r hds)

/-- What a later answer for the hole that is left adds. -/
theorem applyReplay_again {r' : RangeRequest} {ds' : List Buf}
    (hgap : (h.applyReplay r ds).2.recovery.gapFrom = some r'.fromSeq)
    (hds' : AnswerOf S maxBytes ds') : ∃ new',
      appliedSince (h.applyReplay r ds).2 ((h.applyReplay r ds).2.applyReplay r' ds').2 = new' ∧
      Filled S (h.applyReplay r ds).2 r' ds' ((h.applyReplay r ds).2.applyReplay r' ds').2 new' := by
  have hs₁ := sourced_applyReplay hs hstate hds
  obtain ⟨new', hadd', hf'⟩ := applyReplay_filled (r := r') hs₁ (state_of_gapFrom hgap) hds'
  exact ⟨new', appliedSince_eq hadd', hf'⟩

include hr hline

theorem AppliedOnce.onceInOrder (hex : AppliedOnce S maxBytes h r ds) :
    OnceInOrder h.recovery.held r ds := by
  obtain ⟨new, hadd, hf⟩ := applyReplay_filled (r := r) hs hstate hds
  have hnew := appliedSince_eq hadd
  intro s hmem hb
  obtain ⟨⟨hfrom, hthrough⟩, d, hd, hcover⟩ := mem_answerSeqs.mp hmem
  have hle := (hex.once s hfrom hb).1
  have hpos := List.count_pos_iff.mpr hmem
  rw [hnew, hf.count_eq hs hline hb] at hle
  refine ⟨by omega, (inOrder_iff hr hds hfrom).mpr ?_⟩
  by_contra hno
  -- What was applied past the break lies in the hole that is left, and the same datagrams
  -- for that hole apply it again.
  have hleft : ∃ g, (h.applyReplay r ds).2.recovery.gapFrom = some g ∧ g ≤ s := by
    by_cases hcov : r.fromSeq ≤ (coverage r ds).through
    · by_contra hnone
      rw [if_pos ⟨hcov, Nat.lt_of_not_le hno,
        fun g hg => Nat.lt_of_not_le fun hle => hnone ⟨g, hg, hle⟩⟩] at hle
      omega
    · exact ⟨_, hf.gapFrom_of_uncovered hstate (Nat.lt_of_not_le hcov), hfrom⟩
  obtain ⟨g, hg, hgs⟩ := hleft
  have hg' : (h.applyReplay r ds).2.recovery.gapFrom =
      some (RangeRequest.mk g r.through).fromSeq := hg
  obtain ⟨new', hnew', hf'⟩ := applyReplay_again hs hstate hds hg' hds
  have hagain := hf'.answer_subset (mem_answerSeqs.mpr ⟨⟨hgs, hthrough⟩, d, hd, hcover⟩)
  refine hex.fresh ⟨g, r.through⟩ ds hg hds s hfrom hb ?_ (hnew' ▸ hagain)
  exact hnew ▸ hf.answer_subset hmem

theorem OnceInOrder.appliedOnce (honce : OnceInOrder h.recovery.held r ds) :
    AppliedOnce S maxBytes h r ds := by
  obtain ⟨new, hadd, hf⟩ := applyReplay_filled (r := r) hs hstate hds
  have hs₁ := sourced_applyReplay hs hstate hds
  have hnew := appliedSince_eq hadd
  have hcount := fun {s} hfrom hb =>
    hf.count_once hs hr hds hline hstate honce (s := s) hfrom hb
  refine ⟨?_, ?_, ?_, ?_⟩
  · intro s hfrom hb
    rw [hnew, hcount hfrom hb]
    refine ⟨by split <;> omega, fun hnone => if_pos ?_⟩
    rw [hnone]
    exact fun g hg => nomatch hg
  · intro r' ds' hgap hds' s hfrom hb hmem
    obtain ⟨new', hnew', hf'⟩ := applyReplay_again hs hstate hds hgap hds'
    rw [hnew']
    rw [hnew] at hmem
    intro hmem'
    have hpos := List.count_pos_iff.mpr hmem
    rw [hcount hfrom hb] at hpos
    split at hpos
    · rename_i hlt
      exact absurd (hf'.from_le hmem') (Nat.not_le.mpr (hlt _ hgap))
    · omega
  · intro r' ds' hr' hgap hds' honce' s hfrom hb
    obtain ⟨new', hnew', hf'⟩ := applyReplay_again hs hstate hds hgap hds'
    rw [hnew, hnew', List.count_append, hcount hfrom hb]
    by_cases hlt : s < r'.fromSeq
    · -- Below the hole that was left: the first answer's.
      have hnot : s ∉ new' := fun hmem => Nat.not_le.mpr hlt (hf'.from_le hmem)
      rw [if_pos (fun g hg => Option.some.inj (hgap.symm.trans hg) ▸ hlt),
        List.count_eq_zero.mpr hnot]
      exact ⟨Nat.le_refl _, fun _ => rfl⟩
    · have hge := Nat.le_of_not_lt hlt
      have hcount' := hf'.count_once hs₁ hr' hds' (hf.inLine hgap hline) (state_of_gapFrom hgap)
        honce' hge (hf.belowHeld hgap hge hb)
      rw [if_neg (fun hall => hlt (hall _ hgap)), hcount', Nat.zero_add]
      refine ⟨by split <;> omega, fun hnone => if_pos ?_⟩
      rw [hnone]
      exact fun g hg => nomatch hg
  · intro bytes d hfrag hdone s hfrom hb
    have hrec : (h.applyReplay r ds).2.recovery.isRecovering = true := by
      by_contra hno
      rw [FeedHandler.handleSnapshot, if_neg hno] at hdone
      omega
    obtain ⟨g, hg⟩ := (isRecovering_iff hs₁).mp hrec
    have hgap : (h.applyReplay r ds).2.recovery.gapFrom = some g := by
      rw [RecoveryBuffer.gapFrom, hg]
    obtain ⟨hsorted, hreflects⟩ := handleSnapshot_once hs₁ hg (hf.inLine hgap hline) hfrag hdone
    exact ⟨hreflects s (Nat.le_trans hr.pos hfrom) fun hge => hf.belowHeld hgap hge hb, hsorted⟩

/-- **Exactly once**: a message is applied once, across the answer and whatever adoption closes
what is left of the hole, if and only if nothing in the answer below the end of the held traffic
comes twice or past a hole. -/
theorem replay_exactly_once : AppliedOnce S maxBytes h r ds ↔ OnceInOrder h.recovery.held r ds :=
  ⟨fun hex => hex.onceInOrder hs hr hstate hline hds,
    fun honce => honce.appliedOnce hs hr hstate hline hds⟩

end Replay

omit [OrderBook B] in
theorem sourced_run [OrderBook B] (hs : Sourced S maxBytes h) {es : List Event}
    (hes : ∀ e ∈ es, e.Of S maxBytes) : Sourced S maxBytes (h.run es) :=
  (Run.along_of_forall fun _ => hes).invariant (Sourced S maxBytes)
    (fun _ _ hs he => hs.step he) hs

/-- Sequence 2 is lost on both arms, 3 and 4 are held, and 2 to 4 have been asked for. -/
def askedForOne : List Event :=
  [.datagram 0 (heartbeatAt 1), .datagram 0 (heartbeatAt 3), .datagram 0 (heartbeatAt 4), .request]

theorem replay_exactly_once_after_one_gap :
    let h := (FeedHandler.new Books.new 1 4 96).run askedForOne
    h.pendingReplay = some ⟨2, 4⟩ ∧
      AppliedOnce heartbeats 96 h ⟨2, 4⟩ ([2, 3, 4].map heartbeatAt) := by
  have hof : ∀ e ∈ askedForOne, e.Of heartbeats 96 := by
    intro e he
    simp only [askedForOne, List.mem_cons, List.not_mem_nil, or_false] at he
    rcases he with rfl | rfl | rfl | rfl
    · exact of_heartbeatAt 0 (by decide) (by decide)
    · exact of_heartbeatAt 0 (by decide) (by decide)
    · exact of_heartbeatAt 0 (by decide) (by decide)
    · trivial
  have hr : RangeRequest.Proper ⟨2, 4⟩ := ⟨by decide, by decide⟩
  have hds : AnswerOf heartbeats 96 ([2, 3, 4].map heartbeatAt) := answer_of_heartbeats (by decide)
  refine ⟨by decide +kernel, (replay_exactly_once (sourced_run (sourced_new _ _ _ _ _) hof) hr
    (by decide +kernel) (by unfold InLine; decide +kernel) hds).mpr ?_⟩
  intro s hs _
  have hall : ∀ s ∈ answerSeqs ⟨2, 4⟩ ([2, 3, 4].map heartbeatAt),
      (answerSeqs ⟨2, 4⟩ ([2, 3, 4].map heartbeatAt)).count s = 1 ∧
        s ≤ (coverage ⟨2, 4⟩ ([2, 3, 4].map heartbeatAt)).through := by decide +kernel
  exact ⟨(hall s hs).1, (inOrder_iff hr hds (mem_answerSeqs.mp hs).1.1).mpr (hall s hs).2⟩

/-- Sequences 2 to 5 are lost; the answer brings 2, 4 and 5, and the one for the hole it leaves
brings 3 to 7. -/
def holeInAnswer : List Event :=
  [.datagram 0 (heartbeatAt 1), .datagram 0 (heartbeatAt 6), .datagram 0 (heartbeatAt 7), .request,
    .answer ([2, 4, 5].map heartbeatAt), .request, .answer ([3, 4, 5, 6, 7].map heartbeatAt)]

theorem replay_applies_a_message_twice :
    let h := (FeedHandler.new Books.new 1 4 96).run holeInAnswer
    (∀ e ∈ holeInAnswer, e.Of heartbeats 96) ∧ h.recovery.completed = 1 ∧
      h.ledger.seqs = [1, 2, 4, 5, 3, 4, 5, 6, 7] := by
  refine ⟨?_, by decide +kernel, by decide +kernel⟩
  intro e he
  simp only [holeInAnswer, List.mem_cons, List.not_mem_nil, or_false] at he
  rcases he with rfl | rfl | rfl | rfl | rfl | rfl | rfl
  · exact of_heartbeatAt 0 (by decide) (by decide)
  · exact of_heartbeatAt 0 (by decide) (by decide)
  · exact of_heartbeatAt 0 (by decide) (by decide)
  · trivial
  · exact answer_of_heartbeats (by decide)
  · trivial
  · exact answer_of_heartbeats (by decide)

end MarketData.Handler
