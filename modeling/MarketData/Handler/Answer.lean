import Mathlib.Data.List.Induction
import MarketData.Handler.Inversion

/-!
# `Handler/Answer.lean` — how much of an answer counts

`apply_replay` applies every datagram of an answer and, next to that, follows how far the answer
reaches from the start of the range without a break. The first is `answerSeqs`, the second
`coverage`; nothing in the code holds the one against the other. `InOrder` says what it means
for a message to come before the break, in terms of the datagrams alone, and an answer is
`Unbroken` when every message it carries does and none comes twice. What such an answer applies
is then one run from the start of the range to the coverage (`Unbroken.answerSeqs_eq`).

## Why `InOrder` is not defined by the coverage

The coverage is a fold: each datagram either continues it or ends it for good. A statement about
answers that says "up to the coverage" would be about that fold, and would hold of any fold put in
its place. `InOrder` asks instead whether some datagram of the answer carries the message, and
whether every datagram up to it starts no later than the ones before it end. `inOrder_iff` then
proves that **the fold computes exactly that**, for every list of datagrams, also with gaps,
repetitions and datagrams that lie outside of the range.

Nothing is assumed of the service that answered. That its answers are contiguous copies of the
stream is a property of the replay service (`Replay/Service.lean`), and of the network in between.
-/

set_option autoImplicit false

namespace MarketData.Handler

open MarketData.Wire MarketData.Tiling
open FeedHandler (coverage Coverage)

variable {S : Publication} {maxBytes : Nat} {r : RangeRequest} {ds : List Buf}

/-- A request the loop can send: it starts at a sequence and is not empty. -/
structure RangeRequest.Proper (r : RangeRequest) : Prop where
  pos : 1 ≤ r.fromSeq
  le : r.fromSeq ≤ r.through

/-- No datagram leaves a hole behind it: what it skips of the range, the ones before carry. -/
def Joined (r : RangeRequest) (ds : List Buf) : Prop :=
  ∀ l d, l ++ [d] <+: ds → ∀ t, r.fromSeq ≤ t → t < (span d).1 → t ∈ answerSeqs r l

/-- The answer carries the message before it leaves a hole. -/
def InOrder (r : RangeRequest) (ds : List Buf) (s : Nat) : Prop :=
  ∃ p, p <+: ds ∧ Joined r p ∧ s ∈ answerSeqs r p

/-- Every message of the range comes once, and before any hole. -/
structure Unbroken (r : RangeRequest) (ds : List Buf) : Prop where
  nodup : (answerSeqs r ds).Nodup
  ordered : ∀ s ∈ answerSeqs r ds, InOrder r ds s

theorem AnswerOf.left {l : List Buf} (h : AnswerOf S maxBytes (ds ++ l)) : AnswerOf S maxBytes ds :=
  fun d hd => h d (List.mem_append_left _ hd)

theorem AnswerOf.last {d : Buf} (h : AnswerOf S maxBytes (ds ++ [d])) :
    ∃ first count, S.Copy maxBytes d first count :=
  h d (List.mem_append_right _ List.mem_cons_self)

theorem coverage_concat (r : RangeRequest) (ds : List Buf) (d : Buf) :
    coverage r (ds ++ [d]) = (coverage r ds).extend r d := by
  simp [coverage]

theorem answerSeqs_concat (r : RangeRequest) (ds : List Buf) (d : Buf) :
    answerSeqs r (ds ++ [d]) =
      answerSeqs r ds ++ seqsIn (span d).1 ((span d).2 - (span d).1) r.fromSeq r.through := by
  simp [answerSeqs]

theorem answerSeqs_concat_copy {d : Buf} {first count : Nat} (hd : S.Copy maxBytes d first count) :
    answerSeqs r (ds ++ [d]) = answerSeqs r ds ++ seqsIn first count r.fromSeq r.through := by
  rw [answerSeqs_concat, hd.span_eq, Nat.add_sub_cancel_left]

theorem Joined.of_prefix {p : List Buf} (h : Joined r ds) (hp : p <+: ds) : Joined r p :=
  fun l d hl => h l d (hl.trans hp)

/-! ## What reading one more datagram does -/

/-- A datagram either goes on where the coverage ends, or ends the contiguous part. -/
inductive Extended (r : RangeRequest) (c : Coverage) (first count : Nat) : Coverage → Prop
  | onward (hcont : c.contiguous = true) (hfirst : first ≤ c.through + 1) :
      Extended r c first count
        { c with through := min (max c.through (first + count - 1)) r.through }
  | broken (hbreak : c.contiguous = true → c.through + 1 < first) :
      Extended r c first count { c with contiguous := false }

theorem extended_copy {d : Buf} {first count : Nat} (hd : S.Copy maxBytes d first count)
    (c : Coverage) : Extended r c first count (c.extend r d) := by
  rw [coverage_extend_copy hd]
  split
  · rename_i hcond
    simp only [Bool.and_eq_true, decide_eq_true_eq] at hcond
    exact .onward hcond.1 hcond.2
  · rename_i hcond
    refine .broken fun hcont => ?_
    simp only [hcont, Bool.true_and, decide_eq_true_eq] at hcond
    exact Nat.lt_of_not_le hcond

/-- The coverage stays between the ends of the request. -/
theorem coverage_bounds (hr : r.Proper) (hds : AnswerOf S maxBytes ds) :
    r.fromSeq - 1 ≤ (coverage r ds).through ∧ (coverage r ds).through ≤ r.through := by
  induction ds using List.reverseRecOn with
  | nil => exact ⟨Nat.le_refl _, Nat.le_trans (Nat.sub_le _ _) hr.le⟩
  | append_singleton ds d ih =>
    obtain ⟨hlo, hhi⟩ := ih hds.left
    obtain ⟨first, count, hd⟩ := hds.last
    have hle := hr.le
    have hext := extended_copy hd (r := r) (coverage r ds)
    rw [coverage_concat]
    generalize (coverage r ds).extend r d = c at hext
    cases hext with
    | onward => exact ⟨by dsimp only; omega, Nat.min_le_right _ _⟩
    | broken => exact ⟨hlo, hhi⟩

theorem coverage_mono (hr : r.Proper) (hds : AnswerOf S maxBytes ds) {p : List Buf}
    (hp : p <+: ds) : (coverage r p).through ≤ (coverage r ds).through := by
  induction ds using List.reverseRecOn with
  | nil => rw [List.prefix_nil.mp hp]
  | append_singleton ds d ih =>
    rcases List.prefix_concat_iff.mp hp with rfl | hp
    · exact Nat.le_refl _
    · obtain ⟨first, count, hd⟩ := hds.last
      have hbounds := coverage_bounds hr hds.left
      have hext := extended_copy hd (r := r) (coverage r ds)
      refine Nat.le_trans (ih hds.left hp) ?_
      rw [coverage_concat]
      generalize (coverage r ds).extend r d = c at hext
      cases hext with
      | onward =>
        dsimp only
        omega
      | broken => exact Nat.le_refl _

/-! ## The coverage is how far the answer is in order -/

theorem Joined.covered (hr : r.Proper) (hds : AnswerOf S maxBytes ds) (hj : Joined r ds) :
    (coverage r ds).contiguous = true ∧ ∀ s ∈ answerSeqs r ds, s ≤ (coverage r ds).through := by
  induction ds using List.reverseRecOn with
  | nil => exact ⟨rfl, fun s hs => (nomatch hs)⟩
  | append_singleton ds d ih =>
    obtain ⟨hcont, hle⟩ := ih hds.left (hj.of_prefix (List.prefix_append ..))
    obtain ⟨first, count, hd⟩ := hds.last
    have hbounds := coverage_bounds hr hds.left
    have hfirst : first ≤ (coverage r ds).through + 1 := by
      by_contra hno
      have hskip := hj ds d (List.prefix_refl _) ((coverage r ds).through + 1)
        (by have := hr.pos; omega) (by rw [hd.span_eq]; exact Nat.lt_of_not_le hno)
      have := hle _ hskip
      omega
    rw [coverage_concat, coverage_extend_copy hd, if_pos (by simp [hcont, hfirst])]
    refine ⟨hcont, fun s hs => ?_⟩
    rw [answerSeqs_concat_copy hd, List.mem_append, mem_seqsIn] at hs
    dsimp only
    rcases hs with hs | hs
    · have := hle s hs
      have := (mem_answerSeqs.mp hs).1
      omega
    · omega

theorem joined_of_contiguous (hr : r.Proper) (hds : AnswerOf S maxBytes ds)
    (hcont : (coverage r ds).contiguous = true) : Joined r ds := by
  induction ds using List.reverseRecOn with
  | nil =>
    intro l d hl
    exact absurd (List.prefix_nil.mp hl) (by simp)
  | append_singleton ds d ih =>
    obtain ⟨first, count, hd⟩ := hds.last
    have hext := extended_copy hd (r := r) (coverage r ds)
    rw [coverage_concat] at hcont
    generalize (coverage r ds).extend r d = c at hext hcont
    cases hext with
    | broken => exact absurd hcont (by simp)
    | onward hbefore hfirst =>
      intro l x hl t hfrom hlt
      rcases List.prefix_concat_iff.mp hl with heq | hl
      · obtain ⟨rfl, hx⟩ := List.append_inj' heq rfl
        obtain rfl := List.singleton_inj.mp hx
        rw [hd.span_eq] at hlt
        exact mem_answerSeqs_of_covered hds.left hfrom (Nat.le_trans hr.pos hfrom) (by
          dsimp only at hlt
          omega)
      · exact ih hds.left hbefore l x hl t hfrom hlt

/-- **The coverage, declaratively**: a message is covered exactly when it comes before any hole. -/
theorem inOrder_iff (hr : r.Proper) (hds : AnswerOf S maxBytes ds) {s : Nat}
    (hfrom : r.fromSeq ≤ s) : InOrder r ds s ↔ s ≤ (coverage r ds).through := by
  constructor
  · rintro ⟨p, hp, hj, hs⟩
    have hof : AnswerOf S maxBytes p := fun d hd => hds d (hp.subset hd)
    exact Nat.le_trans ((hj.covered hr hof).2 s hs) (coverage_mono hr hds hp)
  · intro hle
    induction ds using List.reverseRecOn with
    | nil =>
      have := hr.pos
      have hle' : s ≤ r.fromSeq - 1 := hle
      omega
    | append_singleton ds d ih =>
      have hprefix := List.prefix_append ds [d]
      by_cases hbefore : s ≤ (coverage r ds).through
      · obtain ⟨p, hp, hrest⟩ := ih hds.left hbefore
        exact ⟨p, hp.trans hprefix, hrest⟩
      · -- The coverage moved, so everything up to this datagram is joined.
        obtain ⟨first, count, hd⟩ := hds.last
        refine ⟨ds ++ [d], List.prefix_refl _, ?_, ?_⟩
        · refine joined_of_contiguous hr hds ?_
          have hext := extended_copy hd (r := r) (coverage r ds)
          rw [coverage_concat] at hle ⊢
          generalize (coverage r ds).extend r d = c at hext hle
          cases hext with
          | onward hcont => exact hcont
          | broken => exact absurd hle hbefore
        · exact mem_answerSeqs_of_covered hds hfrom (Nat.le_trans hr.pos hfrom) hle

theorem Unbroken.le_coverage (hr : r.Proper) (hds : AnswerOf S maxBytes ds) (h : Unbroken r ds)
    {s : Nat} (hs : s ∈ answerSeqs r ds) : s ≤ (coverage r ds).through :=
  (inOrder_iff hr hds (mem_answerSeqs.mp hs).1.1).mp (h.ordered s hs)

/-- What comes once and below the coverage comes in one run. -/
theorem answerSeqs_eq_range' (hr : r.Proper) (hds : AnswerOf S maxBytes ds)
    (hnodup : (answerSeqs r ds).Nodup)
    (hle : ∀ s ∈ answerSeqs r ds, s ≤ (coverage r ds).through) :
    answerSeqs r ds = List.range' r.fromSeq ((coverage r ds).through + 1 - r.fromSeq) := by
  induction ds using List.reverseRecOn with
  | nil =>
    have hnone : r.fromSeq - 1 + 1 - r.fromSeq = 0 := by
      have := hr.pos
      omega
    show [] = List.range' r.fromSeq (r.fromSeq - 1 + 1 - r.fromSeq)
    rw [hnone]
    rfl
  | append_singleton ds d ih =>
    obtain ⟨first, count, hd⟩ := hds.last
    have hbounds := coverage_bounds hr hds.left
    have hpos := hr.pos
    rw [answerSeqs_concat_copy hd] at hnodup hle ⊢
    obtain ⟨hnodup', -, hdisjoint⟩ := List.nodup_append.mp hnodup
    have hcovered : ∀ s, r.fromSeq ≤ s → s ≤ (coverage r ds).through → s ∈ answerSeqs r ds :=
      fun s hfrom hs => mem_answerSeqs_of_covered hds.left hfrom (Nat.le_trans hpos hfrom) hs
    have hnew : ∀ s ∈ seqsIn first count r.fromSeq r.through, (coverage r ds).through < s := by
      intro s hs
      by_contra hno
      exact hdisjoint s (hcovered s (mem_seqsIn.mp hs).2.1 (Nat.le_of_not_lt hno)) s hs rfl
    have hext := extended_copy hd (r := r) (coverage r ds)
    rw [coverage_concat] at hle ⊢
    generalize (coverage r ds).extend r d = c at hext hle
    cases hext with
    | onward hcont hfirst =>
      have hjoined := (joined_of_contiguous hr hds.left hcont).covered hr hds.left
      have hsplit := RecoveryBuffer.range'_split r.fromSeq ((coverage r ds).through + 1)
        (min (max (coverage r ds).through (first + count - 1)) r.through + 1) (by omega) (by omega)
      rw [ih hds.left hnodup' hjoined.2, hsplit]
      congr 1
      refine List.Pairwise.eq_of_mem_iff (seqsIn_sorted ..) List.pairwise_lt_range' fun s => ?_
      rw [List.mem_range'_1]
      constructor
      · intro hs
        have hlt := hnew s hs
        rw [mem_seqsIn] at hs
        omega
      · intro hs
        rw [mem_seqsIn]
        omega
    | broken hbreak =>
      -- Nothing behind the break is carried, or it would be above the coverage.
      have hnone : seqsIn first count r.fromSeq r.through = [] := by
        refine List.eq_nil_iff_forall_not_mem.mpr fun s hs => ?_
        have hlt := hnew s hs
        have := hle s (List.mem_append_right _ hs)
        dsimp only at this
        omega
      rw [hnone, List.append_nil]
      exact ih hds.left hnodup' fun s hs => hle s (List.mem_append_left _ hs)

/-- **An unbroken answer is one run**, from the start of the range to the coverage. -/
theorem Unbroken.answerSeqs_eq (hr : r.Proper) (hds : AnswerOf S maxBytes ds)
    (h : Unbroken r ds) :
    answerSeqs r ds = List.range' r.fromSeq ((coverage r ds).through + 1 - r.fromSeq) :=
  answerSeqs_eq_range' hr hds h.nodup fun _ hs => h.le_coverage hr hds hs

end MarketData.Handler
