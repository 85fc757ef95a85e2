import Mathlib.Data.List.Basic

/-!
# `Lib/Batch.lean` — a walk over a range that batches what it passes over

A loop goes through the numbers of a range in order. Some it deals with one by one; the others it
passes over, and deals with a whole stretch of them at once, when the next number that is kept comes
up or the range ends. `pieces` is what it deals with, in order. Two facts say all there is to say
about it: the pieces together are the range, and a stretch is a piece just if it is maximal.

## The stretch that is open

Such a loop keeps one thing from turn to turn, where the open stretch began, if one is open. The
lemmas are stated with it as a parameter, and with what the stretch has passed over so far, because
**neither fact is inductive without it**: the walk from the middle of a range starts with a debt.
With no stretch open they are the facts about a whole range.

Which numbers are kept is any function. Nothing is assumed of it, and it is asked once for each
number, so a loop whose choice depends on what it did before is no instance.
-/

set_option autoImplicit false

namespace MarketData.Batch

inductive Piece where
  | one (n : Nat)
  /-- The numbers from `start` up to, but not including, `stop`. -/
  | run (start stop : Nat)
  deriving DecidableEq, Repr

def Piece.numbers : Piece → List Nat
  | .one n => [n]
  | .run start stop => List.range' start (stop - start)

/-- The stretch that is open when the walk comes to `n`. -/
def close (gap : Option Nat) (n : Nat) : List Piece := (gap.map fun g => .run g n).toList

/-- The walk over the `k` numbers from `n` on; `gap` is where the open stretch began. -/
def pieces (keep : Nat → Bool) : Option Nat → Nat → Nat → List Piece
  | gap, n, 0 => close gap n
  | gap, n, k + 1 =>
    if keep n then close gap n ++ .one n :: pieces keep none (n + 1) k
    else pieces keep (some (gap.getD n)) (n + 1) k

/-- Everything from `start` up to `stop` is passed over, and nothing next to it within the range. -/
structure Maximal (keep : Nat → Bool) (low high start stop : Nat) : Prop where
  low_le : low ≤ start
  lt : start < stop
  le_high : stop ≤ high
  passed : ∀ m, start ≤ m → m < stop → keep m = false
  left : start = low ∨ keep (start - 1) = true
  right : stop = high ∨ keep stop = true

variable {keep : Nat → Bool} {gap : Option Nat} {n k : Nat}

theorem numbers_close (hgap : ∀ g, gap = some g → g ≤ n) :
    (close gap n).flatMap Piece.numbers = List.range' (gap.getD n) (n - gap.getD n) := by
  cases gap with
  | none => simp [close]
  | some g => simp [close, Piece.numbers]

/-- **The pieces are the range**, in order and each number once. -/
theorem numbers_pieces (hgap : ∀ g, gap = some g → g ≤ n) :
    (pieces keep gap n k).flatMap Piece.numbers =
      List.range' (gap.getD n) (n + k - gap.getD n) := by
  have hle : gap.getD n ≤ n := by
    cases gap with
    | none => exact Nat.le_refl n
    | some g => exact hgap g rfl
  induction k generalizing gap n with
  | zero => exact numbers_close hgap
  | succ k ih =>
    unfold pieces
    split
    · have hrest : (pieces keep none (n + 1) k).flatMap Piece.numbers =
          List.range' (n + 1) (n + 1 + k - (n + 1)) := ih nofun (Nat.le_refl _)
      rw [List.flatMap_append, List.flatMap_cons, numbers_close hgap, hrest]
      have hsplit : n + (k + 1) - gap.getD n = (n - gap.getD n) + (k + 1) := by omega
      rw [hsplit, ← List.range'_append_1, Nat.add_sub_cancel' hle, List.range'_succ]
      simp [Piece.numbers]
    · have hgap' : ∀ g, some (gap.getD n) = some g → g ≤ n + 1 := by
        intro g hg
        cases hg
        exact Nat.le_succ_of_le hle
      rw [ih hgap' (Nat.le_succ_of_le hle)]
      show List.range' (gap.getD n) (n + 1 + k - gap.getD n) = _
      congr 1
      omega

theorem one_mem_close {m : Nat} : Piece.one m ∉ close gap n := by
  cases gap <;> simp [close]

theorem one_mem_pieces {m : Nat} :
    Piece.one m ∈ pieces keep gap n k ↔ n ≤ m ∧ m < n + k ∧ keep m = true := by
  induction k generalizing gap n with
  | zero =>
    refine iff_of_false one_mem_close ?_
    omega
  | succ k ih =>
    unfold pieces
    split
    · rename_i hkeep
      simp only [List.mem_append, one_mem_close, false_or, List.mem_cons, ih, Piece.one.injEq]
      constructor
      · rintro (rfl | ⟨hlo, hhi, h⟩)
        · exact ⟨Nat.le_refl _, by omega, hkeep⟩
        · exact ⟨by omega, by omega, h⟩
      · rintro ⟨hlo, hhi, h⟩
        rcases Nat.eq_or_lt_of_le hlo with rfl | hlt
        · exact .inl rfl
        · exact .inr ⟨hlt, by omega, h⟩
    · rename_i hkeep
      rw [ih]
      constructor
      · rintro ⟨hlo, hhi, h⟩
        exact ⟨by omega, by omega, h⟩
      · rintro ⟨hlo, hhi, h⟩
        have hne : n ≠ m := by
          rintro rfl
          exact hkeep h
        exact ⟨by omega, by omega, h⟩

/-- A kept number parts the stretches before it from those after it. -/
theorem maximal_iff_of_keep {low a b : Nat} (hlow : low ≤ n)
    (hpassed : ∀ m, low ≤ m → m < n → keep m = false) (hkeep : keep n = true) :
    Maximal keep low (n + (k + 1)) a b ↔
      (low < n ∧ a = low ∧ b = n) ∨ Maximal keep (n + 1) (n + 1 + k) a b := by
  constructor
  · intro h
    have hlt := h.lt
    by_cases hb : b ≤ n
    · left
      have ha : a = low := by
        rcases h.left with heq | hleft
        · exact heq
        · by_contra hne
          have hlo := h.low_le
          rw [hpassed (a - 1) (by omega) (by omega)] at hleft
          cases hleft
      refine ⟨by omega, ha, ?_⟩
      rcases h.right with heq | hright
      · omega
      · by_contra hne
        rw [hpassed b (by omega) (by omega)] at hright
        cases hright
    · right
      have ha : n < a := by
        by_contra hle
        rw [h.passed n (by omega) (by omega)] at hkeep
        cases hkeep
      refine ⟨ha, hlt, by have := h.le_high; omega, h.passed, ?_, ?_⟩
      · rcases h.left with heq | hleft
        · omega
        · exact .inr hleft
      · rcases h.right with heq | hright
        · exact .inl (by omega)
        · exact .inr hright
  · rintro (⟨hlt, rfl, rfl⟩ | h)
    · exact ⟨Nat.le_refl _, hlt, by omega, hpassed, .inl rfl, .inr hkeep⟩
    · have hlo := h.low_le
      refine ⟨by omega, h.lt, by have := h.le_high; omega, h.passed, ?_, ?_⟩
      · rcases h.left with heq | hleft
        · refine .inr ?_
          rw [heq]
          exact hkeep
        · exact .inr hleft
      · rcases h.right with heq | hright
        · exact .inl (by omega)
        · exact .inr hright

theorem run_mem_close {a b : Nat} (hgap : ∀ g, gap = some g → g < n) :
    Piece.run a b ∈ close gap n ↔ gap.getD n < n ∧ a = gap.getD n ∧ b = n := by
  cases gap with
  | none => simp [close]
  | some g => simp [close, hgap g rfl]

/-- **A stretch is a piece just if it is maximal.** -/
theorem run_mem_pieces {a b : Nat} (hgap : ∀ g, gap = some g → g < n)
    (hpassed : ∀ m, gap.getD n ≤ m → m < n → keep m = false) :
    Piece.run a b ∈ pieces keep gap n k ↔ Maximal keep (gap.getD n) (n + k) a b := by
  have hle : gap.getD n ≤ n := by
    cases gap with
    | none => exact Nat.le_refl n
    | some g => exact Nat.le_of_lt (hgap g rfl)
  induction k generalizing gap n with
  | zero =>
    rw [pieces, run_mem_close hgap]
    constructor
    · rintro ⟨hlt, rfl, rfl⟩
      exact ⟨Nat.le_refl _, hlt, Nat.le_refl _, hpassed, .inl rfl, .inl rfl⟩
    · intro h
      have hlo := h.low_le
      have hlt := h.lt
      have hhi := h.le_high
      refine ⟨by omega, ?_, ?_⟩
      · rcases h.left with heq | hleft
        · exact heq
        · by_contra hne
          rw [hpassed (a - 1) (by omega) (by omega)] at hleft
          cases hleft
      · rcases h.right with heq | hright
        · exact heq
        · by_contra hne
          rw [hpassed b (by omega) (by omega)] at hright
          cases hright
  | succ k ih =>
    rw [pieces]
    split
    · rename_i hkeep
      have hrest : Piece.run a b ∈ pieces keep none (n + 1) k ↔
          Maximal keep (n + 1) (n + 1 + k) a b := by
        refine ih nofun (fun m hlo hhi => ?_) (Nat.le_refl _)
        replace hlo : n + 1 ≤ m := hlo
        omega
      rw [maximal_iff_of_keep hle hpassed hkeep, List.mem_append, List.mem_cons,
        run_mem_close hgap, hrest]
      simp
    · rename_i hkeep
      have hkeep : keep n = false := by simpa using hkeep
      have hmore : ∀ m, gap.getD n ≤ m → m < n + 1 → keep m = false := by
        intro m hlo hhi
        rcases Nat.lt_or_eq_of_le (Nat.le_of_lt_succ hhi) with hlt | rfl
        · exact hpassed m hlo hlt
        · exact hkeep
      have hrest : Piece.run a b ∈ pieces keep (some (gap.getD n)) (n + 1) k ↔
          Maximal keep (gap.getD n) (n + 1 + k) a b := by
        refine ih (fun g hg => ?_) hmore (Nat.le_succ_of_le hle)
        cases hg
        exact Nat.lt_succ_of_le hle
      rw [hrest, Nat.add_assoc, Nat.add_comm 1 k]

end MarketData.Batch
