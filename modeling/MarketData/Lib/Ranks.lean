import Mathlib.Algebra.GroupWithZero.Nat
import Mathlib.Data.List.Sort
import Mathlib.Order.Monotone.Basic

/-!
# `Lib/Ranks.lean` — the `r`-th smallest of a list, from counts alone

Counting how many elements of a list fall in each slot of a monotone numbering loses the elements
and keeps their ranks: the slot in which the running total of the counts reaches `r` is the slot of
the `r`-th smallest element (`slot_of_rank`).

Ranks are counted from one. An element has rank `r` if fewer than `r` elements are below it and at
least `r` are not above it (`HasRank`), which is a property that counts can be held against; the
`r`-th smallest of the sorted list has it (`nth`), and between two elements of the same rank there
is no third. Repetitions are allowed, and are what the two inequalities are for. Nothing is said
about how wide a slot is: that is the numbering's affair.
-/

set_option autoImplicit false

namespace MarketData.Ranks

variable {α : Type*} [LinearOrder α]

/-- The `r`-th smallest element, counted from one. -/
def nth (xs : List α) (r : Nat) : Option α := (xs.mergeSort (· ≤ ·))[r - 1]?

/-- `s` has rank `r`: fewer than `r` elements are below it, and `r` at least are not above. -/
structure HasRank (xs : List α) (r : Nat) (s : α) : Prop where
  below : xs.countP (· < s) < r
  upTo : r ≤ xs.countP (· ≤ s)

/-- In a sorted list the place is the rank. -/
theorem hasRank_of_sorted {l m : List α} {s : α} (h : (l ++ s :: m).Pairwise (· ≤ ·)) :
    HasRank (l ++ s :: m) (l.length + 1) s := by
  obtain ⟨-, hm, hl⟩ := List.pairwise_append.mp h
  obtain ⟨hm, -⟩ := List.pairwise_cons.mp hm
  have hbelow : (s :: m).countP (· < s) = 0 := by
    refine List.countP_eq_zero.mpr fun x hx => ?_
    rcases List.mem_cons.mp hx with rfl | hx
    · simp
    · simpa using hm x hx
  have hupTo : l.countP (· ≤ s) = l.length := by
    refine List.countP_eq_length.mpr fun x hx => ?_
    simpa using hl x hx s (List.mem_cons_self ..)
  constructor
  · rw [List.countP_append, hbelow, Nat.add_zero]
    exact Nat.lt_succ_of_le List.countP_le_length
  · rw [List.countP_append, hupTo, List.countP_cons, if_pos (by simp)]
    omega

theorem nth_hasRank {xs : List α} {r : Nat} (hpos : 1 ≤ r) (hr : r ≤ xs.length) :
    ∃ s, nth xs r = some s ∧ HasRank xs r s := by
  have hperm := List.mergeSort_perm xs (· ≤ ·)
  have hsorted := List.pairwise_mergeSort' (· ≤ ·) xs
  have hlt : r - 1 < (xs.mergeSort (· ≤ ·)).length := by
    rw [List.length_mergeSort]
    omega
  refine ⟨_, List.getElem?_eq_getElem hlt, ?_⟩
  have hsplit : xs.mergeSort (· ≤ ·) = (xs.mergeSort (· ≤ ·)).take (r - 1) ++
      (xs.mergeSort (· ≤ ·))[r - 1] :: (xs.mergeSort (· ≤ ·)).drop (r - 1 + 1) := by
    rw [← List.drop_eq_getElem_cons hlt, List.take_append_drop]
  have hlen : ((xs.mergeSort (· ≤ ·)).take (r - 1)).length + 1 = r := by
    rw [List.length_take]
    omega
  have hrank := hasRank_of_sorted (hsplit ▸ hsorted)
  rw [← hsplit, hlen] at hrank
  exact ⟨by rw [← hperm.countP_eq]; exact hrank.below, by rw [← hperm.countP_eq]; exact hrank.upTo⟩

theorem mem_of_nth {xs : List α} {r : Nat} {s : α} (h : nth xs r = some s) : s ∈ xs :=
  List.mem_mergeSort.mp (List.mem_of_getElem? h)

/-- Leaving out elements above all that are kept leaves the ranks of those. -/
theorem HasRank.filter {xs : List α} {r : Nat} {s top : α} (h : HasRank xs r s)
    (hr : r ≤ (xs.filter (· ≤ top)).length) :
    s ≤ top ∧ HasRank (xs.filter (· ≤ top)) r s := by
  have htop : s ≤ top := by
    by_contra hlt
    have hall : (xs.filter (· ≤ top)).length ≤ xs.countP (· < s) := by
      rw [← List.countP_eq_length_filter]
      refine List.countP_mono_left fun x _ hx => ?_
      simp only [decide_eq_true_eq] at hx ⊢
      exact lt_of_le_of_lt hx (not_le.mp hlt)
    exact absurd h.below (by omega)
  refine ⟨htop, ?_, ?_⟩
  · rw [List.countP_filter]
    refine Nat.lt_of_le_of_lt (List.countP_mono_left fun x _ hx => ?_) h.below
    exact (Bool.and_eq_true _ _ ▸ hx).1
  · rw [List.countP_filter]
    refine Nat.le_trans h.upTo (List.countP_mono_left fun x _ hx => ?_)
    simp only [decide_eq_true_eq, Bool.and_eq_true] at hx ⊢
    exact ⟨hx, le_trans hx htop⟩

section Slots

variable {f : α → Nat} (hf : Monotone f) {xs : List α}
include hf

/-- **Ranks go by slots**: the slot that takes the running count to `r` is that of the `r`-th
smallest. -/
theorem slot_of_rank {r j : Nat} {s : α} (hs : HasRank xs r s)
    (hbelow : xs.countP (f · < j) < r) (hupTo : r ≤ xs.countP (f · < j + 1)) : f s = j := by
  refine le_antisymm ?_ ?_
  · -- Else what is in slot `j` or below is below `s`.
    by_contra hlt
    have hall : xs.countP (f · < j + 1) ≤ xs.countP (· < s) := by
      refine List.countP_mono_left fun x _ hx => ?_
      simp only [decide_eq_true_eq] at hx ⊢
      by_contra hle
      have hle := hf (not_lt.mp hle)
      omega
    exact absurd hs.below (by omega)
  · -- Else what is not above `s` is below slot `j`.
    by_contra hlt
    have hall : xs.countP (· ≤ s) ≤ xs.countP (f · < j) := by
      refine List.countP_mono_left fun x _ hx => ?_
      simp only [decide_eq_true_eq] at hx ⊢
      have hle := hf hx
      omega
    exact absurd hs.upTo (by omega)

end Slots

section Counts

variable {β : Type*} (f : β → Nat) (xs : List β)

theorem countP_lt_succ (n : Nat) :
    xs.countP (f · < n + 1) = xs.countP (f · < n) + xs.countP (f · = n) := by
  induction xs with
  | nil => rfl
  | cons x xs ih =>
    simp only [List.countP_cons, decide_eq_true_eq, ih]
    have hx : (if f x < n + 1 then 1 else 0)
        = (if f x < n then 1 else 0) + (if f x = n then 1 else 0) := by
      split <;> split <;> split <;> omega
    omega

/-- The counts of the slots below `n` add up to how many elements those slots have. -/
theorem sum_counts (n : Nat) :
    ((List.range n).map fun i => xs.countP (f · = i)).sum = xs.countP (f · < n) := by
  induction n with
  | zero => simp
  | succ n ih =>
    rw [List.range_succ, List.map_append, List.sum_append, ih, countP_lt_succ]
    simp

/-- One more element counts once, in its own slot. -/
theorem modify_counts (n : Nat) (x : β) :
    ((List.range n).map fun i => xs.countP (f · = i)).modify (f x) (· + 1)
      = (List.range n).map fun i => (xs ++ [x]).countP (f · = i) := by
  refine List.ext_getElem (by simp) fun i hi hi' => ?_
  rw [List.getElem_modify]
  simp only [List.getElem_map, List.getElem_range, List.countP_append, List.countP_singleton,
    decide_eq_true_eq]
  split <;> rfl

/-- The counts of two lists add up to those of both. -/
theorem add_counts (ys : List β) (n : Nat) :
    List.zipWith (· + ·) ((List.range n).map fun i => xs.countP (f · = i))
        ((List.range n).map fun i => ys.countP (f · = i))
      = (List.range n).map fun i => (xs ++ ys).countP (f · = i) := by
  simp [List.zipWith_map, List.zipWith_self]

end Counts

end MarketData.Ranks
