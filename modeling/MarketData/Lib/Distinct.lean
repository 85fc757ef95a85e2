import Mathlib.Data.List.Destutter
import Mathlib.Data.List.Sort

/-!
# `Lib/Distinct.lean` — a list without repetitions, found by sorting it

A sort puts equal elements next to each other, so dropping every element that equals the one before
it loses nothing just where no element occurs twice.

`sort` and `dedup` together are the usual way to count distinct elements without a set, and a
program that uses it compares a length. That comparison is the subject: `sortDedup` is the two
calls, over any linear order, and `length_sortDedup_iff` says what it means for the length to be
unchanged. That the list is also a list of the distinct elements, in order, is not needed by anyone
and not stated.
-/

set_option autoImplicit false

namespace MarketData.Distinct

variable {α : Type} [LinearOrder α]

/-- `sort` and `dedup`. -/
def sortDedup (xs : List α) : List α := (xs.mergeSort (· ≤ ·)).destutter (· ≠ ·)

theorem pairwise_lt_of_chain {xs : List α} (hsorted : xs.Pairwise (· ≤ ·))
    (hchain : xs.IsChain (· ≠ ·)) : xs.Pairwise (· < ·) := by
  induction xs with
  | nil => exact .nil
  | cons x xs ih =>
    rw [List.pairwise_cons] at hsorted ⊢
    refine ⟨fun y hy => ?_, ih hsorted.2 hchain.tail⟩
    cases xs with
    | nil => cases hy
    | cons z xs =>
      rw [List.isChain_cons_cons] at hchain
      have hfirst : x < z := lt_of_le_of_ne (hsorted.1 z List.mem_cons_self) hchain.1
      rcases List.mem_cons.mp hy with rfl | hy
      · exact hfirst
      · exact hfirst.trans_le ((List.pairwise_cons.mp hsorted.2).1 y hy)

/-- **Nothing is lost just where nothing occurs twice.** -/
theorem length_sortDedup_iff (xs : List α) : (sortDedup xs).length = xs.length ↔ xs.Nodup := by
  have hperm := xs.mergeSort_perm (· ≤ ·)
  have hsorted : (xs.mergeSort (· ≤ ·)).Pairwise (· ≤ ·) := by
    have h : (xs.mergeSort (· ≤ ·)).Pairwise fun a b => decide (a ≤ b) = true :=
      List.pairwise_mergeSort (fun a b c => by simpa using le_trans)
        (fun a b => by simpa using le_total a b) xs
    simpa using h
  unfold sortDedup
  rw [← hperm.nodup_iff, ← hperm.length_eq]
  constructor
  · intro hlen
    have hsame := (List.destutter_sublist (· ≠ ·) _).eq_of_length hlen
    rw [List.destutter_eq_self_iff] at hsame
    exact (pairwise_lt_of_chain hsorted hsame).imp fun h => h.ne
  · intro hnodup
    rw [List.destutter_of_isChain _ _ hnodup.isChain]

end MarketData.Distinct
