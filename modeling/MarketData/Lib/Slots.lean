import Mathlib.Data.List.Perm.Basic

/-!
# `Lib/Slots.lean` — a fixed array of slots as a bag of occupied ones

A bounded buffer is often an array whose entries carry an *occupied* mark: storing marks the
first free entry, releasing unmarks one. What such a buffer holds is the list of its occupied
entries, and the order of the array is an accident. The two lemmas here say what a single entry
update does to that list, up to permutation; the rest reads `findIdx?` as a search of it.

Up to permutation is the right grain: which slot an item is in can be seen by the code that searches
the array and by nobody else, and a statement with the list in array order would change with every
release. The mark is any decidable predicate on entries, so an entry may keep stale contents while
it is free.
-/

set_option autoImplicit false

namespace MarketData.Slots

variable {α : Type*} {p : α → Bool} {f : α → α}

/-- Marking a free entry adds it to the bag. -/
theorem filter_modify_perm_cons : ∀ {l : List α} {i : Nat} (hi : i < l.length),
    p l[i] = false → p (f l[i]) = true →
      ((l.modify i f).filter p).Perm (f l[i] :: l.filter p) := by
  intro l
  induction l with
  | nil => intro i hi; exact absurd hi (by simp)
  | cons x l ih =>
    intro i hi hfree hocc
    cases i with
    | zero =>
      have hx : p x = false := hfree
      have hfx : p (f x) = true := hocc
      simp [List.modify_zero_cons, hx, hfx]
    | succ i =>
      have hi' : i < l.length := by simpa using hi
      have hrec := ih hi' hfree hocc
      simp only [List.modify_succ_cons, List.filter_cons, List.getElem_cons_succ]
      by_cases hx : p x = true
      · rw [if_pos hx, if_pos hx]
        exact (hrec.cons x).trans (List.Perm.swap ..)
      · rw [if_neg hx, if_neg hx]
        exact hrec

/-- Unmarking an occupied entry takes it out of the bag. -/
theorem filter_perm_cons_modify : ∀ {l : List α} {i : Nat} (hi : i < l.length),
    p l[i] = true → p (f l[i]) = false →
      (l.filter p).Perm (l[i] :: (l.modify i f).filter p) := by
  intro l
  induction l with
  | nil => intro i hi; exact absurd hi (by simp)
  | cons x l ih =>
    intro i hi hocc hfree
    cases i with
    | zero =>
      have hx : p x = true := hocc
      have hfx : p (f x) = false := hfree
      simp [List.modify_zero_cons, hx, hfx]
    | succ i =>
      have hi' : i < l.length := by simpa using hi
      have hrec := ih hi' hocc hfree
      simp only [List.modify_succ_cons, List.filter_cons, List.getElem_cons_succ]
      by_cases hx : p x = true
      · rw [if_pos hx, if_pos hx]
        exact (hrec.cons x).trans (List.Perm.swap ..)
      · rw [if_neg hx, if_neg hx]
        exact hrec

/-- A buffer with fewer occupied entries than entries has a free one. -/
theorem findIdx?_free_isSome {l : List α} (h : (l.filter p).length < l.length) :
    (l.findIdx? fun x => !p x).isSome := by
  rw [List.findIdx?_isSome, List.any_eq_true]
  by_contra hall
  have hfull : l.filter p = l := by
    refine List.filter_eq_self.mpr fun x hx => ?_
    by_contra hp
    exact hall ⟨x, hx, by simpa using hp⟩
  rw [hfull] at h
  exact Nat.lt_irrefl _ h

end MarketData.Slots
