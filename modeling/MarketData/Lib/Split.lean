import Mathlib.Data.List.Basic
import Mathlib.Data.List.TakeWhile

/-!
# `Lib/Split.lean` — lists cut at a separator

Everything before the first separator is told from everything after it: by `takeWhile` and
`dropWhile`, and of any two ways to write a list around one.

A parser cuts at the first separator it meets, and a grammar writes texts with separators between
them. `sep_inj` is what makes the two agree: of a list there is only one decomposition into a part
without the separator, the separator, and the rest. The other lemmas compute `takeWhile` and
`dropWhile` on a list so decomposed, over any type and any separator.
-/

set_option autoImplicit false

namespace MarketData.Split

variable {α : Type} [DecidableEq α] {sep : α} {x y r s l : List α}

theorem ne_sep (hx : sep ∉ x) : ∀ c ∈ x, decide (c ≠ sep) = true := by
  intro c hc
  exact decide_eq_true fun heq => hx (heq ▸ hc)

theorem takeWhile_sep (hx : sep ∉ x) (r : List α) :
    (x ++ sep :: r).takeWhile (· ≠ sep) = x := by
  rw [List.takeWhile_append_of_pos (ne_sep hx),
    List.takeWhile_cons_of_neg (by simp), List.append_nil]

theorem dropWhile_sep (hx : sep ∉ x) (r : List α) :
    (x ++ sep :: r).dropWhile (· ≠ sep) = sep :: r := by
  rw [List.dropWhile_append_of_pos (ne_sep hx),
    List.dropWhile_cons_of_neg (by simp)]

theorem dropWhile_eq_nil (h : l.dropWhile (· ≠ sep) = []) : sep ∉ l := by
  intro hmem
  have hne := List.dropWhile_eq_nil_iff.mp h sep hmem
  simp at hne

/-- Where the separator is met, the list is cut. -/
theorem dropWhile_eq_cons {c : α} (h : l.dropWhile (· ≠ sep) = c :: r) :
    c = sep ∧ sep ∉ l.takeWhile (· ≠ sep) ∧ l = l.takeWhile (· ≠ sep) ++ sep :: r := by
  have hc : c = sep := by
    have hhead := List.head?_dropWhile_not (· ≠ sep) l
    rw [h] at hhead
    simpa using hhead
  refine ⟨hc, fun hmem => ?_, ?_⟩
  · have hne := List.all_eq_true.mp (List.all_takeWhile (p := (· ≠ sep)) (l := l)) sep hmem
    simp at hne
  · conv_lhs => rw [← List.takeWhile_append_dropWhile (p := (· ≠ sep)) (l := l), h, hc]

/-- **There is one way to cut a list at its first separator.** -/
theorem sep_inj (hx : sep ∉ x) (hy : sep ∉ y) (h : x ++ sep :: r = y ++ sep :: s) :
    x = y ∧ r = s := by
  have hleft := congrArg (List.takeWhile (· ≠ sep)) h
  rw [takeWhile_sep hx, takeWhile_sep hy] at hleft
  subst hleft
  exact ⟨rfl, (List.cons.inj (List.append_cancel_left h)).2⟩

end MarketData.Split
