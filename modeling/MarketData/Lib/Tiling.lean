import Mathlib.Data.List.Basic
import Mathlib.Tactic.Linarith

/-!
# `Lib/Tiling.lean` — consecutive segments that tile an interval

A log of events, each of which accounts for a half-open segment of the number line, *tiles*
`[a, b)` when the first segment starts at `a`, every next one starts where the one before
ended, the last one ends at `b`, and none is empty. That one inductive shape is what "each
number is accounted for exactly once" means for a log that is written in order, and this file
derives the usual readings of it: the segments are disjoint and increasing, every point of
`[a, b)` lies in exactly one of them, no other point lies in any, and the lengths add up.

The log is over an arbitrary type with a `seg` function, so that events of several kinds can
share one tiling and be counted kind by kind.

`Tiles` is a recursive definition on the log and appends well: two tilings that meet are a tiling of
the two intervals together, and a log is extended by an event that starts where it ends. Those are
the only ways a program that writes its log in order ever changes one. Logs that are written out of
order have no such shape, and nothing here is of use for them.
-/

set_option autoImplicit false

namespace MarketData.Tiling

variable {α : Type*} (seg : α → Nat × Nat)

/-- `l` tiles `[a, b)`: non-empty consecutive segments from `a` to `b`. -/
def Tiles : Nat → List α → Nat → Prop
  | a, [], b => a = b
  | a, x :: l, b => (seg x).1 = a ∧ a < (seg x).2 ∧ Tiles (seg x).2 l b

/-- The point `s` lies in the segment of `x`. -/
def Covers (s : Nat) (x : α) : Prop := (seg x).1 ≤ s ∧ s < (seg x).2

instance (s : Nat) (x : α) : Decidable (Covers seg s x) := inferInstanceAs (Decidable (_ ∧ _))

variable {seg}

@[simp] theorem tiles_nil {a b : Nat} : Tiles seg a [] b ↔ a = b := Iff.rfl

theorem tiles_singleton {a b : Nat} {x : α} (h1 : (seg x).1 = a) (h2 : (seg x).2 = b)
    (h : a < b) : Tiles seg a [x] b := ⟨h1, h2 ▸ h, h2⟩

theorem Tiles.append {a b c : Nat} {l m : List α} (hl : Tiles seg a l b)
    (hm : Tiles seg b m c) : Tiles seg a (l ++ m) c := by
  induction l generalizing a with
  | nil => cases hl; exact hm
  | cons x l ih => exact ⟨hl.1, hl.2.1, ih hl.2.2⟩

/-- A tiling is cut between any two segments. -/
theorem Tiles.split {a c : Nat} {l m : List α} (h : Tiles seg a (l ++ m) c) :
    ∃ b, Tiles seg a l b ∧ Tiles seg b m c := by
  induction l generalizing a with
  | nil => exact ⟨a, rfl, h⟩
  | cons x l ih =>
    obtain ⟨h1, h2, h3⟩ := h
    obtain ⟨b, hl, hm⟩ := ih h3
    exact ⟨b, ⟨h1, h2, hl⟩, hm⟩

theorem Tiles.le {a b : Nat} {l : List α} (h : Tiles seg a l b) : a ≤ b := by
  induction l generalizing a with
  | nil => exact Nat.le_of_eq h
  | cons x l ih =>
    have := ih h.2.2
    exact Nat.le_trans (Nat.le_of_lt h.2.1) this

/-- Every segment of a tiling is non-empty and lies inside the tiled interval. -/
theorem Tiles.bounds {a b : Nat} {l : List α} (h : Tiles seg a l b) {x : α} (hx : x ∈ l) :
    a ≤ (seg x).1 ∧ (seg x).1 < (seg x).2 ∧ (seg x).2 ≤ b := by
  induction l generalizing a with
  | nil => exact absurd hx (by simp)
  | cons y l ih =>
    obtain ⟨h1, h2, h3⟩ := h
    rcases List.mem_cons.mp hx with rfl | hx
    · exact ⟨Nat.le_of_eq h1.symm, h1 ▸ h2, h3.le⟩
    · obtain ⟨i1, i2, i3⟩ := ih h3 hx
      exact ⟨Nat.le_trans (Nat.le_of_lt h2) i1, i2, i3⟩

/-- Segments come in increasing order and do not overlap. -/
theorem Tiles.pairwise {a b : Nat} {l : List α} (h : Tiles seg a l b) :
    l.Pairwise fun x y => (seg x).2 ≤ (seg y).1 := by
  induction l generalizing a with
  | nil => exact List.Pairwise.nil
  | cons x l ih =>
    refine List.pairwise_cons.mpr ⟨fun y hy => (h.2.2.bounds hy).1, ih h.2.2⟩

/-- A point outside the interval is in no segment. -/
theorem Tiles.countP_eq_zero {a b s : Nat} {l : List α} (h : Tiles seg a l b)
    (hs : s < a ∨ b ≤ s) : l.countP (fun x => decide (Covers seg s x)) = 0 := by
  refine List.countP_eq_zero.mpr fun x hx hcov => ?_
  obtain ⟨h1, h2, h3⟩ := h.bounds hx
  obtain ⟨c1, c2⟩ := of_decide_eq_true hcov
  omega

/-- A point of the interval is in exactly one segment. -/
theorem Tiles.countP_eq_one {a b s : Nat} {l : List α} (h : Tiles seg a l b)
    (ha : a ≤ s) (hb : s < b) : l.countP (fun x => decide (Covers seg s x)) = 1 := by
  induction l generalizing a with
  | nil => cases h; omega
  | cons x l ih =>
    obtain ⟨h1, h2, h3⟩ := h
    rw [List.countP_cons]
    by_cases hx : s < (seg x).2
    · have hcov : Covers seg s x := ⟨by omega, hx⟩
      rw [h3.countP_eq_zero (Or.inl hx), if_pos (decide_eq_true hcov)]
    · have hcov : ¬ Covers seg s x := fun hc => hx hc.2
      rw [ih h3 (by omega), if_neg (by simpa using hcov)]

/-- The segments' lengths add up to the length of the interval. -/
theorem Tiles.sum_length {a b : Nat} {l : List α} (h : Tiles seg a l b) :
    a + (l.map fun x => (seg x).2 - (seg x).1).sum = b := by
  induction l generalizing a with
  | nil => cases h; simp
  | cons x l ih =>
    obtain ⟨h1, h2, h3⟩ := h
    have := ih h3
    simp only [List.map_cons, List.sum_cons]
    omega

/-- Only the segments matter: images with the same segments tile the same interval. -/
theorem Tiles.map {β : Type*} {seg' : β → Nat × Nat} {f : α → β} {a b : Nat} {l : List α}
    (h : Tiles seg a l b) (hf : ∀ x ∈ l, seg' (f x) = seg x) : Tiles seg' a (l.map f) b := by
  induction l generalizing a with
  | nil => exact h
  | cons x l ih =>
    obtain ⟨h1, h2, h3⟩ := h
    have hx := hf x (by simp)
    have hrest := ih h3 fun y hy => hf y (List.mem_cons_of_mem x hy)
    rw [List.map_cons, Tiles, hx]
    exact ⟨h1, h2, hrest⟩

/-! ## The points of a list of segments -/

variable (seg) in
/-- The points of the segments, one by one and in order. -/
def points (l : List α) : List Nat :=
  l.flatMap fun x => List.range' (seg x).1 ((seg x).2 - (seg x).1)

theorem mem_points {l : List α} {s : Nat} : s ∈ points seg l ↔ ∃ x ∈ l, Covers seg s x := by
  simp only [points, List.mem_flatMap, List.mem_range'_1, Covers]
  constructor
  · rintro ⟨x, hx, h⟩
    exact ⟨x, hx, by omega⟩
  · rintro ⟨x, hx, h⟩
    exact ⟨x, hx, by omega⟩

/-- Segments in order have their points in order. -/
theorem points_sorted {l : List α} (h : l.Pairwise fun x y => (seg x).2 ≤ (seg y).1) :
    (points seg l).Pairwise (· < ·) := by
  induction l with
  | nil => exact List.Pairwise.nil
  | cons x l ih =>
    obtain ⟨hx, hl⟩ := List.pairwise_cons.mp h
    refine List.pairwise_append.mpr ⟨List.pairwise_lt_range' .., ih hl, ?_⟩
    intro s hs t ht
    obtain ⟨y, hy, hcov⟩ := mem_points.mp ht
    have := hx y hy
    rw [List.mem_range'_1] at hs
    unfold Covers at hcov
    omega

/-- The points of a tiling are the points of the tiled interval. -/
theorem Tiles.points_eq {a b : Nat} {l : List α} (h : Tiles seg a l b) :
    points seg l = List.range' a (b - a) := by
  induction l generalizing a with
  | nil => cases h; simp [points]
  | cons x l ih =>
    obtain ⟨h1, h2, h3⟩ := h
    have hle := h3.le
    have hrest := ih h3
    rw [points] at hrest
    rw [points, List.flatMap_cons, hrest, h1,
      show b - a = ((seg x).2 - a) + (b - (seg x).2) by omega,
      show List.range' (seg x).2 (b - (seg x).2)
        = List.range' (a + 1 * ((seg x).2 - a)) (b - (seg x).2) by congr 1; omega]
    exact List.range'_append

/-- A point occurs among the points as often as segments cover it. -/
theorem count_points (l : List α) (s : Nat) :
    (points seg l).count s = l.countP (fun x => decide (Covers seg s x)) := by
  induction l with
  | nil => rfl
  | cons x l ih =>
    have hiff : ((seg x).1 ≤ s ∧ s < (seg x).1 + ((seg x).2 - (seg x).1)) ↔ Covers seg s x := by
      unfold Covers
      omega
    rw [points, List.flatMap_cons, List.count_append, List.count_range_1', List.countP_cons]
    rw [points] at ih
    rw [ih, Nat.add_comm]
    simp only [hiff, decide_eq_true_eq]

end MarketData.Tiling
