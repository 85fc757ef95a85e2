import Std.Data.TreeMap
import Mathlib.Data.List.TakeWhile

/-!
# `Lib/SortedVec.lean` — a map kept as a sorted vector

The entries of a map in the order of their keys, found by binary search and inserted where the
search ends. There is only one such vector for a map (`Sorted.unique`), so it is the list an ordered
map answers, however either was built.

## Searching by counting

`search` is specified by how many keys are smaller, not by the halving of an interval: the standard
library promises the index of the key if it is there and the place to insert it otherwise, and
leaves open how it looks. `place` counts, and in a sorted vector the two are the same. What an
insertion does then follows from where the count splits the vector, between the smaller keys and the
larger (`Searched`), with no arithmetic on midpoints.

The ordered map is the standard library's tree map. Comparing with it by `toList` is all that is
needed of the tree, and its own laws are used from the library.
-/

set_option autoImplicit false

namespace MarketData.SortedVec

variable {α β : Type*} [Ord α]

/-- Every key once, in order. -/
abbrev Sorted (xs : List (α × β)) : Prop := xs.Pairwise fun a b => compare a.1 b.1 = .lt

/-- The number of keys below `k`. -/
def place (xs : List (α × β)) (k : α) : Nat := (xs.takeWhile fun e => compare e.1 k = .lt).length

/-- `binary_search_by_key`: the index of the key, or the one to insert it at. -/
def search (xs : List (α × β)) (k : α) : Except Nat Nat :=
  match xs[place xs k]? with
  | some e => if compare e.1 k = .eq then .ok (place xs k) else .error (place xs k)
  | none => .error (place xs k)

def get (xs : List (α × β)) (k : α) : Option β :=
  match search xs k with
  | .ok i => xs[i]?.map (·.2)
  | .error _ => none

/-- The entry of a key, overwritten or inserted. -/
def insert (xs : List (α × β)) (k : α) (v : β) : List (α × β) :=
  match search xs k with
  | .ok i => xs.set i (k, v)
  | .error i => xs.insertIdx i (k, v)

theorem place_eq {l r : List (α × β)} {k : α} (hl : ∀ e ∈ l, compare e.1 k = .lt)
    (hr : ∀ e ∈ r.head?, compare e.1 k ≠ .lt) : place (l ++ r) k = l.length := by
  have hrest : (r.takeWhile fun e => compare e.1 k = .lt) = [] := by
    cases r with
    | nil => rfl
    | cons e r => exact List.takeWhile_cons_of_neg (by simpa using hr e rfl)
  rw [place, List.takeWhile_append_of_pos (by simpa using hl), hrest, List.append_nil]

omit [Ord α] in
theorem insertIdx_append (l r : List (α × β)) (e : α × β) :
    (l ++ r).insertIdx l.length e = l ++ e :: r := by
  induction l with
  | nil => rfl
  | cons a l ih => rw [List.cons_append, List.length_cons, List.insertIdx_succ_cons, ih]; rfl

section Search

theorem compare_ne [Std.LawfulEqOrd α] {a b : α} (h : compare a b = .lt) : a ≠ b := by
  intro heq
  rw [heq, (Std.compare_eq_iff_eq).mpr rfl] at h
  cases h

theorem not_lt_of_lt [Std.TransOrd α] {a b : α} (h : compare a b = .lt) : compare b a ≠ .lt := by
  rw [Std.OrientedOrd.eq_swap, h]
  exact fun h => (nomatch h)

variable [Std.TransOrd α] [Std.LawfulEqOrd α]

/-- Two sorted vectors with the same entries are the same. -/
theorem Sorted.unique {xs ys : List (α × β)} (hxs : Sorted xs) (hys : Sorted ys)
    (h : ∀ e, e ∈ xs ↔ e ∈ ys) : xs = ys := by
  have hdiffer : ∀ a b : α × β, compare a.1 b.1 = .lt → a ≠ b := by
    intro a b hlt heq
    exact compare_ne hlt (congrArg Prod.fst heq)
  have hperm : xs.Perm ys := by
    rw [List.perm_ext_iff_of_nodup (hxs.imp fun hlt => hdiffer _ _ hlt)
      (hys.imp fun hlt => hdiffer _ _ hlt)]
    exact h
  apply hperm.eq_of_pairwise ?_ hxs hys
  intro a b _ _ hab hba
  exact absurd hba (not_lt_of_lt hab)

/-- Where the search of a sorted vector ends. -/
inductive Searched (k : α) : List (α × β) → Except Nat Nat → Prop where
  | found {l r : List (α × β)} (v : β) : (∀ e ∈ l, compare e.1 k = .lt) →
      (∀ e ∈ r, compare k e.1 = .lt) → Searched k (l ++ (k, v) :: r) (.ok l.length)
  | missing {l r : List (α × β)} : (∀ e ∈ l, compare e.1 k = .lt) →
      (∀ e ∈ r, compare k e.1 = .lt) → Searched k (l ++ r) (.error l.length)

/-- **The search of a sorted vector** ends at the entry of the key, or between the smaller keys and
the larger. -/
theorem Sorted.searched {xs : List (α × β)} (h : Sorted xs) (k : α) :
    Searched k xs (search xs k) := by
  have hsplit : xs = (xs.takeWhile fun e => compare e.1 k = .lt) ++
      xs.dropWhile fun e => compare e.1 k = .lt := (List.takeWhile_append_dropWhile).symm
  have hbelow : ∀ e ∈ xs.takeWhile fun e => compare e.1 k = .lt, compare e.1 k = .lt := by
    intro e he
    simpa using List.mem_takeWhile_imp he
  have hhead : ∀ e ∈ (xs.dropWhile fun e => compare e.1 k = .lt).head?, compare e.1 k ≠ .lt := by
    intro e he
    have := List.head?_dropWhile_not (fun e => decide (compare e.1 k = .lt)) xs
    rw [he] at this
    simpa using this
  generalize (xs.takeWhile fun e => compare e.1 k = .lt) = l at hsplit hbelow
  generalize (xs.dropWhile fun e => compare e.1 k = .lt) = r at hsplit hhead
  subst hsplit
  rw [search, place_eq hbelow hhead, List.getElem?_append_right (Nat.le_refl _), Nat.sub_self]
  obtain ⟨-, hsorted, -⟩ := List.pairwise_append.mp h
  cases r with
  | nil => exact .missing hbelow fun e he => (nomatch he)
  | cons e r =>
    obtain ⟨hfirst, -⟩ := List.pairwise_cons.mp hsorted
    rw [List.getElem?_cons_zero]
    dsimp only
    split
    · rename_i heq
      obtain ⟨k', v⟩ := e
      obtain rfl := Std.LawfulEqCmp.eq_of_compare heq
      exact .found v hbelow hfirst
    · rename_i hne
      have hgt : compare k e.1 = .lt := by
        rw [Std.OrientedOrd.eq_swap]
        cases hcmp : compare e.1 k with
        | lt => exact absurd hcmp (hhead e rfl)
        | eq => exact absurd hcmp hne
        | gt => rfl
      refine .missing hbelow ?_
      intro e' he'
      rcases List.mem_cons.mp he' with rfl | he'
      · exact hgt
      · exact Std.TransCmp.lt_trans hgt (hfirst e' he')

/-! ## As a map -/

theorem Sorted.get_eq_some {xs : List (α × β)} (h : Sorted xs) {k : α} {v : β} :
    get xs k = some v ↔ (k, v) ∈ xs := by
  have hsearched := h.searched k
  unfold get
  generalize search xs k = found at hsearched ⊢
  cases hsearched with
  | found v' hl hr =>
    rename_i l r
    dsimp only
    rw [List.getElem?_append_right (Nat.le_refl _), Nat.sub_self, List.getElem?_cons_zero]
    simp only [Option.map_some, Option.some.injEq, List.mem_append, List.mem_cons, Prod.mk.injEq,
      true_and]
    constructor
    · intro heq
      exact .inr (.inl heq.symm)
    · intro hmem
      rcases hmem with hmem | heq | hmem
      · exact absurd rfl (compare_ne (hl _ hmem))
      · exact heq.symm
      · exact absurd rfl (compare_ne (hr _ hmem))
  | missing hl hr =>
    constructor
    · intro hnone
      cases hnone
    · intro hmem
      rcases List.mem_append.mp hmem with hmem | hmem
      · exact absurd rfl (compare_ne (hl _ hmem))
      · exact absurd rfl (compare_ne (hr _ hmem))

theorem Sorted.insert {xs : List (α × β)} (h : Sorted xs) (k : α) (v : β) :
    Sorted (insert xs k v) := by
  have hsearched := h.searched k
  unfold SortedVec.insert
  generalize search xs k = found at hsearched ⊢
  cases hsearched with
  | found v' hl hr =>
    rename_i l r
    dsimp only
    rw [List.set_append_right _ _ (Nat.le_refl _), Nat.sub_self, List.set_cons_zero]
    unfold Sorted at h ⊢
    rw [List.pairwise_append, List.pairwise_cons] at h ⊢
    obtain ⟨hleft, ⟨-, hright⟩, hacross⟩ := h
    refine ⟨hleft, ⟨hr, hright⟩, fun a ha b hb => ?_⟩
    rcases List.mem_cons.mp hb with rfl | hb
    · exact hl a ha
    · exact hacross a ha b (List.mem_cons_of_mem _ hb)
  | missing hl hr =>
    rename_i l r
    dsimp only
    rw [insertIdx_append]
    unfold Sorted at h ⊢
    rw [List.pairwise_append] at h ⊢
    obtain ⟨hleft, hright, hacross⟩ := h
    refine ⟨hleft, List.pairwise_cons.mpr ⟨hr, hright⟩, fun a ha b hb => ?_⟩
    rcases List.mem_cons.mp hb with rfl | hb
    · exact hl a ha
    · exact hacross a ha b hb

theorem Sorted.mem_insert {xs : List (α × β)} (h : Sorted xs) {k : α} {v : β} {e : α × β} :
    e ∈ SortedVec.insert xs k v ↔ e = (k, v) ∨ e.1 ≠ k ∧ e ∈ xs := by
  have hsearched := h.searched k
  unfold SortedVec.insert
  generalize search xs k = found at hsearched ⊢
  cases hsearched with
  | found v' hl hr =>
    rename_i l r
    have hleft : e ∈ l → e.1 ≠ k := fun he => compare_ne (hl e he)
    have hright : e ∈ r → e.1 ≠ k := fun he => (compare_ne (hr e he)).symm
    dsimp only
    rw [List.set_append_right _ _ (Nat.le_refl _), Nat.sub_self, List.set_cons_zero]
    simp only [List.mem_append, List.mem_cons]
    constructor
    · intro hmem
      rcases hmem with hmem | heq | hmem
      · exact .inr ⟨hleft hmem, .inl hmem⟩
      · exact .inl heq
      · exact .inr ⟨hright hmem, .inr (.inr hmem)⟩
    · intro hmem
      rcases hmem with heq | ⟨hne, hmem | heq | hmem⟩
      · exact .inr (.inl heq)
      · exact .inl hmem
      · exact absurd (congrArg Prod.fst heq) hne
      · exact .inr (.inr hmem)
  | missing hl hr =>
    rename_i l r
    have hleft : e ∈ l → e.1 ≠ k := fun he => compare_ne (hl e he)
    have hright : e ∈ r → e.1 ≠ k := fun he => (compare_ne (hr e he)).symm
    dsimp only
    rw [insertIdx_append]
    simp only [List.mem_append, List.mem_cons]
    constructor
    · intro hmem
      rcases hmem with hmem | heq | hmem
      · exact .inr ⟨hleft hmem, .inl hmem⟩
      · exact .inl heq
      · exact .inr ⟨hright hmem, .inr hmem⟩
    · intro hmem
      rcases hmem with heq | ⟨-, hmem | hmem⟩
      · exact .inr (.inl heq)
      · exact .inl hmem
      · exact .inr (.inr hmem)

/-! ## The list of an ordered map -/

omit [Std.LawfulEqOrd α] in
theorem sorted_toList (t : Std.TreeMap α β) : Sorted t.toList := Std.TreeMap.ordered_keys_toList

variable (t : Std.TreeMap α β)

theorem get_toList (k : α) : get t.toList k = t[k]? := by
  apply Option.ext
  intro v
  rw [(sorted_toList t).get_eq_some]
  exact Std.TreeMap.mem_toList_iff_getElem?_eq_some

/-- **The vector is the list of the map**, before an insertion and after it. -/
theorem insert_toList (k : α) (v : β) : insert t.toList k v = (t.insert k v).toList := by
  refine ((sorted_toList t).insert k v).unique (sorted_toList _) fun e => ?_
  obtain ⟨k', v'⟩ := e
  rw [(sorted_toList t).mem_insert, Std.TreeMap.mem_toList_iff_getElem?_eq_some,
    Std.TreeMap.mem_toList_iff_getElem?_eq_some, Std.TreeMap.getElem?_insert]
  by_cases heq : k = k'
  · rw [if_pos (Std.compare_eq_iff_eq.mpr heq), heq]
    simp [eq_comm]
  · rw [if_neg fun hcmp => heq (Std.compare_eq_iff_eq.mp hcmp)]
    simp [Ne.symm heq]

end Search

end MarketData.SortedVec
