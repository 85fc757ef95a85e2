import Mathlib.Data.List.Dedup
import Mathlib.Data.List.Perm.Basic
import Mathlib.Data.List.Nodup

/-!
# `Lib/Ladder.lean` — items queued by a ranked key

Items arrive one after another, and each has a key. The items of one key form a queue, oldest
first; the queues in the order of their keys form a ladder. Whatever structure keeps the queues,
its walk from the best key on is *the* ladder of the arrivals: the walk is sorted and has every
non-empty queue, and nothing else is (`IsLadder.unique`).

## Two ways to use it

A specification computes the ladder of a list of arrivals (`ladder`) and reads the answers off it.
An implementation keeps queues in a tree or in an array, and never has the list. To compare the two
it is enough that the implementation's walk *is a* ladder of the arrivals; **uniqueness does the
rest**, and no induction over the two structures side by side is ever needed. `eq_of_queueOf` is the
same for two implementations: where the queues agree key by key, the walks agree.

The order of keys is a parameter with a decidable comparison (`Ranking`), rather than an instance,
because both directions of one order are in use at the same time: the best buyer pays the most, the
best seller asks the least.
-/

set_option autoImplicit false

namespace MarketData.Ladder

variable {α κ : Type} [DecidableEq κ]

/-- A decidable total order on keys, best first. -/
structure Ranking (le : κ → κ → Bool) : Prop where
  trans : ∀ a b c, le a b → le b c → le a c
  total : ∀ a b, (le a b || le b a) = true
  antisymm : ∀ a b, le a b → le b a → a = b

variable (key : α → κ) (le : κ → κ → Bool)

/-- The items of one key, oldest first. -/
def queueOf (xs : List α) (k : κ) : List α := xs.filter fun x => key x = k

/-- The key `a` comes strictly before the key `b`. -/
def Before (a b : κ) : Prop := le a b = true ∧ a ≠ b

/-- The non-empty queues, best key first. -/
structure IsLadder (xs : List α) (l : List (κ × List α)) : Prop where
  sorted : l.Pairwise fun a b => Before le a.1 b.1
  mem : ∀ k q, (k, q) ∈ l ↔ q = queueOf key xs k ∧ q ≠ []

def ladder (xs : List α) : List (κ × List α) :=
  ((xs.map key).dedup.mergeSort le).map fun k => (k, queueOf key xs k)

variable {key le} {xs : List α} {l l' : List (κ × List α)}

theorem queueOf_ne_nil {k : κ} : queueOf key xs k ≠ [] ↔ k ∈ xs.map key := by
  rw [queueOf, ne_eq, List.filter_eq_nil_iff, List.mem_map]
  constructor
  · intro h
    by_contra hnone
    apply h
    intro x hx hkey
    exact hnone ⟨x, hx, of_decide_eq_true hkey⟩
  · rintro ⟨x, hx, hkey⟩ h
    exact h x hx (decide_eq_true hkey)

theorem mem_queueOf {k : κ} {x : α} : x ∈ queueOf key xs k ↔ x ∈ xs ∧ key x = k := by
  rw [queueOf, List.mem_filter, decide_eq_true_iff]

theorem isLadder_ladder (h : Ranking le) (xs : List α) :
    IsLadder key le xs (ladder key le xs) := by
  constructor
  · rw [ladder, List.pairwise_map]
    have hsorted := List.pairwise_mergeSort h.trans h.total (xs.map key).dedup
    have hnodup : ((xs.map key).dedup.mergeSort le).Nodup :=
      (List.mergeSort_perm _ _).nodup_iff.mpr (List.nodup_dedup _)
    exact hsorted.imp₂ (fun _ _ hle hne => ⟨hle, hne⟩) hnodup
  · intro k q
    rw [ladder, List.mem_map]
    constructor
    · rintro ⟨k', hk', heq⟩
      obtain ⟨rfl, rfl⟩ := Prod.mk.inj heq
      rw [List.mem_mergeSort, List.mem_dedup] at hk'
      exact ⟨rfl, queueOf_ne_nil.mpr hk'⟩
    · rintro ⟨rfl, hne⟩
      refine ⟨k, ?_, rfl⟩
      rw [List.mem_mergeSort, List.mem_dedup]
      exact queueOf_ne_nil.mp hne

theorem IsLadder.nodup (h : IsLadder key le xs l) : l.Nodup :=
  h.sorted.imp fun hbefore heq => hbefore.2 (congrArg Prod.fst heq)

/-- **A ladder is unique.** -/
theorem IsLadder.unique (hle : Ranking le) (h : IsLadder key le xs l)
    (h' : IsLadder key le xs l') : l = l' := by
  have hperm : l.Perm l' := by
    rw [List.perm_ext_iff_of_nodup h.nodup h'.nodup]
    rintro ⟨k, q⟩
    rw [h.mem, h'.mem]
  apply hperm.eq_of_pairwise ?_ h.sorted h'.sorted
  intro a b _ _ hab hba
  exact absurd (hle.antisymm _ _ hab.1 hba.1) hab.2

theorem IsLadder.eq_ladder (hle : Ranking le) (h : IsLadder key le xs l) :
    l = ladder key le xs :=
  h.unique hle (isLadder_ladder hle xs)

/-- The ladder of arrivals with the same queues is the same. -/
theorem ladder_congr {xs' : List α} (hle : Ranking le)
    (h : ∀ k, queueOf key xs' k = queueOf key xs k) : ladder key le xs' = ladder key le xs := by
  have hladder : IsLadder key le xs' (ladder key le xs') := isLadder_ladder hle xs'
  refine IsLadder.eq_ladder hle ⟨hladder.sorted, ?_⟩
  intro k q
  rw [hladder.mem, h k]

theorem IsLadder.queueOf_flatMap (h : IsLadder key le xs l) (k : κ) :
    queueOf key (l.flatMap (·.2)) k = queueOf key xs k := by
  have hqueue : ∀ e ∈ l, queueOf key e.2 k = if e.1 = k then e.2 else [] := by
    rintro ⟨k', q⟩ he
    obtain ⟨rfl, -⟩ := (h.mem k' q).mp he
    split
    · rename_i heq
      rw [← heq]
      exact List.filter_eq_self.mpr fun x hx => decide_eq_true (mem_queueOf.mp hx).2
    · rename_i hne
      refine List.filter_eq_nil_iff.mpr fun x hx hkey => hne ?_
      exact (mem_queueOf.mp hx).2.symm.trans (of_decide_eq_true hkey)
  have hflat : queueOf key (l.flatMap (·.2)) k =
      l.flatMap fun e => if e.1 = k then e.2 else [] := by
    rw [queueOf, List.filter_flatMap]
    exact List.flatMap_congr hqueue
  rw [hflat]
  -- the walk meets the key once, or not at all when its queue is empty
  by_cases hne : queueOf key xs k = []
  · rw [hne]
    refine List.flatMap_eq_nil_iff.mpr fun e he => ?_
    split
    · rename_i heq
      obtain ⟨hq, hq'⟩ := (h.mem e.1 e.2).mp he
      rw [heq] at hq
      exact hq.trans hne
    · rfl
  · obtain ⟨l₁, l₂, hl⟩ := List.append_of_mem ((h.mem k _).mpr ⟨rfl, hne⟩)
    have hothers : ∀ e ∈ l₁ ++ l₂, (if e.1 = k then e.2 else []) = [] := by
      intro e he
      rw [if_neg]
      intro heq
      have hsorted := h.sorted
      rw [hl, List.pairwise_append, List.pairwise_cons] at hsorted
      cases List.mem_append.mp he with
      | inl hmem => exact (hsorted.2.2 e hmem _ List.mem_cons_self).2 heq
      | inr hmem => exact (hsorted.2.1.1 e hmem).2 heq.symm
    have hnil : ∀ l' : List (κ × List α), (∀ e ∈ l', e ∈ l₁ ++ l₂) →
        (l'.flatMap fun e => if e.1 = k then e.2 else []) = [] :=
      fun l' hsub => List.flatMap_eq_nil_iff.mpr fun e he => hothers e (hsub e he)
    rw [hl, List.flatMap_append, List.flatMap_cons, if_pos rfl,
      hnil l₁ fun e he => List.mem_append_left _ he, hnil l₂ fun e he => List.mem_append_right _ he,
      List.nil_append, List.append_nil]

/-- **A ladder holds every arrival once.** -/
theorem IsLadder.flatMap_perm [DecidableEq α] (h : IsLadder key le xs l) :
    (l.flatMap (·.2)).Perm xs := by
  rw [List.perm_iff_count]
  intro x
  have hcount : ∀ ys : List α, ys.count x = (queueOf key ys (key x)).count x := by
    intro ys
    exact (List.count_filter (p := fun y => decide (key y = key x)) (decide_eq_true rfl)).symm
  rw [hcount, h.queueOf_flatMap, ← hcount]

/-- The walk down a ladder goes from the best key to the worst. -/
theorem IsLadder.sorted_flatMap (hle : Ranking le) (h : IsLadder key le xs l) :
    (l.flatMap (·.2)).Pairwise fun a b => le (key a) (key b) = true := by
  have hkey : ∀ e ∈ l, ∀ x ∈ e.2, key x = e.1 := by
    rintro ⟨k, q⟩ he x hx
    obtain ⟨rfl, -⟩ := (h.mem k q).mp he
    exact (mem_queueOf.mp hx).2
  have hself : ∀ k, le k k = true := by
    intro k
    have htotal := hle.total k k
    rwa [Bool.or_self] at htotal
  have hsorted := h.sorted
  clear h
  induction l with
  | nil => exact List.Pairwise.nil
  | cons e l ih =>
    obtain ⟨hhead, htail⟩ := List.pairwise_cons.mp hsorted
    obtain ⟨hekey, hlkey⟩ := List.forall_mem_cons.mp hkey
    rw [List.flatMap_cons, List.pairwise_append]
    refine ⟨?_, ih hlkey htail, ?_⟩
    · rw [List.pairwise_iff_forall_sublist]
      intro a b hab
      rw [hekey a (hab.subset (by simp)), hekey b (hab.subset (by simp))]
      exact hself _
    · intro a ha b hb
      obtain ⟨e', he', hb⟩ := List.mem_flatMap.mp hb
      rw [hekey a ha, hlkey e' he' b hb]
      exact (hhead e' he').1

/-- **Two walks with the same queues are one.** -/
theorem eq_of_queueOf (key : α → κ) (hle : Ranking le) {xs ys : List α}
    (hxs : xs.Pairwise fun a b => le (key a) (key b) = true)
    (hys : ys.Pairwise fun a b => le (key a) (key b) = true)
    (h : ∀ k, queueOf key xs k = queueOf key ys k) : xs = ys := by
  induction xs generalizing ys with
  | nil =>
    cases ys with
    | nil => rfl
    | cons y ys =>
      have hqueue := h (key y)
      rw [queueOf, queueOf, List.filter_cons_of_pos (by simp)] at hqueue
      cases hqueue
  | cons x xs ih =>
    cases ys with
    | nil =>
      have hqueue := h (key x)
      rw [queueOf, queueOf, List.filter_cons_of_pos (by simp)] at hqueue
      cases hqueue
    | cons y ys =>
      obtain ⟨hx, hxs'⟩ := List.pairwise_cons.mp hxs
      obtain ⟨hy, hys'⟩ := List.pairwise_cons.mp hys
      -- Each head is in the other walk, so neither key is before the other.
      have hxy : key x = key y := by
        by_contra hne
        have hymem : y ∈ xs := by
          have hmem : y ∈ queueOf key (x :: xs) (key y) := by
            rw [h]
            exact mem_queueOf.mpr ⟨List.mem_cons_self .., rfl⟩
          rcases List.mem_cons.mp (mem_queueOf.mp hmem).1 with heq | hmem
          · exact absurd (congrArg key heq).symm hne
          · exact hmem
        have hxmem : x ∈ ys := by
          have hmem : x ∈ queueOf key (y :: ys) (key x) := by
            rw [← h]
            exact mem_queueOf.mpr ⟨List.mem_cons_self .., rfl⟩
          rcases List.mem_cons.mp (mem_queueOf.mp hmem).1 with heq | hmem
          · exact absurd (congrArg key heq) hne
          · exact hmem
        exact hne (hle.antisymm _ _ (hx y hymem) (hy x hxmem))
      have hqueue := h (key x)
      rw [queueOf, queueOf, List.filter_cons_of_pos (by simp),
        List.filter_cons_of_pos (by simp [hxy])] at hqueue
      obtain ⟨rfl, hrest⟩ := List.cons.inj hqueue
      refine congrArg (x :: ·) (ih hxs' hys' fun k => ?_)
      by_cases hk : key x = k
      · rw [← hk]
        exact hrest
      · have hk' := h k
        rwa [queueOf, queueOf, List.filter_cons_of_neg (by simpa using hk),
          List.filter_cons_of_neg (by simpa using hk)] at hk'

end MarketData.Ladder
