import Mathlib.Data.List.Nodup
import Mathlib.Logic.Function.Basic

/-!
# `Lib/Chain.lean` — queues threaded through an array

Nodes are numbers, and two arrays hold for each node the one behind it and the one before it,
with one number standing for none. `Links` says that a list of nodes is threaded so, `Queue` that
a head and a tail give access to it, and `Stack` that a list is threaded one way only, as a free
list is. An operation on a queue writes to nodes of that queue alone, and its rule says so: that
is what leaves every other queue as it was.

## The list is the ghost

Nothing in the arrays says which list of nodes is meant; the predicates take it as an argument, and
the rules say what becomes of it. Pushing at the back appends, unlinking filters. A proof about a
structure of many queues in the same two arrays then carries one list for each, and needs only that
no node is in two of them.

Unlinking is the rule with the cases: the node may be the first, the last, both or neither, and each
writes to different places. `Queue.remove` is stated once for all four, from the node's two
neighbours.

The number for none is any number that is not a node. What else a node carries is not the concern of
this module, and neither is where the arrays are.
-/

set_option autoImplicit false

namespace MarketData.Chain

variable (next prev : Nat → Nat)

/-- The nodes are threaded both ways, between a node before them and a node after. -/
def Links : Nat → List Nat → Nat → Prop
  | _, [], _ => True
  | before, x :: xs, after => prev x = before ∧ next x = xs.headD after ∧ Links x xs after

/-- A whole queue, from its head to its tail. -/
structure Queue (none head tail : Nat) (q : List Nat) : Prop where
  head_eq : head = q.headD none
  tail_eq : tail = q.getLastD none
  links : Links next prev none q none

/-- Nodes threaded forwards only. -/
def Stack (next : Nat → Nat) (none : Nat) : Nat → List Nat → Prop
  | head, [] => head = none
  | head, x :: xs => head = x ∧ Stack next none (next x) xs

variable {next prev} {next' prev' : Nat → Nat} {none head tail : Nat} {q : List Nat}

theorem getLastD_cons_mem (x : Nat) (xs : List Nat) (d : Nat) : (x :: xs).getLastD d ∈ x :: xs := by
  rw [List.getLastD_cons]
  exact List.getLastD_mem_cons

theorem getLastD_append (l r : List Nat) (d : Nat) :
    (l ++ r).getLastD d = r.getLastD (l.getLastD d) := by
  induction l generalizing d with
  | nil => rfl
  | cons x xs ih => rw [List.cons_append, List.getLastD_cons, List.getLastD_cons, ih]

theorem Links.congr {b a : Nat} (h : Links next prev b q a)
    (hnext : ∀ x ∈ q, next' x = next x) (hprev : ∀ x ∈ q, prev' x = prev x) :
    Links next' prev' b q a := by
  induction q generalizing b with
  | nil => trivial
  | cons x xs ih =>
    obtain ⟨hp, hn, hrest⟩ := h
    refine ⟨?_, ?_, ih hrest ?_ ?_⟩
    · rw [hprev x List.mem_cons_self]
      exact hp
    · rw [hnext x List.mem_cons_self]
      exact hn
    · exact fun y hy => hnext y (List.mem_cons_of_mem _ hy)
    · exact fun y hy => hprev y (List.mem_cons_of_mem _ hy)

theorem links_append {b a : Nat} {l r : List Nat} :
    Links next prev b (l ++ r) a ↔
      Links next prev b l (r.headD a) ∧ Links next prev (l.getLastD b) r a := by
  induction l generalizing b with
  | nil => exact ⟨fun h => ⟨trivial, h⟩, fun h => h.2⟩
  | cons x xs ih =>
    have hhead : (xs ++ r).headD a = xs.headD (r.headD a) := by
      cases xs <;> rfl
    rw [List.cons_append, Links, Links, ih, hhead, List.getLastD_cons]
    constructor
    · rintro ⟨hp, hn, hl, hr⟩
      exact ⟨⟨hp, hn, hl⟩, hr⟩
    · rintro ⟨⟨hp, hn, hl⟩, hr⟩
      exact ⟨hp, hn, hl, hr⟩

/-- Redirecting the last node of a part forwards. -/
theorem Links.setAfter {b a a' : Nat} (h : Links next prev b q a) (hnodup : q.Nodup)
    (hlast : q ≠ [] → next' (q.getLastD b) = a')
    (hnext : ∀ x ∈ q, x ≠ q.getLastD b → next' x = next x) (hprev : ∀ x ∈ q, prev' x = prev x) :
    Links next' prev' b q a' := by
  induction q generalizing b with
  | nil => trivial
  | cons x xs ih =>
    obtain ⟨hp, hn, hrest⟩ := h
    obtain ⟨hx, hxs⟩ := List.nodup_cons.mp hnodup
    rw [List.getLastD_cons] at hlast hnext
    refine ⟨?_, ?_, ih hrest hxs (fun _ => hlast (List.cons_ne_nil _ _)) ?_ ?_⟩
    · rw [hprev x List.mem_cons_self]
      exact hp
    · cases xs with
      | nil => exact hlast (List.cons_ne_nil _ _)
      | cons y ys =>
        rw [hnext x List.mem_cons_self, hn]
        · rfl
        · intro heq
          apply hx
          rw [heq]
          exact getLastD_cons_mem ..
    · exact fun y hy hne => hnext y (List.mem_cons_of_mem _ hy) hne
    · exact fun y hy => hprev y (List.mem_cons_of_mem _ hy)

/-- Redirecting the first node of a part backwards. -/
theorem Links.setBefore {b b' a : Nat} (h : Links next prev b q a) (hnodup : q.Nodup)
    (hfirst : q ≠ [] → prev' (q.headD a) = b') (hnext : ∀ x ∈ q, next' x = next x)
    (hprev : ∀ x ∈ q, x ≠ q.headD a → prev' x = prev x) : Links next' prev' b' q a := by
  cases q with
  | nil => trivial
  | cons x xs =>
    obtain ⟨hp, hn, hrest⟩ := h
    refine ⟨hfirst (List.cons_ne_nil _ _), ?_, hrest.congr ?_ ?_⟩
    · rw [hnext x List.mem_cons_self]
      exact hn
    · exact fun y hy => hnext y (List.mem_cons_of_mem _ hy)
    · intro y hy
      apply hprev y (List.mem_cons_of_mem _ hy)
      rintro rfl
      exact (List.nodup_cons.mp hnodup).1 hy

theorem Queue.congr (h : Queue next prev none head tail q) (hnext : ∀ x ∈ q, next' x = next x)
    (hprev : ∀ x ∈ q, prev' x = prev x) : Queue next' prev' none head tail q :=
  ⟨h.head_eq, h.tail_eq, h.links.congr hnext hprev⟩

theorem queue_nil (next prev : Nat → Nat) (none : Nat) : Queue next prev none none none [] :=
  ⟨rfl, rfl, trivial⟩

/-! ## Linking at the back -/

/-- **Linking a node at the back.** -/
theorem Queue.push (h : Queue next prev none head tail q) (hnodup : q.Nodup) (hnone : none ∉ q)
    {n : Nat} (hn : n ∉ q) (hprev : prev' n = tail) (hnext : next' n = none)
    (htail : q ≠ [] → next' tail = n) (hnexts : ∀ x ∈ q, x ≠ tail → next' x = next x)
    (hprevs : ∀ x ∈ q, prev' x = prev x) :
    Queue next' prev' none (if tail = none then n else head) n (q ++ [n]) := by
  have hempty : tail = none ↔ q = [] := by
    rw [h.tail_eq]
    cases q with
    | nil => exact ⟨fun _ => rfl, fun _ => rfl⟩
    | cons x xs =>
      constructor
      · intro heq
        refine absurd ?_ hnone
        rw [← heq]
        exact getLastD_cons_mem ..
      · intro hnil
        cases hnil
  refine ⟨?_, ?_, links_append.mpr ⟨?_, ?_, ?_, trivial⟩⟩
  · split
    · rename_i heq
      rw [hempty.mp heq]
      rfl
    · rename_i hne
      rw [h.head_eq]
      cases q with
      | nil => exact absurd (hempty.mpr rfl) hne
      | cons x xs => rfl
  · simp
  · refine h.links.setAfter hnodup (fun hne => ?_) (fun x hx hne => ?_) hprevs
    · rw [← h.tail_eq]
      exact htail hne
    · exact hnexts x hx (by rw [h.tail_eq]; exact hne)
  · rw [hprev, h.tail_eq]
  · exact hnext

/-! ## Unlinking -/

/-- The neighbours of a node of a queue, and the queue without it. -/
theorem Queue.split (h : Queue next prev none head tail q) {n : Nat} (hn : n ∈ q) :
    ∃ l r, q = l ++ n :: r ∧ prev n = l.getLastD none ∧ next n = r.headD none ∧
      Links next prev none l n ∧ Links next prev n r none := by
  obtain ⟨l, r, rfl⟩ := List.append_of_mem hn
  obtain ⟨hl, hp, hx, hr⟩ := links_append.mp h.links
  exact ⟨l, r, rfl, hp, hx, hl, hr⟩

theorem getLastD_mem {l : List Nat} {d : Nat} (h : l.getLastD d ≠ d) : l.getLastD d ∈ l := by
  cases l with
  | nil => exact absurd rfl h
  | cons x xs => exact getLastD_cons_mem ..

theorem headD_mem {l : List Nat} {d : Nat} (h : l.headD d ≠ d) : l.headD d ∈ l := by
  cases l with
  | nil => exact absurd rfl h
  | cons x xs => exact List.mem_cons_self

/-- **Unlinking a node**: its neighbours are joined, and nothing else changes. -/
theorem Queue.remove (h : Queue next prev none head tail q) (hnodup : q.Nodup) (hnone : none ∉ q)
    {n : Nat} (hn : n ∈ q)
    (hnext : ∀ x ∈ q, x ≠ n → next' x = if x = prev n then next n else next x)
    (hprev : ∀ x ∈ q, x ≠ n → prev' x = if x = next n then prev n else prev x) :
    Queue next' prev' none (if head = n then next n else head) (if tail = n then prev n else tail)
      (q.filter fun x => x ≠ n) := by
  obtain ⟨l, r, rfl, hp, hx, hl, hr⟩ := h.split hn
  obtain ⟨hlnodup, hrnodup, hdisjoint⟩ := List.nodup_append.mp hnodup
  obtain ⟨hnr, hrnodup⟩ := List.nodup_cons.mp hrnodup
  have hnl : n ∉ l := fun hmem => hdisjoint n hmem n List.mem_cons_self rfl
  have hkeep : ∀ l' : List Nat, n ∉ l' → l'.filter (fun x => x ≠ n) = l' := by
    intro l' hn'
    refine List.filter_eq_self.mpr fun x hmem => decide_eq_true ?_
    rintro rfl
    exact hn' hmem
  have hfilter : (l ++ n :: r).filter (fun x => x ≠ n) = l ++ r := by
    rw [List.filter_append, List.filter_cons_of_neg (by simp), hkeep l hnl, hkeep r hnr]
  have hmeml : ∀ x ∈ l, x ∈ l ++ n :: r ∧ x ≠ n := fun x hmem =>
    ⟨List.mem_append_left _ hmem, fun heq => hnl (heq ▸ hmem)⟩
  have hmemr : ∀ x ∈ r, x ∈ l ++ n :: r ∧ x ≠ n := fun x hmem =>
    ⟨List.mem_append_right _ (List.mem_cons_of_mem _ hmem), fun heq => hnr (heq ▸ hmem)⟩
  have hlr : ∀ x ∈ l, x ∉ r := fun x hxl hxr =>
    hdisjoint x hxl x (List.mem_cons_of_mem _ hxr) rfl
  -- a neighbour that is not there is `none`, which no node of the queue is
  have hprevr : ∀ x ∈ r, x ≠ prev n := by
    rintro x hxr rfl
    rw [hp] at hxr
    by_cases hlast : l.getLastD none = none
    · rw [hlast] at hxr
      exact hnone (hmemr none hxr).1
    · exact hlr _ (getLastD_mem hlast) hxr
  have hnextl : ∀ x ∈ l, x ≠ next n := by
    rintro x hxl rfl
    rw [hx] at hxl
    by_cases hfirst : r.headD none = none
    · rw [hfirst] at hxl
      exact hnone (hmeml none hxl).1
    · exact hlr _ hxl (headD_mem hfirst)
  rw [hfilter]
  refine ⟨?_, ?_, links_append.mpr ⟨?_, ?_⟩⟩
  · rw [h.head_eq]
    cases l with
    | nil => exact (if_pos rfl).trans hx
    | cons x xs =>
      rw [if_neg]
      · rfl
      · intro heq
        exact (hmeml x List.mem_cons_self).2 heq
  · rw [h.tail_eq]
    cases r with
    | nil =>
      rw [List.append_nil, List.getLastD_concat, if_pos rfl, hp]
    | cons x xs =>
      have hlast : (l ++ n :: x :: xs).getLastD none = (x :: xs).getLastD none := by
        rw [getLastD_append]
        rfl
      rw [hlast, getLastD_append, if_neg]
      · rfl
      · intro heq
        have hmem : (x :: xs).getLastD none ∈ x :: xs := getLastD_cons_mem ..
        exact (hmemr _ hmem).2 heq
  · refine hl.setAfter hlnodup (fun hne => ?_) (fun x hmem hne => ?_) (fun x hmem => ?_)
    · have hmem : l.getLastD none ∈ l := by
        cases l with
        | nil => exact absurd rfl hne
        | cons x xs => exact getLastD_cons_mem ..
      rw [hnext _ (hmeml _ hmem).1 (hmeml _ hmem).2, if_pos hp.symm, hx]
    · rw [hnext x (hmeml x hmem).1 (hmeml x hmem).2, if_neg (by rw [hp]; exact hne)]
    · rw [hprev x (hmeml x hmem).1 (hmeml x hmem).2, if_neg (hnextl x hmem)]
  · refine hr.setBefore hrnodup (fun hne => ?_) (fun x hmem => ?_) (fun x hmem hne => ?_)
    · have hmem : r.headD none ∈ r := by
        cases r with
        | nil => exact absurd rfl hne
        | cons x xs => exact List.mem_cons_self
      rw [hprev _ (hmemr _ hmem).1 (hmemr _ hmem).2, if_pos hx.symm, hp]
    · rw [hnext x (hmemr x hmem).1 (hmemr x hmem).2, if_neg (hprevr x hmem)]
    · rw [hprev x (hmemr x hmem).1 (hmemr x hmem).2, if_neg (by rw [hx]; exact hne)]

/-- A neighbour of a node of a queue is in the queue, or there is none. -/
theorem Queue.prev_mem (h : Queue next prev none head tail q) {n : Nat} (hn : n ∈ q)
    (hne : prev n ≠ none) : prev n ∈ q := by
  obtain ⟨l, r, rfl, hp, -, -, -⟩ := h.split hn
  rw [hp] at hne ⊢
  exact List.mem_append_left _ (getLastD_mem hne)

theorem Queue.next_mem (h : Queue next prev none head tail q) {n : Nat} (hn : n ∈ q)
    (hne : next n ≠ none) : next n ∈ q := by
  obtain ⟨l, r, rfl, -, hx, -, -⟩ := h.split hn
  rw [hx] at hne ⊢
  exact List.mem_append_right _ (List.mem_cons_of_mem _ (headD_mem hne))

/-! ## Free lists -/

theorem Stack.congr (h : Stack next none head q) (hnext : ∀ x ∈ q, next' x = next x) :
    Stack next' none head q := by
  induction q generalizing head with
  | nil => exact h
  | cons x xs ih =>
    refine ⟨h.1, ?_⟩
    rw [hnext x List.mem_cons_self]
    exact ih h.2 fun y hy => hnext y (List.mem_cons_of_mem _ hy)

end MarketData.Chain
