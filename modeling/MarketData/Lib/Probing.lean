import Mathlib.Algebra.Group.Nat.Defs
import Mathlib.Data.List.Nodup
import Mathlib.Data.List.Perm.Basic
import Mathlib.Logic.Function.Basic
import Mathlib.Tactic.SplitIfs

/-!
# `Lib/Probing.lean` — open addressing with backward-shift deletion

A table of a power of two many cells. An entry lives in the first cell from its home cell on that
was free when it was inserted, going round at the end. The table is *chained*: between an entry's
home and its cell nothing is vacant, so a probe that meets a vacant cell has met everything it
could be looking for. Removing an entry would break that for the entries behind it, so each of
those is moved back into the hole unless its home lies behind the hole; the cell it leaves is the
next hole.

Distances are cyclic and measured forwards. A table is a function from cell numbers, of which
only those below the size are looked at.

## Chained but for a hole

While a chain is being closed the table is not chained, and what it is has to be said, or the loop
has no invariant. `Chained` takes a set of cells that count as filled although they are not, and
`Holed` is a table with one of them, in which moreover no entry up to the cell reached so far would
be looked for past the hole. A turn of the loop either leaves an entry where it is, because its home
lies behind the hole, or moves it into the hole and makes a hole of its cell. At a vacant cell the
exception is no longer needed, and **the table is chained without one**.

The comparison that decides is cyclic. `stays` is written as programs write it, with a case for a
range that goes round the end, and is compared with distances once.

How entries are told apart, hashed and marked vacant is a parameter (`Scheme`), and the laws asked
of it are few (`Lawful`); no hash function is assumed to be any good.
-/

set_option autoImplicit false

namespace MarketData.Probing

/-- How entries are told apart and placed in a table of `mask + 1` cells. -/
structure Scheme (K E : Type) where
  mask : Nat
  home : K → Nat
  key : E → K
  vacant : E → Bool
  empty : E

variable {K E : Type}

namespace Scheme

variable (t : Scheme K E)

def size : Nat := t.mask + 1

def next (i : Nat) : Nat := (i + 1) &&& t.mask

/-- Probes for a key from cell `i` on. -/
def probe [DecidableEq K] (cells : Nat → E) (k : K) : Nat → Nat → Option Nat
  | 0, _ => none
  | fuel + 1, i =>
    if t.vacant (cells i) then none
    else if t.key (cells i) = k then some i
    else probe cells k fuel (t.next i)

/-- The cell that holds a key. A probe gives up once it has been all the way round. -/
def find [DecidableEq K] (cells : Nat → E) (k : K) : Option Nat := t.probe cells k (t.size + 1) (t.home k)

/-- The first vacant cell from `i` on. -/
def vacancy (cells : Nat → E) : Nat → Nat → Nat
  | 0, i => i
  | fuel + 1, i => if t.vacant (cells i) then i else vacancy cells fuel (t.next i)

def insert (cells : Nat → E) (e : E) : Nat → E :=
  Function.update cells (t.vacancy cells t.size (t.home (t.key e))) e

/-- Whether an entry at `j` stays there with a hole at `hole`: its home lies cyclically in
`(hole, j]`. -/
def stays (hole j home : Nat) : Bool :=
  if hole ≤ j then decide (hole < home) && decide (home ≤ j)
  else decide (hole < home) || decide (home ≤ j)

/-- Closes the chain behind a hole, with every cell up to `j` seen to. -/
def close : Nat → (hole j : Nat) → (Nat → E) → Nat → E
  | 0, _, _, cells => cells
  | fuel + 1, hole, j, cells =>
    let j := t.next j
    let entry := cells j
    if t.vacant entry then cells
    else if stays hole j (t.home (t.key entry)) then close fuel hole j cells
    else close fuel j j (Function.update (Function.update cells hole entry) j t.empty)

/-- Empties a cell and closes the chain behind it. -/
def removeAt (cells : Nat → E) (hole : Nat) : Nat → E :=
  t.close t.size hole hole (Function.update cells hole t.empty)

/-- The entries in the table, cell by cell. -/
def entries (cells : Nat → E) : List E :=
  ((List.range t.size).map cells).filter fun e => !t.vacant e

/-- A power of two many cells, every home among them, and an empty cell that is vacant. -/
structure Lawful : Prop where
  power : ∃ k, t.size = 2 ^ k
  home_lt : ∀ k, t.home k < t.size
  vacant_empty : t.vacant t.empty = true

end Scheme

/-- The steps from `a` forwards to `b` in a ring of `n` cells. -/
def dist (n a b : Nat) : Nat := if a ≤ b then b - a else b + n - a

variable {t : Scheme K E} {cells : Nat → E}

/-- Nothing is vacant between an entry's home and its cell, but for the cells in `holes`. -/
def Chained (t : Scheme K E) (cells : Nat → E) (holes : Nat → Prop) : Prop :=
  ∀ p < t.size, t.vacant (cells p) = false → ∀ x < t.size,
    dist t.size (t.home (t.key (cells p))) x < dist t.size (t.home (t.key (cells p))) p →
      t.vacant (cells x) = false ∨ holes x

/-- No key has two entries. -/
def Distinct (t : Scheme K E) (cells : Nat → E) : Prop :=
  ∀ p < t.size, ∀ q < t.size, t.vacant (cells p) = false → t.vacant (cells q) = false →
    t.key (cells p) = t.key (cells q) → p = q

/-- A table every probe of which ends where it should. -/
structure Table (t : Scheme K E) (cells : Nat → E) : Prop where
  chained : Chained t cells fun _ => False
  distinct : Distinct t cells

section Ring

variable {n a b c : Nat}

theorem dist_self (n a : Nat) : dist n a a = 0 := by
  rw [dist, if_pos (Nat.le_refl a), Nat.sub_self]

theorem dist_lt (ha : a < n) (hb : b < n) : dist n a b < n := by
  unfold dist
  split <;> omega

theorem dist_inj (ha : a < n) (hb : b < n) (hc : c < n) (h : dist n a b = dist n a c) : b = c := by
  unfold dist at h
  split_ifs at h <;> omega

theorem Scheme.Lawful.next_eq (ht : t.Lawful) (i : Nat) : t.next i = (i + 1) % t.size := by
  obtain ⟨k, hk⟩ := ht.power
  have hmask : t.mask = 2 ^ k - 1 := by
    rw [← hk]
    rfl
  rw [Scheme.next, hmask, Nat.and_two_pow_sub_one_eq_mod, hk]

theorem Scheme.Lawful.next_lt (ht : t.Lawful) (i : Nat) : t.next i < t.size := by
  rw [ht.next_eq]
  exact Nat.mod_lt _ (Nat.succ_pos _)

/-- A step forwards is one further from everything but the cell it comes back to. -/
theorem Scheme.Lawful.dist_next (ht : t.Lawful) (ha : a < t.size) (hb : b < t.size)
    (hlast : dist t.size a b + 1 < t.size) :
    dist t.size a (t.next b) = dist t.size a b + 1 := by
  rw [ht.next_eq]
  by_cases hwrap : b + 1 = t.size
  · rw [hwrap, Nat.mod_self]
    unfold dist at hlast ⊢
    split at hlast <;> split <;> omega
  · rw [Nat.mod_eq_of_lt (by omega)]
    unfold dist at hlast ⊢
    split at hlast <;> split <;> omega

end Ring

/-! ## Probing -/

theorem mem_entries {e : E} :
    e ∈ t.entries cells ↔ ∃ p < t.size, cells p = e ∧ t.vacant e = false := by
  simp only [Scheme.entries, List.mem_filter, List.mem_map, List.mem_range, Bool.not_eq_true']
  constructor
  · rintro ⟨⟨p, hp, rfl⟩, hvacant⟩
    exact ⟨p, hp, rfl, hvacant⟩
  · rintro ⟨p, hp, rfl, hvacant⟩
    exact ⟨⟨p, hp, rfl⟩, hvacant⟩

theorem Table.nodup (h : Table t cells) : ((t.entries cells).map t.key).Nodup := by
  have hinj : ∀ p ∈ (List.range t.size).filter (fun p => !t.vacant (cells p)),
      ∀ q ∈ (List.range t.size).filter (fun p => !t.vacant (cells p)),
      t.key (cells p) = t.key (cells q) → p = q := by
    intro p hp q hq heq
    simp only [List.mem_filter, List.mem_range, Bool.not_eq_true'] at hp hq
    exact h.distinct p hp.1 q hq.1 hp.2 hq.2 heq
  have hlist : (t.entries cells).map t.key =
      ((List.range t.size).filter fun p => !t.vacant (cells p)).map fun p => t.key (cells p) := by
    rw [Scheme.entries, List.filter_map, List.map_map]
    rfl
  rw [hlist]
  exact List.Nodup.map_on hinj (List.nodup_range.filter _)

/-- A table that is not full has a vacant cell. -/
theorem exists_vacant (h : (t.entries cells).length < t.size) :
    ∃ v < t.size, t.vacant (cells v) = true := by
  by_contra hnone
  push Not at hnone
  have hall : t.entries cells = (List.range t.size).map cells := by
    rw [Scheme.entries, List.filter_eq_self]
    intro e he
    obtain ⟨p, hp, rfl⟩ := List.mem_map.mp he
    simpa using hnone p (List.mem_range.mp hp)
  rw [hall, List.length_map, List.length_range] at h
  exact Nat.lt_irrefl _ h

/-- Where a probe ends: at the key, or at the first vacant cell without having met it. -/
theorem probe_spec [DecidableEq K] (ht : t.Lawful) {k : K} {v : Nat} (hv : v < t.size)
    (hvacant : t.vacant (cells v) = true) (fuel : Nat) {i : Nat} (hi : i < t.size)
    (hbefore : ∀ x < t.size, dist t.size (t.home k) x < dist t.size (t.home k) i →
      t.vacant (cells x) = false ∧ t.key (cells x) ≠ k)
    (hfuel : dist t.size (t.home k) v < dist t.size (t.home k) i + fuel) :
    match t.probe cells k fuel i with
    | some p => p < t.size ∧ t.vacant (cells p) = false ∧ t.key (cells p) = k
    | none => ∃ w < t.size, t.vacant (cells w) = true ∧
        ∀ x < t.size, dist t.size (t.home k) x < dist t.size (t.home k) w →
          t.key (cells x) ≠ k := by
  induction fuel generalizing i with
  | zero =>
    -- the vacant cell would have been passed already
    have hpassed := hbefore v hv hfuel
    rw [hvacant] at hpassed
    cases hpassed.1
  | succ fuel ih =>
    rw [Scheme.probe]
    by_cases hstop : t.vacant (cells i) = true
    · rw [if_pos hstop]
      exact ⟨i, hi, hstop, fun x hx hlt => (hbefore x hx hlt).2⟩
    · rw [if_neg hstop]
      by_cases hkey : t.key (cells i) = k
      · rw [if_pos hkey]
        exact ⟨hi, (Bool.not_eq_true _).mp hstop, hkey⟩
      · rw [if_neg hkey]
        have hhome := ht.home_lt k
        have hle : dist t.size (t.home k) i < dist t.size (t.home k) v := by
          by_contra hge
          rcases Nat.lt_or_eq_of_le (Nat.le_of_not_lt hge) with hlt | heq
          · have hpassed := (hbefore v hv hlt).1
            rw [hvacant] at hpassed
            cases hpassed
          · rw [dist_inj hhome hv hi heq] at hvacant
            exact hstop hvacant
        have hvlt := dist_lt hhome hv
        have hnext := ht.dist_next hhome hi (by omega)
        apply ih (ht.next_lt i)
        · intro x hx hlt
          rw [hnext] at hlt
          rcases Nat.lt_or_eq_of_le (Nat.le_of_lt_succ hlt) with hlt' | heq
          · exact hbefore x hx hlt'
          · rw [dist_inj hhome hx hi heq]
            exact ⟨(Bool.not_eq_true _).mp hstop, hkey⟩
        · rw [hnext]
          omega

/-- **What a probe finds is there.** -/
theorem Table.find_eq_some [DecidableEq K] (ht : t.Lawful)
    (hroom : (t.entries cells).length < t.size) {k : K} {p : Nat} (hfind : t.find cells k = some p) :
    p < t.size ∧ t.vacant (cells p) = false ∧ t.key (cells p) = k := by
  obtain ⟨v, hv, hvacant⟩ := exists_vacant hroom
  have hhome := ht.home_lt k
  have hspec := probe_spec (k := k) ht hv hvacant (t.size + 1) hhome
    (fun x _ hlt => by rw [dist_self] at hlt; exact absurd hlt (Nat.not_lt_zero _))
    (by have := dist_lt hhome hv; omega)
  rw [Scheme.find] at hfind
  rw [hfind] at hspec
  exact hspec

/-- **What a probe does not find is not there.** -/
theorem Table.find_eq_none [DecidableEq K] (h : Table t cells) (ht : t.Lawful)
    (hroom : (t.entries cells).length < t.size) {k : K} (hfind : t.find cells k = none) :
    ∀ e ∈ t.entries cells, t.key e ≠ k := by
  obtain ⟨v, hv, hvacant⟩ := exists_vacant hroom
  have hhome := ht.home_lt k
  have hspec := probe_spec (k := k) ht hv hvacant (t.size + 1) hhome
    (fun x _ hlt => by rw [dist_self] at hlt; exact absurd hlt (Nat.not_lt_zero _))
    (by have := dist_lt hhome hv; omega)
  rw [Scheme.find] at hfind
  rw [hfind] at hspec
  obtain ⟨w, hw, hwvacant, hbefore⟩ := hspec
  rintro e he rfl
  obtain ⟨p, hp, rfl, hoccupied⟩ := mem_entries.mp he
  -- the entry cannot lie before the vacant cell, at it, or beyond it
  rcases Nat.lt_trichotomy (dist t.size (t.home (t.key (cells p))) p)
    (dist t.size (t.home (t.key (cells p))) w) with hlt | heq | hgt
  · exact hbefore p hp hlt rfl
  · rw [dist_inj hhome hp hw heq, hwvacant] at hoccupied
    cases hoccupied
  · cases h.chained p hp hoccupied w hw hgt with
    | inl hoccupied' =>
      rw [hwvacant] at hoccupied'
      cases hoccupied'
    | inr hfalse => exact hfalse

/-! ## Inserting -/

theorem vacancy_spec (ht : t.Lawful) {h v : Nat} (hh : h < t.size) (hv : v < t.size)
    (hvacant : t.vacant (cells v) = true) (fuel : Nat) {i : Nat} (hi : i < t.size)
    (hbefore : ∀ x < t.size, dist t.size h x < dist t.size h i → t.vacant (cells x) = false)
    (hfuel : dist t.size h v < dist t.size h i + fuel) :
    t.vacancy cells fuel i < t.size ∧ t.vacant (cells (t.vacancy cells fuel i)) = true ∧
    ∀ x < t.size, dist t.size h x < dist t.size h (t.vacancy cells fuel i) →
      t.vacant (cells x) = false := by
  induction fuel generalizing i with
  | zero =>
    have hpassed := hbefore v hv hfuel
    rw [hvacant] at hpassed
    cases hpassed
  | succ fuel ih =>
    rw [Scheme.vacancy]
    by_cases hstop : t.vacant (cells i) = true
    · rw [if_pos hstop]
      exact ⟨hi, hstop, hbefore⟩
    · rw [if_neg hstop]
      have hle : dist t.size h i < dist t.size h v := by
        by_contra hge
        rcases Nat.lt_or_eq_of_le (Nat.le_of_not_lt hge) with hlt | heq
        · have hpassed := hbefore v hv hlt
          rw [hvacant] at hpassed
          cases hpassed
        · rw [dist_inj hh hv hi heq] at hvacant
          exact hstop hvacant
      have hvlt := dist_lt hh hv
      have hnext := ht.dist_next hh hi (by omega)
      apply ih (ht.next_lt i)
      · intro x hx hlt
        rw [hnext] at hlt
        rcases Nat.lt_or_eq_of_le (Nat.le_of_lt_succ hlt) with hlt' | heq
        · exact hbefore x hx hlt'
        · rw [dist_inj hh hx hi heq]
          exact (Bool.not_eq_true _).mp hstop
      · rw [hnext]
        omega

/-- **Inserting an absent key** adds its entry and nothing else. -/
theorem Table.insert (h : Table t cells) (ht : t.Lawful)
    (hroom : (t.entries cells).length < t.size) {e : E} (he : t.vacant e = false)
    (hnew : ∀ e' ∈ t.entries cells, t.key e' ≠ t.key e) :
    Table t (t.insert cells e) ∧
    ∀ e', e' ∈ t.entries (t.insert cells e) ↔ e' = e ∨ e' ∈ t.entries cells := by
  obtain ⟨v, hv, hvacant⟩ := exists_vacant hroom
  have hhome := ht.home_lt (t.key e)
  obtain ⟨hi, hivacant, hbefore⟩ := vacancy_spec ht hhome hv hvacant t.size hhome
    (fun x _ hlt => by rw [dist_self] at hlt; exact absurd hlt (Nat.not_lt_zero _))
    (by have := dist_lt hhome hv; omega)
  rw [Scheme.insert]
  generalize t.vacancy cells t.size (t.home (t.key e)) = i at hi hivacant hbefore ⊢
  -- a cell that was taken before still is
  have hkept : ∀ x, t.vacant (cells x) = false → t.vacant (Function.update cells i e x) = false := by
    intro x hx
    by_cases hxi : x = i
    · rw [hxi, Function.update_self]
      exact he
    · rw [Function.update_of_ne hxi]
      exact hx
  refine ⟨⟨?_, ?_⟩, ?_⟩
  · intro p hp hoccupied x hx hlt
    left
    by_cases hpi : p = i
    · rw [hpi, Function.update_self] at hlt
      exact hkept x (hbefore x hx hlt)
    · rw [Function.update_of_ne hpi] at hoccupied hlt
      cases h.chained p hp hoccupied x hx hlt with
      | inl hx' => exact hkept x hx'
      | inr hfalse => exact hfalse.elim
  · have hother : ∀ p < t.size, p ≠ i → t.vacant (Function.update cells i e p) = false →
        t.key (Function.update cells i e p) ≠ t.key e := by
      intro p hp hpi hoccupied
      rw [Function.update_of_ne hpi] at hoccupied ⊢
      exact hnew _ (mem_entries.mpr ⟨p, hp, rfl, hoccupied⟩)
    intro p hp q hq hpo hqo hkey
    by_cases hpi : p = i
    · by_contra hne
      have hqi : q ≠ i := fun hqi => hne (hpi.trans hqi.symm)
      rw [hpi, Function.update_self] at hkey
      exact hother q hq hqi hqo hkey.symm
    · by_cases hqi : q = i
      · rw [hqi, Function.update_self] at hkey
        exact absurd hkey (hother p hp hpi hpo)
      · rw [Function.update_of_ne hpi] at hpo hkey
        rw [Function.update_of_ne hqi] at hqo hkey
        exact h.distinct p hp q hq hpo hqo hkey
  · intro e'
    rw [mem_entries, mem_entries]
    constructor
    · rintro ⟨p, hp, rfl, hoccupied⟩
      by_cases hpi : p = i
      · left
        rw [hpi, Function.update_self]
      · right
        rw [Function.update_of_ne hpi] at hoccupied ⊢
        exact ⟨p, hp, rfl, hoccupied⟩
    · rintro (rfl | ⟨p, hp, rfl, hoccupied⟩)
      · exact ⟨i, hi, Function.update_self .., he⟩
      · have hpi : p ≠ i := by
          rintro rfl
          rw [hivacant] at hoccupied
          cases hoccupied
        exact ⟨p, hp, Function.update_of_ne hpi .., hoccupied⟩

/-! ## Removing -/

section Ring

variable {n a b c x : Nat}

/-- A cell that lies before another splits the way to it. -/
theorem dist_split (ha : a < n) (hb : b < n) (hc : c < n) (h : dist n a b < dist n a c) :
    dist n a c = dist n a b + dist n b c := by
  unfold dist at h ⊢
  split_ifs at h ⊢ <;> omega

/-- Between the two, the way goes on. -/
theorem dist_add (ha : a < n) (hb : b < n) (h : dist n a b + dist n b x < n) :
    dist n a x = dist n a b + dist n b x := by
  unfold dist at h ⊢
  split_ifs at h ⊢ <;> omega

theorem dist_pos (ha : a < n) (hne : a ≠ b) : 0 < dist n a b := by
  unfold dist
  split <;> omega

theorem stays_iff (ha : a < n) (hb : b < n) (hc : c < n) (hne : a ≠ b) :
    Scheme.stays a b c = true ↔ ¬ dist n c a < dist n c b := by
  unfold Scheme.stays dist
  split <;> simp only [Bool.and_eq_true, Bool.or_eq_true, decide_eq_true_eq] <;> split <;>
    split <;> omega

end Ring

/-- The chain is whole but for one hole, and no entry up to `j` probes past it. -/
structure Holed (t : Scheme K E) (cells : Nat → E) (hole j : Nat) : Prop where
  hole_lt : hole < t.size
  vacant : t.vacant (cells hole) = true
  distinct : Distinct t cells
  chained : Chained t cells (· = hole)
  seen : ∀ x < t.size, 0 < dist t.size hole x → dist t.size hole x ≤ dist t.size hole j →
    ¬ dist t.size (t.home (t.key (cells x))) hole < dist t.size (t.home (t.key (cells x))) x

variable {hole j : Nat}

/-- A vacant cell right behind the cells seen to: the chain is whole. -/
theorem Holed.whole (h : Holed t cells hole j) (ht : t.Lawful) {w : Nat} (hw : w < t.size)
    (hnext : dist t.size hole w = dist t.size hole j + 1) (hvacant : t.vacant (cells w) = true) :
    Table t cells := by
  refine ⟨?_, h.distinct⟩
  intro p hp hoccupied x hx hlt
  cases h.chained p hp hoccupied x hx hlt with
  | inl hx' => exact Or.inl hx'
  | inr hhole =>
    -- an entry that probed past the hole would probe past the vacant cell as well
    subst hhole
    exfalso
    have hhome := ht.home_lt (t.key (cells p))
    have hne : x ≠ p := by
      rintro rfl
      exact Nat.lt_irrefl _ hlt
    have hsplit := dist_split hhome h.hole_lt hp hlt
    have hplt := dist_lt hhome hp
    have hbeyond : dist t.size x j < dist t.size x p := by
      by_contra hle
      exact h.seen p hp (dist_pos h.hole_lt hne) (Nat.le_of_not_lt hle) hlt
    have hpw : dist t.size x w ≠ dist t.size x p := by
      intro heq
      rw [dist_inj h.hole_lt hw hp heq, hoccupied] at hvacant
      cases hvacant
    have hway := dist_add (x := w) hhome h.hole_lt (by omega)
    cases h.chained p hp hoccupied w hw (by omega) with
    | inl hoccupied' =>
      rw [hvacant] at hoccupied'
      cases hoccupied'
    | inr heq =>
      rw [heq, dist_self] at hnext
      omega

/-- An entry that does not probe past the hole stays. -/
theorem Holed.skip (h : Holed t cells hole j) (ht : t.Lawful) {w : Nat} (hw : w < t.size)
    (hnext : dist t.size hole w = dist t.size hole j + 1)
    (hstays : Scheme.stays hole w (t.home (t.key (cells w))) = true) : Holed t cells hole w := by
  refine ⟨h.hole_lt, h.vacant, h.distinct, h.chained, ?_⟩
  intro x hx hpos hle
  rcases Nat.lt_or_eq_of_le hle with hlt | heq
  · exact h.seen x hx hpos (by omega)
  · rw [dist_inj h.hole_lt hx hw heq]
    have hne : hole ≠ w := by
      rintro rfl
      rw [dist_self] at hnext
      omega
    exact (stays_iff h.hole_lt hw (ht.home_lt _) hne).mp hstays

/-- An entry that probes past the hole moves into it and leaves a hole behind. -/
theorem Holed.shift (h : Holed t cells hole j) (ht : t.Lawful) {w : Nat} (hw : w < t.size)
    (hne : hole ≠ w) (hoccupied : t.vacant (cells w) = false)
    (hmoves : Scheme.stays hole w (t.home (t.key (cells w))) = false) :
    let cells' := Function.update (Function.update cells hole (cells w)) w t.empty
    Holed t cells' w w ∧ ∀ e, e ∈ t.entries cells' ↔ e ∈ t.entries cells := by
  intro cells'
  have hat : cells' w = t.empty := Function.update_self ..
  have hathole : cells' hole = cells w := by
    rw [show cells' hole = Function.update cells hole (cells w) hole from
      Function.update_of_ne hne .., Function.update_self]
  have hother : ∀ x, x ≠ hole → x ≠ w → cells' x = cells x := by
    intro x hxh hxw
    rw [show cells' x = Function.update cells hole (cells w) x from Function.update_of_ne hxw ..,
      Function.update_of_ne hxh]
  have hpast : dist t.size (t.home (t.key (cells w))) hole <
      dist t.size (t.home (t.key (cells w))) w := by
    by_contra hnot
    rw [(stays_iff h.hole_lt hw (ht.home_lt _) hne).mpr hnot] at hmoves
    cases hmoves
  -- where the entry of a cell was before the move
  have hfrom : ∀ p < t.size, t.vacant (cells' p) = false →
      ∃ q < t.size, cells q = cells' p ∧ t.vacant (cells q) = false ∧
        (p = hole ∧ q = w ∨ p ≠ hole ∧ p ≠ w ∧ q = p) := by
    intro p hp hpo
    by_cases hph : p = hole
    · refine ⟨w, hw, ?_, hoccupied, Or.inl ⟨hph, rfl⟩⟩
      rw [hph, hathole]
    · by_cases hpw : p = w
      · rw [hpw, hat, ht.vacant_empty] at hpo
        cases hpo
      · rw [hother p hph hpw] at hpo ⊢
        exact ⟨p, hp, rfl, hpo, Or.inr ⟨hph, hpw, rfl⟩⟩
  refine ⟨⟨hw, by rw [hat]; exact ht.vacant_empty, ?_, ?_, ?_⟩, ?_⟩
  · intro p hp p' hp' hpo hpo' hkey
    obtain ⟨q, hq, hcell, hqo, hcase⟩ := hfrom p hp hpo
    obtain ⟨q', hq', hcell', hqo', hcase'⟩ := hfrom p' hp' hpo'
    rw [← hcell, ← hcell'] at hkey
    have hqq := h.distinct q hq q' hq' hqo hqo' hkey
    rcases hcase with ⟨rfl, rfl⟩ | ⟨hph, hpw, rfl⟩ <;>
      rcases hcase' with ⟨rfl, rfl⟩ | ⟨hph', hpw', rfl⟩
    · rfl
    · exact absurd hqq.symm hpw'
    · exact absurd hqq hpw
    · exact hqq
  · intro p hp hpo x hx hlt
    obtain ⟨q, hq, hcell, hqo, hcase⟩ := hfrom p hp hpo
    by_cases hxw : x = w
    · exact Or.inr hxw
    · left
      rcases hcase with ⟨rfl, rfl⟩ | ⟨hph, hpw, rfl⟩
      · rw [hathole] at hlt
        have hxh : x ≠ p := by
          rintro rfl
          exact Nat.lt_irrefl _ hlt
        rw [hother x hxh hxw]
        cases h.chained q hq hqo x hx (Nat.lt_trans hlt hpast) with
        | inl hx' => exact hx'
        | inr heq => exact absurd heq hxh
      · rw [hother q hph hpw] at hlt
        cases h.chained q hp hqo x hx hlt with
        | inl hx' =>
          have hxh : x ≠ hole := by
            rintro rfl
            rw [h.vacant] at hx'
            cases hx'
          rw [hother x hxh hxw]
          exact hx'
        | inr heq =>
          rw [heq, hathole]
          exact hoccupied
  · intro x _ hpos hle
    rw [dist_self] at hle
    omega
  · intro e
    rw [mem_entries, mem_entries]
    constructor
    · rintro ⟨p, hp, rfl, hpo⟩
      obtain ⟨q, hq, hcell, hqo, -⟩ := hfrom p hp hpo
      exact ⟨q, hq, hcell, hpo⟩
    · rintro ⟨q, hq, rfl, hqo⟩
      by_cases hqw : q = w
      · exact ⟨hole, h.hole_lt, by rw [hathole, hqw], hqo⟩
      · have hqh : q ≠ hole := by
          rintro rfl
          rw [h.vacant] at hqo
          cases hqo
        exact ⟨q, hq, hother q hqh hqw, hqo⟩

/-- Closing the chain: every turn sees to one more cell, up to the first vacant one. -/
theorem Holed.close (ht : t.Lawful) {v : Nat} (hv : v < t.size) (fuel : Nat) :
    ∀ {cells : Nat → E} {hole j : Nat}, Holed t cells hole j → j < t.size →
      t.vacant (cells v) = true → dist t.size hole j < dist t.size hole v →
      dist t.size hole v ≤ dist t.size hole j + fuel →
      Table t (t.close fuel hole j cells) ∧
      ∀ e, e ∈ t.entries (t.close fuel hole j cells) ↔ e ∈ t.entries cells := by
  induction fuel with
  | zero =>
    intro cells hole j _ _ _ hlt hle
    omega
  | succ fuel ih =>
    intro cells hole j h hj hvacant hlt hle
    have hvlt := dist_lt h.hole_lt hv
    have hnext := ht.dist_next h.hole_lt hj (by omega)
    have hw := ht.next_lt j
    rw [Scheme.close]
    by_cases hstop : t.vacant (cells (t.next j)) = true
    · rw [if_pos hstop]
      exact ⟨h.whole ht hw hnext hstop, fun e => Iff.rfl⟩
    · rw [if_neg hstop]
      have hoccupied := (Bool.not_eq_true _).mp hstop
      have hvw : dist t.size hole (t.next j) ≠ dist t.size hole v := by
        intro heq
        rw [dist_inj h.hole_lt hw hv heq] at hstop
        exact hstop hvacant
      by_cases hstays : Scheme.stays hole (t.next j) (t.home (t.key (cells (t.next j)))) = true
      · rw [if_pos hstays]
        exact ih (h.skip ht hw hnext hstays) hw hvacant (by omega) (by omega)
      · rw [if_neg hstays]
        have hne : hole ≠ t.next j := by
          intro heq
          rw [← heq, dist_self] at hnext
          omega
        obtain ⟨hshift, hentries⟩ :=
          h.shift ht hw hne hoccupied ((Bool.not_eq_true _).mp hstays)
        have hway := dist_split h.hole_lt hw hv (by omega)
        have hvhole : v ≠ hole := by
          rintro rfl
          rw [dist_self] at hlt
          omega
        have hvnext : v ≠ t.next j := fun heq => hvw (by rw [heq])
        have hvacant' : t.vacant (Function.update (Function.update cells hole (cells (t.next j)))
            (t.next j) t.empty v) = true := by
          rw [Function.update_of_ne hvnext, Function.update_of_ne hvhole]
          exact hvacant
        obtain ⟨htable, hsame⟩ := ih hshift hw hvacant' (by rw [dist_self]; omega)
          (by rw [dist_self]; omega)
        exact ⟨htable, fun e => (hsame e).trans (hentries e)⟩

/-- **Removing an entry** takes its key out of the table and nothing else. -/
theorem Table.removeAt (h : Table t cells) (ht : t.Lawful)
    (hroom : (t.entries cells).length < t.size) {p : Nat} (hp : p < t.size)
    (hoccupied : t.vacant (cells p) = false) :
    Table t (t.removeAt cells p) ∧
    ∀ e, e ∈ t.entries (t.removeAt cells p) ↔
      e ∈ t.entries cells ∧ t.key e ≠ t.key (cells p) := by
  obtain ⟨v, hv, hvacant⟩ := exists_vacant hroom
  have hvp : v ≠ p := by
    rintro rfl
    rw [hvacant] at hoccupied
    cases hoccupied
  have hother : ∀ x, x ≠ p → Function.update cells p t.empty x = cells x :=
    fun x hx => Function.update_of_ne hx ..
  -- an occupied cell of the emptied table is another cell of the old one
  have hstill : ∀ q, t.vacant (Function.update cells p t.empty q) = false → q ≠ p := by
    rintro q hqo rfl
    rw [Function.update_self, ht.vacant_empty] at hqo
    cases hqo
  have hholed : Holed t (Function.update cells p t.empty) p p := by
    refine ⟨hp, by rw [Function.update_self]; exact ht.vacant_empty, ?_, ?_, ?_⟩
    · intro q hq q' hq' hqo hqo' hkey
      have hqp := hstill q hqo
      have hqp' := hstill q' hqo'
      rw [hother q hqp] at hqo hkey
      rw [hother q' hqp'] at hqo' hkey
      exact h.distinct q hq q' hq' hqo hqo' hkey
    · intro q hq hqo x hx hlt
      have hqp := hstill q hqo
      rw [hother q hqp] at hqo hlt
      by_cases hxp : x = p
      · exact Or.inr hxp
      · left
        rw [hother x hxp]
        cases h.chained q hq hqo x hx hlt with
        | inl hx' => exact hx'
        | inr hfalse => exact hfalse.elim
    · intro x _ hpos hle
      rw [dist_self] at hle
      omega
  have hpos := dist_pos hp (Ne.symm hvp)
  have hvlt := dist_lt hp hv
  obtain ⟨htable, hentries⟩ := Holed.close ht hv t.size hholed hp
    (by rw [hother v hvp]; exact hvacant) (by rw [dist_self]; exact hpos)
    (by rw [dist_self]; omega)
  refine ⟨htable, fun e => ?_⟩
  rw [Scheme.removeAt, hentries, mem_entries, mem_entries]
  constructor
  · rintro ⟨q, hq, rfl, hqo⟩
    have hqp := hstill q hqo
    rw [hother q hqp] at hqo ⊢
    refine ⟨⟨q, hq, rfl, hqo⟩, fun hkey => hqp ?_⟩
    exact h.distinct q hq p hp hqo hoccupied hkey
  · rintro ⟨⟨q, hq, rfl, hqo⟩, hkey⟩
    have hqp : q ≠ p := by
      rintro rfl
      exact hkey rfl
    exact ⟨q, hq, hother q hqp, hqo⟩

/-! ## Replacing -/

/-- **Replacing an entry in its cell** by one of the same key changes nothing else. -/
theorem Table.replaceAt (h : Table t cells) {p : Nat} (hp : p < t.size)
    (hoccupied : t.vacant (cells p) = false) {e : E} (he : t.vacant e = false)
    (hkey : t.key e = t.key (cells p)) :
    Table t (Function.update cells p e) ∧
    ∀ e', e' ∈ t.entries (Function.update cells p e) ↔
      e' = e ∨ (e' ∈ t.entries cells ∧ t.key e' ≠ t.key e) := by
  have hvacant : ∀ x, t.vacant (Function.update cells p e x) = t.vacant (cells x) := by
    intro x
    by_cases hx : x = p
    · rw [hx, Function.update_self, he, hoccupied]
    · rw [Function.update_of_ne hx]
  have hkeys : ∀ x, t.key (Function.update cells p e x) = t.key (cells x) := by
    intro x
    by_cases hx : x = p
    · rw [hx, Function.update_self, hkey]
    · rw [Function.update_of_ne hx]
  refine ⟨⟨?_, ?_⟩, fun e' => ?_⟩
  · intro q hq hqo x hx hlt
    rw [hvacant] at hqo ⊢
    rw [hkeys] at hlt
    exact h.chained q hq hqo x hx hlt
  · intro q hq q' hq' hqo hqo' heq
    rw [hvacant] at hqo hqo'
    rw [hkeys, hkeys] at heq
    exact h.distinct q hq q' hq' hqo hqo' heq
  · rw [mem_entries, mem_entries]
    constructor
    · rintro ⟨q, hq, rfl, hqo⟩
      by_cases hqp : q = p
      · left
        rw [hqp, Function.update_self]
      · right
        rw [Function.update_of_ne hqp] at hqo ⊢
        refine ⟨⟨q, hq, rfl, hqo⟩, fun heq => hqp ?_⟩
        exact h.distinct q hq p hp hqo hoccupied (heq.trans hkey)
    · rintro (rfl | ⟨⟨q, hq, rfl, hqo⟩, hne⟩)
      · exact ⟨p, hp, Function.update_self .., he⟩
      · have hqp : q ≠ p := by
          rintro rfl
          exact hne hkey.symm
        exact ⟨q, hq, Function.update_of_ne hqp .., hqo⟩

/-! ## The entries as a list -/

/-- A table's entries are the given ones in some order if they are the same and these are told
apart by their keys. -/
theorem Table.entries_perm (h : Table t cells) {es : List E} (hes : (es.map t.key).Nodup)
    (hmem : ∀ e, e ∈ t.entries cells ↔ e ∈ es) : (t.entries cells).Perm es :=
  (List.perm_ext_iff_of_nodup (List.Nodup.of_map _ h.nodup) (List.Nodup.of_map _ hes)).mpr hmem

theorem Table.insert_perm (h : Table t cells) (ht : t.Lawful)
    (hroom : (t.entries cells).length < t.size) {e : E} (he : t.vacant e = false)
    (hnew : ∀ e' ∈ t.entries cells, t.key e' ≠ t.key e) :
    (t.entries (t.insert cells e)).Perm (e :: t.entries cells) := by
  obtain ⟨htable, hmem⟩ := h.insert ht hroom he hnew
  refine htable.entries_perm ?_ fun e' => (hmem e').trans List.mem_cons.symm
  refine List.nodup_cons.mpr ⟨fun hin => ?_, h.nodup⟩
  obtain ⟨e', he', hkey⟩ := List.mem_map.mp hin
  exact hnew e' he' hkey

/-- The keys of what is left without the entry of a cell. -/
theorem Table.nodup_cons_removeAt (h : Table t cells) (ht : t.Lawful)
    (hroom : (t.entries cells).length < t.size) {p : Nat} (hp : p < t.size)
    (hoccupied : t.vacant (cells p) = false) {e : E} (hkey : t.key e = t.key (cells p)) :
    ((e :: t.entries (t.removeAt cells p)).map t.key).Nodup := by
  obtain ⟨htable, hmem⟩ := h.removeAt ht hroom hp hoccupied
  refine List.nodup_cons.mpr ⟨fun hin => ?_, htable.nodup⟩
  obtain ⟨e', he', heq⟩ := List.mem_map.mp hin
  exact ((hmem e').mp he').2 (heq.trans hkey)

theorem Table.removeAt_perm (h : Table t cells) (ht : t.Lawful)
    (hroom : (t.entries cells).length < t.size) {p : Nat} (hp : p < t.size)
    (hoccupied : t.vacant (cells p) = false) :
    (t.entries cells).Perm (cells p :: t.entries (t.removeAt cells p)) := by
  obtain ⟨-, hmem⟩ := h.removeAt ht hroom hp hoccupied
  refine h.entries_perm (h.nodup_cons_removeAt ht hroom hp hoccupied rfl) fun e => ?_
  rw [List.mem_cons, hmem]
  constructor
  · intro he
    by_cases hkey : t.key e = t.key (cells p)
    · left
      obtain ⟨q, hq, rfl, hqo⟩ := mem_entries.mp he
      rw [h.distinct q hq p hp hqo hoccupied hkey]
    · exact .inr ⟨he, hkey⟩
  · rintro (rfl | ⟨he, -⟩)
    · exact mem_entries.mpr ⟨p, hp, rfl, hoccupied⟩
    · exact he

theorem Table.replaceAt_perm (h : Table t cells) (ht : t.Lawful)
    (hroom : (t.entries cells).length < t.size) {p : Nat} (hp : p < t.size)
    (hoccupied : t.vacant (cells p) = false) {e : E} (he : t.vacant e = false)
    (hkey : t.key e = t.key (cells p)) :
    (t.entries (Function.update cells p e)).Perm (e :: t.entries (t.removeAt cells p)) := by
  obtain ⟨-, hremoved⟩ := h.removeAt ht hroom hp hoccupied
  obtain ⟨htable, hmem⟩ := h.replaceAt hp hoccupied he hkey
  refine htable.entries_perm (h.nodup_cons_removeAt ht hroom hp hoccupied hkey) fun e' => ?_
  rw [hmem, List.mem_cons, hremoved, hkey]

/-! ## Taking an insertion back -/

/-- With the chain whole no entry probes past a vacant cell, so closing it moves none. -/
theorem Table.close_eq (h : Table t cells) (ht : t.Lawful) {hole : Nat} (hhole : hole < t.size)
    (hvacant : t.vacant (cells hole) = true) (fuel j : Nat) :
    t.close fuel hole j cells = cells := by
  induction fuel generalizing j with
  | zero => rfl
  | succ fuel ih =>
    rw [Scheme.close]
    by_cases hstop : t.vacant (cells (t.next j)) = true
    · rw [if_pos hstop]
    · have hw := ht.next_lt j
      have hne : hole ≠ t.next j := by
        intro heq
        rw [← heq] at hstop
        exact hstop hvacant
      have hstays : Scheme.stays hole (t.next j) (t.home (t.key (cells (t.next j)))) = true := by
        refine (stays_iff hhole hw (ht.home_lt _) hne).mpr fun hpast => ?_
        cases h.chained _ hw ((Bool.not_eq_true _).mp hstop) hole hhole hpast with
        | inl hoccupied =>
          rw [hvacant] at hoccupied
          cases hoccupied
        | inr hfalse => exact hfalse
      rw [if_neg hstop, if_pos hstays]
      exact ih (t.next j)

/-- What is in a vacant cell does not matter to a probe. -/
theorem find_update_vacant [DecidableEq K] {i : Nat} {e : E} (hi : t.vacant (cells i) = true)
    (he : t.vacant e = true) (k : K) : t.find (Function.update cells i e) k = t.find cells k := by
  suffices h : ∀ fuel j, t.probe (Function.update cells i e) k fuel j = t.probe cells k fuel j from
    h _ _
  intro fuel
  induction fuel with
  | zero => exact fun j => rfl
  | succ fuel ih =>
    intro j
    rw [Scheme.probe, Scheme.probe, ih]
    by_cases hj : j = i
    · rw [hj, Function.update_self, if_pos he, if_pos hi]
    · rw [Function.update_of_ne hj]

theorem Table.update_vacant (h : Table t cells) {i : Nat} {e : E} (hi : t.vacant (cells i) = true)
    (he : t.vacant e = true) : Table t (Function.update cells i e) := by
  have hsame : ∀ x, t.vacant (Function.update cells i e x) = false ∨ t.vacant (cells x) = false →
      Function.update cells i e x = cells x := by
    intro x hx
    by_cases hxi : x = i
    · subst hxi
      rw [Function.update_self, he, hi] at hx
      simp at hx
    · exact Function.update_of_ne hxi ..
  refine ⟨?_, ?_⟩
  · intro p hp hoccupied x hx hlt
    have hcell := hsame p (.inl hoccupied)
    rw [hcell] at hoccupied hlt
    refine (h.chained p hp hoccupied x hx hlt).imp (fun hx' => ?_) id
    rw [hsame x (.inr hx')]
    exact hx'
  · intro p hp q hq hpo hqo hkey
    have hcellp := hsame p (.inl hpo)
    have hcellq := hsame q (.inl hqo)
    rw [hcellp] at hpo hkey
    rw [hcellq] at hqo hkey
    exact h.distinct p hp q hq hpo hqo hkey

/-- **An entry that was just inserted is found, and taken back nothing else has moved.** -/
theorem Table.insert_removeAt [DecidableEq K] (h : Table t cells) (ht : t.Lawful)
    (hroom : (t.entries cells).length + 1 < t.size) {e : E} (he : t.vacant e = false)
    (hnew : ∀ e' ∈ t.entries cells, t.key e' ≠ t.key e) :
    ∃ i < t.size, t.vacant (cells i) = true ∧ t.insert cells e = Function.update cells i e ∧
      t.find (t.insert cells e) (t.key e) = some i ∧
      t.removeAt (t.insert cells e) i = Function.update cells i t.empty := by
  obtain ⟨v, hv, hvacant⟩ := exists_vacant (Nat.lt_of_succ_lt hroom)
  have hhome := ht.home_lt (t.key e)
  obtain ⟨hi, hivacant, -⟩ := vacancy_spec ht hhome hv hvacant t.size hhome
    (fun x _ hlt => by rw [dist_self] at hlt; exact absurd hlt (Nat.not_lt_zero _))
    (by have := dist_lt hhome hv; omega)
  have hinserted := h.insert ht (Nat.lt_of_succ_lt hroom) he hnew
  have hlength := (h.insert_perm ht (Nat.lt_of_succ_lt hroom) he hnew).length_eq
  have heq : t.insert cells e =
      Function.update cells (t.vacancy cells t.size (t.home (t.key e))) e := rfl
  generalize t.vacancy cells t.size (t.home (t.key e)) = i at hi hivacant heq
  refine ⟨i, hi, hivacant, heq, ?_, ?_⟩
  · have hroom' : (t.entries (t.insert cells e)).length < t.size := by
      rw [hlength, List.length_cons]
      exact hroom
    have hat : t.insert cells e i = e := by rw [heq, Function.update_self]
    cases hfind : t.find (t.insert cells e) (t.key e) with
    | none =>
      refine absurd rfl (hinserted.1.find_eq_none ht hroom' hfind e ?_)
      exact mem_entries.mpr ⟨i, hi, hat, he⟩
    | some p =>
      obtain ⟨hp, hpo, hkey⟩ := Table.find_eq_some ht hroom' hfind
      have hsame : t.key (t.insert cells e p) = t.key (t.insert cells e i) := by rw [hkey, hat]
      rw [hinserted.1.distinct p hp i hi hpo (by rw [hat]; exact he) hsame]
  · rw [Scheme.removeAt, heq, Function.update_idem]
    refine (h.update_vacant hivacant ht.vacant_empty).close_eq ht hi ?_ t.size i
    rw [Function.update_self]
    exact ht.vacant_empty

end MarketData.Probing
