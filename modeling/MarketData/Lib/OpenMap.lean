import MarketData.Lib.Probing
import Mathlib.Logic.Function.Iterate

/-!
# `Lib/OpenMap.lean` — a probed table as a map

The loops of an open-addressed table have no bound of their own: a probe goes on until it meets
what it looks for or a vacant cell, and closing a chain goes on until a vacant cell. That they end
is a fact about the table: it has a vacant cell. With that, a table that is built by inserting
absent keys and removing the cells found for others *is* the finite map of those operations.

## Termination apart from the answer

In `Lib/Probing.lean` the loops are cut off once they have been all the way round, which makes them
total and proves nothing about the program's. Here it is shown that the cut is never reached: from
any home there is a vacant cell ahead (`VacancyEnds`), a probe comes to one or to its key
(`ProbeEnds`), and the loop that closes a chain comes to one within as many turns as there are
cells. **The load of the table enters only there**, as the number of entries being less than the
number of cells.

`Represents` ties a table to a finite map by the entries it holds, each under its own key, and every
operation keeps it. That the entries are where a probe finds them is the other half, and is the
invariant of the module below.
-/

set_option autoImplicit false

namespace MarketData.Probing

variable {K E : Type}

namespace Scheme

variable (t : Scheme K E)

/-- The cell `n` steps on from the home of `k`. -/
def ahead (k : K) (n : Nat) : Nat := t.next^[n] (t.home k)

/-- A probe for `k` comes to a cell at which it ends. -/
def ProbeEnds (cells : Nat → E) (k : K) : Prop :=
  ∃ n, t.vacant (cells (t.ahead k n)) = true ∨ t.key (cells (t.ahead k n)) = k

/-- The way from the home of `k` comes to a vacant cell. -/
def VacancyEnds (cells : Nat → E) (k : K) : Prop := ∃ n, t.vacant (cells (t.ahead k n)) = true

/-- The loop that closes the chain comes to a vacant cell within `fuel` turns. -/
def closes : Nat → (hole j : Nat) → (Nat → E) → Bool
  | 0, _, _, _ => false
  | fuel + 1, hole, j, cells =>
    let j := t.next j
    let entry := cells j
    if t.vacant entry then true
    else if stays hole j (t.home (t.key entry)) then closes fuel hole j cells
    else closes fuel j j (Function.update (Function.update cells hole entry) j t.empty)

end Scheme

variable {t : Scheme K E} {cells : Nat → E}

/-! ## The loops end -/

theorem ahead_eq (ht : t.Lawful) (k : K) (n : Nat) :
    t.ahead k n = (t.home k + n) % t.size := by
  unfold Scheme.ahead
  induction n with
  | zero => exact (Nat.mod_eq_of_lt (ht.home_lt k)).symm
  | succ n ih =>
    rw [Function.iterate_succ_apply', ih, ht.next_eq, Nat.mod_add_mod, Nat.add_assoc]

/-- Every cell lies ahead. -/
theorem exists_ahead (ht : t.Lawful) (k : K) {v : Nat} (hv : v < t.size) :
    ∃ n < t.size, t.ahead k n = v := by
  have hhome := ht.home_lt k
  refine ⟨dist t.size (t.home k) v, dist_lt hhome hv, ?_⟩
  rw [ahead_eq ht]
  unfold dist
  split
  · rw [Nat.add_sub_cancel' (by assumption), Nat.mod_eq_of_lt hv]
  · rw [show t.home k + (v + t.size - t.home k) = v + t.size by omega, Nat.add_mod_right,
      Nat.mod_eq_of_lt hv]

theorem vacancyEnds (ht : t.Lawful) (hroom : (t.entries cells).length < t.size) (k : K) :
    t.VacancyEnds cells k := by
  obtain ⟨v, hv, hvacant⟩ := exists_vacant hroom
  obtain ⟨n, -, hn⟩ := exists_ahead ht k hv
  exact ⟨n, by rw [hn]; exact hvacant⟩

theorem Scheme.VacancyEnds.probeEnds {k : K} (h : t.VacancyEnds cells k) : t.ProbeEnds cells k := by
  obtain ⟨n, hn⟩ := h
  exact ⟨n, .inl hn⟩

/-- A full table without `k` is probed for ever. -/
theorem not_probeEnds (ht : t.Lawful) {k : K} (hfull : ∀ p < t.size, t.vacant (cells p) = false)
    (hnew : ∀ p < t.size, t.key (cells p) ≠ k) : ¬t.ProbeEnds cells k := by
  rintro ⟨n, hn⟩
  have hlt : t.ahead k n < t.size := by
    rw [ahead_eq ht]
    exact Nat.mod_lt _ (Nat.succ_pos _)
  rcases hn with hn | hn
  · rw [hfull _ hlt] at hn
    cases hn
  · exact hnew _ hlt hn

/-- A chain with a vacant cell behind it is closed. -/
theorem closes_of_vacant (ht : t.Lawful) {v : Nat} (hv : v < t.size) (fuel : Nat) :
    ∀ {cells : Nat → E} {hole j : Nat}, hole < t.size → j < t.size →
      t.vacant (cells v) = true → dist t.size hole j < dist t.size hole v →
      dist t.size hole v ≤ dist t.size hole j + fuel → t.closes fuel hole j cells = true := by
  induction fuel with
  | zero =>
    intro cells hole j _ _ _ hlt hle
    omega
  | succ fuel ih =>
    intro cells hole j hhole hj hvacant hlt hle
    have hvlt := dist_lt hhole hv
    have hnext := ht.dist_next hhole hj (by omega)
    have hw := ht.next_lt j
    rw [Scheme.closes]
    by_cases hstop : t.vacant (cells (t.next j)) = true
    · rw [if_pos hstop]
    rw [if_neg hstop]
    have hvw : dist t.size hole (t.next j) ≠ dist t.size hole v := by
      intro heq
      rw [dist_inj hhole hw hv heq] at hstop
      exact hstop hvacant
    split
    · exact ih hhole hw hvacant (by omega) (by omega)
    · -- the entry moves back, and the cell it leaves is the hole
      have hway := dist_split hhole hw hv (by omega)
      have hvhole : v ≠ hole := by
        rintro rfl
        rw [dist_self] at hlt
        omega
      have hvnext : v ≠ t.next j := fun heq => hvw (by rw [heq])
      have hvacant' : t.vacant (Function.update (Function.update cells hole (cells (t.next j)))
          (t.next j) t.empty v) = true := by
        rw [Function.update_of_ne hvnext, Function.update_of_ne hvhole]
        exact hvacant
      exact ih hw hw hvacant' (by rw [dist_self]; omega) (by rw [dist_self]; omega)

/-- **Removing a cell ends**, within as many turns as there are cells. -/
theorem closes_removeAt (ht : t.Lawful) (hroom : (t.entries cells).length < t.size) {p : Nat}
    (hp : p < t.size) (hoccupied : t.vacant (cells p) = false) :
    t.closes t.size p p (Function.update cells p t.empty) = true := by
  obtain ⟨v, hv, hvacant⟩ := exists_vacant hroom
  have hvp : v ≠ p := by
    rintro rfl
    rw [hvacant] at hoccupied
    cases hoccupied
  have hpos := dist_pos hp (Ne.symm hvp)
  have hvlt := dist_lt hp hv
  refine closes_of_vacant ht hv t.size hp hp ?_ (by rw [dist_self]; exact hpos)
    (by rw [dist_self]; omega)
  rw [Function.update_of_ne hvp]
  exact hvacant

/-! ## The map -/

/-- The entry under `k`. -/
def Scheme.lookup [DecidableEq K] (t : Scheme K E) (cells : Nat → E) (k : K) : Option E :=
  (t.find cells k).map cells

theorem Table.lookup_eq_some [DecidableEq K] (h : Table t cells) (ht : t.Lawful)
    (hroom : (t.entries cells).length < t.size) {k : K} {e : E} :
    t.lookup cells k = some e ↔ e ∈ t.entries cells ∧ t.key e = k := by
  unfold Scheme.lookup
  constructor
  · intro hlookup
    obtain ⟨p, hfind, rfl⟩ := Option.map_eq_some_iff.mp hlookup
    obtain ⟨hp, hoccupied, hkey⟩ := Table.find_eq_some ht hroom hfind
    exact ⟨mem_entries.mpr ⟨p, hp, rfl, hoccupied⟩, hkey⟩
  · rintro ⟨he, rfl⟩
    obtain ⟨q, hq, rfl, hqo⟩ := mem_entries.mp he
    cases hfind : t.find cells (t.key (cells q)) with
    | none => exact absurd rfl (h.find_eq_none ht hroom hfind _ he)
    | some p =>
      obtain ⟨hp, hpo, hkey⟩ := Table.find_eq_some ht hroom hfind
      rw [Option.map_some, h.distinct p hp q hq hpo hqo hkey]

/-- The table's entries are those of the map, each under its key. -/
structure Represents (t : Scheme K E) (cells : Nat → E) (m : K → Option E) : Prop where
  table : Table t cells
  keyed : ∀ k e, m k = some e → t.key e = k
  entries : ∀ e, e ∈ t.entries cells ↔ m (t.key e) = some e

namespace Represents

variable [DecidableEq K] {m : K → Option E}

omit [DecidableEq K] in
theorem of_vacant (h : ∀ p, t.vacant (cells p) = true) : Represents t cells fun _ => none := by
  have hnone : ∀ {p}, t.vacant (cells p) ≠ false := fun {p} hp => by simp [h p] at hp
  refine ⟨⟨fun p _ hp => absurd hp hnone, fun p _ q _ hp => absurd hp hnone⟩, nofun, fun e => ?_⟩
  constructor
  · intro he
    obtain ⟨p, -, rfl, hp⟩ := mem_entries.mp he
    exact absurd hp hnone
  · exact nofun

/-- **A probe answers as the map does.** -/
theorem lookup_eq (h : Represents t cells m) (ht : t.Lawful)
    (hroom : (t.entries cells).length < t.size) (k : K) : t.lookup cells k = m k := by
  refine Option.ext fun e => ?_
  rw [h.table.lookup_eq_some ht hroom, h.entries]
  constructor
  · rintro ⟨hm, rfl⟩
    exact hm
  · intro hm
    have hkey := h.keyed k e hm
    rw [hkey]
    exact ⟨hm, rfl⟩

theorem insert (h : Represents t cells m) (ht : t.Lawful)
    (hroom : (t.entries cells).length < t.size) {e : E} (he : t.vacant e = false)
    (hnew : m (t.key e) = none) :
    Represents t (t.insert cells e) (Function.update m (t.key e) (some e)) ∧
      (t.entries (t.insert cells e)).length = (t.entries cells).length + 1 := by
  have hfresh : ∀ e' ∈ t.entries cells, t.key e' ≠ t.key e := by
    intro e' he' hkey
    rw [h.entries, hkey, hnew] at he'
    cases he'
  obtain ⟨htable, hentries⟩ := h.table.insert ht hroom he hfresh
  refine ⟨⟨htable, fun k e' hm => ?_, fun e' => ?_⟩,
    (h.table.insert_perm ht hroom he hfresh).length_eq⟩
  · by_cases hk : k = t.key e
    · subst hk
      rw [Function.update_self] at hm
      cases hm
      rfl
    · rw [Function.update_of_ne hk] at hm
      exact h.keyed k e' hm
  · rw [hentries, h.entries]
    by_cases hk : t.key e' = t.key e
    · rw [hk, Function.update_self, hnew]
      constructor
      · rintro (rfl | hm)
        · rfl
        · cases hm
      · intro hm
        exact .inl (Option.some.inj hm).symm
    · rw [Function.update_of_ne hk]
      refine ⟨fun hm => hm.resolve_left ?_, .inr⟩
      rintro rfl
      exact hk rfl

theorem removeAt (h : Represents t cells m) (ht : t.Lawful)
    (hroom : (t.entries cells).length < t.size) {k : K} {p : Nat} (hfind : t.find cells k = some p) :
    Represents t (t.removeAt cells p) (Function.update m k none) ∧
      (t.entries cells).length = (t.entries (t.removeAt cells p)).length + 1 := by
  obtain ⟨hp, hoccupied, rfl⟩ := Table.find_eq_some ht hroom hfind
  obtain ⟨htable, hentries⟩ := h.table.removeAt ht hroom hp hoccupied
  refine ⟨⟨htable, fun k e hm => ?_, fun e => ?_⟩,
    (h.table.removeAt_perm ht hroom hp hoccupied).length_eq⟩
  · by_cases hk : k = t.key (cells p)
    · subst hk
      rw [Function.update_self] at hm
      cases hm
    · rw [Function.update_of_ne hk] at hm
      exact h.keyed k e hm
  · rw [hentries, h.entries]
    by_cases hk : t.key e = t.key (cells p)
    · rw [hk, Function.update_self]
      simp
    · rw [Function.update_of_ne hk]
      exact ⟨fun hm => hm.1, fun hm => ⟨hm, hk⟩⟩

/-- What is not found is not in the map, and removing it changes nothing. -/
theorem remove_absent (h : Represents t cells m) (ht : t.Lawful)
    (hroom : (t.entries cells).length < t.size) {k : K} (hfind : t.find cells k = none) :
    Function.update m k none = m := by
  have hm := h.lookup_eq ht hroom k
  rw [Scheme.lookup, hfind] at hm
  rw [show (none : Option E) = m k from hm, Function.update_eq_self]

end Represents

end MarketData.Probing
