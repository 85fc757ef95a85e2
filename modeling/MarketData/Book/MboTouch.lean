import MarketData.Book.MboStore

/-!
# `Book/MboTouch.lean` — the cached best prices and level counts

Both are functions of which slots are occupied. `IsBest` says which slot a cached best price has
to name, and `Counted` what a level count has to be. The lemmas follow the updates of the source:
an operation first changes the cells and only then the caches, so each is stated for a book whose
caches still describe an earlier occupancy.

## Caches that lag behind

Between `link_back` and `note_occupied` the best slot is out of date, and between `unlink` and
`rescan_best` it may name a slot that is empty. An invariant "the caches are right" is false at both
points. So `Best` and `Counted` take the occupancy they are right *about* as an argument: an update
of the cells leaves them about the old one, and the update of the cache moves them on to the new one
(`Best.noteOccupied`, `Best.rescanIfBest`, `Counted.opened`, `Counted.closed`). `Touch` is the case
where the two coincide, and is what holds between operations.

A rescan goes from the slot that emptied towards worse prices, and stops at the first occupied one;
that this is the best is because nothing better was occupied before, which is where the old
occupancy is used.

A replace within one level empties and refills it, or does not empty it at all. Both happen to the
caches in the order the source makes them happen, and neither needs a case of its own here.
-/

set_option autoImplicit false

namespace MarketData.Book

open MarketData.Wire (Side)

namespace MboBook

def occupied (b : MboBook) (s : Side) (i : Nat) : Bool := !(b.cells s i).isEmpty

/-- A slot is occupied where a live node records it. -/
theorem Store.occupied_iff {b : MboBook} {live free : List Nat} (h : Store b live free) {s : Side}
    {slot : Nat} (hslot : slot < b.index.capacity) :
    b.occupied s slot = true ↔ ∃ i ∈ live, (b.nodes i).side = s ∧ (b.nodes i).slot = slot := by
  have hcell := h.cells s slot hslot
  have hlen : (b.queueAt live s slot).length < 2 ^ 32 := by
    have hle : (b.queueAt live s slot).length ≤ live.length := List.length_filter_le ..
    have hlive := h.length_live_le
    have hslab := h.slab
    omega
  have hzero : (b.cells s slot).isEmpty = true ↔ b.queueAt live s slot = [] := by
    rw [LevelCell.isEmpty, decide_eq_true_iff, hcell.orders, ← List.length_eq_zero_iff,
      ← UInt32.toNat_inj, UInt32.toNat_ofNat_of_lt' hlen]
    rfl
  rw [occupied, Bool.not_eq_true', ← Bool.not_eq_true, hzero, List.eq_nil_iff_forall_not_mem]
  push Not
  simp only [mem_queueAt]

/-- Slot `i` is as good a price as slot `j`, or better. -/
def slotLe : Side → Nat → Nat → Prop
  | .bid, i, j => j ≤ i
  | .ask, i, j => i ≤ j

instance (s : Side) (i j : Nat) : Decidable (slotLe s i j) :=
  match s with
  | .bid => inferInstanceAs (Decidable (j ≤ i))
  | .ask => inferInstanceAs (Decidable (i ≤ j))

theorem slotLe_trans {s : Side} {i j k : Nat} (h : slotLe s i j) (h' : slotLe s j k) :
    slotLe s i k := by
  cases s with
  | bid => exact Nat.le_trans h' h
  | ask => exact Nat.le_trans h h'

theorem slotLe_total (s : Side) (i j : Nat) : slotLe s i j ∨ slotLe s j i := by
  cases s with
  | bid => exact Nat.le_total j i
  | ask => exact Nat.le_total i j

theorem slotLe_antisymm {s : Side} {i j : Nat} (h : slotLe s i j) (h' : slotLe s j i) : i = j := by
  cases s with
  | bid => exact Nat.le_antisymm h' h
  | ask => exact Nat.le_antisymm h h'

/-- The best of the occupied slots, where there is one. -/
def IsBest (s : Side) (cap : Nat) (occ : Nat → Bool) : Option Nat → Prop
  | none => ∀ i < cap, occ i = false
  | some i => i < cap ∧ occ i = true ∧ ∀ j < cap, occ j = true → slotLe s i j

theorem IsBest.unique {s : Side} {cap : Nat} {occ : Nat → Bool} {o o' : Option Nat}
    (h : IsBest s cap occ o) (h' : IsBest s cap occ o') : o = o' := by
  cases o with
  | none =>
    cases o' with
    | none => rfl
    | some i =>
      have hfalse := h i h'.1
      rw [h'.2.1] at hfalse
      cases hfalse
  | some i =>
    cases o' with
    | none =>
      have hfalse := h' i h.1
      rw [h.2.1] at hfalse
      cases hfalse
    | some j => rw [slotLe_antisymm (h.2.2 j h'.1 h'.2.1) (h'.2.2 i h.1 h.2.1)]

/-! ## Scans -/

/-- A scan downwards from below `n` finds the highest. -/
theorem isBest_find_down (occ : Nat → Bool) (n : Nat) :
    IsBest .bid n occ ((List.range n).reverse.find? occ) := by
  induction n with
  | zero => exact fun i hi => absurd hi (Nat.not_lt_zero i)
  | succ n ih =>
    rw [List.range_succ, List.reverse_append, List.reverse_singleton, List.singleton_append,
      List.find?_cons]
    cases hn : occ n with
    | true => exact ⟨Nat.lt_succ_self n, hn, fun j hj _ => Nat.le_of_lt_succ hj⟩
    | false =>
      have hne : ∀ j, occ j = true → j ≠ n := by
        rintro j hj rfl
        rw [hn] at hj
        cases hj
      dsimp only
      cases hfound : (List.range n).reverse.find? occ with
      | none =>
        rw [hfound] at ih
        intro i hi
        by_cases heq : i = n
        · rw [heq]
          exact hn
        · exact ih i (by omega)
      | some i =>
        rw [hfound] at ih
        refine ⟨Nat.lt_succ_of_lt ih.1, ih.2.1, fun j hj hocc => ih.2.2 j ?_ hocc⟩
        have := hne j hocc
        omega

/-- A scan upwards from `start` finds the lowest, if nothing lies below. -/
theorem isBest_find_up (occ : Nat → Bool) (len start : Nat)
    (hbelow : ∀ i < start, occ i = false) :
    IsBest .ask (start + len) occ ((List.range' start len).find? occ) := by
  induction len generalizing start with
  | zero => exact hbelow
  | succ len ih =>
    rw [List.range'_succ, List.find?_cons]
    cases hstart : occ start with
    | true =>
      refine ⟨by omega, hstart, fun j _ hocc => Nat.le_of_not_lt fun hlt => ?_⟩
      rw [hbelow j hlt] at hocc
      cases hocc
    | false =>
      have hlen : start + (len + 1) = start + 1 + len := by omega
      rw [hlen]
      apply ih
      intro i hi
      by_cases heq : i = start
      · rw [heq]
        exact hstart
      · exact hbelow i (by omega)

/-- A narrower scan for the highest will do where nothing lies above. -/
theorem IsBest.widen {cap n : Nat} {occ : Nat → Bool} {o : Option Nat} (h : IsBest .bid n occ o)
    (hn : n ≤ cap) (habove : ∀ i < cap, occ i = true → i < n) : IsBest .bid cap occ o := by
  cases o with
  | none =>
    intro i hi
    cases hocc : occ i with
    | false => rfl
    | true =>
      rw [h i (habove i hi hocc)] at hocc
      cases hocc
  | some i =>
    exact ⟨Nat.lt_of_lt_of_le h.1 hn, h.2.1, fun j hj hocc => h.2.2 j (habove j hj hocc) hocc⟩

/-! ## The best prices -/

/-- The caches name the best of the slots in `occ`. -/
def Best (b : MboBook) (occ : Side → Nat → Bool) : Prop :=
  ∀ s, IsBest s b.index.capacity (occ s) (b.best s)

theorem best_noteOccupied_self (b : MboBook) (s : Side) (slot : Nat) :
    (b.noteOccupied s slot).best s = match b.best s with
      | none => some slot
      | some i => if slotLe s i slot then some i else some slot := by
  cases s with
  | bid =>
    simp only [noteOccupied, best]
    cases hbest : b.bestBid with
    | none => rfl
    | some i =>
      by_cases hlt : i < slot
      · have hle : ¬slotLe .bid i slot := Nat.not_le.mpr hlt
        simp only [Option.all_some, hlt, decide_true, if_true, hle, if_false]
      · have hle : slotLe .bid i slot := Nat.not_lt.mp hlt
        simp only [Option.all_some, hlt, decide_false, Bool.false_eq_true, if_false, hle, if_true,
          hbest]
  | ask =>
    simp only [noteOccupied, best]
    cases hbest : b.bestAsk with
    | none => rfl
    | some i =>
      by_cases hlt : slot < i
      · have hle : ¬slotLe .ask i slot := Nat.not_le.mpr hlt
        simp only [Option.all_some, hlt, decide_true, if_true, hle, if_false]
      · have hle : slotLe .ask i slot := Nat.not_lt.mp hlt
        simp only [Option.all_some, hlt, decide_false, Bool.false_eq_true, if_false, hle, if_true,
          hbest]

theorem best_noteOccupied_other (b : MboBook) {s s' : Side} (slot : Nat) (h : s ≠ s') :
    (b.noteOccupied s slot).best s' = b.best s' := by
  cases s <;> cases s' <;>
    first | exact absurd rfl h | (simp only [MboBook.noteOccupied]; split <;> rfl)

/-- The occupancy `occ` with one slot more. -/
def withSlot (occ : Side → Nat → Bool) (s : Side) (slot : Nat) (s' : Side) (i : Nat) : Bool :=
  occ s' i || decide (s = s' ∧ slot = i)

/-- **A newly occupied slot is noted.** -/
theorem Best.noteOccupied {b : MboBook} {occ : Side → Nat → Bool} (h : Best b occ) {s : Side}
    {slot : Nat} (hslot : slot < b.index.capacity) :
    ∀ s', IsBest s' b.index.capacity (withSlot occ s slot s') ((b.noteOccupied s slot).best s') := by
  intro s'
  have hs' := h s'
  by_cases hs : s = s'
  · subst hs
    have hself : withSlot occ s slot s slot = true := by
      simp [withSlot]
    rw [best_noteOccupied_self]
    cases hbest : b.best s with
    | none =>
      rw [hbest] at hs'
      refine ⟨hslot, hself, fun j hj hocc => ?_⟩
      rw [withSlot, hs' j hj, Bool.false_or, decide_eq_true_eq] at hocc
      rw [← hocc.2]
      exact (slotLe_total s slot slot).elim id id
    | some i =>
      rw [hbest] at hs'
      obtain ⟨hi, hocci, hle⟩ := hs'
      dsimp only
      split
      · rename_i hgood
        refine ⟨hi, by rw [withSlot, hocci, Bool.true_or], fun j hj hocc => ?_⟩
        rw [withSlot, Bool.or_eq_true, decide_eq_true_eq] at hocc
        cases hocc with
        | inl hocc => exact hle j hj hocc
        | inr heq => rw [← heq.2]; exact hgood
      · rename_i hbad
        have hgood : slotLe s slot i := (slotLe_total s slot i).resolve_right hbad
        refine ⟨hslot, hself, fun j hj hocc => ?_⟩
        rw [withSlot, Bool.or_eq_true, decide_eq_true_eq] at hocc
        cases hocc with
        | inl hocc => exact slotLe_trans hgood (hle j hj hocc)
        | inr heq => rw [← heq.2]; exact (slotLe_total s slot slot).elim id id
  · have hsame : withSlot occ s slot s' = occ s' := by
      funext i
      rw [withSlot, decide_eq_false fun hboth => hs hboth.1, Bool.or_false]
    rw [best_noteOccupied_other b slot hs, hsame]
    exact hs'

/-- A scan from the old best slot, which nothing is better than, finds the best. -/
theorem isBest_rescanBest {b : MboBook} {s : Side} {slot : Nat} (hbest : b.best s = some slot)
    (hslot : slot < b.index.capacity)
    (hle : ∀ j < b.index.capacity, b.occupied s j = true → slotLe s slot j) :
    IsBest s b.index.capacity (b.occupied s) ((b.rescanBest s).best s) := by
  cases s with
  | bid =>
    have hbid : b.bestBid = some slot := hbest
    unfold rescanBest best
    simp only [hbid, Option.getD_some]
    refine (isBest_find_down (b.occupied .bid) (slot + 1)).widen hslot fun i hi hocc => ?_
    exact Nat.lt_succ_of_le (hle i hi hocc)
  | ask =>
    have hask : b.bestAsk = some slot := hbest
    unfold rescanBest best
    simp only [hask, Option.getD_some]
    have hup := isBest_find_up (b.occupied .ask) (b.index.capacity - slot) slot (by
      intro i hi
      cases hocc : b.occupied .ask i with
      | false => rfl
      | true =>
        have : slot ≤ i := hle i (Nat.lt_trans hi hslot) hocc
        omega)
    rw [Nat.add_sub_cancel' (Nat.le_of_lt hslot)] at hup
    exact hup

theorem best_rescanBest_other (b : MboBook) {s s' : Side} (h : s ≠ s') :
    (b.rescanBest s).best s' = b.best s' := by
  cases s <;> cases s' <;> first | exact absurd rfl h | rfl

theorem best_rescanIfBest (b : MboBook) (s s' : Side) (slot : Nat) (emptied : Bool) :
    (b.rescanIfBest s slot emptied).best s' =
      if emptied = true ∧ s = s' ∧ b.best s = some slot then (b.rescanBest s).best s'
      else b.best s' := by
  cases emptied with
  | false => simp [rescanIfBest]
  | true =>
    by_cases hs : s = s'
    · subst hs
      cases s <;> simp only [rescanIfBest, if_true, true_and, best] <;> split <;> rfl
    · rw [if_neg fun h => hs h.2.1]
      cases s <;> simp only [rescanIfBest, if_true] <;> split <;>
        first | exact best_rescanBest_other b hs | rfl

/-- **A slot that emptied is looked past**: the caches still describe `occ`, where it was
occupied. -/
theorem Best.rescanIfBest {b : MboBook} {occ : Side → Nat → Bool} (h : Best b occ) {s : Side}
    {slot : Nat} {emptied : Bool}
    (hsame : ∀ s' i, ¬(s = s' ∧ slot = i) → b.occupied s' i = occ s' i)
    (hkept : emptied = false → b.occupied s slot = occ s slot)
    (hwas : b.occupied s slot = true → occ s slot = true) :
    ∀ s', IsBest s' b.index.capacity (b.occupied s') ((b.rescanIfBest s slot emptied).best s') := by
  intro s'
  have hsub : ∀ i, b.occupied s' i = true → occ s' i = true := by
    intro i hocc
    by_cases heq : s = s' ∧ slot = i
    · obtain ⟨rfl, rfl⟩ := heq
      exact hwas hocc
    · rw [← hsame s' i heq]
      exact hocc
  have hs' := h s'
  rw [best_rescanIfBest]
  split
  · rename_i hrescan
    obtain ⟨-, rfl, hbest⟩ := hrescan
    rw [hbest] at hs'
    exact isBest_rescanBest hbest hs'.1 fun j hj hocc => hs'.2.2 j hj (hsub j hocc)
  · rename_i hkeep
    cases hbest : b.best s' with
    | none =>
      rw [hbest] at hs'
      intro i hi
      cases hocc : b.occupied s' i with
      | false => rfl
      | true =>
        have hstale := hsub i hocc
        rw [hs' i hi] at hstale
        cases hstale
    | some i =>
      rw [hbest] at hs'
      refine ⟨hs'.1, ?_, fun j hj hocc => hs'.2.2 j hj (hsub j hocc)⟩
      by_cases heq : s = s' ∧ slot = i
      · obtain ⟨rfl, rfl⟩ := heq
        cases hemptied : emptied with
        | true => exact absurd ⟨hemptied, rfl, hbest⟩ hkeep
        | false =>
          rw [hkept hemptied]
          exact hs'.2.1
      · rw [hsame s' i heq]
        exact hs'.2.1

/-! ## The level counts -/

/-- The counts are those of the occupied slots. -/
def Counted (b : MboBook) : Prop :=
  ∀ s, b.levels s = UInt32.ofNat ((List.range b.index.capacity).countP (b.occupied s))

theorem countP_add_one {l : List Nat} {x : Nat} {occ occ' : Nat → Bool} (hnodup : l.Nodup)
    (hx : x ∈ l) (hoff : occ x = false) (hon : occ' x = true) (hsame : ∀ i, i ≠ x → occ' i = occ i) :
    l.countP occ' = l.countP occ + 1 := by
  have hperm := perm_cons_filter hnodup hx
  rw [hperm.countP_eq, hperm.countP_eq, List.countP_cons_of_pos hon,
    List.countP_cons_of_neg (by rw [hoff]; exact Bool.false_ne_true)]
  congr 1
  apply List.countP_congr
  intro i hi
  rw [hsame i (of_decide_eq_true (List.mem_filter.mp hi).2)]

theorem levels_levelOpened (b : MboBook) (s s' : Side) :
    (b.levelOpened s).levels s' = if s = s' then b.levels s' + 1 else b.levels s' := by
  cases s <;> cases s' <;> rfl

theorem levels_levelClosed (b : MboBook) (s s' : Side) :
    (b.levelClosed s).levels s' = if s = s' then b.levels s' - 1 else b.levels s' := by
  cases s <;> cases s' <;> rfl

section Counts

variable {b b' : MboBook} {s : Side} {slot : Nat}

theorem occupied_levelOpened (s' : Side) : (b.levelOpened s').occupied s = b.occupied s := by
  cases s <;> cases s' <;> rfl

theorem occupied_levelClosed (s' : Side) : (b.levelClosed s').occupied s = b.occupied s := by
  cases s <;> cases s' <;> rfl

/-- **A slot that was empty and is not any more opens a level.** -/
theorem Counted.opened (h : Counted b) (hindex : b'.index = b.index)
    (hlevels : ∀ s, b'.levels s = b.levels s) (hslot : slot < b.index.capacity)
    (hsame : ∀ s' i, ¬(s = s' ∧ slot = i) → b'.occupied s' i = b.occupied s' i)
    (hnow : b'.occupied s slot = true) {wasEmpty : Bool} (hwas : wasEmpty = !b.occupied s slot) :
    Counted (if wasEmpty then b'.levelOpened s else b') := by
  intro s'
  have hs' := h s'
  by_cases hs : s = s'
  · subst hs
    cases hocc : b.occupied s slot with
    | false =>
      rw [hocc] at hwas
      subst hwas
      have hcap : (b'.levelOpened s).index = b.index := by
        cases s <;> exact hindex
      simp only [Bool.not_false, if_true]
      rw [levels_levelOpened, if_pos rfl, hlevels, hs', occupied_levelOpened, hcap,
        countP_add_one List.nodup_range (List.mem_range.mpr hslot) hocc hnow
          (fun i hi => hsame s i fun hboth => hi hboth.2.symm), UInt32.ofNat_add]
      rfl
    | true =>
      rw [hocc] at hwas
      subst hwas
      have heq : b'.occupied s = b.occupied s := by
        funext i
        by_cases hi : slot = i
        · rw [← hi, hnow, hocc]
        · exact hsame s i fun hboth => hi hboth.2
      simp only [Bool.not_true, Bool.false_eq_true, if_false]
      rw [hlevels, hs', heq, hindex]
  · have heq : b'.occupied s' = b.occupied s' := by
      funext i
      exact hsame s' i fun hboth => hs hboth.1
    split
    · have hcap : (b'.levelOpened s).index = b.index := by
        cases s <;> exact hindex
      rw [levels_levelOpened, if_neg hs, hlevels, hs', occupied_levelOpened, heq, hcap]
    · rw [hlevels, hs', heq, hindex]

/-- **A slot that is empty and was not before closes a level.** -/
theorem Counted.closed (h : Counted b) (hindex : b'.index = b.index)
    (hlevels : ∀ s, b'.levels s = b.levels s) (hslot : slot < b.index.capacity)
    (hsame : ∀ s' i, ¬(s = s' ∧ slot = i) → b'.occupied s' i = b.occupied s' i)
    (hwas : b.occupied s slot = true) {emptied : Bool} (hnow : emptied = !b'.occupied s slot) :
    Counted (if emptied then b'.levelClosed s else b') := by
  intro s'
  have hs' := h s'
  by_cases hs : s = s'
  · subst hs
    cases hocc : b'.occupied s slot with
    | false =>
      rw [hocc] at hnow
      subst hnow
      have hcap : (b'.levelClosed s).index = b.index := by
        cases s <;> exact hindex
      simp only [Bool.not_false, if_true]
      rw [levels_levelClosed, if_pos rfl, hlevels, hs', occupied_levelClosed, hcap,
        countP_add_one List.nodup_range (List.mem_range.mpr hslot) hocc hwas
          (fun i hi => (hsame s i fun hboth => hi hboth.2.symm).symm), UInt32.ofNat_add]
      exact UInt32.add_sub_cancel _ _
    | true =>
      rw [hocc] at hnow
      subst hnow
      have heq : b'.occupied s = b.occupied s := by
        funext i
        by_cases hi : slot = i
        · rw [← hi, hocc, hwas]
        · exact hsame s i fun hboth => hi hboth.2
      simp only [Bool.not_true, Bool.false_eq_true, if_false]
      rw [hlevels, hs', heq, hindex]
  · have heq : b'.occupied s' = b.occupied s' := by
      funext i
      exact hsame s' i fun hboth => hs hboth.1
    split
    · have hcap : (b'.levelClosed s).index = b.index := by
        cases s <;> exact hindex
      rw [levels_levelClosed, if_neg hs, hlevels, hs', occupied_levelClosed, heq, hcap]
    · rw [hlevels, hs', heq, hindex]

end Counts

/-- **The caches are right.** -/
structure Touch (b : MboBook) : Prop where
  best : Best b b.occupied
  counted : Counted b

end MboBook

end MarketData.Book
