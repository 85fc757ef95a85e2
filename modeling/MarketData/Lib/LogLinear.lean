import Mathlib.Data.Nat.Log
import Mathlib.Tactic.Linarith

/-!
# `Lib/LogLinear.lean` — slots of a bounded relative width

The numbers below `2 ^ (k + 1)` have a slot each. Above that every power of two is cut into `2 ^ k`
slots of the same width, so that a number is at least `2 ^ k` times as large as its slot is wide.
The slots are numbered from below. What a user of the layout needs is here: the numbering keeps the
order, `least` inverts it on the least number of each slot, and the width of a slot is bounded by
what is in it.

Everything is about `Nat` and there is no largest number. An implementation has one, counts its
slots, and finds a slot by shifting; that its arithmetic is that of `bucket` and `index` is for it
to prove, with its own word size and its own `k`. Relative to the size of a number the error is at
most one part in `2 ^ k` (`least_index`), and it is always downwards: the least number of a slot is
not above any number in it.
-/

set_option autoImplicit false

namespace MarketData.LogLinear

variable (k : Nat)

/-- The power of two whose multiples bound the slots around `v`. -/
def bucket (v : Nat) : Nat := v.log2 - k

/-- How wide the slot of `v` is. -/
def width (v : Nat) : Nat := 2 ^ bucket k v

/-- The slot of `v`. -/
def index (v : Nat) : Nat := bucket k v * 2 ^ k + v / width k v

/-- The least number in slot `i`. -/
def least (i : Nat) : Nat :=
  if i < 2 ^ (k + 1) then i else (i % 2 ^ k + 2 ^ k) * 2 ^ (i / 2 ^ k - 1)

variable {k} {v w i : Nat}

theorem width_pos : 0 < width k v := Nat.two_pow_pos _

theorem bucket_of_lt (h : v < 2 ^ (k + 1)) : bucket k v = 0 := by
  by_cases h0 : v = 0
  · subst h0
    exact Nat.zero_sub k
  · have hlog : v.log2 < k + 1 := (Nat.log2_lt h0).mpr h
    rw [bucket]
    omega

theorem width_of_lt (h : v < 2 ^ (k + 1)) : width k v = 1 := by
  rw [width, bucket_of_lt h, Nat.pow_zero]

theorem index_of_lt (h : v < 2 ^ (k + 1)) : index k v = v := by
  rw [index, bucket_of_lt h, width_of_lt h, Nat.zero_mul, Nat.zero_add, Nat.div_one]

/-- Where a number with the leading bit `k + b` lies. -/
theorem bucket_eq {b : Nat} (hlo : 2 ^ (k + b) ≤ v) (hhi : v < 2 ^ (k + b + 1)) :
    bucket k v = b := by
  have h0 : v ≠ 0 := Nat.ne_of_gt (Nat.lt_of_lt_of_le (Nat.two_pow_pos _) hlo)
  have hlog : v.log2 = k + b := (Nat.log2_eq_iff h0).mpr ⟨hlo, hhi⟩
  rw [bucket, hlog, Nat.add_sub_cancel_left]

/-- A number that is not small has `k` bits below the leading one before its slot's width. -/
theorem sub_bounds (h : 2 ^ k ≤ v) : 2 ^ k ≤ v / width k v ∧ v / width k v < 2 ^ (k + 1) := by
  have h0 : v ≠ 0 := Nat.ne_of_gt (Nat.lt_of_lt_of_le (Nat.two_pow_pos _) h)
  have hlog : k ≤ v.log2 := (Nat.le_log2 h0).mpr h
  have hsplit : v.log2 = k + bucket k v := by
    rw [bucket]
    omega
  obtain ⟨hlo, hhi⟩ := (Nat.log2_eq_iff h0).mp hsplit
  rw [width]
  constructor
  · rw [Nat.le_div_iff_mul_le (Nat.two_pow_pos _), ← Nat.pow_add]
    exact hlo
  · rw [Nat.div_lt_iff_lt_mul (Nat.two_pow_pos _), ← Nat.pow_add,
      show k + 1 + bucket k v = k + bucket k v + 1 by omega]
    exact hhi

/-- The width of a slot against what is in it. -/
theorem width_mul_le (h : 2 ^ k ≤ v) : width k v * 2 ^ k ≤ v := by
  have hsub := (sub_bounds h).1
  rw [Nat.le_div_iff_mul_le width_pos] at hsub
  rwa [Nat.mul_comm]

theorem bucket_mono (h : v ≤ w) : bucket k v ≤ bucket k w := by
  have hlog : v.log2 ≤ w.log2 := by
    rw [Nat.log2_eq_log_two, Nat.log2_eq_log_two]
    exact Nat.log_mono_right h
  rw [bucket, bucket]
  omega

theorem le_of_bucket_pos (h : 0 < bucket k v) : 2 ^ k ≤ v := by
  have h0 : v ≠ 0 := by
    rintro rfl
    simp [bucket] at h
  refine (Nat.le_log2 h0).mp ?_
  rw [bucket] at h
  omega

/-- Where the slots of a power of two end. -/
theorem index_lt : index k v < (bucket k v + 2) * 2 ^ k := by
  rw [index]
  by_cases h : v < 2 ^ k
  · have hsmall : v < 2 ^ (k + 1) := Nat.lt_trans h (Nat.pow_lt_pow_right (by decide) (by omega))
    rw [bucket_of_lt hsmall, width_of_lt hsmall, Nat.div_one]
    omega
  · have hsub := (sub_bounds (Nat.le_of_not_lt h)).2
    rw [Nat.pow_succ] at hsub
    rw [Nat.add_mul]
    omega

/-- Numbers below a power of two are in the slots below that power's. -/
theorem index_lt_of_lt {b : Nat} (h : v < 2 ^ (k + b + 1)) : index k v < (b + 2) * 2 ^ k := by
  have hbucket : bucket k v ≤ b := by
    by_cases h0 : v = 0
    · rw [h0, bucket_of_lt (Nat.two_pow_pos _)]
      exact Nat.zero_le _
    · have hlog : v.log2 < k + b + 1 := (Nat.log2_lt h0).mpr h
      rw [bucket]
      omega
  exact Nat.lt_of_lt_of_le index_lt (Nat.mul_le_mul_right _ (by omega))

/-- **The slots are in order.** -/
theorem index_mono (h : v ≤ w) : index k v ≤ index k w := by
  rcases Nat.lt_or_eq_of_le (bucket_mono (k := k) h) with hlt | heq
  · have hsub := (sub_bounds (le_of_bucket_pos (Nat.lt_of_le_of_lt (Nat.zero_le _) hlt))).1
    calc index k v ≤ (bucket k v + 2) * 2 ^ k := Nat.le_of_lt index_lt
      _ ≤ (bucket k w + 1) * 2 ^ k := Nat.mul_le_mul_right _ (by omega)
      _ = bucket k w * 2 ^ k + 2 ^ k := Nat.succ_mul ..
      _ ≤ index k w := Nat.add_le_add_left hsub _
  · rw [index, index, width, width, heq]
    exact Nat.add_le_add_left (Nat.div_le_div_right h) _

/-- What slot `i` looks like above the first `2 ^ (k + 1)`. -/
theorem least_eq {b sub : Nat} (hsub : sub < 2 ^ k) :
    least k ((b + 2) * 2 ^ k + sub) = (sub + 2 ^ k) * 2 ^ (b + 1) := by
  have hpow := Nat.two_pow_pos k
  have hle : ¬ (b + 2) * 2 ^ k + sub < 2 ^ (k + 1) := by
    rw [Nat.pow_succ, Nat.add_mul]
    omega
  rw [least, if_neg hle, Nat.add_comm ((b + 2) * 2 ^ k), Nat.add_mul_mod_self_right,
    Nat.mod_eq_of_lt hsub, Nat.add_mul_div_right _ _ hpow, Nat.div_eq_of_lt hsub, Nat.zero_add]
  rfl

/-- Such a slot as its power of two and its place in it. -/
theorem slot_split (h : ¬ i < 2 ^ (k + 1)) :
    ∃ b sub, sub < 2 ^ k ∧ i = (b + 2) * 2 ^ k + sub := by
  have hpow := Nat.two_pow_pos k
  have htwo : 2 ≤ i / 2 ^ k := by
    rw [Nat.le_div_iff_mul_le hpow, Nat.mul_comm, ← Nat.pow_succ]
    exact Nat.le_of_not_lt h
  obtain ⟨b, hb⟩ := Nat.exists_eq_add_of_le' htwo
  refine ⟨b, i % 2 ^ k, Nat.mod_lt _ hpow, ?_⟩
  rw [← hb, Nat.mul_comm]
  exact (Nat.div_add_mod i (2 ^ k)).symm

/-- The bounds of the least number of such a slot. -/
theorem least_bounds {b sub : Nat} (hsub : sub < 2 ^ k) :
    2 ^ (k + (b + 1)) ≤ (sub + 2 ^ k) * 2 ^ (b + 1) ∧
      (sub + 2 ^ k) * 2 ^ (b + 1) < 2 ^ (k + (b + 1) + 1) := by
  constructor
  · rw [Nat.pow_add]
    exact Nat.mul_le_mul_right _ (Nat.le_add_left ..)
  · rw [show k + (b + 1) + 1 = (k + 1) + (b + 1) by omega, Nat.pow_add 2 (k + 1)]
    refine Nat.mul_lt_mul_of_pos_right ?_ (Nat.two_pow_pos _)
    rw [Nat.pow_succ]
    omega

/-- **`least` is in its slot.** -/
theorem index_least (i : Nat) : index k (least k i) = i := by
  by_cases h : i < 2 ^ (k + 1)
  · rw [least, if_pos h]
    exact index_of_lt h
  · obtain ⟨b, sub, hsub, rfl⟩ := slot_split h
    obtain ⟨hlo, hhi⟩ := least_bounds (b := b) hsub
    rw [least_eq hsub, index, width, bucket_eq hlo hhi, Nat.mul_div_cancel _ (Nat.two_pow_pos _),
      Nat.add_mul, Nat.add_mul]
    omega

/-- **What is below a number in its slot**: less than the slot is wide. -/
theorem least_index (v : Nat) : least k (index k v) = v / width k v * width k v := by
  by_cases h : v < 2 ^ (k + 1)
  · rw [index_of_lt h, width_of_lt h, least, if_pos h, Nat.div_one, Nat.mul_one]
  · have hle : 2 ^ k ≤ v :=
      Nat.le_trans (Nat.pow_le_pow_right (by decide) (Nat.le_succ k)) (Nat.le_of_not_lt h)
    obtain ⟨hlo, hhi⟩ := sub_bounds hle
    obtain ⟨b, hb⟩ : ∃ b, bucket k v = b + 1 := by
      have h0 : v ≠ 0 := Nat.ne_of_gt (Nat.lt_of_lt_of_le (Nat.two_pow_pos _) hle)
      have hlog : k + 1 ≤ v.log2 := (Nat.le_log2 h0).mpr (Nat.le_of_not_lt h)
      refine ⟨v.log2 - (k + 1), ?_⟩
      rw [bucket]
      omega
    obtain ⟨sub, hsub⟩ := Nat.exists_eq_add_of_le' hlo
    have hslot : index k v = (b + 2) * 2 ^ k + sub := by
      rw [index, hb, hsub, Nat.add_mul, Nat.add_mul]
      omega
    have hlt : sub < 2 ^ k := by
      rw [hsub, Nat.pow_succ] at hhi
      omega
    rw [hslot, least_eq hlt, ← hsub, width, hb]

/-- `least` is the least of its slot. -/
theorem least_index_le (v : Nat) : least k (index k v) ≤ v := by
  rw [least_index]
  exact Nat.div_mul_le_self ..

/-- A slot is as wide as its least number says. -/
theorem width_least_index (v : Nat) : width k (least k (index k v)) = width k v := by
  by_cases h : v < 2 ^ (k + 1)
  · rw [index_of_lt h, least, if_pos h]
  · have hle : 2 ^ k ≤ v :=
      Nat.le_trans (Nat.pow_le_pow_right (by decide) (Nat.le_succ k)) (Nat.le_of_not_lt h)
    obtain ⟨hlo, hhi⟩ := sub_bounds hle
    rw [least_index, width, width]
    congr 1
    refine bucket_eq ?_ ?_
    · rw [Nat.pow_add]
      exact Nat.mul_le_mul_right _ hlo
    · rw [Nat.add_right_comm, Nat.pow_add]
      exact Nat.mul_lt_mul_of_pos_right hhi width_pos

/-- The width of a slot is small against what is in it, or one. -/
theorem width_le (v : Nat) : width k v - 1 ≤ v / 2 ^ k := by
  by_cases h : v < 2 ^ (k + 1)
  · rw [width_of_lt h]
    exact Nat.zero_le _
  · have hle : 2 ^ k ≤ v :=
      Nat.le_trans (Nat.pow_le_pow_right (by decide) (Nat.le_succ k)) (Nat.le_of_not_lt h)
    have hwidth : width k v ≤ v / 2 ^ k :=
      (Nat.le_div_iff_mul_le (Nat.two_pow_pos k)).mpr (width_mul_le hle)
    exact Nat.le_trans (Nat.sub_le ..) hwidth

/-- The slots below a power of two have numbers below it. -/
theorem least_lt {b : Nat} (hi : i < (b + 2) * 2 ^ k) : least k i < 2 ^ (k + b + 1) := by
  by_cases h : i < 2 ^ (k + 1)
  · rw [least, if_pos h]
    exact Nat.lt_of_lt_of_le h (Nat.pow_le_pow_right (by decide) (by omega))
  · obtain ⟨b', sub, hsub, rfl⟩ := slot_split h
    have hlt : b' + 2 < b + 2 :=
      (Nat.mul_lt_mul_right (Nat.two_pow_pos k)).mp (Nat.lt_of_le_of_lt (Nat.le_add_right ..) hi)
    rw [least_eq hsub]
    refine Nat.lt_of_lt_of_le (least_bounds hsub).2 (Nat.pow_le_pow_right (by decide) ?_)
    omega

end MarketData.LogLinear
