import MarketData.Lib.LogLinear
import MarketData.Lib.Ranks

/-!
# `Bench/Histogram.lean` — the latency histogram

`Histogram` (`crates/bench-support/src/histogram.rs`): the number of samples in each slot of a
layout of powers of two, cut into linear sub-buckets. The published figures are ranks read off the
counts, so what matters is how far a rank so read lies from the sample of that rank
(`histogram_accuracy`).

The slots are found by shifts and leading zeros, which is `LogLinear` at ten bits. Counters count
samples one by one and are `Nat`; a sample and all that is computed from it is 64 bits wide. Of
`quantile` the rank is the argument, not the fraction it is computed from.

## Bits on one side, ranks on the other

Two things that have nothing to do with each other make a reported figure good. A sample's slot is
not much wider than the sample is large: that is a fact about the layout (`Lib/LogLinear.lean`), and
the shifts and leading zeros of the source are held against it once. And the slot in which the
running count reaches a rank is the slot of the sample of that rank: that is a fact about counting
(`Lib/Ranks.lean`), true of any numbering of slots that keeps the order. `Accurate` is the two put
together, for every list of samples and every range that `new` accepts.

Indexing outside of the counts and merging different ranges are panics in the source and `none`
here. The first never happens (`countsIndex_lt`), the second is the caller's. The fraction a rank is
computed from is a floating-point number, and the rounding on the way from it to a rank is left out;
so are the mean and the text of a report.
-/

set_option autoImplicit false

namespace MarketData.Bench

open MarketData MarketData.Ranks

/-! ## The layout -/

def subBucketBits : UInt64 := 11

def subBucketCount : UInt64 := 1 <<< subBucketBits

def subBucketHalf : UInt64 := subBucketCount / 2

def subBucketMask : UInt64 := subBucketCount - 1

/-- `u64::MAX` -/
def u64Max : UInt64 := 0xFFFFFFFFFFFFFFFF

/-- `64 - SUB_BUCKET_BITS` -/
def leadingZeroBase : UInt32 := 53

/-- `u64::leading_zeros` -/
def leadingZeros (v : UInt64) : UInt32 := if v = 0 then 64 else UInt32.ofNat (63 - v.toNat.log2)

/-- Which power-of-two bucket `value` lands in. -/
def bucketIndex (value : UInt64) : UInt32 :=
  leadingZeroBase - leadingZeros (value ||| subBucketMask)

def countsIndex (value : UInt64) : Nat :=
  let bucket := bucketIndex value
  let sub := value >>> bucket.toUInt64
  let base := (bucket.toUInt64 + 1) <<< (subBucketBits - 1)
  (base + sub - subBucketHalf).toNat

/-- The largest value that lands in the same slot as `value`. -/
def highestEquivalent (value : UInt64) : UInt64 :=
  let bucket := bucketIndex value
  let unit := 1 <<< bucket.toUInt64
  (value / unit) * unit + unit - 1

/-- The lowest value that lands in slot `i`. -/
def valueFromIndex (i : Nat) : UInt64 :=
  let i := UInt64.ofNat i
  if i < subBucketCount then i
  else
    let bucket := (i >>> (subBucketBits - 1)) - 1
    let sub := (i &&& (subBucketHalf - 1)) + subBucketHalf
    sub <<< bucket

/-! ## The histogram -/

structure Histogram where
  counts : List Nat
  highest : UInt64
  total : Nat
  /-- Samples above `highest`. -/
  overflow : Nat
  min : UInt64
  max : UInt64
  sum : Nat
  deriving DecidableEq, Repr

/-- The loop of `new`: one bucket more as long as `highest` is out of reach. The bound doubles, so
64 rounds are enough. -/
def bucketsFor (highest : UInt64) : (rounds : Nat) → (smallestUntrackable : UInt64) →
    (buckets : Nat) → Nat
  | 0, _, buckets => buckets
  | rounds + 1, smallestUntrackable, buckets =>
    if smallestUntrackable ≤ highest then
      if u64Max / 2 < smallestUntrackable then buckets
      else bucketsFor highest rounds (smallestUntrackable <<< 1) (buckets + 1)
    else buckets

namespace Histogram

/-- Sized to track values up to `highest`. -/
def new (highest : UInt64) : Histogram :=
  let highest := Max.max highest subBucketCount
  let buckets := bucketsFor highest 64 subBucketCount 1
  { counts := List.replicate ((buckets + 1) * subBucketHalf.toNat) 0
    highest, total := 0, overflow := 0, min := u64Max, max := 0, sum := 0 }

/-- Records one sample. An index outside the counts is a panic. -/
def record (h : Histogram) (value : UInt64) : Option Histogram :=
  if h.highest < value then
    some { h with
      overflow := h.overflow + 1, total := h.total + 1
      max := Max.max h.max value, sum := h.sum + value.toNat }
  else if countsIndex value < h.counts.length then
    some { h with
      counts := h.counts.modify (countsIndex value) (· + 1), total := h.total + 1
      min := Min.min h.min value, max := Max.max h.max value, sum := h.sum + value.toNat }
  else none

def recordAll (h : Histogram) (values : List UInt64) : Option Histogram :=
  values.foldlM record h

/-- The loop of `quantile`: the slot in which the counts reach `rank`. -/
def slotOfRank (rank : Nat) : (counts : List Nat) → (i seen : Nat) → Option Nat
  | [], _, _ => none
  | c :: counts, i, seen =>
    if c = 0 then slotOfRank rank counts (i + 1) seen
    else if rank ≤ seen + c then some i
    else slotOfRank rank counts (i + 1) (seen + c)

/-- `quantile`, from the rank on. A rank in the overflow is reported as the maximum. -/
def quantile (h : Histogram) (rank : Nat) : UInt64 :=
  if h.total = 0 then 0
  else
    match slotOfRank rank h.counts 0 0 with
    | some i => highestEquivalent (valueFromIndex i)
    | none => h.max

/-- Folds `other` into `h`. Different ranges are a panic. -/
def merge (h other : Histogram) : Option Histogram :=
  if h.counts.length = other.counts.length then
    some { h with
      counts := List.zipWith (· + ·) h.counts other.counts
      total := h.total + other.total
      overflow := h.overflow + other.overflow
      sum := h.sum + other.sum
      min := if 0 < other.total then Min.min h.min other.min else h.min
      max := if 0 < other.total then Max.max h.max other.max else h.max }
  else none

end Histogram

/-! ## The layout is log-linear -/

theorem or_mask_log2 (v : UInt64) : (v ||| subBucketMask) ≠ 0 ∧
    (v ||| subBucketMask).toNat.log2 = 10 + LogLinear.bucket 10 v.toNat := by
  have hmask : subBucketMask.toNat = 2 ^ 11 - 1 := rfl
  have hor : (v ||| subBucketMask).toNat = v.toNat ||| (2 ^ 11 - 1) := by
    rw [UInt64.toNat_or, hmask]
  have hpos : 2 ^ 11 - 1 ≤ v.toNat ||| (2 ^ 11 - 1) := Nat.right_le_or
  have h0 : v.toNat ||| (2 ^ 11 - 1) ≠ 0 := by omega
  refine ⟨fun h => h0 (by rw [← hor, h]; rfl), ?_⟩
  rw [hor, Nat.log2_eq_iff h0]
  by_cases hsmall : v.toNat < 2 ^ (10 + 1)
  · rw [LogLinear.bucket_of_lt hsmall]
    exact ⟨by omega, Nat.or_lt_two_pow hsmall (by decide)⟩
  · have hv0 : v.toNat ≠ 0 := by omega
    have hlog : 11 ≤ v.toNat.log2 := (Nat.le_log2 hv0).mpr (Nat.le_of_not_lt hsmall)
    have hbits : v.toNat.log2 = 10 + LogLinear.bucket 10 v.toNat := by
      rw [LogLinear.bucket]
      omega
    obtain ⟨hlo, hhi⟩ := (Nat.log2_eq_iff hv0).mp hbits
    refine ⟨Nat.le_trans hlo Nat.left_le_or, Nat.or_lt_two_pow hhi ?_⟩
    exact Nat.lt_of_lt_of_le (by decide : 2 ^ 11 - 1 < 2 ^ 11)
      (Nat.pow_le_pow_right (by decide) (by omega))

theorem bucket_lt (v : UInt64) : LogLinear.bucket 10 v.toNat < 54 := by
  have hlt : v.toNat < 2 ^ 64 := v.toNat_lt
  by_cases h0 : v.toNat = 0
  · rw [h0, LogLinear.bucket_of_lt (by decide)]
    decide
  · have hlog : v.toNat.log2 < 64 := (Nat.log2_lt h0).mpr hlt
    rw [LogLinear.bucket]
    omega

theorem toNat_bucketIndex (v : UInt64) :
    (bucketIndex v).toUInt64.toNat = LogLinear.bucket 10 v.toNat := by
  obtain ⟨h0, hlog⟩ := or_mask_log2 v
  have hlt := bucket_lt v
  have hzeros : (leadingZeros (v ||| subBucketMask)).toNat = 53 - LogLinear.bucket 10 v.toNat := by
    rw [leadingZeros, if_neg h0, hlog, UInt32.toNat_ofNat_of_lt' (by simp only [UInt32.size]; omega)]
    omega
  have hbase : leadingZeroBase.toNat = 53 := rfl
  rw [UInt32.toNat_toUInt64, bucketIndex, UInt32.toNat_sub_of_le _ _ (by
    rw [UInt32.le_iff_toNat_le, hzeros, hbase]
    omega), hzeros, hbase]
  omega

theorem toNat_subBucketHalf : subBucketHalf.toNat = 2 ^ 10 := rfl

theorem toNat_shiftRight_bucket (v : UInt64) :
    (v >>> (bucketIndex v).toUInt64).toNat = v.toNat / LogLinear.width 10 v.toNat := by
  have hlt := bucket_lt v
  rw [UInt64.toNat_shiftRight, toNat_bucketIndex, Nat.mod_eq_of_lt (by omega),
    Nat.shiftRight_eq_div_pow]
  rfl

theorem countsIndex_eq (v : UInt64) : countsIndex v = LogLinear.index 10 v.toNat := by
  have hlt := bucket_lt v
  have hsub := toNat_shiftRight_bucket v
  have hindex : LogLinear.index 10 v.toNat < (LogLinear.bucket 10 v.toNat + 2) * 2 ^ 10 :=
    LogLinear.index_lt
  rw [LogLinear.index] at hindex ⊢
  generalize v.toNat / LogLinear.width 10 v.toNat = sub at hsub hindex ⊢
  rw [Nat.add_mul, Nat.add_lt_add_iff_left] at hindex
  have hbound : (LogLinear.bucket 10 v.toNat + 1) * 2 ^ 10 + sub < 2 ^ 64 := by omega
  have hnext : ((bucketIndex v).toUInt64 + 1).toNat = LogLinear.bucket 10 v.toNat + 1 := by
    rw [UInt64.toNat_add, toNat_bucketIndex]
    exact Nat.mod_eq_of_lt (by show _ + 1 < _; omega)
  have hbase : (((bucketIndex v).toUInt64 + 1) <<< (subBucketBits - 1)).toNat
      = (LogLinear.bucket 10 v.toNat + 1) * 2 ^ 10 := by
    have hbits : (subBucketBits - 1).toNat % 64 = 10 := rfl
    rw [UInt64.toNat_shiftLeft, hnext, hbits, Nat.shiftLeft_eq]
    exact Nat.mod_eq_of_lt (Nat.lt_of_le_of_lt (Nat.le_add_right ..) hbound)
  have hsum : (((bucketIndex v).toUInt64 + 1) <<< (subBucketBits - 1) +
      v >>> (bucketIndex v).toUInt64).toNat
      = (LogLinear.bucket 10 v.toNat + 1) * 2 ^ 10 + sub := by
    rw [UInt64.toNat_add, hbase, hsub]
    exact Nat.mod_eq_of_lt hbound
  unfold countsIndex
  dsimp only
  rw [UInt64.toNat_sub_of_le _ _ (by
    rw [UInt64.le_iff_toNat_le, hsum, toNat_subBucketHalf]
    omega), hsum, toNat_subBucketHalf]
  omega

/-- The largest value of a slot that ends below `2^64`. -/
theorem toNat_highestEquivalent {v : UInt64} (hv : v.toNat < 2 ^ 63) :
    (highestEquivalent v).toNat = v.toNat / LogLinear.width 10 v.toNat * LogLinear.width 10 v.toNat
      + (LogLinear.width 10 v.toNat - 1) := by
  have hbucket := toNat_bucketIndex v
  have hpos : 0 < LogLinear.width 10 v.toNat := LogLinear.width_pos
  have hwidth : LogLinear.width 10 v.toNat ≤ 2 ^ 63 := by
    refine Nat.pow_le_pow_right (by decide) ?_
    have hlt := bucket_lt v
    omega
  have hle : v.toNat / LogLinear.width 10 v.toNat * LogLinear.width 10 v.toNat ≤ v.toNat :=
    Nat.div_mul_le_self ..
  have hunit : ((1 : UInt64) <<< (bucketIndex v).toUInt64).toNat = LogLinear.width 10 v.toNat := by
    have hlt := bucket_lt v
    rw [UInt64.toNat_shiftLeft, hbucket, Nat.mod_eq_of_lt (by omega : _ < 64), Nat.shiftLeft_eq,
      show (1 : UInt64).toNat = 1 from rfl, Nat.one_mul]
    exact Nat.mod_eq_of_lt (Nat.lt_of_le_of_lt hwidth (by decide))
  have hfloor : (v / (1 <<< (bucketIndex v).toUInt64) * (1 <<< (bucketIndex v).toUInt64)).toNat
      = v.toNat / LogLinear.width 10 v.toNat * LogLinear.width 10 v.toNat := by
    rw [UInt64.toNat_mul, UInt64.toNat_div, hunit]
    exact Nat.mod_eq_of_lt (by omega)
  unfold highestEquivalent
  dsimp only
  have hsum : (v / (1 <<< (bucketIndex v).toUInt64) * (1 <<< (bucketIndex v).toUInt64)
      + 1 <<< (bucketIndex v).toUInt64).toNat
      = v.toNat / LogLinear.width 10 v.toNat * LogLinear.width 10 v.toNat
        + LogLinear.width 10 v.toNat := by
    rw [UInt64.toNat_add, hfloor, hunit]
    exact Nat.mod_eq_of_lt (by omega)
  have hone : (1 : UInt64).toNat = 1 := rfl
  rw [UInt64.toNat_sub_of_le _ _ (by
    rw [UInt64.le_iff_toNat_le, hsum, hone]
    omega), hsum, hone]
  omega

/-- The lowest value of a slot below those of `2^63`. -/
theorem toNat_valueFromIndex {i : Nat} (hi : i < 54 * 2 ^ 10) :
    (valueFromIndex i).toNat = LogLinear.least 10 i := by
  have hnat : (UInt64.ofNat i).toNat = i :=
    UInt64.toNat_ofNat_of_lt' (by simp only [UInt64.size]; omega)
  have hcount : subBucketCount.toNat = 2 ^ (10 + 1) := rfl
  unfold valueFromIndex
  dsimp only
  by_cases hsmall : i < 2 ^ (10 + 1)
  · rw [if_pos (by rw [UInt64.lt_iff_toNat_lt, hnat, hcount]; exact hsmall), hnat,
      LogLinear.least, if_pos hsmall]
  · obtain ⟨b, sub, hsub, rfl⟩ := LogLinear.slot_split hsmall
    rw [if_neg (by rw [UInt64.lt_iff_toNat_lt, hnat, hcount]; exact hsmall),
      LogLinear.least_eq hsub]
    generalize hi' : (b + 2) * 2 ^ 10 + sub = i at *
    have hb : b < 52 := by omega
    have hbits : (subBucketBits - 1).toNat % 64 = 10 := rfl
    have hmask : (subBucketHalf - 1).toNat = 2 ^ 10 - 1 := rfl
    have hone : (1 : UInt64).toNat = 1 := rfl
    have hshift : (UInt64.ofNat i >>> (subBucketBits - 1)).toNat = b + 2 := by
      rw [UInt64.toNat_shiftRight, hnat, hbits, Nat.shiftRight_eq_div_pow]
      omega
    have hbucket : (UInt64.ofNat i >>> (subBucketBits - 1) - 1).toNat = b + 1 := by
      rw [UInt64.toNat_sub_of_le _ _ (by
        rw [UInt64.le_iff_toNat_le, hshift, hone]
        omega), hshift, hone]
      rfl
    have hlow : ((UInt64.ofNat i &&& (subBucketHalf - 1)) + subBucketHalf).toNat
        = sub + 2 ^ 10 := by
      rw [UInt64.toNat_add, UInt64.toNat_and, hnat, hmask, Nat.and_two_pow_sub_one_eq_mod,
        toNat_subBucketHalf]
      omega
    have hbounds := (LogLinear.least_bounds (b := b) hsub).2
    have htop : 2 ^ (10 + (b + 1) + 1) ≤ 2 ^ 64 := Nat.pow_le_pow_right (by decide) (by omega)
    rw [UInt64.toNat_shiftLeft, hlow, hbucket, Nat.mod_eq_of_lt (by omega : b + 1 < 64),
      Nat.shiftLeft_eq]
    exact Nat.mod_eq_of_lt (Nat.lt_of_lt_of_le hbounds htop)

/-! ## The slots of a range -/

variable {highest : UInt64}

theorem toNat_double {su : UInt64} {buckets : Nat} (hsu : su.toNat = 2 ^ (10 + buckets))
    (hlt : 10 + buckets < 63) : (su <<< 1).toNat = 2 ^ (10 + (buckets + 1)) := by
  have hone : (1 : UInt64).toNat % 64 = 1 := rfl
  have hbound : 2 ^ (10 + buckets) < 2 ^ 63 := Nat.pow_lt_pow_right (by decide) hlt
  rw [UInt64.toNat_shiftLeft, hsu, hone, Nat.shiftLeft_eq, ← Nat.add_assoc, Nat.pow_succ]
  exact Nat.mod_eq_of_lt (by omega)

/-- Where the loop of `new` stops there is a bucket for `highest`. -/
theorem bucketsFor_spec (hhighest : highest.toNat < 2 ^ 63) {rounds buckets : Nat} {su : UInt64}
    (hsu : su.toNat = 2 ^ (10 + buckets)) (hle : buckets ≤ 53) (hrounds : 53 < rounds + buckets) :
    highest.toNat < 2 ^ (10 + bucketsFor highest rounds su buckets) ∧
      buckets ≤ bucketsFor highest rounds su buckets ∧
      bucketsFor highest rounds su buckets ≤ 53 := by
  induction rounds generalizing su buckets with
  | zero => omega
  | succ rounds ih =>
    unfold bucketsFor
    by_cases hreach : su ≤ highest
    · -- a bound that is not above `highest` can be doubled
      rw [UInt64.le_iff_toNat_le, hsu] at hreach
      have hlt : 10 + buckets < 63 :=
        (Nat.pow_lt_pow_iff_right (by decide)).mp (Nat.lt_of_le_of_lt hreach hhighest)
      have hhalf : 2 ^ (10 + buckets) ≤ 2 ^ 62 := Nat.pow_le_pow_right (by decide) (by omega)
      have hmax : (u64Max / 2).toNat = 2 ^ 63 - 1 := rfl
      have hdouble := toNat_double hsu hlt
      rw [if_pos (by rw [UInt64.le_iff_toNat_le, hsu]; exact hreach),
        if_neg (by rw [UInt64.lt_iff_toNat_lt, hsu, hmax]; omega)]
      obtain ⟨hbits, hge, hmost⟩ := ih hdouble (by omega) (by omega)
      exact ⟨hbits, Nat.le_of_succ_le hge, hmost⟩
    · rw [if_neg hreach]
      rw [UInt64.le_iff_toNat_le, hsu] at hreach
      exact ⟨Nat.lt_of_not_le hreach, Nat.le_refl _, hle⟩

/-- 64 rounds are enough: the loop goes no further with more of them. -/
theorem bucketsFor_rounds {rounds buckets : Nat} {su : UInt64}
    (hsu : su.toNat = 2 ^ (10 + buckets)) (hle : buckets ≤ 53) (hrounds : 53 < rounds + buckets)
    (more : Nat) : bucketsFor highest (rounds + more) su buckets =
      bucketsFor highest rounds su buckets := by
  induction rounds generalizing su buckets with
  | zero => omega
  | succ rounds ih =>
    have hmax : (u64Max / 2).toNat = 2 ^ 63 - 1 := rfl
    rw [Nat.add_right_comm]
    unfold bucketsFor
    split
    · split
      · rfl
      · rename_i hstop
        rw [UInt64.lt_iff_toNat_lt, hsu, hmax] at hstop
        have hlt : 10 + buckets < 63 := by
          refine (Nat.pow_lt_pow_iff_right (by decide : 1 < 2)).mp ?_
          omega
        have hdouble := toNat_double hsu hlt
        exact ih hdouble (by omega) (by omega)
    · rfl

/-- How many slots a histogram up to `highest` has. -/
def slots (highest : UInt64) : Nat := (Histogram.new highest).counts.length

theorem toNat_max (a b : UInt64) : (max a b).toNat = max a.toNat b.toNat := by
  show (if a ≤ b then b else a).toNat = _
  split
  · rename_i h
    rw [UInt64.le_iff_toNat_le] at h
    omega
  · rename_i h
    rw [UInt64.le_iff_toNat_le] at h
    omega

theorem toNat_min (a b : UInt64) : (min a b).toNat = min a.toNat b.toNat := by
  show (if a ≤ b then a else b).toNat = _
  split
  · rename_i h
    rw [UInt64.le_iff_toNat_le] at h
    omega
  · rename_i h
    rw [UInt64.le_iff_toNat_le] at h
    omega

section Range

variable (hhighest : highest.toNat < 2 ^ 63)
include hhighest

theorem highest_lt : (Histogram.new highest).highest.toNat < 2 ^ 63 := by
  have hcount : subBucketCount.toNat = 2048 := rfl
  show (max highest subBucketCount).toNat < 2 ^ 63
  rw [toNat_max, hcount]
  omega

theorem slots_spec : ∃ buckets, slots highest = (buckets + 1) * 2 ^ 10 ∧ buckets ≤ 53 ∧
    1 ≤ buckets ∧ (Histogram.new highest).highest.toNat < 2 ^ (10 + buckets) := by
  have hlen : slots highest =
      (bucketsFor (max highest subBucketCount) 64 subBucketCount 1 + 1) * 2 ^ 10 :=
    List.length_replicate
  have hcount : subBucketCount.toNat = 2 ^ (10 + 1) := rfl
  obtain ⟨hlt, hpos, hle⟩ := bucketsFor_spec (highest_lt hhighest) hcount (by decide)
    (by decide : 53 < 64 + 1)
  exact ⟨_, hlen, hle, hpos, hlt⟩

/-- **No index outside the counts.** -/
theorem countsIndex_lt {v : UInt64} (hv : v ≤ (Histogram.new highest).highest) :
    countsIndex v < slots highest := by
  obtain ⟨buckets, hlen, -, hpos, hlt⟩ := slots_spec hhighest
  rw [UInt64.le_iff_toNat_le] at hv
  obtain ⟨b, rfl⟩ := Nat.exists_eq_add_of_le' hpos
  have hindex := LogLinear.index_lt_of_lt (k := 10) (b := b) (Nat.lt_of_le_of_lt hv hlt)
  rw [hlen, countsIndex_eq]
  exact hindex

theorem slots_le : slots highest ≤ 54 * 2 ^ 10 := by
  obtain ⟨buckets, hlen, hle, -⟩ := slots_spec hhighest
  rw [hlen]
  exact Nat.mul_le_mul_right _ (by omega)

end Range

/-! ## Slots and the values in them -/

/-- The least of the values that land in its slot. -/
def SlotMinimum (v : UInt64) : Prop := ∀ w, countsIndex w = countsIndex v → v ≤ w

/-- Over the first `n` slots the two mappings are mutually inverse on slot minima. -/
structure Inverse (n : Nat) : Prop where
  slot : ∀ i < n, countsIndex (valueFromIndex i) = i ∧ SlotMinimum (valueFromIndex i)
  value : ∀ v, countsIndex v < n → SlotMinimum v → valueFromIndex (countsIndex v) = v

theorem countsIndex_valueFromIndex {i : Nat} (hi : i < 54 * 2 ^ 10) :
    countsIndex (valueFromIndex i) = i := by
  rw [countsIndex_eq, toNat_valueFromIndex hi, LogLinear.index_least]

theorem valueFromIndex_le {v : UInt64} (hv : countsIndex v < 54 * 2 ^ 10) :
    valueFromIndex (countsIndex v) ≤ v := by
  rw [UInt64.le_iff_toNat_le, toNat_valueFromIndex hv, countsIndex_eq]
  exact LogLinear.least_index_le v.toNat

theorem inverse {n : Nat} (hn : n ≤ 54 * 2 ^ 10) : Inverse n where
  slot := by
    intro i hi
    have hindex := countsIndex_valueFromIndex (Nat.lt_of_lt_of_le hi hn)
    refine ⟨hindex, fun w hw => ?_⟩
    rw [hindex] at hw
    have hle := valueFromIndex_le (v := w) (by rw [hw]; exact Nat.lt_of_lt_of_le hi hn)
    rwa [hw] at hle
  value := by
    intro v hv hmin
    have hlt := Nat.lt_of_lt_of_le hv hn
    exact UInt64.le_antisymm (valueFromIndex_le hlt) (hmin _ (countsIndex_valueFromIndex hlt))

/-- What is reported for a slot against the values in it. -/
theorem reported_bounds {v : UInt64} (hv : countsIndex v < 54 * 2 ^ 10) :
    v.toNat ≤ (highestEquivalent (valueFromIndex (countsIndex v))).toNat ∧
      (highestEquivalent (valueFromIndex (countsIndex v))).toNat ≤ v.toNat + v.toNat / 2 ^ 10 ∧
      (v.toNat < 2 ^ 11 → (highestEquivalent (valueFromIndex (countsIndex v))).toNat = v.toNat) := by
  have hleast : (valueFromIndex (countsIndex v)).toNat
      = v.toNat / LogLinear.width 10 v.toNat * LogLinear.width 10 v.toNat := by
    rw [toNat_valueFromIndex hv, countsIndex_eq, LogLinear.least_index]
  have hwidth : LogLinear.width 10 (valueFromIndex (countsIndex v)).toNat
      = LogLinear.width 10 v.toNat := by
    rw [toNat_valueFromIndex hv, countsIndex_eq, LogLinear.width_least_index]
  have hlt : (valueFromIndex (countsIndex v)).toNat < 2 ^ 63 := by
    rw [toNat_valueFromIndex hv]
    exact LogLinear.least_lt hv
  have hpos : 0 < LogLinear.width 10 v.toNat := LogLinear.width_pos
  have hreport : (highestEquivalent (valueFromIndex (countsIndex v))).toNat
      = v.toNat / LogLinear.width 10 v.toNat * LogLinear.width 10 v.toNat
        + (LogLinear.width 10 v.toNat - 1) := by
    rw [toNat_highestEquivalent hlt, hwidth, hleast, Nat.mul_div_cancel _ hpos]
  have hrest := Nat.div_add_mod' v.toNat (LogLinear.width 10 v.toNat)
  have hmod := Nat.mod_lt v.toNat hpos
  have hsmall := LogLinear.width_le (k := 10) v.toNat
  rw [hreport]
  refine ⟨by omega, by omega, fun hexact => ?_⟩
  rw [LogLinear.width_of_lt hexact, Nat.div_one, Nat.mul_one]
  rfl

/-! ## What a histogram counts -/

/-- The samples that are not above `highest`. -/
def tracked (highest : UInt64) (samples : List UInt64) : List UInt64 :=
  samples.filter (· ≤ highest)

/-- The histogram of a list of samples. -/
def histogramOf (highest : UInt64) (samples : List UInt64) : Histogram :=
  let h := Histogram.new highest
  let kept := tracked h.highest samples
  { counts := (List.range h.counts.length).map fun i => kept.countP (countsIndex · = i)
    highest := h.highest
    total := samples.length
    overflow := samples.countP (h.highest < ·)
    min := kept.foldl Min.min u64Max
    max := samples.foldl Max.max 0
    sum := (samples.map UInt64.toNat).sum }

theorem histogramOf_nil : histogramOf highest [] = Histogram.new highest := by
  have hcounts : ((List.range (Histogram.new highest).counts.length).map fun i =>
      (tracked (Histogram.new highest).highest []).countP (countsIndex · = i))
      = (Histogram.new highest).counts := by
    simp [tracked, Histogram.new]
  unfold histogramOf
  dsimp only
  rw [hcounts]
  rfl

theorem tracked_append (top : UInt64) (xs ys : List UInt64) :
    tracked top (xs ++ ys) = tracked top xs ++ tracked top ys := List.filter_append ..

theorem record_histogramOf (hhighest : highest.toNat < 2 ^ 63) (samples : List UInt64)
    (value : UInt64) :
    (histogramOf highest samples).record value = some (histogramOf highest (samples ++ [value])) := by
  unfold Histogram.record
  by_cases habove : (histogramOf highest samples).highest < value
  · have hlt : (Histogram.new highest).highest < value := habove
    have hkept : tracked (Histogram.new highest).highest [value] = [] := by
      simpa [tracked] using UInt64.not_le.mpr hlt
    rw [if_pos habove]
    simp [histogramOf, tracked_append, hkept, hlt]
  · have hle : value ≤ (Histogram.new highest).highest := UInt64.not_lt.mp habove
    have hkept : tracked (Histogram.new highest).highest [value] = [value] := by
      simpa [tracked] using hle
    have hlen : (histogramOf highest samples).counts.length = slots highest := by
      simp [histogramOf, slots]
    rw [if_neg habove, if_pos (hlen ▸ countsIndex_lt hhighest hle)]
    simp only [histogramOf, tracked_append, hkept, modify_counts]
    simp [UInt64.not_lt.mpr hle]

theorem recordAll_histogramOf (hhighest : highest.toNat < 2 ^ 63) (samples more : List UInt64) :
    (histogramOf highest samples).recordAll more = some (histogramOf highest (samples ++ more)) := by
  induction more generalizing samples with
  | nil =>
    rw [List.append_nil]
    rfl
  | cons value more ih =>
    have hgo := ih (samples ++ [value])
    rw [List.append_assoc] at hgo
    unfold Histogram.recordAll at hgo ⊢
    rw [List.foldlM_cons, record_histogramOf hhighest]
    exact hgo

theorem foldl_min (a : UInt64) (l : List UInt64) :
    l.foldl Min.min a = Min.min a (l.foldl Min.min u64Max) := by
  induction l generalizing a with
  | nil =>
    have hmax : u64Max.toNat = 2 ^ 64 - 1 := rfl
    have hlt := a.toNat_lt
    refine UInt64.toNat.inj ?_
    rw [List.foldl_nil, List.foldl_nil, toNat_min, hmax]
    omega
  | cons x l ih =>
    have hmax : u64Max.toNat = 2 ^ 64 - 1 := rfl
    have hlt := x.toNat_lt
    refine UInt64.toNat.inj ?_
    rw [List.foldl_cons, List.foldl_cons, ih, ih (Min.min u64Max x)]
    simp only [toNat_min, hmax]
    omega

theorem foldl_max (a : UInt64) (l : List UInt64) :
    l.foldl Max.max a = Max.max a (l.foldl Max.max 0) := by
  have hzero : (0 : UInt64).toNat = 0 := rfl
  induction l generalizing a with
  | nil =>
    refine UInt64.toNat.inj ?_
    rw [List.foldl_nil, List.foldl_nil, toNat_max, hzero]
    omega
  | cons x l ih =>
    refine UInt64.toNat.inj ?_
    rw [List.foldl_cons, List.foldl_cons, ih, ih (Max.max 0 x)]
    simp only [toNat_max, hzero]
    omega

theorem merge_histogramOf (xs ys : List UInt64) :
    (histogramOf highest xs).merge (histogramOf highest ys) = some (histogramOf highest (xs ++ ys)) := by
  have hlen : (histogramOf highest xs).counts.length = (histogramOf highest ys).counts.length := by
    simp [histogramOf]
  have hmin : (if 0 < (histogramOf highest ys).total then
      Min.min (histogramOf highest xs).min (histogramOf highest ys).min
      else (histogramOf highest xs).min) = (histogramOf highest (xs ++ ys)).min := by
    cases ys with
    | nil => simp [histogramOf, tracked]
    | cons y ys =>
      have htotal : 0 < (histogramOf highest (y :: ys)).total := Nat.succ_pos _
      rw [if_pos htotal]
      simp only [histogramOf, tracked_append, List.foldl_append]
      exact (foldl_min _ _).symm
  have hmax : (if 0 < (histogramOf highest ys).total then
      Max.max (histogramOf highest xs).max (histogramOf highest ys).max
      else (histogramOf highest xs).max) = (histogramOf highest (xs ++ ys)).max := by
    cases ys with
    | nil => simp [histogramOf]
    | cons y ys =>
      have htotal : 0 < (histogramOf highest (y :: ys)).total := Nat.succ_pos _
      rw [if_pos htotal]
      simp only [histogramOf, List.foldl_append]
      exact (foldl_max _ _).symm
  unfold Histogram.merge
  rw [if_pos hlen, hmin, hmax]
  simp only [histogramOf, tracked_append, add_counts, List.length_append, List.countP_append,
    List.map_append, List.sum_append]

/-! ## Ranks -/

open Histogram in
/-- The loop of `quantile` stops in the slot in which the running count reaches the rank. -/
theorem slotOfRank_spec {rank : Nat} {counts : List Nat} {i seen : Nat} (hseen : seen < rank)
    (hrank : rank ≤ seen + counts.sum) :
    ∃ j, slotOfRank rank counts i seen = some (i + j) ∧ j < counts.length ∧
      seen + (counts.take j).sum < rank ∧ rank ≤ seen + (counts.take (j + 1)).sum := by
  induction counts generalizing i seen with
  | nil =>
    rw [List.sum_nil] at hrank
    omega
  | cons c counts ih =>
    rw [List.sum_cons] at hrank
    unfold slotOfRank
    by_cases hstop : c ≠ 0 ∧ rank ≤ seen + c
    · rw [if_neg hstop.1, if_pos hstop.2]
      exact ⟨0, rfl, Nat.succ_pos _, by simpa using hseen, by simpa using hstop.2⟩
    · have hnext : seen + c < rank := by
        by_cases h0 : c = 0
        · omega
        · exact Nat.lt_of_not_le fun hle => hstop ⟨h0, hle⟩
      obtain ⟨j, hj, hlt, hbelow, hupTo⟩ := ih (i := i + 1) hnext (by omega)
      refine ⟨j + 1, ?_, Nat.succ_lt_succ hlt, ?_, ?_⟩
      · have hgo : slotOfRank rank counts (i + 1) (seen + c) = some (i + (j + 1)) := by
          rw [hj]
          congr 1
          omega
        split
        · rename_i h0
          rwa [h0, Nat.add_zero] at hgo
        · rw [if_neg (by omega)]
          exact hgo
      · rw [List.take_succ_cons, List.sum_cons]
        omega
      · rw [List.take_succ_cons, List.sum_cons]
        omega

/-- What a rank is reported as: nothing below the sample of that rank, and above it by a small part
of it. -/
structure Accurate (h : Histogram) (samples : List UInt64) (r s : Nat) : Prop where
  sample : nth (samples.map UInt64.toNat) r = some s
  notBelow : s ≤ (h.quantile r).toNat
  notFarAbove : (h.quantile r).toNat ≤ s + s / 2 ^ 10
  exact_of_small : s < 2 ^ 11 → (h.quantile r).toNat = s

/-- The counts of the slots are the counts of the samples in them. -/
theorem sum_take_counts (samples : List UInt64) {j : Nat} (hj : j ≤ slots highest) :
    ((histogramOf highest samples).counts.take j).sum =
      ((tracked (Histogram.new highest).highest samples).map UInt64.toNat).countP
        (LogLinear.index 10 · < j) := by
  have htake : (histogramOf highest samples).counts.take j = (List.range j).map fun i =>
      (tracked (Histogram.new highest).highest samples).countP (countsIndex · = i) := by
    have hmin : min j (Histogram.new highest).counts.length = j := Nat.min_eq_left hj
    simp only [histogramOf, ← List.map_take, List.take_range, hmin]
  rw [htake, sum_counts, List.countP_map]
  refine List.countP_congr fun v _ => ?_
  simp [countsIndex_eq]

section Accuracy

variable (hhighest : highest.toNat < 2 ^ 63)
include hhighest

theorem quantile_accurate (samples : List UInt64) {r : Nat} (hpos : 1 ≤ r)
    (hr : r ≤ (tracked (Histogram.new highest).highest samples).length) :
    ∃ s, Accurate (histogramOf highest samples) samples r s := by
  have hkept : (tracked (Histogram.new highest).highest samples).map UInt64.toNat =
      (samples.map UInt64.toNat).filter (· ≤ (Histogram.new highest).highest.toNat) := by
    rw [List.filter_map]
    rfl
  have hlen : (tracked (Histogram.new highest).highest samples).length ≤ samples.length :=
    List.length_filter_le ..
  have hall : r ≤ (samples.map UInt64.toNat).length := by
    rw [List.length_map]
    exact Nat.le_trans hr hlen
  have htracked : r ≤ ((samples.map UInt64.toNat).filter
      (· ≤ (Histogram.new highest).highest.toNat)).length := by
    rw [← hkept, List.length_map]
    exact hr
  obtain ⟨s, hs, hrank⟩ := nth_hasRank hpos hall
  obtain ⟨-, hrank⟩ := hrank.filter htracked
  rw [← hkept] at hrank
  have hcount : (histogramOf highest samples).counts.length = slots highest := by
    simp [histogramOf, slots]
  have hsum : r ≤ 0 + (histogramOf highest samples).counts.sum := by
    have hall : ((tracked (Histogram.new highest).highest samples).map UInt64.toNat).countP
        (LogLinear.index 10 · < slots highest)
        = (tracked (Histogram.new highest).highest samples).length := by
      rw [List.countP_map, List.countP_eq_length]
      intro v hv
      have hle : v ≤ (Histogram.new highest).highest := by simpa using (List.mem_filter.mp hv).2
      simpa [countsIndex_eq] using countsIndex_lt hhighest hle
    have htake := sum_take_counts samples (Nat.le_refl (slots highest))
    rw [List.take_of_length_le (Nat.le_of_eq hcount), hall] at htake
    omega
  obtain ⟨j, hslot, hlt, hbelow, hupTo⟩ := slotOfRank_spec (i := 0) (by omega : 0 < r) hsum
  rw [hcount] at hlt
  rw [Nat.zero_add, sum_take_counts samples (Nat.le_of_lt hlt)] at hbelow
  rw [Nat.zero_add, sum_take_counts samples hlt] at hupTo
  have hindex : LogLinear.index 10 s = j :=
    slot_of_rank (fun _ _ h => LogLinear.index_mono h) hrank hbelow hupTo
  obtain ⟨v, -, rfl⟩ := List.mem_map.mp (mem_of_nth hs)
  rw [← countsIndex_eq] at hindex
  obtain ⟨hnot, hfar, hexact⟩ := reported_bounds (v := v)
    (by rw [hindex]; exact Nat.lt_of_lt_of_le hlt (slots_le hhighest))
  have hquantile : (histogramOf highest samples).quantile r
      = highestEquivalent (valueFromIndex (countsIndex v)) := by
    have htotal : (histogramOf highest samples).total ≠ 0 := by
      show samples.length ≠ 0
      omega
    rw [Histogram.quantile, if_neg htotal, hslot, Nat.zero_add, hindex]
  rw [← hquantile] at hnot hfar hexact
  exact ⟨_, hs, hnot, hfar, hexact⟩

/-- **The published figures can be relied on**: whatever is recorded, no index is outside the
counts, a rank is reported within a part in 1024 of its sample, the slots and their least values
give each other, and merging is recording both lists. -/
theorem histogram_accuracy (xs ys : List UInt64) :
    ∃ h other merged : Histogram,
      (Histogram.new highest).recordAll xs = some h ∧
      (Histogram.new highest).recordAll ys = some other ∧
      (∀ r, 1 ≤ r → r ≤ (tracked h.highest xs).length → ∃ s, Accurate h xs r s) ∧
      Inverse h.counts.length ∧
      h.merge other = some merged ∧ (Histogram.new highest).recordAll (xs ++ ys) = some merged := by
  have hrecord : ∀ samples, (Histogram.new highest).recordAll samples
      = some (histogramOf highest samples) := by
    intro samples
    have hall := recordAll_histogramOf hhighest [] samples
    rwa [histogramOf_nil] at hall
  refine ⟨_, _, _, hrecord xs, hrecord ys, ?_, ?_, merge_histogramOf xs ys, hrecord _⟩
  · intro r hpos hr
    exact quantile_accurate hhighest xs hpos hr
  · refine inverse ?_
    have hcount : (histogramOf highest xs).counts.length = slots highest := by
      simp [histogramOf, slots]
    rw [hcount]
    exact slots_le hhighest

end Accuracy

theorem histogram_accuracy_three : ∃ h other merged : Histogram,
      (Histogram.new 3000).recordAll [40, 2500, 5000] = some h ∧
      (Histogram.new 3000).recordAll [7] = some other ∧
      (∀ r, 1 ≤ r → r ≤ (tracked h.highest [40, 2500, 5000]).length →
        ∃ s, Accurate h [40, 2500, 5000] r s) ∧
      Inverse h.counts.length ∧
      h.merge other = some merged ∧
      (Histogram.new 3000).recordAll ([40, 2500, 5000] ++ [7]) = some merged :=
  histogram_accuracy (by decide) [40, 2500, 5000] [7]

end MarketData.Bench
