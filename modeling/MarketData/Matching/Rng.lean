import Mathlib.Data.List.Nodup
import Mathlib.Data.List.Range
import Mathlib.Data.Fintype.Card
import Mathlib.Algebra.Order.Ring.Rat

/-!
# `Matching/Rng.lean` — the engine's random numbers

`crates/matching-engine/src/rng.rs`: SplitMix64. Every draw is the mix of a counter that goes up by
an odd constant. The mix can be undone, so it repeats no draw before the counter comes round, after
2^64 of them, and then it does.

A probability is a rational number: every finite float is one, and the comparison of the source is
exact, since both of its sides are.

## Undoing the mix

The mix is three rounds, of which each shifts the word to the right and adds it to itself bitwise,
and two multiply it by an odd constant. Both can be undone: a shifted exclusive or by repeating it
until nothing is left to shift in, a multiplication by the inverse modulo 2^64, which an odd number
has. So the mix is injective, and **a repeated draw is a repeated counter**. The counter's increment
is odd as well, and goes through all words before it comes back.

Nothing is claimed about how random the draws are. That a seed reproduces its stream needs no proof:
the stream is a function of it.
-/

set_option autoImplicit false

namespace MarketData.Matching

structure Rng where
  state : UInt64
  deriving DecidableEq, Repr

namespace Rng

def new (seed : UInt64) : Rng := ⟨seed⟩

/-- What the counter goes up by. -/
def increment : UInt64 := 0x9E3779B97F4A7C15

/-- What is drawn at a value of the counter. -/
def mix (state : UInt64) : UInt64 :=
  let z := (state ^^^ (state >>> 30)) * 0xBF58476D1CE4E5B9
  let z := (z ^^^ (z >>> 27)) * 0x94D049BB133111EB
  z ^^^ (z >>> 31)

def nextU64 (r : Rng) : UInt64 × Rng :=
  let state := r.state + increment
  (mix state, ⟨state⟩)

/-- Uniform in `0..n`; 0 when `n` is 0. -/
def below (r : Rng) (n : UInt64) : UInt64 × Rng :=
  if n = 0 then (0, r)
  else
    let (z, r) := r.nextU64
    (z % n, r)

/-- Uniform in `lo..=hi`. -/
def rangeInclusive (r : Rng) (lo hi : UInt64) : UInt64 × Rng :=
  if hi ≤ lo then (lo, r)
  else
    let (z, r) := r.below (hi - lo + 1)
    (lo + z, r)

/-- True with probability `p`. Nothing is drawn for a `p` that is out of range. -/
def chance (r : Rng) (p : ℚ) : Bool × Rng :=
  if p ≤ 0 then (false, r)
  else if 1 ≤ p then (true, r)
  else
    let (z, r) := r.nextU64
    (((z >>> 11).toNat : ℚ) / 2 ^ 53 < p, r)

/-- The first `n` draws. -/
def draws : Rng → Nat → List UInt64
  | _, 0 => []
  | r, n + 1 =>
    let (z, r) := r.nextU64
    z :: draws r n

/-! ## Ranges -/

theorem below_lt (r : Rng) {n : UInt64} (hn : n ≠ 0) : (r.below n).1 < n := by
  rw [below, if_neg hn]
  refine UInt64.lt_iff_toNat_lt.mpr ?_
  rw [UInt64.toNat_mod]
  exact Nat.mod_lt _ (Nat.pos_of_ne_zero fun h => hn (UInt64.toNat_inj.mp h))

/-- What is drawn lies between the ends, the lower one included where they are the wrong way
round. -/
theorem rangeInclusive_bounds (r : Rng) (lo hi : UInt64) (hroom : hi.toNat + 1 < 2 ^ 64) :
    lo.toNat ≤ (r.rangeInclusive lo hi).1.toNat ∧
      (r.rangeInclusive lo hi).1.toNat ≤ max lo.toNat hi.toNat := by
  unfold rangeInclusive
  split
  · exact ⟨Nat.le_refl _, Nat.le_max_left ..⟩
  · rename_i hlt
    have hlt : lo.toNat < hi.toNat := by simpa [UInt64.le_iff_toNat_le] using hlt
    have hwidth : (hi - lo + 1).toNat = hi.toNat - lo.toNat + 1 := by
      rw [UInt64.toNat_add, UInt64.toNat_sub_of_le _ _ (UInt64.le_iff_toNat_le.mpr hlt.le)]
      exact Nat.mod_eq_of_lt (by simp; omega)
    have hz := r.below_lt (n := hi - lo + 1) fun h => by
      rw [h] at hwidth
      simp at hwidth
    rw [UInt64.lt_iff_toNat_lt, hwidth] at hz
    have hsum : (lo + (r.below (hi - lo + 1)).1).toNat =
        lo.toNat + (r.below (hi - lo + 1)).1.toNat := by
      rw [UInt64.toNat_add]
      exact Nat.mod_eq_of_lt (by omega)
    constructor
    · exact hsum ▸ Nat.le_add_right ..
    · refine le_trans (le_of_eq hsum) (le_trans ?_ (Nat.le_max_right ..))
      omega

/-! ## The mix can be undone -/

/-- A word that is its own shift is zero. -/
theorem eq_zero_of_shiftRight {d k : UInt64} (hk : 0 < k.toNat % 64) (h : d = d >>> k) : d = 0 := by
  have hdiv : d.toNat = d.toNat / 2 ^ (k.toNat % 64) := by
    have := congrArg UInt64.toNat h
    rwa [UInt64.toNat_shiftRight, Nat.shiftRight_eq_div_pow] at this
  have htwo : 2 ≤ 2 ^ (k.toNat % 64) := Nat.le_self_pow (by omega) 2
  have hzero : d.toNat = 0 := by
    by_contra hne
    have := Nat.div_lt_self (Nat.pos_of_ne_zero hne) htwo
    omega
  exact UInt64.toNat_inj.mp hzero

/-- A word is told from its xor with its own shift. -/
theorem xor_shiftRight_inj {k x y : UInt64} (hk : 0 < k.toNat % 64)
    (h : x ^^^ (x >>> k) = y ^^^ (y >>> k)) : x = y := by
  have hself : x ^^^ y = (x ^^^ y) >>> k := by
    have hboth : x ^^^ y ^^^ ((x >>> k) ^^^ (y >>> k)) = 0 := by
      rw [← UInt64.xor_eq_zero_iff] at h
      rw [← h]
      ac_rfl
    refine (UInt64.xor_eq_zero_iff.mp hboth).trans ?_
    exact UInt64.toBitVec_inj.mp (BitVec.ushiftRight_xor_distrib x.toBitVec y.toBitVec _).symm
  exact UInt64.xor_eq_zero_iff.mp (eq_zero_of_shiftRight hk hself)

theorem mul_inj {c inverse x y : UInt64} (hc : c * inverse = 1) (h : x * c = y * c) : x = y := by
  have := congrArg (· * inverse) h
  simpa [UInt64.mul_assoc, hc] using this

theorem mix_inj {x y : UInt64} (h : mix x = mix y) : x = y := by
  apply xor_shiftRight_inj (k := 30) (by decide)
  apply mul_inj (show 0xBF58476D1CE4E5B9 * (0x96DE1B173F119089 : UInt64) = 1 by decide)
  apply xor_shiftRight_inj (k := 27) (by decide)
  apply mul_inj (show 0x94D049BB133111EB * (0x319642B2D24D8EC3 : UInt64) = 1 by decide)
  exact xor_shiftRight_inj (k := 31) (by decide) h

/-! ## The stream -/

/-- The `i`-th draw mixes the counter after `i + 1` steps. -/
theorem draws_eq_map (r : Rng) (n : Nat) :
    r.draws n = (List.range n).map fun i => mix (r.state + UInt64.ofNat (i + 1) * increment) := by
  induction n generalizing r with
  | zero => rfl
  | succ n ih =>
    rw [draws, nextU64, List.range_succ_eq_map, List.map_cons, List.map_map]
    dsimp only
    rw [ih]
    refine List.cons_eq_cons.mpr ⟨?_, List.map_congr_left fun i _ => ?_⟩
    · rw [Nat.zero_add, UInt64.ofNat_one, UInt64.one_mul]
    · have hsucc : UInt64.ofNat (i + 1 + 1) * increment =
          increment + UInt64.ofNat (i + 1) * increment := by
        rw [UInt64.ofNat_add (i + 1), UInt64.add_mul, UInt64.ofNat_one, UInt64.one_mul,
          UInt64.add_comm]
      rw [Function.comp_apply, Nat.succ_eq_add_one, hsucc, UInt64.add_assoc]

/-- The counter is at the same value again just after a multiple of 2^64 steps. -/
theorem counter_inj {state : UInt64} {i j : Nat}
    (h : state + UInt64.ofNat i * increment = state + UInt64.ofNat j * increment) :
    i % 2 ^ 64 = j % 2 ^ 64 := by
  have hsteps := mul_inj (show increment * 0xF1DE83E19937733D = 1 by decide)
    ((UInt64.add_right_inj state).mp h)
  rwa [← UInt64.toNat_inj, UInt64.toNat_ofNat', UInt64.toNat_ofNat'] at hsteps

/-- **No draw comes twice before the counter comes round**, and then one does: the stream repeats
after 2^64 draws and not earlier. -/
theorem draws_nodup_iff (seed : UInt64) (n : Nat) : ((new seed).draws n).Nodup ↔ n ≤ 2 ^ 64 := by
  rw [draws_eq_map]
  constructor
  · intro h
    by_contra hlong
    have hagain : UInt64.ofNat (2 ^ 64 + 1) = UInt64.ofNat (0 + 1) := by
      rw [← UInt64.toNat_inj, UInt64.toNat_ofNat', UInt64.toNat_ofNat']
      decide
    have hzero := List.inj_on_of_nodup_map h (x := 2 ^ 64) (List.mem_range.mpr (by omega))
      (y := 0) (List.mem_range.mpr (by omega)) (by rw [hagain])
    omega
  · intro h
    refine List.Nodup.map_on (fun i hi j hj hij => ?_) List.nodup_range
    have hround := counter_inj (mix_inj hij)
    rw [List.mem_range] at hi hj
    omega

end Rng

end MarketData.Matching
