import Mathlib.Algebra.Group.Nat.Defs
import Mathlib.Data.Nat.Basic

/-!
# `Lib/Words.lean` — 64-bit counters over `Nat`

A `u64` counter is a natural number below `2^64`; the only places where the width shows are the
additions, and Rust has two of them. A plain `+` wraps in a release build, `saturating_add`
stops at the top. Both are the ordinary sum while it fits, which is the one fact a proof about
a stream of in-range numbers wants.

A model with `Nat` counters keeps its arithmetic in reach of `omega`, at the price that every
addition which the source makes at its own width has to be written with one of these, and that a
number which comes off the wire is below `2^64` has to be carried along. Subtractions need nothing:
where the source subtracts, it has compared before. `bitCeil` is here because a power of two is
asked for by both languages under different names.
-/

set_option autoImplicit false

namespace MarketData.Words

/-- `a + b` on `u64` in a build without overflow checks. -/
def wrapAdd (a b : Nat) : Nat := (a + b) % 2 ^ 64

/-- `a.saturating_add(b)` on `u64`. -/
def satAdd (a b : Nat) : Nat := min (a + b) (2 ^ 64 - 1)

theorem wrapAdd_eq {a b : Nat} (h : a + b < 2 ^ 64) : wrapAdd a b = a + b :=
  Nat.mod_eq_of_lt h

theorem satAdd_eq {a b : Nat} (h : a + b < 2 ^ 64) : satAdd a b = a + b := by
  unfold satAdd
  omega

/-- The smallest power of two that is not below `n`: `next_power_of_two`, `std::bit_ceil`. -/
def bitCeil (n : Nat) : Nat := if n ≤ 1 then 1 else 2 ^ ((n - 1).log2 + 1)

theorem bitCeil_spec (n : Nat) : (∃ k, bitCeil n = 2 ^ k) ∧ n ≤ bitCeil n := by
  unfold bitCeil
  split
  · rename_i hle
    exact ⟨⟨0, rfl⟩, hle⟩
  · have hlt := Nat.lt_log2_self (n := n - 1)
    exact ⟨⟨_, rfl⟩, by omega⟩

theorem bitCeil_le {n k : Nat} (h : n ≤ 2 ^ k) : bitCeil n ≤ 2 ^ k := by
  unfold bitCeil
  split
  · exact Nat.one_le_two_pow
  · have hlog : (n - 1).log2 < k := (Nat.log2_lt (by omega)).mpr (by omega)
    exact Nat.pow_le_pow_right (by decide) hlog

end MarketData.Words
