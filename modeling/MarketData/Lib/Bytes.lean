import Mathlib.Data.Nat.Basic
import Mathlib.Tactic.Ring
import Mathlib.Tactic.Linarith

/-!
# `Lib/Bytes.lean` — little-endian fields of a byte buffer

A codec that addresses its fields by byte offset needs exactly two operations, *read the `n`
bytes at offset `o` as a number* and *overwrite the `n` bytes at offset `o` with a number*, and
four facts about them: a read sees the write at its own offset, a read does not see a write to
a disjoint range, a write keeps the length, and a read of a prefix or suffix of the buffer is a
read of the buffer. Everything a particular wire format proves about its own fields is those
four facts at its own offsets.

Out-of-range reads answer zero bytes and out-of-range writes are dropped, so both functions are
total; the facts that need the range say so.

## Why total

A read that may fail would put an `Option` around every field of every message, and the codecs here
check the length of a buffer once and then read freely. Totality moves that check to where it is
made. The price is that **a read outside of the buffer goes unnoticed by these functions**; where it
matters whether one happens, as in a decoder that trusts a length from the wire, that has to be
asked separately.

The four facts are in the form in which a simplifier can use them: the side conditions are
inequalities between literals and the length of a literal, so one call with the offsets of a message
reads all of its fields back.
-/

set_option autoImplicit false

namespace MarketData.Bytes

/-- The `n` bytes at offset `o`, least significant first. Bytes past the end read as zero. -/
def leNat (b : List UInt8) (o : Nat) : Nat → Nat
  | 0 => 0
  | n + 1 => (b.getD o 0).toNat + 256 * leNat b (o + 1) n

/-- Overwrites the `n` bytes at offset `o` with the `n` low bytes of `v`, least significant
first. Positions past the end are left out. -/
def putNat (b : List UInt8) (o : Nat) : Nat → Nat → List UInt8
  | 0, _ => b
  | n + 1, v => putNat (b.set o (UInt8.ofNat v)) (o + 1) n (v / 256)

/-! ## Lengths and single bytes -/

@[simp] theorem length_putNat (b : List UInt8) (o n v : Nat) :
    (putNat b o n v).length = b.length := by
  induction n generalizing b o v with
  | zero => rfl
  | succ n ih => rw [putNat, ih, List.length_set]

theorem getD_set_ne (b : List UInt8) {i j : Nat} (h : i ≠ j) (x : UInt8) :
    (b.set i x).getD j 0 = b.getD j 0 := by
  simp [List.getD_eq_getElem?_getD, List.getElem?_set_ne h]

theorem getD_set_self (b : List UInt8) {i : Nat} (h : i < b.length) (x : UInt8) :
    (b.set i x).getD i 0 = x := by
  simp [List.getD_eq_getElem?_getD, List.getElem?_set_self h]

/-- A write leaves every byte outside its range alone. -/
theorem getD_putNat_of_outside (b : List UInt8) (o n v : Nat) {i : Nat}
    (h : i < o ∨ o + n ≤ i) : (putNat b o n v).getD i 0 = b.getD i 0 := by
  induction n generalizing b o v with
  | zero => rfl
  | succ n ih =>
    rw [putNat, ih _ _ _ (by omega), getD_set_ne _ (by omega)]

/-! ## Reads against writes -/

/-- A read depends only on the bytes it covers. -/
theorem leNat_congr {b c : List UInt8} {o p n : Nat}
    (h : ∀ i, i < n → b.getD (o + i) 0 = c.getD (p + i) 0) : leNat b o n = leNat c p n := by
  induction n generalizing o p with
  | zero => rfl
  | succ n ih =>
    have h0 : b.getD o 0 = c.getD p 0 := h 0 (by omega)
    have hrest : leNat b (o + 1) n = leNat c (p + 1) n := by
      refine ih fun i hi => ?_
      have := h (i + 1) (by omega)
      rwa [show o + 1 + i = o + (i + 1) by omega, show p + 1 + i = p + (i + 1) by omega]
    rw [leNat, leNat, h0, hrest]

/-- A read at the written offset sees the value, cut to the width of the field. -/
theorem leNat_putNat_self (b : List UInt8) (o n v : Nat) (h : o + n ≤ b.length) :
    leNat (putNat b o n v) o n = v % 256 ^ n := by
  induction n generalizing b o v with
  | zero => simp [leNat, Nat.mod_one]
  | succ n ih =>
    have hhead : (putNat b o (n + 1) v).getD o 0 = UInt8.ofNat v := by
      rw [putNat, getD_putNat_of_outside _ _ _ _ (by omega), getD_set_self _ (by omega)]
    have htail : leNat (putNat b o (n + 1) v) (o + 1) n = v / 256 % 256 ^ n := by
      rw [putNat, ih _ _ _ (by rw [List.length_set]; omega)]
    rw [leNat, hhead, htail, pow_succ, Nat.mul_comm (256 ^ n), Nat.mod_mul]
    simp

/-- A read of a disjoint range does not see the write. -/
theorem leNat_putNat_of_disjoint (b : List UInt8) (o n v p m : Nat)
    (h : p + m ≤ o ∨ o + n ≤ p) : leNat (putNat b o n v) p m = leNat b p m :=
  leNat_congr fun _ hi => getD_putNat_of_outside b o n v (by omega)

/-! ## Reads of a part of the buffer -/

theorem leNat_append_left (b c : List UInt8) {o n : Nat} (h : o + n ≤ b.length) :
    leNat (b ++ c) o n = leNat b o n := by
  refine leNat_congr fun i hi => ?_
  simp [List.getD_eq_getElem?_getD, List.getElem?_append_left (show o + i < b.length by omega)]

theorem leNat_append_right (b c : List UInt8) {o n : Nat} (h : b.length ≤ o) :
    leNat (b ++ c) o n = leNat c (o - b.length) n := by
  refine leNat_congr fun i _ => ?_
  rw [List.getD_eq_getElem?_getD, List.getD_eq_getElem?_getD,
    List.getElem?_append_right (by omega)]
  congr 2
  omega

theorem leNat_take (b : List UInt8) {k o n : Nat} (h : o + n ≤ k) :
    leNat (b.take k) o n = leNat b o n := by
  refine leNat_congr fun i hi => ?_
  simp [List.getD_eq_getElem?_getD, show o + i < k by omega]

/-- A write inside a prefix of the buffer is a write to that prefix. -/
theorem putNat_append_left (b c : List UInt8) {o n : Nat} (v : Nat) (h : o + n ≤ b.length) :
    putNat (b ++ c) o n v = putNat b o n v ++ c := by
  induction n generalizing b o v with
  | zero => rfl
  | succ n ih =>
    rw [putNat, putNat, List.set_append_left _ _ (by omega),
      ih _ _ (by rw [List.length_set]; omega)]

/-- A write past a prefix of the buffer is a write to what follows it. -/
theorem putNat_append_right (b c : List UInt8) {o p n : Nat} (v : Nat) (h : o = b.length + p) :
    putNat (b ++ c) o n v = b ++ putNat c p n v := by
  induction n generalizing c o p v with
  | zero => rfl
  | succ n ih =>
    rw [putNat, putNat, List.set_append_right _ _ (by omega),
      ih _ _ (show o + 1 = _ + (p + 1) by omega), show o - b.length = p by omega]

end MarketData.Bytes
