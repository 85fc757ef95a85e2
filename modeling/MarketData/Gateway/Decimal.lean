import Mathlib.Tactic.Ring
import MarketData.Gateway.Fix

/-!
# `Gateway/Decimal.lean` — numbers written in digits

`decimal` (`Gateway/Fix.lean`) folds a run of characters into a number the way `std::from_chars` and
the loops of `parse_price` do, one digit at a time, and it never asks whether a character is a digit
or whether the number still fits its type. Both questions belong to the callers: what a length field
may be is `IsLength`, what a price says is `Says`, and each of them has its own bound.

What the callers share is how the fold behaves when a run is cut in two, and how large it can get:

* **two runs side by side** are one number, the front one shifted by as many digits as the other has
  (`decimal_append`), which is what a price with digits behind its point is read by;
* **a run of digits stays below the power of ten of its length** (`decimal_lt`), which is what turns
  a bound on the number of digits into a bound on the number;
* **a digit that `Builder` or `format_price` writes** is the digit it was computed from
  (`digitChar`).

Nothing is said here about runs with other characters in them: `decimal` is a number on those as
well, but no caller looks at it.
-/

set_option autoImplicit false

namespace MarketData.Gateway

theorem decimal_foldl (ds : Text) (n : Nat) :
    ds.foldl (fun n c => n * 10 + (c.toNat - '0'.toNat)) n = n * 10 ^ ds.length + decimal ds := by
  induction ds generalizing n with
  | nil => simp [decimal]
  | cons c ds ih =>
    have hhead : decimal (c :: ds) = ds.foldl (fun n c => n * 10 + (c.toNat - '0'.toNat))
        (c.toNat - '0'.toNat) := by
      simp [decimal]
    rw [hhead, List.foldl_cons, ih, ih, List.length_cons]
    ring

theorem decimal_cons (c : Char) (ds : Text) :
    decimal (c :: ds) = (c.toNat - '0'.toNat) * 10 ^ ds.length + decimal ds := by
  rw [← decimal_foldl]
  simp [decimal]

theorem decimal_append (ds es : Text) :
    decimal (ds ++ es) = decimal ds * 10 ^ es.length + decimal es := by
  rw [← decimal_foldl]
  simp [decimal]

/-- More digits make no smaller number. -/
theorem decimal_le_append (ds es : Text) : decimal ds ≤ decimal (ds ++ es) := by
  have hscale : decimal ds ≤ decimal ds * 10 ^ es.length :=
    Nat.le_mul_of_pos_right _ (Nat.pow_pos (by decide))
  rw [decimal_append]
  exact Nat.le_add_right_of_le hscale

theorem digit_le {c : Char} (h : c.isDigit = true) : '0'.toNat ≤ c.toNat ∧ c.toNat ≤ '9'.toNat := by
  simp only [Char.isDigit, Bool.and_eq_true, decide_eq_true_eq] at h
  exact h

/-- A digit other than `0` counts. -/
theorem digit_pos {c : Char} (h : c.isDigit = true) (hne : c ≠ '0') : 0 < c.toNat - '0'.toNat := by
  have hle := (digit_le h).1
  have hneq : c.toNat ≠ '0'.toNat := fun heq => hne (Char.toNat_inj.mp heq)
  omega

theorem decimal_lt {ds : Text} (h : ds.all Char.isDigit = true) : decimal ds < 10 ^ ds.length := by
  induction ds with
  | nil => simp [decimal]
  | cons c ds ih =>
    rw [List.all_cons, Bool.and_eq_true] at h
    have hlt := ih h.2
    have hc : c.toNat - '0'.toNat ≤ 9 := by
      have hle := (digit_le h.1).2
      have h0 : '0'.toNat = 48 := rfl
      have h9 : '9'.toNat = 57 := rfl
      omega
    have hmul : (c.toNat - '0'.toNat) * 10 ^ ds.length ≤ 9 * 10 ^ ds.length :=
      Nat.mul_le_mul_right _ hc
    rw [decimal_cons, List.length_cons, Nat.pow_succ]
    omega

/-- The digit that is written for a number below ten stands for it. -/
theorem digitChar (x : Nat) : (Char.ofNat ('0'.toNat + x % 10)).isDigit = true ∧
    (Char.ofNat ('0'.toNat + x % 10)).toNat - '0'.toNat = x % 10 := by
  have hall : ∀ d < 10, (Char.ofNat ('0'.toNat + d)).isDigit = true ∧
      (Char.ofNat ('0'.toNat + d)).toNat - '0'.toNat = d := by decide
  exact hall (x % 10) (Nat.mod_lt _ (by decide))

end MarketData.Gateway
