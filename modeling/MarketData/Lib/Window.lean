import Mathlib.Data.List.Basic
import Mathlib.Data.Nat.ModEq

/-!
# `Lib/Window.lean` — the window of a ring

A ring is a fixed array whose positions are taken modulo its length. What it holds at any moment
is a *window*: `len` entries from position `head` on. The rules here are the moves a bounded
queue makes on it. Writing the position right behind the window lengthens the window by the
written entry, writing any position outside it leaves it alone, and taking the entry in front
moves its start.

Everything rests on one fact about remainders: two positions less than a length apart fall on
different entries.

Positions run freely and are never reduced; only an access takes the remainder. So a window that
goes round the end of the array is no special case, and the content of a ring is a list that does
not mention where in the array it lies. A ring that reduces its head instead is one whose window
starts at the reduced position, which is the same window.
-/

set_option autoImplicit false

namespace MarketData.Window

/-- Two positions less than `c` apart are different modulo `c`. -/
theorem mod_ne {i j c : Nat} (hlt : i < j) (hnear : j < i + c) : i % c ≠ j % c := by
  intro heq
  have hdvd : c ∣ j - i := (Nat.modEq_iff_dvd' (Nat.le_of_lt hlt)).mp heq
  have hle := Nat.le_of_dvd (by omega) hdvd
  omega

variable {α : Type*} [Inhabited α]

/-- The entry at a position. -/
def entry (slots : List α) (i : Nat) : α := slots.getD (i % slots.length) default

/-- The `len` entries from position `head` on. -/
def window (slots : List α) (head len : Nat) : List α :=
  (List.range len).map fun i => entry slots (head + i)

variable {slots : List α} {head len i : Nat}

@[simp] theorem length_window : (window slots head len).length = len := by
  simp [window]

@[simp] theorem window_zero : window slots head 0 = [] := rfl

theorem entry_mem (h : 0 < slots.length) (i : Nat) : entry slots i ∈ slots := by
  have hi := Nat.mod_lt i h
  rw [entry, List.getD_eq_getElem?_getD, List.getElem?_eq_getElem hi]
  exact List.getElem_mem hi

theorem window_succ : window slots head (len + 1)
    = window slots head len ++ [entry slots (head + len)] := by
  simp [window, List.range_succ]

/-- The entry in front, and the window behind it. -/
theorem window_cons : window slots head (len + 1)
    = entry slots head :: window slots (head + 1) len := by
  rw [window, List.range_succ_eq_map, List.map_cons, List.map_map]
  refine congrArg (_ :: ·) (List.map_congr_left fun i _ => ?_)
  show entry slots (head + (i + 1)) = entry slots (head + 1 + i)
  rw [Nat.add_right_comm, Nat.add_assoc]

/-- A window is the windows of its parts. -/
theorem window_add {m n : Nat} :
    window slots head (m + n) = window slots head m ++ window slots (head + m) n := by
  induction n with
  | zero => simp
  | succ n ih =>
    rw [← Nat.add_assoc, window_succ, ih, window_succ, List.append_assoc, Nat.add_assoc]

/-- The start of a window is a position like any other. -/
theorem window_mod : window slots (head % slots.length) len = window slots head len := by
  refine List.map_congr_left fun i _ => ?_
  rw [entry, entry, Nat.mod_add_mod]

section Write

variable {x : α}

theorem entry_set_self (h : 0 < slots.length) :
    entry (slots.set (i % slots.length) x) i = x := by
  have hi := Nat.mod_lt i h
  simp [entry, List.getD_eq_getElem?_getD, List.getElem?_set_self hi]

theorem entry_set_ne {j : Nat} (h : i % slots.length ≠ j % slots.length) :
    entry (slots.set (i % slots.length) x) j = entry slots j := by
  simp [entry, List.getD_eq_getElem?_getD, List.getElem?_set_ne h]

/-- Writing a position behind the window leaves the window alone. -/
theorem window_set_behind (hge : head + len ≤ i) (hlt : i < head + slots.length) :
    window (slots.set (i % slots.length) x) head len = window slots head len := by
  refine List.map_congr_left fun k hk => ?_
  have hk' : k < len := List.mem_range.mp hk
  exact entry_set_ne (Ne.symm (mod_ne (by omega) (by omega)))

/-- **Writing right behind the window** puts the entry at its end. -/
theorem window_set_end (h : len < slots.length) :
    window (slots.set ((head + len) % slots.length) x) head (len + 1)
      = window slots head len ++ [x] := by
  rw [window_succ, window_set_behind (Nat.le_refl _) (by omega), entry_set_self (by omega)]

end Write

end MarketData.Window
