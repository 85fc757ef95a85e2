import Mathlib.Data.List.TakeWhile
import MarketData.Gateway.Decimal

/-!
# `Gateway/Prices.lean` — what a price is read as

`parse_price` refuses whatever is not a decimal number with at most four decimals that count, but
nothing looks at how many digits come before the point: the number is taken modulo `2 ^ 64`. So it
reads what the text says just where that fits (`price_exact_iff`), and everything `format_price`
writes does.

## What a text says

`Says` is the meaning of a text as a price: a sign, digits, perhaps a point and more digits, and ten
thousand times its value is the integer `n`. Decimals beyond the fourth may be there if they are
zeros; a text with one that is not says no integer, and has to be refused, not rounded. It is a
relation and not a function, so that it can be read without a parser in mind; that a text says at
most one number is proved, not built in.

`parsePrice_eq_some_iff` is the parser against that meaning, modulo `2 ^ 64`. The sign, the digits
before the point and those behind it are three functions in the model, and three lemmas; the source
has one loop with flags. The bound on what fits is then the only thing between the two sides of
`price_exact_iff`.
-/

set_option autoImplicit false

namespace MarketData.Gateway

/-! ## What a text says -/

/-- The sign of a number. -/
inductive Signed : Text → Int → Prop where
  | none : Signed [] 1
  | plus : Signed ['+'] 1
  | minus : Signed ['-'] (-1)

/-- The digits before the point and those behind it, if there is one. -/
inductive Pointed (whole : Text) : (frac text : Text) → Prop where
  | none : Pointed whole [] whole
  | point (frac : Text) : Pointed whole frac (whole ++ '.' :: frac)

/-- `v` is a decimal number with at least one digit, and ten thousand times its value is `n`. -/
def Says (v : Text) (n : Int) : Prop :=
  ∃ sign σ whole frac text, v = sign ++ text ∧ Signed sign σ ∧ Pointed whole frac text ∧
    (whole ++ frac).all Char.isDigit = true ∧ whole ++ frac ≠ [] ∧
    σ * decimal (whole ++ frac) * 10 ^ 4 = n * 10 ^ frac.length

/-- The same of a number without a sign. -/
def SaysUnsigned (text : Text) (n : Nat) : Prop :=
  ∃ whole frac, Pointed whole frac text ∧ (whole ++ frac).all Char.isDigit = true ∧
    whole ++ frac ≠ [] ∧ decimal (whole ++ frac) * 10 ^ 4 = n * 10 ^ frac.length

/-- Where the point is, is in the text. -/
theorem Pointed.cut {whole frac text : Text} (h : Pointed whole frac text)
    (hwhole : whole.all Char.isDigit = true) :
    text.takeWhile Char.isDigit = whole ∧
      ((text.dropWhile Char.isDigit = [] ∧ frac = []) ∨
        text.dropWhile Char.isDigit = '.' :: frac) := by
  have hall := List.all_eq_true.mp hwhole
  cases h with
  | none =>
    have htake := List.takeWhile_eq_self_iff.mpr hall
    have hdrop := List.dropWhile_eq_nil_iff.mpr hall
    exact ⟨htake, .inl ⟨hdrop, rfl⟩⟩
  | point =>
    refine ⟨?_, .inr ?_⟩
    · rw [List.takeWhile_append_of_pos hall]
      simp [Char.isDigit]
    · rw [List.dropWhile_append_of_pos hall]
      simp [Char.isDigit]

theorem Pointed.unique {whole frac whole' frac' text : Text} (h : Pointed whole frac text)
    (h' : Pointed whole' frac' text) (hwhole : whole.all Char.isDigit = true)
    (hwhole' : whole'.all Char.isDigit = true) : whole = whole' ∧ frac = frac' := by
  obtain ⟨rfl, hcut⟩ := h.cut hwhole
  obtain ⟨heq, hcut'⟩ := h'.cut hwhole'
  refine ⟨heq, ?_⟩
  rcases hcut with ⟨hdrop, rfl⟩ | hdrop <;> rcases hcut' with ⟨hdrop', rfl⟩ | hdrop'
  · rfl
  · cases hdrop.symm.trans hdrop'
  · cases hdrop.symm.trans hdrop'
  · exact (List.cons.inj (hdrop.symm.trans hdrop')).2

theorem SaysUnsigned.unique {text : Text} {m n : Nat} (h : SaysUnsigned text m)
    (h' : SaysUnsigned text n) : m = n := by
  obtain ⟨whole, frac, hp, hall, -, hm⟩ := h
  obtain ⟨whole', frac', hp', hall', -, hn⟩ := h'
  rw [List.all_append, Bool.and_eq_true] at hall hall'
  obtain ⟨rfl, rfl⟩ := hp.unique hp' hall.1 hall'.1
  exact Nat.eq_of_mul_eq_mul_right (Nat.pow_pos (by decide)) (hm.symm.trans hn)

/-- A number without a sign begins with a digit or the point. -/
theorem SaysUnsigned.head {text : Text} {n : Nat} (h : SaysUnsigned text n) :
    ∃ c rest, text = c :: rest ∧ (c.isDigit = true ∨ c = '.') := by
  obtain ⟨whole, frac, hp, hall, hne, -⟩ := h
  rw [List.all_append, Bool.and_eq_true] at hall
  cases whole with
  | cons c whole =>
    have hc : c.isDigit = true := (Bool.and_eq_true _ _ ▸ List.all_cons ▸ hall.1 :).1
    cases hp with
    | none => exact ⟨c, _, rfl, .inl hc⟩
    | point => exact ⟨c, _, rfl, .inl hc⟩
  | nil =>
    cases hp with
    | none => exact absurd rfl hne
    | point => exact ⟨'.', _, rfl, .inr rfl⟩

theorem says_iff {v : Text} {n : Int} :
    Says v n ↔ ∃ sign σ text, v = sign ++ text ∧ Signed sign σ ∧ ∃ m, SaysUnsigned text m ∧
      n = σ * m := by
  constructor
  · rintro ⟨sign, σ, whole, frac, text, hv, hsign, hp, hall, hne, hn⟩
    have hσ : σ * σ = 1 := by cases hsign <;> rfl
    have hm : (σ * n) * 10 ^ frac.length = decimal (whole ++ frac) * 10 ^ 4 := by
      rw [Int.mul_assoc, ← hn, ← Int.mul_assoc, ← Int.mul_assoc, hσ, Int.one_mul]
    have hpos : (0 : Int) < 10 ^ frac.length := Int.pow_pos (by decide)
    have hnonneg : 0 ≤ σ * n := by
      by_contra hneg
      have hlt := Int.mul_neg_of_neg_of_pos (Int.not_le.mp hneg) hpos
      rw [hm] at hlt
      have := Int.natCast_nonneg (decimal (whole ++ frac) * 10 ^ 4)
      push_cast at this
      omega
    obtain ⟨m, hmn⟩ := Int.eq_ofNat_of_zero_le hnonneg
    refine ⟨sign, σ, text, hv, hsign, m, ⟨whole, frac, hp, hall, hne, ?_⟩, ?_⟩
    · rw [hmn] at hm
      exact_mod_cast hm.symm
    · rw [← hmn, ← Int.mul_assoc, hσ, Int.one_mul]
  · rintro ⟨sign, σ, text, hv, hsign, m, ⟨whole, frac, hp, hall, hne, hm⟩, rfl⟩
    refine ⟨sign, σ, whole, frac, text, hv, hsign, hp, hall, hne, ?_⟩
    rw [Int.mul_assoc, Int.mul_assoc]
    congr 1
    exact_mod_cast hm

/-! ## What it is read as -/

/-- The decimals, added to those read so far; `j` more of them count. -/
theorem parseFraction_eq_some_iff {ds : Text} (hds : ds.all Char.isDigit = true) {k j : Nat}
    (hj : k + j = 4) {acc f : Int64} :
    parseFraction ds acc k = some f ↔ ∃ n : Nat, decimal ds * 10 ^ j = n * 10 ^ ds.length ∧
      f = acc * Int64.ofNat (10 ^ j) + Int64.ofNat n := by
  induction ds generalizing k j acc with
  | nil =>
    obtain rfl : j = 4 - k := by omega
    constructor
    · intro h
      refine ⟨0, by simp [decimal], ?_⟩
      rw [← Option.some.inj h]
      simp
    · rintro ⟨n, hn, rfl⟩
      have hzero : n = 0 := by simpa [decimal] using hn.symm
      rw [hzero]
      simp [parseFraction]
  | cons c ds ih =>
    rw [List.all_cons, Bool.and_eq_true] at hds
    have hlt := decimal_lt hds.2
    have hpow : 0 < 10 ^ ds.length := Nat.pow_pos (by decide)
    rw [parseFraction, decimal_cons, List.length_cons]
    cases j with
    | succ j =>
      rw [if_pos (by omega), ih hds.2 (show k + 1 + j = 4 by omega)]
      generalize c.toNat - '0'.toNat = d
      -- `n` is this digit and what follows.
      have hsplit : (d * 10 ^ ds.length + decimal ds) * 10 ^ (j + 1) =
          (d * 10 ^ j * 10 ^ ds.length + decimal ds * 10 ^ j) * 10 := by ring
      have hacc : (acc * 10 + Int64.ofNat d) * Int64.ofNat (10 ^ j) =
          acc * Int64.ofNat (10 ^ (j + 1)) + Int64.ofNat (d * 10 ^ j) := by
        rw [Int64.add_mul, Int64.mul_assoc, Nat.pow_succ, Nat.mul_comm (10 ^ j), Int64.ofNat_mul,
          Int64.ofNat_mul]
        rfl
      constructor
      · rintro ⟨n, hn, rfl⟩
        refine ⟨d * 10 ^ j + n, ?_, ?_⟩
        · rw [hsplit, hn]
          ring
        · rw [hacc, Int64.ofNat_add, Int64.add_assoc]
      · rintro ⟨n, hn, rfl⟩
        rw [hsplit, Nat.pow_succ, ← Nat.mul_assoc, Nat.mul_right_cancel_iff (by decide)] at hn
        have hle : d * 10 ^ j ≤ n := by
          refine Nat.le_of_mul_le_mul_right ?_ hpow
          omega
        obtain ⟨m, rfl⟩ := Nat.exists_eq_add_of_le hle
        refine ⟨m, ?_, ?_⟩
        · rw [Nat.add_mul] at hn
          omega
        · rw [hacc, Int64.ofNat_add, Int64.add_assoc]
    | zero =>
      rw [if_neg (by omega)]
      by_cases hc : c = '0'
      · rw [if_pos hc, ih hds.2 hj, hc]
        -- What is below the last decimal is a multiple of it only where it is zero.
        refine exists_congr fun n => and_congr_left fun _ => ?_
        rw [show '0'.toNat - '0'.toNat = 0 from rfl, Nat.zero_mul, Nat.zero_add, Nat.pow_zero,
          Nat.mul_one, Nat.pow_succ]
        cases n with
        | zero => simp
        | succ n =>
          refine iff_of_false (fun h => ?_) fun h => ?_
          · rw [h, Nat.add_mul] at hlt
            omega
          · rw [h, Nat.add_mul] at hlt
            omega
      · rw [if_neg hc]
        refine iff_of_false (Option.some_ne_none f).symm ?_
        rintro ⟨n, hn, -⟩
        have hpos := digit_pos hds.1 hc
        have hle : c.toNat - '0'.toNat ≤ 9 := by
          have h9 := (digit_le hds.1).2
          have h0 : '0'.toNat = 48 := rfl
          have h9' : '9'.toNat = 57 := rfl
          omega
        generalize c.toNat - '0'.toNat = d at hn hpos hle
        rw [Nat.pow_zero, Nat.mul_one, Nat.pow_succ] at hn
        -- The number lies between its leading digit and ten.
        have hlow := Nat.mul_le_mul_right (10 ^ ds.length) hpos
        have hhigh := Nat.mul_le_mul_right (10 ^ ds.length) hle
        cases n with
        | zero => omega
        | succ n =>
          rw [Nat.add_mul] at hn
          omega

/-- A price without its sign. -/
def parseUnsigned (v : Text) : Option Int64 :=
  let whole := v.takeWhile Char.isDigit
  let rest := v.dropWhile Char.isDigit
  let decimals := match rest with
    | '.' :: rest => rest.takeWhile Char.isDigit
    | _ => []
  let rest := match rest with
    | '.' :: rest => rest.dropWhile Char.isDigit
    | rest => rest
  match parseFraction decimals 0 0 with
  | none => none
  | some frac =>
    if (whole = [] ∧ decimals = []) ∨ rest ≠ [] then none
    else some (Int64.ofNat (decimal whole) * 10000 + frac)

/-- The sign a price begins with, and what is behind it. -/
def splitSign (v : Text) : Bool × Text :=
  match v with
  | '-' :: v => (true, v)
  | '+' :: v => (false, v)
  | v => (false, v)

theorem parsePrice_eq (v : Text) : parsePrice v =
    (parseUnsigned (splitSign v).2).map fun p => if (splitSign v).1 then -p else p := by
  -- `parse_price` in terms of the sign that was split off
  have hbody : ∀ signed : Bool × Text,
      (match parseFraction (match signed.2.dropWhile Char.isDigit with
          | '.' :: rest => rest.takeWhile Char.isDigit
          | _ => []) 0 0 with
        | none => none
        | some frac =>
          if (signed.2.takeWhile Char.isDigit = [] ∧ (match signed.2.dropWhile Char.isDigit with
              | '.' :: rest => rest.takeWhile Char.isDigit
              | _ => []) = []) ∨ (match signed.2.dropWhile Char.isDigit with
              | '.' :: rest => rest.dropWhile Char.isDigit
              | rest => rest) ≠ [] then none
          else some (if signed.1 then
              -(Int64.ofNat (decimal (signed.2.takeWhile Char.isDigit)) * 10000 + frac)
            else Int64.ofNat (decimal (signed.2.takeWhile Char.isDigit)) * 10000 + frac)) =
        (parseUnsigned signed.2).map fun p => if signed.1 then -p else p := by
    intro signed
    unfold parseUnsigned
    dsimp only
    split
    · rfl
    · rw [apply_ite (Option.map _)]
      rfl
  exact hbody (splitSign v)

/-- What the number without a sign is read as. -/
theorem parseUnsigned_pointed {whole frac text : Text} (hp : Pointed whole frac text)
    (hwhole : whole.all Char.isDigit = true) (hfrac : frac.all Char.isDigit = true) {p : Int64} :
    parseUnsigned text = some p ↔ whole ++ frac ≠ [] ∧ ∃ f, parseFraction frac 0 0 = some f ∧
      p = Int64.ofNat (decimal whole) * 10000 + f := by
  obtain ⟨htake, hcut⟩ := hp.cut hwhole
  have hends := List.takeWhile_eq_self_iff.mpr (List.all_eq_true.mp hfrac)
  have hends' := List.dropWhile_eq_nil_iff.mpr (List.all_eq_true.mp hfrac)
  have hunsigned : parseUnsigned text = match parseFraction frac 0 0 with
      | none => none
      | some f => if whole = [] ∧ frac = [] then none
        else some (Int64.ofNat (decimal whole) * 10000 + f) := by
    unfold parseUnsigned
    rw [htake]
    rcases hcut with ⟨hdrop, rfl⟩ | hdrop
    · simp [hdrop]
    · simp [hdrop, hends, hends']
  rw [hunsigned]
  cases parseFraction frac 0 0 with
  | none => simp
  | some f =>
    by_cases hempty : whole = [] ∧ frac = []
    · simp [hempty]
    · simp only [hempty, if_false, ne_eq, List.append_eq_nil_iff, not_false_eq_true, true_and,
        Option.some.injEq, exists_eq_left']
      exact eq_comm

/-- What is read at all has the form of a number. -/
theorem pointed_of_parseUnsigned {text : Text} {p : Int64} (h : parseUnsigned text = some p) :
    ∃ whole frac, Pointed whole frac text ∧ whole.all Char.isDigit = true ∧
      frac.all Char.isDigit = true := by
  have hall : ∀ v : Text, (v.takeWhile Char.isDigit).all Char.isDigit = true :=
    fun v => List.all_takeWhile
  have hsplit := List.takeWhile_append_dropWhile (p := Char.isDigit) (l := text)
  cases hdrop : text.dropWhile Char.isDigit with
  | nil =>
    rw [hdrop, List.append_nil] at hsplit
    exact ⟨text, [], .none, hsplit ▸ hall text, rfl⟩
  | cons c rest =>
    unfold parseUnsigned at h
    rw [hdrop] at h hsplit
    by_cases hc : c = '.'
    · subst hc
      have hrest : rest.dropWhile Char.isDigit = [] := by
        by_contra hne
        replace h : (match parseFraction (rest.takeWhile Char.isDigit) 0 0 with
            | none => none
            | some f => if (text.takeWhile Char.isDigit = [] ∧ rest.takeWhile Char.isDigit = []) ∨
                rest.dropWhile Char.isDigit ≠ [] then none
              else some (Int64.ofNat (decimal (text.takeWhile Char.isDigit)) * 10000 + f)) =
            some p := h
        split at h
        · cases h
        · rw [if_pos (.inr hne)] at h
          cases h
      have hfrac := List.takeWhile_append_dropWhile (p := Char.isDigit) (l := rest)
      rw [hrest, List.append_nil] at hfrac
      refine ⟨text.takeWhile Char.isDigit, rest, ?_, hall text, hfrac ▸ hall rest⟩
      conv => arg 3; rw [← hsplit]
      exact .point rest
    · -- something else is behind the digits
      revert h
      simp [hc, parseFraction]

theorem parseUnsigned_eq_some_iff {text : Text} {p : Int64} :
    parseUnsigned text = some p ↔ ∃ n, SaysUnsigned text n ∧ p = Int64.ofNat n := by
  -- The value of both parts, scaled.
  have hvalue : ∀ (whole frac : Text) (m : Nat),
      decimal (whole ++ frac) * 10 ^ 4 = (decimal whole * 10 ^ 4 + m) * 10 ^ frac.length ↔
        decimal frac * 10 ^ 4 = m * 10 ^ frac.length := by
    intro whole frac m
    rw [decimal_append, Nat.add_mul, Nat.add_mul, Nat.mul_right_comm, Nat.add_left_cancel_iff]
  constructor
  · intro h
    obtain ⟨whole, frac, hp, hwhole, hfrac⟩ := pointed_of_parseUnsigned h
    obtain ⟨hne, f, hf, rfl⟩ := (parseUnsigned_pointed hp hwhole hfrac).mp h
    obtain ⟨m, hm, rfl⟩ := (parseFraction_eq_some_iff hfrac (Nat.zero_add 4)).mp hf
    refine ⟨decimal whole * 10 ^ 4 + m, ⟨whole, frac, hp, ?_, hne, (hvalue ..).mpr hm⟩, ?_⟩
    · rw [List.all_append, hwhole, hfrac]
      rfl
    · rw [Int64.ofNat_add, Int64.ofNat_mul]
      simp
  · rintro ⟨n, ⟨whole, frac, hp, hall, hne, hn⟩, rfl⟩
    rw [List.all_append, Bool.and_eq_true] at hall
    have hpow : 0 < 10 ^ frac.length := Nat.pow_pos (by decide)
    have hle : decimal whole * 10 ^ 4 ≤ n := by
      refine Nat.le_of_mul_le_mul_right ?_ hpow
      rw [← hn, decimal_append, Nat.add_mul, Nat.mul_right_comm]
      exact Nat.le_add_right _ _
    obtain ⟨m, rfl⟩ := Nat.exists_eq_add_of_le hle
    refine (parseUnsigned_pointed hp hall.1 hall.2).mpr ⟨hne, _,
      (parseFraction_eq_some_iff hall.2 (Nat.zero_add 4)).mpr ⟨m, (hvalue ..).mp hn, rfl⟩, ?_⟩
    rw [Int64.ofNat_add, Int64.ofNat_mul]
    simp

/-- A text that says a number without a sign begins with no sign. -/
theorem splitSign_unsigned {text : Text} {n : Nat} (h : SaysUnsigned text n) :
    splitSign text = (false, text) := by
  obtain ⟨c, rest, rfl, hc⟩ := h.head
  have hminus : c ≠ '-' := by
    rintro rfl
    simp [Char.isDigit] at hc
  have hplus : c ≠ '+' := by
    rintro rfl
    simp [Char.isDigit] at hc
  simp [splitSign, hminus, hplus]

theorem splitSign_signed {sign text : Text} {σ : Int} {n : Nat} (hsign : Signed sign σ)
    (h : SaysUnsigned text n) : (splitSign (sign ++ text)).2 = text ∧
      σ = if (splitSign (sign ++ text)).1 then -1 else 1 := by
  cases hsign with
  | none =>
    rw [List.nil_append, splitSign_unsigned h]
    exact ⟨rfl, rfl⟩
  | plus => exact ⟨rfl, rfl⟩
  | minus => exact ⟨rfl, rfl⟩

/-- Whatever sign was split off is one. -/
theorem signed_splitSign (v : Text) : ∃ sign σ, v = sign ++ (splitSign v).2 ∧ Signed sign σ ∧
    σ = if (splitSign v).1 then -1 else 1 := by
  unfold splitSign
  split
  · exact ⟨_, _, rfl, .minus, rfl⟩
  · exact ⟨_, _, rfl, .plus, rfl⟩
  · exact ⟨[], _, rfl, .none, rfl⟩

theorem Says.unique {v : Text} {m n : Int} (h : Says v m) (h' : Says v n) : m = n := by
  obtain ⟨sign, σ, text, rfl, hsign, k, hk, rfl⟩ := says_iff.mp h
  obtain ⟨sign', σ', text', hv, hsign', k', hk', rfl⟩ := says_iff.mp h'
  obtain ⟨htext, hσ⟩ := splitSign_signed hsign hk
  obtain ⟨htext', hσ'⟩ := splitSign_signed hsign' hk'
  rw [← hv] at htext' hσ'
  rw [hσ, hσ', hk.unique ((htext.symm.trans htext') ▸ hk')]

/-- **A price is read as what it says**, modulo `2 ^ 64`. -/
theorem parsePrice_eq_some_iff {v : Text} {p : Int64} :
    parsePrice v = some p ↔ ∃ n, Says v n ∧ p = Int64.ofInt n := by
  -- The sign of a 64-bit number.
  have hneg : ∀ (negative : Bool) (m : Nat), (if negative then -Int64.ofNat m else Int64.ofNat m) =
      Int64.ofInt ((if negative then -1 else 1) * m) := by
    intro negative m
    cases negative with
    | true => simp [Int64.ofInt_neg, Int64.ofInt_eq_ofNat]
    | false => simp [Int64.ofInt_eq_ofNat]
  rw [parsePrice_eq, Option.map_eq_some_iff]
  constructor
  · rintro ⟨q, hq, rfl⟩
    obtain ⟨m, hm, rfl⟩ := parseUnsigned_eq_some_iff.mp hq
    obtain ⟨sign, σ, hv, hsign, hσ⟩ := signed_splitSign v
    exact ⟨σ * m, says_iff.mpr ⟨sign, σ, _, hv, hsign, m, hm, rfl⟩, hσ ▸ hneg _ m⟩
  · rintro ⟨n, hn, rfl⟩
    obtain ⟨sign, σ, text, rfl, hsign, m, hm, rfl⟩ := says_iff.mp hn
    obtain ⟨htext, hσ⟩ := splitSign_signed hsign hm
    refine ⟨Int64.ofNat m, parseUnsigned_eq_some_iff.mpr ⟨m, htext.symm ▸ hm, rfl⟩, ?_⟩
    rw [hneg, hσ]

/-! ## What is written is read back -/

theorem saysUnsigned_formatted (mag : Nat) : SaysUnsigned (Nat.toDigits 10 (mag / 10000) ++ '.' ::
    [1000, 100, 10, 1].map fun div => Char.ofNat ('0'.toNat + mag % 10000 / div % 10)) mag := by
  refine ⟨_, _, .point _, ?_, ?_, ?_⟩
  · rw [List.all_append, toDigits_all_isDigit, Bool.true_and]
    simp only [List.map_cons, List.map_nil, List.all_cons, List.all_nil, (digitChar _).1]
    rfl
  · simp
  · rw [decimal_append, decimal_toDigits]
    simp only [List.map_cons, List.map_nil, decimal_cons, (digitChar _).2, List.length_cons,
      List.length_nil]
    simp only [decimal, List.foldl_nil]
    omega

theorem says_formatPrice (p : Int64) : Says (formatPrice p) p.toInt := by
  have hdigits : intText ((p.toInt.natAbs : Int) / 10000) =
      Nat.toDigits 10 (p.toInt.natAbs / 10000) := by
    rw [intText_eq, if_pos (by omega)]
    congr 1
  have hmag := saysUnsigned_formatted p.toInt.natAbs
  refine says_iff.mpr ⟨if p < 0 then ['-'] else [], if p < 0 then -1 else 1, _, ?_, ?_, _, hmag, ?_⟩
  · unfold formatPrice
    simp only [← hdigits]
    simp
  · split
    · exact .minus
    · exact .none
  · have hlt : p < 0 ↔ p.toInt < 0 := Int64.lt_iff_toInt_lt
    simp only [hlt]
    split <;> omega

/-- What `format_price` writes is read back, at both ends of the range too. -/
theorem parsePrice_formatPrice (p : Int64) : parsePrice (formatPrice p) = some p :=
  parsePrice_eq_some_iff.mpr ⟨p.toInt, says_formatPrice p, (Int64.ofInt_toInt p).symm⟩

/-- **Prices convert exactly or not at all** just where the number the text says, if it says one,
is a 64-bit one. What is written is such a text. -/
theorem price_exact_iff (v : Text) :
    (∀ p, parsePrice (formatPrice p) = some p) ∧
      ((∀ p : Int64, parsePrice v = some p ↔ Says v p.toInt) ↔
        ∀ n, Says v n → -2 ^ 63 ≤ n ∧ n < 2 ^ 63) := by
  refine ⟨parsePrice_formatPrice, fun h n hn => ?_, fun h p => ?_⟩
  · have hread := (h _).mp (parsePrice_eq_some_iff.mpr ⟨n, hn, rfl⟩)
    rw [hn.unique hread]
    exact ⟨Int64.le_toInt _, Int64.toInt_lt _⟩
  · rw [parsePrice_eq_some_iff]
    constructor
    · rintro ⟨n, hn, rfl⟩
      obtain ⟨hlo, hhi⟩ := h n hn
      rwa [Int64.toInt_ofInt_of_le (by omega) (by omega)]
    · intro hp
      exact ⟨p.toInt, hp, (Int64.ofInt_toInt p).symm⟩

/-- A price of about 1.8 quadrillion is read as a ten-thousandth. -/
theorem parsePrice_wraps :
    parsePrice "1844674407370955.1617".toList = some 1 ∧
      ¬ Says "1844674407370955.1617".toList 1 := by
  have hvalue : Says "1844674407370955.1617".toList (2 ^ 64 + 1) := by
    refine says_iff.mpr ⟨[], 1, _, rfl, .none, 2 ^ 64 + 1,
      ⟨"1844674407370955".toList, "1617".toList, ?_⟩, rfl⟩
    exact ⟨.point _, by decide, by decide, by decide⟩
  refine ⟨by decide, fun h => ?_⟩
  exact absurd (hvalue.unique h) (by decide)

end MarketData.Gateway
