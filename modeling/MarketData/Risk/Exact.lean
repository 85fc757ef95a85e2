import MarketData.Risk.Position

/-!
# `Risk/Exact.lean` — the arithmetic of the limits

`collar_distance` and the two checks of `on_new_order` that multiply. The notional check divides
where the specification multiplies, and that is exact. The collar splits `ref * bps / 10000` into
a quotient and a remainder term, and where the remainder's product does not fit 64 bits it answers
that there is nothing to check. `collarDistance_spec` says when that is so; the collar is exact
everywhere else.

## Integers without a width

`BeyondCollar` and `OverNotional` are what the two limits mean, in `Int`: a product compared with a
bound. The code's comparisons are held against these, each by a lemma about division that has
nothing to do with orders. Where the code answers "no limit" because a product overflowed, there are
two cases, and only one of them is a mistake: the distance itself can be larger than any price, and
then indeed nothing is beyond it; or **only the remainder's product does not fit**, and a distance
that fits is thrown away with it.

`PassesEarlier` says of an order that it gets as far as these checks. It is what the checks before
them ask, so that the equivalence is about the arithmetic and not about their order. Quantities and
pending positions have their own wrap-around, which is the subject of `Risk/Position.lean`.
-/

set_option autoImplicit false

namespace MarketData.Risk

open MarketData.Wire

/-! ## Magnitudes -/

/-- The two's complement of a signed number. -/
theorem toInt_eq_toNat (x : Int64) :
    x.toInt = if x.toInt < 0 then (x.toUInt64.toNat : Int) - 2 ^ 64 else (x.toUInt64.toNat : Int) := by
  have hlt : x.toBitVec.toNat < 2 ^ 64 := x.toBitVec.isLt
  have hcond := BitVec.toInt_eq_toNat_cond x.toBitVec
  change x.toInt = _ at hcond
  rw [show x.toUInt64.toNat = x.toBitVec.toNat from rfl]
  split at hcond <;> split <;> omega

theorem toNat_eq_toInt {x : Int64} (h : 0 ≤ x.toInt) : (x.toUInt64.toNat : Int) = x.toInt := by
  have hx := toInt_eq_toNat x
  rw [if_neg (by omega)] at hx
  exact hx.symm

/-- The positive counterpart, of every number that has one. -/
theorem toInt_magnitude {x : Int64} (h : x ≠ Int64.minValue) :
    (if x < 0 then -x else x).toInt = x.toInt.natAbs := by
  have hlow := x.le_toInt
  have hne : x.toInt ≠ -2 ^ 63 := fun heq => h (Int64.toInt_inj.mp heq)
  simp only [Int64.lt_iff_toInt_lt, show (0 : Int64).toInt = 0 from rfl]
  split
  · rw [Int64.toInt_neg, Int.bmod_eq_of_le (by omega) (by omega)]
    omega
  · omega

/-- `-(x + 1)` as an unsigned number, and one more. -/
theorem toNat_magnitude (x : Int64) :
    (if x < 0 then (-(x + 1)).toUInt64 + 1 else x.toUInt64).toNat = x.toInt.natAbs := by
  have hlow := x.le_toInt
  simp only [Int64.lt_iff_toInt_lt, show (0 : Int64).toInt = 0 from rfl]
  split
  · have hsucc : (x + 1).toInt = x.toInt + 1 := by
      rw [Int64.toInt_add, show (1 : Int64).toInt = 1 from rfl,
        Int.bmod_eq_of_le (by omega) (by omega)]
    have hneg : (-(x + 1)).toInt = -(x.toInt + 1) := by
      rw [Int64.toInt_neg, hsucc, Int.bmod_eq_of_le (by omega) (by omega)]
    have hnat := toNat_eq_toInt (x := -(x + 1)) (by omega)
    rw [UInt64.toNat_add, show (1 : UInt64).toNat = 1 from rfl, Nat.mod_eq_of_lt (by omega)]
    omega
  · have hnat := toNat_eq_toInt (x := x) (by omega)
    omega

/-- The distance of two signed numbers, computed unsigned. -/
theorem toNat_distance (x y : Int64) :
    (if y < x then x.toUInt64 - y.toUInt64 else y.toUInt64 - x.toUInt64).toNat =
      (x.toInt - y.toInt).natAbs := by
  have hx := toInt_eq_toNat x
  have hy := toInt_eq_toNat y
  have hxlt := x.toUInt64.toNat_lt
  have hylt := y.toUInt64.toNat_lt
  have hxlow := x.le_toInt
  have hylow := y.le_toInt
  have hxhigh := x.toInt_lt
  have hyhigh := y.toInt_lt
  simp only [Int64.lt_iff_toInt_lt]
  generalize x.toUInt64 = a at hx hxlt ⊢
  generalize y.toUInt64 = b at hy hylt ⊢
  generalize x.toInt = i at hx hxlow hxhigh ⊢
  generalize y.toInt = j at hy hylow hyhigh ⊢
  split
  · have hdiff : (a.toNat : Int) - b.toNat = i - j ∨ (a.toNat : Int) - b.toNat = i - j - 2 ^ 64 := by
      split at hx <;> split at hy <;> omega
    rw [UInt64.toNat_sub]
    omega
  · have hdiff : (b.toNat : Int) - a.toNat = j - i ∨ (b.toNat : Int) - a.toNat = j - i - 2 ^ 64 := by
      split at hx <;> split at hy <;> omega
    rw [UInt64.toNat_sub]
    omega

/-! ## The collar -/

/-- A product of the quotient and one of the remainder, of the same number. -/
theorem split_quotient (ref bps scale : Nat) (h : 0 < scale) :
    ref * bps / scale = ref / scale * bps + ref % scale * bps / scale := by
  have hsplit : ref * bps = ref % scale * bps + scale * (ref / scale * bps) := by
    calc ref * bps = (ref % scale + scale * (ref / scale)) * bps := by rw [Nat.mod_add_div]
      _ = ref % scale * bps + scale * (ref / scale * bps) := by ring
  rw [hsplit, Nat.add_mul_div_left _ _ h, Nat.add_comm]

/-- What is left of the reference after whole ten thousands, times the collar, fits 64 bits. -/
def RemainderFits (ref bps : Nat) : Prop := ref % 10000 * bps < 2 ^ 64

instance (ref bps : Nat) : Decidable (RemainderFits ref bps) := inferInstanceAs (Decidable (_ < _))

/-- **The distance is exact** where it is given. It is not given where the remainder's product does
not fit, and where it is more than 64 bits hold. -/
theorem collarDistance_spec (ref bps : UInt64) :
    match collarDistance ref bps with
    | some d => RemainderFits ref.toNat bps.toNat ∧ d.toNat = ref.toNat * bps.toNat / 10000
    | none => ¬ RemainderFits ref.toNat bps.toNat ∨ 2 ^ 64 ≤ ref.toNat * bps.toNat / 10000 := by
  have hquotient := split_quotient ref.toNat bps.toNat 10000 (by decide)
  have hmax : (UInt64.ofNat (2 ^ 64 - 1)).toNat = 2 ^ 64 - 1 := rfl
  have hscale : (10000 : UInt64).toNat = 10000 := rfl
  unfold collarDistance RemainderFits
  dsimp only
  by_cases hzero : bps = 0
  · subst hzero
    simp
  have hbps : 0 < bps.toNat := by
    refine Nat.pos_of_ne_zero fun h => hzero ?_
    exact UInt64.toNat_inj.mp h
  rw [if_neg hzero]
  by_cases hwhole : UInt64.ofNat (2 ^ 64 - 1) / bps < ref / 10000
  · rw [if_pos hwhole]
    rw [UInt64.lt_iff_toNat_lt, UInt64.toNat_div, UInt64.toNat_div, hmax, hscale,
      Nat.div_lt_iff_lt_mul hbps] at hwhole
    exact .inr (by omega)
  rw [if_neg hwhole]
  rw [UInt64.lt_iff_toNat_lt, UInt64.toNat_div, UInt64.toNat_div, hmax, hscale,
    Nat.div_lt_iff_lt_mul hbps] at hwhole
  have ha : (ref / 10000 * bps).toNat = ref.toNat / 10000 * bps.toNat := by
    rw [UInt64.toNat_mul, UInt64.toNat_div, hscale, Nat.mod_eq_of_lt (by omega)]
  have hrem : (ref % 10000).toNat = ref.toNat % 10000 := UInt64.toNat_mod ref 10000
  by_cases hremainder : ref % 10000 ≠ 0 ∧ UInt64.ofNat (2 ^ 64 - 1) / (ref % 10000) < bps
  · rw [if_pos hremainder]
    obtain ⟨hne, hover⟩ := hremainder
    have hpos : 0 < ref.toNat % 10000 := by
      refine Nat.pos_of_ne_zero fun h => hne ?_
      exact UInt64.toNat_inj.mp (hrem.trans h)
    rw [UInt64.lt_iff_toNat_lt, UInt64.toNat_div, hmax, hrem, Nat.div_lt_iff_lt_mul hpos,
      Nat.mul_comm] at hover
    exact .inl (by omega)
  rw [if_neg hremainder]
  have hfits : ref.toNat % 10000 * bps.toNat < 2 ^ 64 := by
    by_contra hover
    refine hremainder ⟨fun h => ?_, ?_⟩
    · rw [h] at hrem
      rw [← hrem] at hover
      simp at hover
    · have hpos : 0 < ref.toNat % 10000 := by
        refine Nat.pos_of_ne_zero fun h => hover ?_
        rw [h, Nat.zero_mul]
        decide
      rw [UInt64.lt_iff_toNat_lt, UInt64.toNat_div, hmax, hrem, Nat.div_lt_iff_lt_mul hpos,
        Nat.mul_comm]
      omega
  have hb : (ref % 10000 * bps / 10000).toNat = ref.toNat % 10000 * bps.toNat / 10000 := by
    rw [UInt64.toNat_div, UInt64.toNat_mul, hrem, hscale, Nat.mod_eq_of_lt hfits]
  have hble : ref.toNat % 10000 * bps.toNat / 10000 < 2 ^ 64 := by omega
  have hroom : (UInt64.ofNat (2 ^ 64 - 1) - ref % 10000 * bps / 10000).toNat =
      2 ^ 64 - 1 - ref.toNat % 10000 * bps.toNat / 10000 := by
    rw [UInt64.toNat_sub_of_le, hmax, hb]
    rw [UInt64.le_iff_toNat_le, hb, hmax]
    omega
  simp only [UInt64.lt_iff_toNat_lt, ha, hroom]
  by_cases hsum : 2 ^ 64 - 1 - ref.toNat % 10000 * bps.toNat / 10000 < ref.toNat / 10000 * bps.toNat
  · rw [if_pos hsum]
    exact .inr (by omega)
  · rw [if_neg hsum]
    refine ⟨hfits, ?_⟩
    rw [UInt64.toNat_add, ha, hb, Nat.mod_eq_of_lt (by omega), hquotient]

/-- The price is further from the reference than the collar allows, in unbounded integers. -/
def BeyondCollar (lim : SymbolLimits) (price : Int64) : Prop :=
  lim.referencePrice ≠ 0 ∧ lim.referencePrice.toInt.natAbs * lim.collarBps.toInt <
    (price.toInt - lim.referencePrice.toInt).natAbs * 10000

/-- The remainder of the symbol's reference price fits with its collar. -/
def CollarFits (lim : SymbolLimits) : Prop :=
  RemainderFits lim.referencePrice.toInt.natAbs lim.collarBps.toInt.toNat

theorem outsideCollar_iff {lim : SymbolLimits} (hbps : 0 < lim.collarBps) (price : Int64) :
    RiskEngine.outsideCollar lim price = true ↔ CollarFits lim ∧ BeyondCollar lim price := by
  rw [Int64.lt_iff_toInt_lt, show (0 : Int64).toInt = 0 from rfl] at hbps
  have hnat := toNat_eq_toInt (Int.le_of_lt hbps)
  have htoNat : lim.collarBps.toUInt64.toNat = lim.collarBps.toInt.toNat := by omega
  have haway := toNat_distance price lim.referencePrice
  have hspec := collarDistance_spec
    (if lim.referencePrice < 0 then (-(lim.referencePrice + 1)).toUInt64 + 1
      else lim.referencePrice.toUInt64) lim.collarBps.toUInt64
  rw [toNat_magnitude, htoNat] at hspec
  unfold RiskEngine.outsideCollar CollarFits BeyondCollar
  by_cases hzero : lim.referencePrice = 0
  · simp [hzero]
  have hbps' : 0 < lim.collarBps := Int64.lt_iff_toInt_lt.mpr hbps
  dsimp only
  rw [if_pos ⟨hbps', hzero⟩]
  -- the same inequality over the natural numbers
  have hbeyond : (lim.referencePrice.toInt.natAbs : Int) * lim.collarBps.toInt <
      (price.toInt - lim.referencePrice.toInt).natAbs * 10000 ↔
      lim.referencePrice.toInt.natAbs * lim.collarBps.toInt.toNat <
        (price.toInt - lim.referencePrice.toInt).natAbs * 10000 := by
    conv_lhs => rw [← Int.toNat_of_nonneg (Int.le_of_lt hbps)]
    exact_mod_cast Iff.rfl
  rw [hbeyond]
  generalize (if lim.referencePrice < price then price.toUInt64 - lim.referencePrice.toUInt64
    else lim.referencePrice.toUInt64 - price.toUInt64) = away at haway ⊢
  have hlt := away.toNat_lt
  rw [← haway]
  generalize collarDistance _ _ = distance at hspec ⊢
  cases distance with
  | none =>
    refine ⟨fun h => (nomatch h), fun ⟨hfits, _, houtside⟩ => ?_⟩
    rcases hspec with hover | hover
    · exact absurd hfits hover
    · omega
  | some allowed =>
    obtain ⟨hfits, hallowed⟩ := hspec
    show decide (allowed < away) = true ↔ _
    rw [decide_eq_true_iff, UInt64.lt_iff_toNat_lt, hallowed, Nat.div_lt_iff_lt_mul (by decide)]
    exact ⟨fun houtside => ⟨hfits, hzero, houtside⟩, fun h => h.2.2⟩

/-! ## The notional -/

/-- The price times the quantity is more than the symbol's limit, in unbounded integers. -/
def OverNotional (lim : SymbolLimits) (price : Int64) (quantity : UInt32) : Prop :=
  lim.maxNotional.toInt < (price.toInt.natAbs * quantity.toNat : Nat)

/-- Dividing the limit answers what multiplying the price asks. -/
theorem overNotional_iff {lim : SymbolLimits} (hmax : 0 ≤ lim.maxNotional) {quantity : UInt32}
    (hquantity : quantity ≠ 0) (price : Int64) :
    (price = Int64.minValue ∨ lim.maxNotional < 0 ∨
      lim.maxNotional / signed quantity < (if price < 0 then -price else price)) ↔
      OverNotional lim price quantity := by
  rw [Int64.le_iff_toInt_le, show (0 : Int64).toInt = 0 from rfl] at hmax
  have hpos : 0 < quantity.toNat := by
    refine Nat.pos_of_ne_zero fun h => hquantity ?_
    exact UInt32.toNat_inj.mp h
  have hhigh := lim.maxNotional.toInt_lt
  unfold OverNotional
  by_cases hmin : price = Int64.minValue
  · subst hmin
    rw [show Int64.minValue.toInt.natAbs = 2 ^ 63 from rfl]
    refine ⟨fun _ => ?_, fun _ => .inl rfl⟩
    have hle : 2 ^ 63 ≤ 2 ^ 63 * quantity.toNat := Nat.le_mul_of_pos_right _ hpos
    omega
  have hsigned : ¬ lim.maxNotional < 0 := by
    rw [Int64.lt_iff_toInt_lt, show (0 : Int64).toInt = 0 from rfl]
    omega
  have hdiv : (lim.maxNotional / signed quantity).toInt =
      (lim.maxNotional.toInt.toNat / quantity.toNat : Nat) := by
    rw [Int64.toInt_div_of_ne_left, toInt_signed]
    · conv_lhs => rw [← Int.toNat_of_nonneg hmax]
      exact Int.ofNat_tdiv _ _
    · rintro heq
      rw [heq] at hmax
      exact absurd hmax (by decide)
  simp only [hmin, hsigned, false_or]
  rw [Int64.lt_iff_toInt_lt, toInt_magnitude hmin, hdiv, Int.ofNat_lt, Nat.div_lt_iff_lt_mul hpos]
  omega

/-! ## Both checks -/

namespace RiskEngine

variable {e : RiskEngine} {clientOrderId : UInt64} {symbolId : UInt16} {side : Side}
  {price : Int64} {quantity : UInt32}

/-- The order gets as far as the two checks that multiply. -/
structure PassesEarlier (e : RiskEngine) (clientOrderId : UInt64) (symbolId : UInt16)
    (quantity : UInt32) : Prop where
  inRange : symbolId.toNat < e.cfg.symbolCount
  configured : (e.cfg.symbols symbolId.toNat).configured = true
  notDuplicate : e.find clientOrderId = none
  nonzero : quantity ≠ 0
  withinQuantity : quantity ≤ (e.cfg.symbols symbolId.toNat).maxOrderQuantity

/-- What is decided once the earlier checks are passed. -/
theorem PassesEarlier.refusal_eq (h : PassesEarlier e clientOrderId symbolId quantity)
    (hmax : 0 ≤ (e.cfg.symbols symbolId.toNat).maxNotional) :
    (OverNotional (e.cfg.symbols symbolId.toNat) price quantity →
      e.refusal clientOrderId symbolId side price quantity = some .maxNotional) ∧
    (¬ OverNotional (e.cfg.symbols symbolId.toNat) price quantity →
      (e.refusal clientOrderId symbolId side price quantity ≠ some .maxNotional ∧
        (e.refusal clientOrderId symbolId side price quantity = some .priceCollar ↔
          outsideCollar (e.cfg.symbols symbolId.toNat) price = true))) := by
  have hnotional := overNotional_iff hmax h.nonzero price
  have hsymbol : ¬ (e.cfg.symbolCount ≤ symbolId.toNat ∨
      (e.cfg.symbols symbolId.toNat).configured = false) := by
    rintro (hrange | hnot)
    · exact absurd h.inRange (Nat.not_lt.mpr hrange)
    · rw [h.configured] at hnot
      cases hnot
  have hfresh : ¬ (e.find clientOrderId).isSome = true := by
    rw [h.notDuplicate]
    exact Bool.false_ne_true
  have hwithin : ¬ (e.cfg.symbols symbolId.toNat).maxOrderQuantity < quantity :=
    UInt32.not_lt.mpr h.withinQuantity
  unfold refusal
  dsimp only
  rw [if_neg hsymbol, if_neg hfresh, if_neg h.nonzero, if_neg hwithin]
  generalize e.cfg.symbols symbolId.toNat = lim at hnotional ⊢
  generalize (if price < 0 then -price else price) = px at hnotional ⊢
  constructor
  · intro hover
    rcases hnotional.mpr hover with hmin | hrest
    · rw [if_pos hmin]
    · rw [if_pos hrest, ite_self]
  · intro hunder
    have hsides := mt hnotional.mp hunder
    rw [not_or] at hsides
    rw [if_neg hsides.1, if_neg hsides.2]
    cases outsideCollar lim price with
    | true => simp
    | false =>
      simp only [Bool.false_eq_true, if_false]
      split
      · simp
      split
      · simp
      · simp

theorem rejects_iff (reason : RejectReason) :
    (e.onNewOrder clientOrderId symbolId side price quantity).1 = .reject reason ↔
      e.refusal clientOrderId symbolId side price quantity = some reason := by
  unfold onNewOrder
  cases e.refusal clientOrderId symbolId side price quantity with
  | none => simp [Decision.accept, Decision.reject]
  | some r => simp [Decision.reject]

/-- **Both limits are exact**, notional and collar, of every order but those outside a collar whose
remainder does not fit 64 bits. -/
theorem limits_exact_iff (h : PassesEarlier e clientOrderId symbolId quantity)
    (hmax : 0 ≤ (e.cfg.symbols symbolId.toNat).maxNotional)
    (hbps : 0 < (e.cfg.symbols symbolId.toNat).collarBps) :
    (((e.onNewOrder clientOrderId symbolId side price quantity).1 = .reject .maxNotional ↔
        OverNotional (e.cfg.symbols symbolId.toNat) price quantity) ∧
      ((e.onNewOrder clientOrderId symbolId side price quantity).1 = .reject .priceCollar ↔
        ¬ OverNotional (e.cfg.symbols symbolId.toNat) price quantity ∧
          BeyondCollar (e.cfg.symbols symbolId.toNat) price)) ↔
    (CollarFits (e.cfg.symbols symbolId.toNat) ∨
      OverNotional (e.cfg.symbols symbolId.toNat) price quantity ∨
        ¬ BeyondCollar (e.cfg.symbols symbolId.toNat) price) := by
  obtain ⟨hover, hunder⟩ := h.refusal_eq hmax
  have hcollar := outsideCollar_iff hbps price
  rw [rejects_iff, rejects_iff]
  generalize e.cfg.symbols symbolId.toNat = lim at hover hunder hcollar ⊢
  by_cases hnotional : OverNotional lim price quantity
  · rw [hover hnotional]
    simp [hnotional]
  · obtain ⟨hne, hiff⟩ := hunder hnotional
    rw [hiff, hcollar]
    simp only [hnotional, hne, not_false_eq_true, true_and, false_or, iff_self]
    tauto

/-- One symbol, with a reference price of 9999. -/
def collared (bps : Int64) : RiskEngine :=
  .new ⟨fun _ => ⟨true, 1000, 9223372036854775807, 1000, bps, 9999⟩, 1, 4⟩

theorem passesEarlier_collared (bps : Int64) : PassesEarlier (collared bps) 7 0 1 :=
  ⟨Nat.zero_lt_one, rfl, rfl, by decide, (by decide : (1 : UInt32) ≤ 1000)⟩

/-- A collar of one percent turns a price of 11000 away. -/
theorem limits_exact_one_percent :
    ((collared 100).onNewOrder 7 0 .bid 11000 1).1 = .reject .priceCollar := by
  have hunder : ¬ OverNotional ⟨true, 1000, 9223372036854775807, 1000, 100, 9999⟩ 11000 1 := by
    unfold OverNotional
    decide
  have hbeyond : BeyondCollar ⟨true, 1000, 9223372036854775807, 1000, 100, 9999⟩ 11000 := by
    unfold BeyondCollar
    decide
  have hfits : CollarFits ⟨true, 1000, 9223372036854775807, 1000, 100, 9999⟩ := by
    unfold CollarFits RemainderFits
    decide
  exact ((limits_exact_iff (passesEarlier_collared 100) (by decide) (by decide)).mpr
    (.inl hfits)).2.mpr ⟨hunder, hbeyond⟩

/-- The collar allows less than two quadrillion, the price is nine quintillion away, and the order
is accepted. -/
theorem collar_missed_wide :
    PassesEarlier (collared 1844858893260282) 7 0 1 ∧
      ((collared 1844858893260282).onNewOrder 7 0 .bid 9000000000000000000 1).1 = .accept ∧
      ¬ (((collared 1844858893260282).onNewOrder 7 0 .bid 9000000000000000000 1).1 =
          .reject .priceCollar ↔
        ¬ OverNotional ((collared 1844858893260282).cfg.symbols 0) 9000000000000000000 1 ∧
          BeyondCollar ((collared 1844858893260282).cfg.symbols 0) 9000000000000000000) := by
  have haccepted : ((collared 1844858893260282).onNewOrder 7 0 .bid 9000000000000000000 1).1 =
      .accept := by decide +kernel
  have hunder : ¬ OverNotional ((collared 1844858893260282).cfg.symbols 0)
      9000000000000000000 1 := by
    unfold OverNotional
    decide
  have hbeyond : BeyondCollar ((collared 1844858893260282).cfg.symbols 0) 9000000000000000000 := by
    unfold BeyondCollar
    decide
  refine ⟨passesEarlier_collared _, haccepted, fun hiff => ?_⟩
  have hrejected := hiff.mpr ⟨hunder, hbeyond⟩
  rw [haccepted] at hrejected
  cases hrejected

end RiskEngine

end MarketData.Risk
