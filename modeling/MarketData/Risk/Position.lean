import Mathlib.Algebra.Order.BigOperators.Group.List
import MarketData.Book.Tick
import MarketData.Lib.Run
import MarketData.Risk.OpenOrders

/-!
# `Risk/Position.lean` — the position limit

The limit is checked against the worst case: the position if this order and every live order on
its side filled completely. What keeps it true afterwards is the accounting. `Sound` says of one
symbol that its two pending quantities are those of the live orders and that neither side's worst
case is past the limit; an accepted order, a fill and a cancel each keep it. No quantity then
leaves the range of a 64-bit integer.

## A sum and a bound

A worst case is a position and a sum of quantities, and what a fill does to it is nothing: the
position moves by what the sum loses. That is why the limit, which is only checked when an order
comes in, holds after any number of fills. It is also why **the accounting has to be exact**, and
not merely a bound; a pending quantity that is too small would let the next order in.

The sums are in 64 bits and wrap. `RiskConfig.Bounded` has the limits small enough for a sum within
one to stay in range, so that `Sound` can be stated in unbounded integers and the code's additions
are those.

`FillsAddUp` is asked of the reports: a fill takes its quantity from what is left of its order. The
service does not check it, and could not do anything about one that does not. Everything else may
come in any order, reports of unknown orders among it.
-/

set_option autoImplicit false

namespace MarketData.Risk

open MarketData.Wire MarketData.Run
open MarketData.Book (Fits toInt_add_of_fits toInt_sub_of_fits)

/-! ## One symbol -/

/-- The quantity of the given orders on one side of a symbol. -/
def pending (orders : List OpenOrder) (s : Nat) (side : Side) : Nat :=
  (orders.map fun o =>
    if o.symbolId.toNat = s ∧ o.side = side then o.leavesQuantity.toNat else 0).sum

def pendingOf (st : SymbolState) : Side → Int64
  | .bid => st.pendingBuy
  | .ask => st.pendingSell

/-- The position as the side that grows it counts it. -/
def toward (position : Int) : Side → Int
  | .bid => position
  | .ask => -position

/-- The pending quantities are `p`, and the worst case of either side is within `max`. -/
structure Sound (st : SymbolState) (max : Int) (p : Side → Nat) : Prop where
  pending : ∀ side, (pendingOf st side).toInt = p side
  within : ∀ side, toward st.position.toInt side + p side ≤ max

@[simp] theorem toInt_signed (q : UInt32) : (signed q).toInt = q.toNat := by
  have hlt := q.toNat_lt
  exact Int64.toInt_ofNat_of_lt (by omega)

namespace Sound

variable {st : SymbolState} {max : Int} {p : Side → Nat}

theorem bounds (h : Sound st max p) : -max ≤ st.position.toInt ∧ st.position.toInt ≤ max := by
  have hbid : st.position.toInt + p .bid ≤ max := h.within .bid
  have hask : -st.position.toInt + p .ask ≤ max := h.within .ask
  omega

theorem pending_le (h : Sound st max p) (side : Side) : (p side : Int) ≤ 2 * max := by
  have hbounds := h.bounds
  have hside := h.within side
  cases side <;> simp only [toward] at hside <;> omega

/-- The worst case of an order is computed without overflow. -/
theorem toInt_worst (h : Sound st max p) (hmax : max < 2 ^ 62) (side : Side) (q : UInt32) :
    (RiskEngine.worst st side q).toInt =
      toward (toward st.position.toInt side + p side + q.toNat) side := by
  have hq := q.toNat_lt
  have hbounds := h.bounds
  have hside := h.within side
  have hpend := h.pending side
  cases side with
  | bid =>
    have hpend : st.pendingBuy.toInt = p .bid := hpend
    simp only [toward] at hside ⊢
    have hsum : (st.position + st.pendingBuy).toInt = st.position.toInt + p .bid := by
      rw [toInt_add_of_fits (by rw [hpend]; unfold Fits; omega), hpend]
    show (st.position + st.pendingBuy + signed q).toInt = _
    rw [toInt_add_of_fits (by rw [hsum, toInt_signed]; unfold Fits; omega), hsum, toInt_signed]
  | ask =>
    have hpend : st.pendingSell.toInt = p .ask := hpend
    simp only [toward] at hside ⊢
    have hsum : (st.position - st.pendingSell).toInt = st.position.toInt - p .ask := by
      rw [toInt_sub_of_fits (by rw [hpend]; unfold Fits; omega), hpend]
    show (st.position - st.pendingSell - signed q).toInt = _
    rw [toInt_sub_of_fits (by rw [hsum, toInt_signed]; unfold Fits; omega), hsum, toInt_signed]
    omega

/-- An order that passes the check goes on its side. -/
theorem accepted (h : Sound st max p) (hmax : max < 2 ^ 62) {limit : Int64}
    (hlimit : limit.toInt = max) {side : Side} {q : UInt32}
    (hcheck : ¬ limit < (if RiskEngine.worst st side q < 0 then -RiskEngine.worst st side q
      else RiskEngine.worst st side q)) :
    Sound (RiskEngine.addPending st side (signed q)) max
      (Function.update p side (p side + q.toNat)) := by
  have hworst := h.toInt_worst hmax side q
  have hq := q.toNat_lt
  have hbounds := h.bounds
  have hside := h.within side
  have hle : toward st.position.toInt side + p side + q.toNat ≤ max := by
    rw [Int64.lt_iff_toInt_lt, hlimit] at hcheck
    split at hcheck
    · rename_i hneg
      rw [Int64.lt_iff_toInt_lt, Int64.toInt_zero, hworst] at hneg
      have hfits : Fits (-(RiskEngine.worst st side q).toInt) := by
        rw [hworst]
        unfold Fits
        cases side <;> simp only [toward] at hside ⊢ <;> omega
      rw [Int64.toInt_neg, Book.bmod_of_fits hfits, hworst] at hcheck
      cases side <;> simp only [toward] at hneg hcheck hside ⊢ <;> omega
    · rename_i hnonneg
      rw [Int64.lt_iff_toInt_lt, Int64.toInt_zero, hworst] at hnonneg
      rw [hworst] at hcheck
      cases side <;> simp only [toward] at hnonneg hcheck hside ⊢ <;> omega
  have hfits : Fits ((pendingOf st side).toInt + (signed q).toInt) := by
    rw [h.pending side, toInt_signed]
    unfold Fits
    cases side <;> simp only [toward] at hle <;> omega
  have hsum := toInt_add_of_fits hfits
  rw [h.pending side, toInt_signed] at hsum
  refine ⟨fun side' => ?_, fun side' => ?_⟩
  · by_cases heq : side' = side
    · subst heq
      rw [Function.update_self]
      cases side' <;> exact hsum.trans (by push_cast; rfl)
    · rw [Function.update_of_ne heq, ← h.pending side']
      cases side <;> cases side' <;> first | rfl | exact absurd rfl heq
  · have hpos : (RiskEngine.addPending st side (signed q)).position = st.position := by
      cases side <;> rfl
    rw [hpos]
    by_cases heq : side' = side
    · subst heq
      rw [Function.update_self]
      push_cast
      omega
    · rw [Function.update_of_ne heq]
      exact h.within side'

/-- What is no longer pending leaves its side. -/
theorem released (h : Sound st max p) (hmax : max < 2 ^ 62) {side : Side} {q : UInt32}
    (hq : q.toNat ≤ p side) :
    Sound (RiskEngine.subPending st side (signed q)) max
      (Function.update p side (p side - q.toNat)) := by
  have hle := h.pending_le side
  have hfits : Fits ((pendingOf st side).toInt - (signed q).toInt) := by
    rw [h.pending side, toInt_signed]
    unfold Fits
    omega
  have hdiff := toInt_sub_of_fits hfits
  rw [h.pending side, toInt_signed, ← Int.ofNat_sub hq] at hdiff
  refine ⟨fun side' => ?_, fun side' => ?_⟩
  · by_cases heq : side' = side
    · subst heq
      rw [Function.update_self]
      cases side' <;> exact hdiff
    · rw [Function.update_of_ne heq, ← h.pending side']
      cases side <;> cases side' <;> first | rfl | exact absurd rfl heq
  · have hpos : (RiskEngine.subPending st side (signed q)).position = st.position := by
      cases side <;> rfl
    have hside := h.within side'
    rw [hpos]
    by_cases heq : side' = side
    · subst heq
      rw [Function.update_self]
      omega
    · rw [Function.update_of_ne heq]
      exact hside

/-- A fill moves its quantity from its side's pending to the position. -/
theorem filled (h : Sound st max p) (hmax : max < 2 ^ 62) {side : Side} {q : UInt32}
    (hq : q.toNat ≤ p side) :
    Sound (RiskEngine.subPending (RiskEngine.addPosition st side (signed q)) side (signed q)) max
      (Function.update p side (p side - q.toNat)) := by
  have hbounds := h.bounds
  have hside := h.within side
  have hmoved : (RiskEngine.addPosition st side (signed q)).position.toInt =
      toward (toward st.position.toInt side + q.toNat) side := by
    cases side with
    | bid =>
      simp only [toward] at hside ⊢
      show (st.position + signed q).toInt = _
      rw [toInt_add_of_fits (by rw [toInt_signed]; unfold Fits; omega), toInt_signed]
    | ask =>
      simp only [toward] at hside ⊢
      show (st.position - signed q).toInt = _
      rw [toInt_sub_of_fits (by rw [toInt_signed]; unfold Fits; omega), toInt_signed]
      omega
  have hreleased := (h.released hmax hq).pending
  refine ⟨fun side' => ?_, fun side' => ?_⟩
  · rw [← hreleased side']
    cases side <;> cases side' <;> rfl
  · have hpos : (RiskEngine.subPending (RiskEngine.addPosition st side (signed q)) side
        (signed q)).position = (RiskEngine.addPosition st side (signed q)).position := by
      cases side <;> rfl
    have hother := h.within side'
    rw [hpos, hmoved]
    by_cases heq : side' = side
    · subst heq
      rw [Function.update_self]
      cases side' <;> simp only [toward] at hside ⊢ <;> omega
    · rw [Function.update_of_ne heq]
      cases side <;> cases side' <;> simp only [toward] at hother ⊢ <;>
        first | omega | exact absurd rfl heq

end Sound

/-! ## Live orders and what is pending -/

theorem pending_perm {l l' : List OpenOrder} (h : l.Perm l') : pending l = pending l' := by
  funext s side
  exact (h.map _).sum_eq

theorem pending_cons_other {o : OpenOrder} {l : List OpenOrder} {s : Nat}
    (hne : o.symbolId.toNat ≠ s) : pending (o :: l) s = pending l s := by
  funext side
  simp [pending, hne]

theorem pending_cons_self (o : OpenOrder) (l : List OpenOrder) :
    pending (o :: l) o.symbolId.toNat = Function.update (pending l o.symbolId.toNat) o.side
      (pending l o.symbolId.toNat o.side + o.leavesQuantity.toNat) := by
  funext side
  by_cases heq : side = o.side
  · rw [heq, Function.update_self]
    simp [pending, Nat.add_comm]
  · rw [Function.update_of_ne heq]
    have hne : ¬ o.side = side := fun h => heq h.symm
    simp [pending, hne]

/-- No more is pending in a part of the orders than in all of them. -/
theorem pending_sublist {l l' : List OpenOrder} (h : l.Sublist l') (s : Nat) (side : Side) :
    pending l s side ≤ pending l' s side :=
  (h.map _).sum_le_sum fun _ _ => Nat.zero_le _

def RiskConfig.Bounded (cfg : RiskConfig) : Prop :=
  ∀ s < cfg.symbolCount,
    0 ≤ (cfg.symbols s).maxPosition.toInt ∧ (cfg.symbols s).maxPosition.toInt < 2 ^ 62

/-- The two configurations have the same symbols and the same position limits. -/
def RiskConfig.SameLimits (cfg cfg' : RiskConfig) : Prop :=
  cfg'.symbolCount = cfg.symbolCount ∧
    ∀ s, (cfg'.symbols s).maxPosition = (cfg.symbols s).maxPosition

namespace RiskEngine

/-- A fill changes only a reference price. -/
theorem sameLimits_applyFill (e : RiskEngine) (i : Nat) (o : OpenOrder) (price : Int64)
    (quantity leavesQuantity : UInt32) :
    e.cfg.SameLimits (e.applyFill i o price quantity leavesQuantity).cfg := by
  unfold applyFill
  dsimp only
  split
  · refine ⟨rfl, fun s => ?_⟩
    dsimp only
    by_cases hs : s = o.symbolId.toNat
    · rw [hs, Function.update_self]
    · rw [Function.update_of_ne hs]
  · exact ⟨rfl, fun _ => rfl⟩

/-- **The invariant**: the table is sound, every live order is on a known symbol, and every
symbol's accounts are those of the live orders and within its limit. -/
structure Limited (e : RiskEngine) : Prop where
  bounded : e.cfg.Bounded
  tabled : Tabled e
  known : ∀ o ∈ e.openOrders, o.symbolId.toNat < e.cfg.symbolCount
  sound : ∀ s < e.cfg.symbolCount,
    Sound (e.state s) (e.cfg.symbols s).maxPosition.toInt (pending e.openOrders s)

theorem state_close (e : RiskEngine) (i : Nat) (o : OpenOrder) (type : ExecType) :
    (e.close i o type).state = if isFill type = true then e.state
      else Function.update e.state o.symbolId.toNat
        (subPending (e.state o.symbolId.toNat) o.side (signed o.leavesQuantity)) := by
  cases type <;> rfl

namespace Limited

variable {e : RiskEngine}

theorem record (h : Limited e) {clientOrderId : UInt64} {symbolId : UInt16} {side : Side}
    {price : Int64} {quantity : UInt32}
    (hok : e.refusal clientOrderId symbolId side price quantity = none) :
    Limited (e.record ⟨clientOrderId, 0, price, quantity, symbolId, side⟩) := by
  obtain ⟨hsymbol, hfind, hlive, hposition⟩ := refusal_none hok
  obtain ⟨htabled, hperm⟩ :=
    h.tabled.record (o := ⟨clientOrderId, 0, price, quantity, symbolId, side⟩) hfind hlive
  refine ⟨h.bounded, htabled, fun o ho => ?_, fun s hs => ?_⟩
  · rcases List.mem_cons.mp (hperm.mem_iff.mp ho) with rfl | ho
    · exact hsymbol
    · exact h.known o ho
  · rw [pending_perm hperm]
    by_cases heq : symbolId.toNat = s
    · subst heq
      rw [pending_cons_self ⟨clientOrderId, 0, price, quantity, symbolId, side⟩]
      have hsound := (h.sound symbolId.toNat hs).accepted (h.bounded _ hs).2 rfl hposition
      show Sound (Function.update e.state symbolId.toNat _ symbolId.toNat) _ _
      rw [Function.update_self]
      exact hsound
    · rw [pending_cons_other heq]
      show Sound (Function.update e.state symbolId.toNat _ s) _ _
      rw [Function.update_of_ne (Ne.symm heq)]
      exact h.sound s hs

/-- What a step does that changes only the statistics. -/
theorem of_same {e' : RiskEngine} (h : Limited e) (hcfg : e'.cfg = e.cfg) (hstate : e'.state = e.state)
    (hslots : e'.slots = e.slots) (hmask : e'.mask = e.mask) (hlive : e'.live = e.live) :
    Limited e' := by
  have hopen := openOrders_congr hslots hmask
  refine ⟨hcfg ▸ h.bounded, h.tabled.of_same hslots hmask hlive (by rw [hcfg]), ?_, ?_⟩
  · rw [hopen, hcfg]
    exact h.known
  · rw [hopen, hcfg, hstate]
    exact h.sound

variable {i : Nat}

/-- The order in a slot takes on its exchange id. -/
theorem note (h : Limited e) (hi : i < e.mask + 1) (hocc : (e.slots i).occupied = true)
    {o : OpenOrder} (hid : o.clientOrderId = (e.slots i).order.clientOrderId)
    (hsymbol : o.symbolId = (e.slots i).order.symbolId) (hside : o.side = (e.slots i).order.side)
    (hleaves : o.leavesQuantity = (e.slots i).order.leavesQuantity) :
    Limited { e with slots := Function.update e.slots i ⟨o, true⟩ } := by
  obtain ⟨htabled, hperm⟩ :
      Tabled { e with slots := Function.update e.slots i ⟨o, true⟩ } ∧
        ({ e with slots := Function.update e.slots i ⟨o, true⟩ } : RiskEngine).openOrders.Perm
          (o :: Tabled.others e i) :=
    h.tabled.replace hi hocc hid rfl rfl rfl rfl
  have hbefore := h.tabled.perm_others hi hocc
  have hpending : pending (o :: Tabled.others e i) =
      pending ((e.slots i).order :: Tabled.others e i) := by
    funext s side
    simp [pending, hsymbol, hside, hleaves]
  refine ⟨h.bounded, htabled, fun x hx => ?_, fun s hs => ?_⟩
  · rcases List.mem_cons.mp (hperm.mem_iff.mp hx) with rfl | hx
    · rw [hsymbol]
      exact h.known _ (hbefore.mem_iff.mpr List.mem_cons_self)
    · exact h.known x (hbefore.mem_iff.mpr (List.mem_cons_of_mem _ hx))
  · rw [pending_perm hperm, hpending, ← pending_perm hbefore]
    exact h.sound s hs

/-- A fill that leaves what it should. -/
theorem applyFill (h : Limited e) (hi : i < e.mask + 1) (hocc : (e.slots i).occupied = true)
    {price : Int64} {quantity leavesQuantity : UInt32}
    (hsum : quantity.toNat + leavesQuantity.toNat = (e.slots i).order.leavesQuantity.toNat) :
    Limited (e.applyFill i (e.slots i).order price quantity leavesQuantity) := by
  generalize ho : (e.slots i).order = o at hsum
  obtain ⟨hcount, hlimits⟩ := sameLimits_applyFill e i o price quantity leavesQuantity
  obtain ⟨htabled, hperm⟩ :=
    h.tabled.applyFill hi hocc (congrArg _ ho.symm) price quantity leavesQuantity
  have hbefore := h.tabled.perm_others hi hocc
  rw [ho] at hbefore
  refine ⟨?_, htabled, fun x hx => ?_, fun s hs => ?_⟩
  · intro s hs
    rw [hlimits]
    exact h.bounded s (hcount ▸ hs)
  · rw [hcount]
    rcases List.mem_cons.mp (hperm.mem_iff.mp hx) with rfl | hx
    · exact h.known o (hbefore.mem_iff.mpr List.mem_cons_self)
    · exact h.known x (hbefore.mem_iff.mpr (List.mem_cons_of_mem _ hx))
  · rw [hcount] at hs
    have hsound := h.sound s hs
    rw [hlimits, pending_perm hperm]
    rw [pending_perm hbefore] at hsound
    by_cases heq : o.symbolId.toNat = s
    · subst heq
      rw [pending_cons_self o] at hsound
      have hroom : quantity.toNat ≤ Function.update (pending (Tabled.others e i) o.symbolId.toNat)
          o.side (pending (Tabled.others e i) o.symbolId.toNat o.side + o.leavesQuantity.toNat)
          o.side := by
        rw [Function.update_self]
        omega
      have hfilled := hsound.filled (h.bounded _ hs).2 hroom
      rw [Function.update_self, Function.update_idem] at hfilled
      have hleft : pending (Tabled.others e i) o.symbolId.toNat o.side + o.leavesQuantity.toNat -
          quantity.toNat = pending (Tabled.others e i) o.symbolId.toNat o.side +
            leavesQuantity.toNat := by omega
      rw [hleft] at hfilled
      rw [pending_cons_self { o with leavesQuantity }]
      show Sound (Function.update e.state o.symbolId.toNat _ o.symbolId.toNat) _ _
      rw [Function.update_self]
      exact hfilled
    · rw [pending_cons_other (o := { o with leavesQuantity }) heq]
      rw [pending_cons_other heq] at hsound
      show Sound (Function.update e.state o.symbolId.toNat _ s) _ _
      rw [Function.update_of_ne (Ne.symm heq)]
      exact hsound

/-- The order in a slot is finished; if by a fill, it has nothing left. -/
theorem close (h : Limited e) (hi : i < e.mask + 1) (hocc : (e.slots i).occupied = true)
    (type : ExecType) (hzero : isFill type = true → (e.slots i).order.leavesQuantity = 0) :
    Limited (e.close i (e.slots i).order type) := by
  generalize ho : (e.slots i).order = o at hzero
  have hbefore := h.tabled.perm_others hi hocc
  rw [ho] at hbefore
  -- What the accounts are once the order's remainder is taken off them.
  have hstate : ∀ s < e.cfg.symbolCount, Sound ((e.close i o type).state s)
      (e.cfg.symbols s).maxPosition.toInt (pending (Tabled.others e i) s) := by
    intro s hs
    have hsound := h.sound s hs
    rw [pending_perm hbefore] at hsound
    by_cases heq : o.symbolId.toNat = s
    · subst heq
      rw [pending_cons_self o] at hsound
      cases hfill : isFill type with
      | true =>
        rw [hzero hfill, UInt32.toNat_zero, Nat.add_zero, Function.update_eq_self] at hsound
        rw [state_close, if_pos hfill]
        exact hsound
      | false =>
        have hroom : o.leavesQuantity.toNat ≤
            Function.update (pending (Tabled.others e i) o.symbolId.toNat) o.side
              (pending (Tabled.others e i) o.symbolId.toNat o.side + o.leavesQuantity.toNat)
              o.side := by
          rw [Function.update_self]
          omega
        have hreleased := hsound.released (h.bounded _ hs).2 hroom
        rw [Function.update_self, Function.update_idem, Nat.add_sub_cancel,
          Function.update_eq_self] at hreleased
        rw [state_close, if_neg (by simp [hfill]), Function.update_self]
        exact hreleased
    · rw [pending_cons_other heq] at hsound
      have hother : (e.close i o type).state s = e.state s := by
        rw [state_close]
        split
        · rfl
        · exact Function.update_of_ne (Ne.symm heq) ..
      rw [hother]
      exact hsound
  obtain ⟨htabled, hopen⟩ := h.tabled.close hi hocc o type
  obtain ⟨-, -, -, hcfg⟩ := close_frame e i o type
  refine ⟨hcfg ▸ h.bounded, htabled, ?_, ?_⟩
  · rw [hopen, hcfg]
    exact fun x hx => h.known x (hbefore.mem_iff.mpr (List.mem_cons_of_mem _ hx))
  · rw [hopen, hcfg]
    exact hstate

theorem onNewOrder (h : Limited e) (clientOrderId : UInt64) (symbolId : UInt16) (side : Side)
    (price : Int64) (quantity : UInt32) :
    Limited (e.onNewOrder clientOrderId symbolId side price quantity).2 := by
  unfold RiskEngine.onNewOrder
  split
  · exact h.of_same rfl rfl rfl rfl rfl
  · rename_i hok
    exact (h.record hok).of_same rfl rfl rfl rfl rfl

theorem onCancel (h : Limited e) (clientOrderId origClientOrderId : UInt64) :
    Limited (e.onCancel clientOrderId origClientOrderId).2 := by
  unfold RiskEngine.onCancel
  split <;> exact h.of_same rfl rfl rfl rfl rfl

theorem onExecReport (h : Limited e) (clientOrderId exchangeOrderId : UInt64) (type : ExecType)
    (price : Int64) (quantity leavesQuantity : UInt32)
    (hsum : isFill type = true → ∀ o ∈ e.openOrders, o.clientOrderId = clientOrderId →
      quantity.toNat + leavesQuantity.toNat = o.leavesQuantity.toNat) :
    Limited (e.onExecReport clientOrderId exchangeOrderId type price quantity leavesQuantity) := by
  unfold RiskEngine.onExecReport
  split
  · exact h.of_same rfl rfl rfl rfl rfl
  rename_i i hfind
  obtain ⟨hi, hocc, hid, hmem⟩ := h.tabled.find_some hfind
  have hsum' := fun hfill => hsum hfill _ hmem hid
  dsimp only
  have hnote : ∀ o, (if exchangeOrderId ≠ 0 then { (e.slots i).order with exchangeOrderId }
      else (e.slots i).order) = o → o.clientOrderId = (e.slots i).order.clientOrderId ∧
      o.symbolId = (e.slots i).order.symbolId ∧ o.side = (e.slots i).order.side ∧
      o.leavesQuantity = (e.slots i).order.leavesQuantity := by
    rintro o rfl
    split <;> exact ⟨rfl, rfl, rfl, rfl⟩
  generalize (if exchangeOrderId ≠ 0 then { (e.slots i).order with exchangeOrderId }
    else (e.slots i).order) = o at hnote ⊢
  obtain ⟨hid', hsymbol, hside, hleaves⟩ := hnote o rfl
  have hnoted := h.note hi hocc hid' hsymbol hside hleaves
  have hslot : ({ e with slots := Function.update e.slots i ⟨o, true⟩ } : RiskEngine).slots i =
      ⟨o, true⟩ := Function.update_self ..
  have hmask : ({ e with slots := Function.update e.slots i ⟨o, true⟩ } : RiskEngine).mask =
      e.mask := rfl
  generalize ({ e with slots := Function.update e.slots i ⟨o, true⟩ } : RiskEngine) = e₁
    at hnoted hslot hmask ⊢
  rw [← hleaves] at hsum'
  cases hfill : isFill type with
  | true =>
    have hfilled : Limited (e₁.applyFill i (e₁.slots i).order price quantity leavesQuantity) :=
      hnoted.applyFill (by rw [hmask]; exact hi) (by rw [hslot]) (by rw [hslot]; exact hsum' hfill)
    rw [hslot] at hfilled
    have hslot' : (e₁.applyFill i o price quantity leavesQuantity).slots i =
        ⟨{ o with leavesQuantity }, true⟩ := Function.update_self ..
    rw [if_pos rfl]
    split
    · rename_i hterminal
      refine hfilled.close ?_ (by rw [hslot']) type fun _ => ?_
      · show i < e₁.mask + 1
        rw [hmask]
        exact hi
      · rw [hslot']
        rcases hterminal with hdone | rfl | rfl
        · exact hdone.2
        · cases hfill
        · cases hfill
    · exact hfilled
  | false =>
    rw [if_neg Bool.false_ne_true]
    split
    · exact hnoted.close (by rw [hmask]; exact hi) (by rw [hslot]) type fun htrue =>
        absurd (htrue.symm.trans hfill) (by simp)
    · exact hnoted

end Limited

theorem limited_new {cfg : RiskConfig} (h : cfg.Bounded) : Limited (new cfg) := by
  have hopen := openOrders_new cfg
  refine ⟨h, tabled_new cfg, fun o ho => absurd (hopen ▸ ho) (by simp), fun s hs => ?_⟩
  rw [hopen]
  refine ⟨fun side => by cases side <;> rfl, fun side => ?_⟩
  have hmax := (h s hs).1
  cases side <;> simpa [new, pending, toward] using hmax

/-! ## Runs -/

/-- A call the service makes, with its arguments. -/
inductive Call where
  | newOrder (clientOrderId : UInt64) (symbolId : UInt16) (side : Side) (price : Int64)
      (quantity : UInt32)
  | cancel (clientOrderId origClientOrderId : UInt64)
  | execReport (clientOrderId exchangeOrderId : UInt64) (type : ExecType) (price : Int64)
      (quantity leavesQuantity : UInt32)

def step (e : RiskEngine) : Call → RiskEngine
  | .newOrder clientOrderId symbolId side price quantity =>
    (e.onNewOrder clientOrderId symbolId side price quantity).2
  | .cancel clientOrderId origClientOrderId => (e.onCancel clientOrderId origClientOrderId).2
  | .execReport clientOrderId exchangeOrderId type price quantity leavesQuantity =>
    e.onExecReport clientOrderId exchangeOrderId type price quantity leavesQuantity

/-- A fill of a live order takes its quantity from what was left of it. -/
def FillsAddUp (e : RiskEngine) : Call → Prop
  | .execReport clientOrderId _ type _ quantity leavesQuantity =>
    isFill type = true → ∀ o ∈ e.openOrders, o.clientOrderId = clientOrderId →
      quantity.toNat + leavesQuantity.toNat = o.leavesQuantity.toNat
  | _ => True

theorem Limited.step {e : RiskEngine} (h : Limited e) {c : Call} (hc : FillsAddUp e c) :
    Limited (e.step c) := by
  cases c with
  | newOrder => exact h.onNewOrder ..
  | cancel => exact h.onCancel ..
  | execReport => exact h.onExecReport _ _ _ _ _ _ hc

theorem sameLimits_step (e : RiskEngine) (c : Call) : e.cfg.SameLimits (e.step c).cfg := by
  cases c with
  | newOrder clientOrderId symbolId side price quantity =>
    have hcfg : (e.onNewOrder clientOrderId symbolId side price quantity).2.cfg = e.cfg := by
      unfold onNewOrder
      split <;> rfl
    exact ⟨congrArg _ hcfg, fun s => congrArg (fun c => (c.symbols s).maxPosition) hcfg⟩
  | cancel clientOrderId origClientOrderId =>
    have hcfg : (e.onCancel clientOrderId origClientOrderId).2.cfg = e.cfg := by
      unfold onCancel
      split <;> rfl
    exact ⟨congrArg _ hcfg, fun s => congrArg (fun c => (c.symbols s).maxPosition) hcfg⟩
  | execReport clientOrderId exchangeOrderId type price quantity leavesQuantity =>
    show e.cfg.SameLimits (e.onExecReport clientOrderId exchangeOrderId type price quantity
      leavesQuantity).cfg
    unfold onExecReport
    split
    · exact ⟨rfl, fun _ => rfl⟩
    rename_i i _
    dsimp only
    generalize (if exchangeOrderId ≠ 0 then { (e.slots i).order with exchangeOrderId }
      else (e.slots i).order) = o
    have hsame : e.cfg.SameLimits (if isFill type = true then
        ({ e with slots := Function.update e.slots i ⟨o, true⟩ } : RiskEngine).applyFill i o price
          quantity leavesQuantity
        else { e with slots := Function.update e.slots i ⟨o, true⟩ }).cfg := by
      split
      · exact sameLimits_applyFill { e with slots := Function.update e.slots i ⟨o, true⟩ } i o price
          quantity leavesQuantity
      · exact ⟨rfl, fun _ => rfl⟩
    split
    · rw [(close_frame _ _ _ _).2.2.2]
      exact hsame
    · exact hsame

/-- What the limit promises about symbol `s`: its accounts are those of the live orders, neither
side's worst case is past `max`, and so neither is the position once any of them have filled. -/
structure WithinLimit (e : RiskEngine) (s : Nat) (max : Int) : Prop where
  buy : (e.state s).pendingBuy.toInt = pending e.openOrders s .bid
  sell : (e.state s).pendingSell.toInt = pending e.openOrders s .ask
  nonneg : 0 ≤ (e.state s).pendingBuy.toInt ∧ 0 ≤ (e.state s).pendingSell.toInt
  long : (e.state s).position.toInt + (e.state s).pendingBuy.toInt ≤ max
  short : -max ≤ (e.state s).position.toInt - (e.state s).pendingSell.toInt
  filled : ∀ l : List OpenOrder, l.Sublist e.openOrders →
    |(e.state s).position.toInt + pending l s .bid - pending l s .ask| ≤ max

theorem Limited.withinLimit {e : RiskEngine} (h : Limited e) {s : Nat}
    (hs : s < e.cfg.symbolCount) : WithinLimit e s (e.cfg.symbols s).maxPosition.toInt := by
  have hsound := h.sound s hs
  have hbuy : (e.state s).pendingBuy.toInt = pending e.openOrders s .bid := hsound.pending .bid
  have hsell : (e.state s).pendingSell.toInt = pending e.openOrders s .ask := hsound.pending .ask
  have hlong : (e.state s).position.toInt + pending e.openOrders s .bid ≤ _ := hsound.within .bid
  have hshort : -(e.state s).position.toInt + pending e.openOrders s .ask ≤ _ := hsound.within .ask
  refine ⟨hbuy, hsell, ⟨by omega, by omega⟩, by omega, by omega, fun l hl => ?_⟩
  have hbid := pending_sublist hl s .bid
  have hask := pending_sublist hl s .ask
  rw [abs_le]
  omega

/-- **Position limit safety.** Whatever the service is asked and told, in any order, so long as
the fills it is told of add up. -/
theorem position_limit_safety {cfg : RiskConfig} (hcfg : cfg.Bounded) {calls : List Call}
    (hcalls : Along step FillsAddUp (new cfg) calls) :
    ∀ s < cfg.symbolCount,
      WithinLimit (calls.foldl step (new cfg)) s (cfg.symbols s).maxPosition.toInt := by
  obtain ⟨hlimited, hcount, hmax⟩ := hcalls.invariant
    (fun e => Limited e ∧ cfg.SameLimits e.cfg)
    (fun e c h hc => ⟨h.1.step hc, (sameLimits_step e c).1.trans h.2.1,
      fun s => ((sameLimits_step e c).2 s).trans (h.2.2 s)⟩)
    ⟨limited_new hcfg, rfl, fun _ => rfl⟩
  intro s hs
  rw [← hmax s]
  exact hlimited.withinLimit (hcount ▸ hs)

/-- One symbol with a limit of a hundred either way. -/
def hundredEitherWay : RiskConfig where
  symbols _ := ⟨true, 1000, 1000000, 100, 0, 0⟩
  symbolCount := 1
  maxOpenOrders := 3

/-- A buy of sixty, one of fifty that is refused, part of the first filled, a sell, and what is
left of the first canceled. -/
def partlyFilled : List Call :=
  [.newOrder 1 0 .bid 10 60, .newOrder 2 0 .bid 10 50, .execReport 1 900 .acknowledged 10 0 60,
    .execReport 1 900 .partialFill 10 25 35, .newOrder 3 0 .ask 11 120, .cancel 4 1,
    .execReport 1 900 .canceled 10 0 0]

theorem position_limit_safety_partlyFilled :
    let e := partlyFilled.foldl step (new hundredEitherWay)
    (e.state 0).position = 25 ∧ (e.state 0).pendingBuy = 0 ∧ (e.state 0).pendingSell = 120 ∧
      WithinLimit e 0 100 := by
  have hbounded : hundredEitherWay.Bounded := by
    intro s _
    show 0 ≤ (100 : Int64).toInt ∧ (100 : Int64).toInt < 2 ^ 62
    decide
  have hfills : Along step FillsAddUp (new hundredEitherWay) partlyFilled := by
    refine ⟨trivial, trivial, fun h => (nomatch h), fun _ o ho _ => ?_, trivial, trivial,
      fun h => (nomatch h), trivial⟩
    revert o
    decide +kernel
  exact ⟨by decide +kernel, by decide +kernel, by decide +kernel,
    position_limit_safety hbounded hfills 0 (by decide)⟩

end RiskEngine

end MarketData.Risk
