import MarketData.Gateway.OrderRouter
import Mathlib.Data.List.TakeWhile

/-!
# `Gateway/Asked.lean` — whether the order sent is the order asked for

Three numbers of a request go through three conversions. `ClOrdID` and `OrigClOrdID` are read as
far as they are digits, and a cancel takes zero where there are none; `OrderQty` has to be a number
but is cut down to 32 bits. A request whose numbers are not numbers in full is therefore sent on
as another one, unless something else is wrong with it (`as_asked_iff`).

## Two readings of one field

`wholeNumber` is what a client means by a number: all of the text is one, and it fits. The code's
own readings are `fromChars` and `findInt`, which stop early or wrap. `InFull` says where the two
agree, field by field, and `AskedFor` compares a ring message with the whole reading alone; that way
neither side of the equivalence mentions a conversion of the code.

`TakenUp` collects what the router checks before it sends: fields that have to be there, a side, a
price, a symbol, a disk that takes the record and a ring that has room for a cancel. **A request
that fails one of these is rejected whatever its numbers are**, and so meets the promise without
being in full. It reads the message and the router before the call, never what was sent.

Prices are not among the three: what `parse_price` makes of a text is `Gateway/Prices.lean`.
-/

set_option autoImplicit false

namespace MarketData.Gateway

open MarketData.Wire

/-- The number all of `v` is. -/
def wholeNumber (v : Text) : Option UInt64 :=
  if v ≠ [] ∧ v.all Char.isDigit = true ∧ decimal v < 2 ^ 64 then some (UInt64.ofNat (decimal v))
  else none

/-- A number in full is what the digits at the front are. -/
theorem fromChars_of_wholeNumber {v : Text} {n : UInt64} (h : wholeNumber v = some n) :
    fromChars v = some n := by
  unfold wholeNumber at h
  split at h
  · rename_i hwhole
    obtain ⟨hne, hall, hlt⟩ := hwhole
    have htake : v.takeWhile Char.isDigit = v :=
      List.takeWhile_eq_self_iff.mpr (List.all_eq_true.mp hall)
    unfold fromChars
    rw [htake, if_neg (not_or.mpr ⟨hne, Nat.not_le.mpr hlt⟩)]
    exact h
  · cases h

namespace FixMessage

variable (m : FixMessage)

/-- The id in field `t`, if the field is there and says one. -/
def idIn (t : Nat) : Option UInt64 := (m.find t).bind wholeNumber

/-- The quantity of the message, if it is one. -/
def quantityIn : Option UInt32 :=
  (m.findInt Tag.orderQty).bind fun q =>
    if 0 ≤ q.toInt ∧ q.toInt < 2 ^ 32 then some (UInt32.ofNat q.toInt.toNat) else none

/-- Every number the message is to be read for is one in full. -/
def InFull : Prop :=
  if m.msgType = ['D'] then (m.idIn Tag.clOrdId).isSome ∧ m.quantityIn.isSome
  else if m.msgType = ['F'] then (m.idIn Tag.clOrdId).isSome ∧ (m.idIn Tag.origClOrdId).isSome
  else True

/-- What goes into the ring is what the message asks for. -/
def AskedFor : OrderMessage → Prop
  | .newOrder o => m.idIn Tag.clOrdId = some o.clientOrderId ∧ m.quantityIn = some o.quantity
  | .cancelOrder c =>
    m.idIn Tag.clOrdId = some c.clientOrderId ∧ m.idIn Tag.origClOrdId = some c.origClientOrderId
  | .reconcileRequest _ => False

end FixMessage

namespace OrderRouter

variable {g : OrderRouter} {m : FixMessage} {durable durable' : Bool}

/-- The request is answered with a rejection and leaves nothing behind. -/
structure Rejects (g g' : OrderRouter) : Prop where
  orders : g'.orders = g.orders
  store : g'.store = g.store
  sent : ∃ answer, g'.sent = g.sent ++ [answer]

/-- What is sent on is what was asked for, and what is not in full is rejected. -/
structure AsAsked (g : OrderRouter) (m : FixMessage) (durable durable' : Bool) : Prop where
  sent : ∀ o, (g.onApplication m durable durable').2.orders.items = g.orders.items ++ [o] →
    m.AskedFor o
  rejected : ¬ m.InFull → Rejects g (g.onApplication m durable durable').2

/-- The message gets past every check there is: what it must have is there, what is looked at is
in order, and the disk takes the record of a new order, the ring a cancel. -/
def TakenUp (g : OrderRouter) (m : FixMessage) (durable : Bool) : Prop :=
  ((m.find Tag.symbol).bind g.symbolId).isSome ∧ ((m.find Tag.side).bind parseSide).isSome ∧
    if m.msgType = ['D'] then
      ((m.find Tag.clOrdId).bind fromChars).isSome ∧ (m.findInt Tag.orderQty).isSome ∧
        ((m.find Tag.price).bind parsePrice).isSome ∧ durable = true
    else m.msgType = ['F'] ∧ (m.find Tag.clOrdId).isSome ∧ (m.find Tag.origClOrdId).isSome ∧
      g.orders.items.length < g.orders.capacity

theorem sendReject_rejects (g : OrderRouter) (m : FixMessage) (text : String)
    (reason : RejectReason) : Rejects g (g.sendReject m text reason) :=
  ⟨rfl, rfl, _, rfl⟩

/-- A rejected request sends nothing. -/
theorem Rejects.ne {g g' : OrderRouter} (h : Rejects g g') (o : OrderMessage) :
    g'.orders.items ≠ g.orders.items ++ [o] := by
  rw [h.orders]
  simp

/-- A new order that is taken up is on record, and in the ring if that has room. -/
inductive SentOrder (g : OrderRouter) (o : NewOrder) (g' : OrderRouter) : Prop where
  | pushed (hrecorded : g'.store ≠ g.store) (h : g'.orders.items = g.orders.items ++ [.newOrder o])
  | full (hrecorded : g'.store ≠ g.store) (h : g'.orders = g.orders)

theorem record_ne {s s' : OrderStore} {durable : Bool} {r : OrderRecord}
    (h : s.record durable r = some s') : s'.log = s.log ++ [r] := by
  unfold OrderStore.record at h
  split at h
  · cases h
    rfl
  · cases h

theorem sendOrder_sentOrder (g : OrderRouter) (m : FixMessage) (durable' : Bool)
    (r : OrderRecord) :
    SentOrder g ⟨r.clientOrderId, r.price, r.quantity, r.symbolId, some r.side⟩
      (g.sendOrder m true durable' r) := by
  unfold sendOrder
  obtain ⟨store, hstore⟩ : ∃ store, g.store.record true r = some store := ⟨_, rfl⟩
  have hlog := record_ne hstore
  rw [hstore]
  dsimp only
  split
  · rename_i orders hpush
    refine .pushed (fun heq => ?_) (congrArg Fifo.items (Fifo.push_some hpush))
    have hlen := congrArg (fun s => s.log.length) heq
    simp [hlog] at hlen
  · refine .full (fun heq => ?_) rfl
    have hlen := congrArg (fun s => s.log.length) heq
    unfold sendReject at hlen
    cases hdead : store.record durable' { r with state := .rejected, leavesQuantity := 0 } with
    | none => simp [hdead, hlog] at hlen
    | some store' => simp [hdead, record_ne hdead, hlog] at hlen

/-- What becomes of a `NewOrderSingle`. -/
theorem onNewOrderSingle_cases (g : OrderRouter) (durable durable' : Bool)
    (htype : m.msgType = ['D']) :
    (¬ TakenUp g m durable ∧ Rejects g (g.onNewOrderSingle m durable durable')) ∨
      (TakenUp g m durable ∧ ∃ clOrdId qty o, m.find Tag.clOrdId = some clOrdId ∧
        m.findInt Tag.orderQty = some qty ∧ fromChars clOrdId = some o.clientOrderId ∧
        o.quantity = qty.toUInt64.toUInt32 ∧
        SentOrder g o (g.onNewOrderSingle m durable durable')) := by
  unfold TakenUp onNewOrderSingle
  rw [if_pos htype]
  cases hid : m.find Tag.clOrdId with
  | none => exact .inl ⟨by simp, sendReject_rejects ..⟩
  | some clOrdId =>
  cases hsym : m.find Tag.symbol with
  | none => exact .inl ⟨by simp, sendReject_rejects ..⟩
  | some sym =>
  cases hside : m.find Tag.side with
  | none => exact .inl ⟨by simp, sendReject_rejects ..⟩
  | some side =>
  cases hqty : m.findInt Tag.orderQty with
  | none => exact .inl ⟨by simp, sendReject_rejects ..⟩
  | some qty =>
  cases hpx : m.find Tag.price with
  | none => exact .inl ⟨by simp, sendReject_rejects ..⟩
  | some px =>
  simp only [Option.bind_some, Option.isSome_some, true_and]
  cases hnumber : fromChars clOrdId with
  | none => exact .inl ⟨by simp, sendReject_rejects ..⟩
  | some id =>
  cases g.symbolId sym with
  | none => exact .inl ⟨by simp, sendReject_rejects ..⟩
  | some sid =>
  cases parseSide side with
  | none => exact .inl ⟨by simp, sendReject_rejects ..⟩
  | some side =>
  cases parsePrice px with
  | none => exact .inl ⟨by simp, sendReject_rejects ..⟩
  | some price =>
  cases durable with
  | false => exact .inl ⟨by simp, sendReject_rejects ..⟩
  | true =>
    exact .inr ⟨by simp, clOrdId, qty, _, rfl, rfl, hnumber, rfl, sendOrder_sentOrder ..⟩

/-- What becomes of an `OrderCancelRequest`. -/
theorem onOrderCancelRequest_cases (g : OrderRouter) (durable : Bool)
    (htype : m.msgType = ['F']) :
    (¬ TakenUp g m durable ∧ Rejects g (g.onOrderCancelRequest m)) ∨
      (TakenUp g m durable ∧ ∃ clOrdId orig c, m.find Tag.clOrdId = some clOrdId ∧
        m.find Tag.origClOrdId = some orig ∧ c.clientOrderId = (fromChars clOrdId).getD 0 ∧
        c.origClientOrderId = (fromChars orig).getD 0 ∧
        (g.onOrderCancelRequest m).orders.items = g.orders.items ++ [.cancelOrder c]) := by
  have hother : m.msgType ≠ ['D'] := by
    rw [htype]
    decide
  unfold TakenUp onOrderCancelRequest
  rw [if_neg hother]
  cases hid : m.find Tag.clOrdId with
  | none => exact .inl ⟨by simp, sendReject_rejects ..⟩
  | some clOrdId =>
  cases horig : m.find Tag.origClOrdId with
  | none => exact .inl ⟨by simp, sendReject_rejects ..⟩
  | some orig =>
  cases hsym : m.find Tag.symbol with
  | none => exact .inl ⟨by simp, sendReject_rejects ..⟩
  | some sym =>
  cases hside : m.find Tag.side with
  | none => exact .inl ⟨by simp, sendReject_rejects ..⟩
  | some side =>
  simp only [Option.bind_some, Option.isSome_some, true_and]
  cases g.symbolId sym with
  | none => exact .inl ⟨by simp, sendReject_rejects ..⟩
  | some sid =>
  cases parseSide side with
  | none => exact .inl ⟨by simp, sendReject_rejects ..⟩
  | some side =>
  dsimp only
  unfold Fifo.push
  by_cases hroom : g.orders.items.length < g.orders.capacity
  · rw [if_pos hroom]
    exact .inr ⟨by simp [htype, hroom], clOrdId, orig, _, rfl, rfl, rfl, rfl, rfl⟩
  · rw [if_neg hroom]
    exact .inl ⟨by simp [hroom], sendReject_rejects ..⟩

/-- A quantity in full is not cut down. -/
theorem quantityIn_eq {qty : Int64} (hqty : m.findInt Tag.orderQty = some qty)
    (h : m.quantityIn.isSome = true) : m.quantityIn = some qty.toUInt64.toUInt32 := by
  unfold FixMessage.quantityIn at h ⊢
  rw [hqty, Option.bind_some] at h ⊢
  split at h
  · rename_i hrange
    rw [if_pos hrange]
    congr 1
    apply UInt32.toNat_inj.mp
    have hnonneg : 0 ≤ qty := Int64.le_iff_toInt_le.mpr hrange.1
    have hnat : qty.toUInt64.toNat = qty.toInt.toNat := Int64.toNat_toUInt64_of_le hnonneg
    have hlt : qty.toInt.toNat < 2 ^ 32 := by omega
    rw [UInt64.toNat_toUInt32, UInt32.toNat_ofNat_of_lt' hlt, hnat, Nat.mod_eq_of_lt hlt]
  · cases h

theorem fromChars_of_idIn {t : Nat} {v : Text} {n : UInt64} (hv : m.find t = some v)
    (h : m.idIn t = some n) : fromChars v = some n := by
  unfold FixMessage.idIn at h
  rw [hv] at h
  exact fromChars_of_wholeNumber h

theorem asAsked_of_rejects (hnot : ¬ TakenUp g m durable)
    (hrejects : Rejects g (g.onApplication m durable durable').2) :
    AsAsked g m durable durable' ↔ m.InFull ∨ ¬ TakenUp g m durable :=
  iff_of_true ⟨fun o ho => absurd ho (hrejects.ne o), fun _ => hrejects⟩ (.inr hnot)

/-- **When the order sent is the order asked for**: just where every number the request is read for
is one in full, or the request is turned away for something else. -/
theorem as_asked_iff (g : OrderRouter) (m : FixMessage) (durable durable' : Bool) :
    AsAsked g m durable durable' ↔ m.InFull ∨ ¬ TakenUp g m durable := by
  by_cases htype : m.msgType = ['D']
  · have happ : (g.onApplication m durable durable').2 = g.onNewOrderSingle m durable durable' := by
      rw [onApplication, if_pos htype]
    have hfull : m.InFull ↔ (m.idIn Tag.clOrdId).isSome ∧ m.quantityIn.isSome := by
      rw [FixMessage.InFull, if_pos htype]
    rcases onNewOrderSingle_cases g durable durable' htype with
      ⟨hnot, hrejects⟩ | ⟨htaken, clOrdId, qty, o, hid, hqty, hnumber, hquantity, hsent⟩
    · exact asAsked_of_rejects hnot (happ ▸ hrejects)
    · rw [or_iff_left (not_not.mpr htaken)]
      constructor
      · intro h
        by_contra hnotFull
        have hstore := (happ ▸ h.rejected hnotFull).store
        cases hsent with
        | pushed hrecorded => exact hrecorded hstore
        | full hrecorded => exact hrecorded hstore
      · intro hinFull
        refine ⟨?_, fun h => absurd hinFull h⟩
        intro o' ho'
        rw [happ] at ho'
        obtain ⟨hidFull, hqtyFull⟩ := hfull.mp hinFull
        cases hsent with
        | pushed hrecorded h =>
          obtain rfl := List.singleton_inj.mp (List.append_cancel_left (h.symm.trans ho'))
          refine ⟨?_, hquantity ▸ quantityIn_eq hqty hqtyFull⟩
          obtain ⟨n, hn⟩ := Option.isSome_iff_exists.mp hidFull
          have hread := fromChars_of_idIn hid hn
          rw [hn, ← Option.some.inj (hread.symm.trans hnumber)]
        | full hrecorded h =>
          rw [h] at ho'
          simp at ho'
  · by_cases htype' : m.msgType = ['F']
    · have happ : (g.onApplication m durable durable').2 = g.onOrderCancelRequest m := by
        rw [onApplication, if_neg htype, if_pos htype']
      have hfull : m.InFull ↔ (m.idIn Tag.clOrdId).isSome ∧ (m.idIn Tag.origClOrdId).isSome := by
        rw [FixMessage.InFull, if_neg htype, if_pos htype']
      rcases onOrderCancelRequest_cases g durable htype' with
        ⟨hnot, hrejects⟩ | ⟨htaken, clOrdId, orig, c, hid, horig, hc, hc', hpushed⟩
      · exact asAsked_of_rejects hnot (happ ▸ hrejects)
      · rw [or_iff_left (not_not.mpr htaken)]
        constructor
        · intro h
          by_contra hnotFull
          exact (happ ▸ h.rejected hnotFull).ne _ hpushed
        · intro hinFull
          refine ⟨?_, fun h => absurd hinFull h⟩
          intro o' ho'
          rw [happ] at ho'
          obtain rfl := List.singleton_inj.mp (List.append_cancel_left (hpushed.symm.trans ho'))
          obtain ⟨hidFull, horigFull⟩ := hfull.mp hinFull
          obtain ⟨n, hn⟩ := Option.isSome_iff_exists.mp hidFull
          obtain ⟨k, hk⟩ := Option.isSome_iff_exists.mp horigFull
          refine ⟨?_, ?_⟩
          · rw [hn, hc, fromChars_of_idIn hid hn]
            rfl
          · rw [hk, hc', fromChars_of_idIn horig hk]
            rfl
    · -- not a request: nothing is done
      have happ : (g.onApplication m durable durable').2 = g := by
        rw [onApplication, if_neg htype, if_neg htype']
      have hfull : m.InFull := by
        rw [FixMessage.InFull, if_neg htype, if_neg htype']
        trivial
      refine iff_of_true ⟨?_, fun h => absurd hfull h⟩ (.inl hfull)
      intro o ho
      rw [happ] at ho
      simp at ho

/-- An order for more than 32 bits hold. -/
def tooMany : FixMessage :=
  ⟨[(Tag.msgType, ['D']), (Tag.clOrdId, "12abc".toList), (Tag.symbol, ['X']), (Tag.side, ['1']),
    (Tag.orderQty, "4294967297".toList), (Tag.price, "1.5".toList)]⟩

/-- The order that is sent is order 12 for one. -/
theorem sent_for_one :
    let g : OrderRouter := { orders := ⟨8, []⟩, reports := ⟨8, []⟩, symbols := [⟨['X'], 1⟩] }
    (g.onApplication tooMany true true).2.orders.items =
      [.newOrder ⟨12, 15000, 1, 1, some .bid⟩] ∧ ¬ AsAsked g tooMany true true := by
  refine ⟨by decide +kernel, fun h => ?_⟩
  have hasked := h.sent (.newOrder ⟨12, 15000, 1, 1, some .bid⟩) (by decide +kernel)
  exact absurd hasked.2 (by decide +kernel)

end OrderRouter

end MarketData.Gateway
