import MarketData.Risk.Limits

/-!
# `Risk/OpenOrders.lean` — the table of live orders

What the open-addressed table of the risk engine does to the list of live orders: a recorded
order is added, a slot's order is replaced, a released slot's order is gone. The order of the
list is that of the slots and says nothing, so the statements are up to permutation.

## From slots to orders

Everything the risk service promises is about orders: sums over those of a side, whether an id is
open, which of them a report ends. Everything the code does is about slots. `Tabled` is the one
predicate that knows both, a sound table with room whose count is right, and each operation has one
lemma that says what it does to the list and that `Tabled` holds afterwards. **No module above this
one mentions a probe.**

An order of a report is found by its id. `endsOrder` and `IsOpen` are the two questions the other
processes ask of the service, and are computed from the list.
-/

set_option autoImplicit false

namespace MarketData.Risk

open MarketData.Wire MarketData.Probing

namespace RiskEngine

/-- The deletion test of the source is the one of the table, at a slot that is not the hole. -/
theorem holeBetween_eq {hole i home : Nat} (hne : hole ≠ i) :
    holeBetween hole i home = !Scheme.stays hole i home := by
  unfold holeBetween Scheme.stays
  by_cases hwrap : i < home <;> by_cases hle : hole ≤ i <;>
    simp only [hwrap, hle, if_true, if_false, ← Bool.decide_or, ← Bool.decide_and,
      ← decide_not, decide_eq_decide] <;> omega

theorem shiftBack_eq (mask fuel : Nat) {hole : Nat} (i : Nat) {slots : Nat → Slot}
    (hhole : (slots hole).occupied = false) :
    shiftBack mask fuel hole i slots = (scheme mask).close fuel hole i slots := by
  induction fuel generalizing hole i slots with
  | zero => rfl
  | succ fuel ih =>
    rw [shiftBack, Scheme.close]
    show (if (slots ((scheme mask).next i)).occupied = true then _ else _) = _
    generalize hj : (scheme mask).next i = j
    have hj' : (i + 1) &&& mask = j := hj
    rw [hj']
    cases hocc : (slots j).occupied with
    | false =>
      have hvacant : (scheme mask).vacant (slots j) = true := by simp [scheme, hocc]
      rw [if_neg (by simp), if_pos hvacant]
    | true =>
      have hvacant : ¬ (scheme mask).vacant (slots j) = true := by simp [scheme, hocc]
      have hne : hole ≠ j := by
        rintro rfl
        rw [hhole] at hocc
        cases hocc
      rw [if_pos rfl, if_neg hvacant, holeBetween_eq hne]
      show (if (!Scheme.stays hole j (indexOf mask (slots j).order.clientOrderId)) = true then _
        else _) = if Scheme.stays hole j (indexOf mask (slots j).order.clientOrderId) = true then _
          else _
      cases hstays : Scheme.stays hole j (indexOf mask (slots j).order.clientOrderId) with
      | true =>
        rw [if_neg (by simp), if_pos rfl]
        exact ih j hhole
      | false =>
        rw [if_pos (by simp), if_neg (by simp)]
        exact ih j (by rw [Function.update_self])

theorem slots_release (e : RiskEngine) (i : Nat) :
    (e.release i).slots = (scheme e.mask).removeAt e.slots i :=
  shiftBack_eq e.mask (e.mask + 1) i (by rw [Function.update_self])

/-- What an order that is not refused has passed. -/
theorem refusal_none {e : RiskEngine} {clientOrderId : UInt64} {symbolId : UInt16} {side : Side}
    {price : Int64} {quantity : UInt32}
    (h : e.refusal clientOrderId symbolId side price quantity = none) :
    symbolId.toNat < e.cfg.symbolCount ∧ e.find clientOrderId = none ∧
      e.live < e.cfg.maxOpenOrders ∧
      ¬ (e.cfg.symbols symbolId.toNat).maxPosition <
        (if worst (e.state symbolId.toNat) side quantity < 0
          then -worst (e.state symbolId.toNat) side quantity
          else worst (e.state symbolId.toNat) side quantity) := by
  unfold refusal at h
  dsimp only at h
  generalize (if price < 0 then -price else price) = px at h
  generalize (if worst (e.state symbolId.toNat) side quantity < 0
    then -worst (e.state symbolId.toNat) side quantity
    else worst (e.state symbolId.toNat) side quantity) = magnitude at h ⊢
  split at h
  · cases h
  rename_i hsymbol
  split at h
  · cases h
  rename_i hfind
  split at h
  · cases h
  split at h
  · cases h
  split at h
  · cases h
  split at h
  · cases h
  split at h
  · cases h
  split at h
  · cases h
  rename_i hlive
  split at h
  · cases h
  rename_i hposition
  refine ⟨?_, by simpa using hfind, Nat.lt_of_not_le hlive, hposition⟩
  exact Nat.lt_of_not_le fun hle => hsymbol (.inl hle)

/-- The table is sound and has room, and `live` counts what is in it. -/
structure Tabled (e : RiskEngine) : Prop where
  power : ∃ k, e.mask + 1 = 2 ^ k
  room : e.cfg.maxOpenOrders < e.mask + 1
  table : Table (scheme e.mask) e.slots
  count : e.live = e.openOrders.length
  bound : e.live ≤ e.cfg.maxOpenOrders

theorem mem_openOrders {e : RiskEngine} {o : OpenOrder} :
    o ∈ e.openOrders ↔ ∃ i < e.mask + 1, e.slots i = ⟨o, true⟩ := by
  simp only [openOrders, List.mem_map, mem_entries]
  constructor
  · rintro ⟨s, ⟨i, hi, rfl, hocc⟩, rfl⟩
    refine ⟨i, hi, ?_⟩
    cases hs : e.slots i with
    | mk order occupied => simpa [scheme, hs] using hocc
  · rintro ⟨i, hi, hs⟩
    exact ⟨⟨o, true⟩, ⟨i, hi, hs, rfl⟩, rfl⟩

theorem openOrders_congr {e e' : RiskEngine} (hslots : e'.slots = e.slots)
    (hmask : e'.mask = e.mask) : e'.openOrders = e.openOrders := by
  rw [openOrders, openOrders, hslots, hmask]

namespace Tabled

variable {e : RiskEngine}

theorem lawful (h : Tabled e) : (scheme e.mask).Lawful :=
  ⟨h.power, fun _ => Nat.lt_succ_of_le Nat.and_le_right, rfl⟩

theorem hasRoom (h : Tabled e) : ((scheme e.mask).entries e.slots).length < (scheme e.mask).size := by
  have hcount := h.count
  have hbound := h.bound
  have hroom := h.room
  rw [openOrders, List.length_map] at hcount
  show _ < e.mask + 1
  omega

/-- Live orders have ids of their own. -/
theorem nodup (h : Tabled e) : (e.openOrders.map OpenOrder.clientOrderId).Nodup := by
  have hkeys := h.table.nodup
  rw [openOrders, List.map_map]
  exact hkeys

theorem find_none (h : Tabled e) {id : UInt64} (hfind : e.find id = none) :
    ∀ o ∈ e.openOrders, o.clientOrderId ≠ id := by
  intro o ho
  obtain ⟨s, hs, rfl⟩ := List.mem_map.mp ho
  exact h.table.find_eq_none h.lawful h.hasRoom hfind s hs

theorem find_some (h : Tabled e) {id : UInt64} {i : Nat} (hfind : e.find id = some i) :
    i < e.mask + 1 ∧ (e.slots i).occupied = true ∧ (e.slots i).order.clientOrderId = id ∧
      (e.slots i).order ∈ e.openOrders := by
  obtain ⟨hi, hocc, hkey⟩ := Table.find_eq_some h.lawful h.hasRoom hfind
  have hocc' : (e.slots i).occupied = true := by simpa [scheme] using hocc
  refine ⟨hi, hocc', hkey, mem_openOrders.mpr ⟨i, hi, ?_⟩⟩
  cases hs : e.slots i with
  | mk order occupied =>
    rw [hs] at hocc'
    dsimp only at hocc'
    rw [hocc']

/-- An id is found exactly when a live order has it. -/
theorem find_isSome (h : Tabled e) (id : UInt64) :
    (e.find id).isSome = true ↔ ∃ o ∈ e.openOrders, o.clientOrderId = id := by
  constructor
  · intro hsome
    obtain ⟨i, hi⟩ := Option.isSome_iff_exists.mp hsome
    obtain ⟨-, -, hid, hmem⟩ := h.find_some hi
    exact ⟨_, hmem, hid⟩
  · rintro ⟨o, ho, hid⟩
    cases hfind : e.find id with
    | none => exact absurd hid (h.find_none hfind o ho)
    | some i => rfl

/-- A recorded order joins the live ones. -/
theorem record (h : Tabled e) {o : OpenOrder} (hfind : e.find o.clientOrderId = none)
    (hlive : e.live < e.cfg.maxOpenOrders) :
    Tabled (e.record o) ∧ (e.record o).openOrders.Perm (o :: e.openOrders) := by
  have hnew : ∀ s ∈ (scheme e.mask).entries e.slots,
      (scheme e.mask).key s ≠ (scheme e.mask).key ⟨o, true⟩ := fun s hs =>
    h.find_none hfind s.order (List.mem_map_of_mem hs)
  have hperm : (e.record o).openOrders.Perm (o :: e.openOrders) :=
    (h.table.insert_perm h.lawful h.hasRoom (e := ⟨o, true⟩) rfl hnew).map Slot.order
  refine ⟨⟨h.power, h.room, (h.table.insert h.lawful h.hasRoom rfl hnew).1, ?_, hlive⟩, hperm⟩
  rw [hperm.length_eq, List.length_cons, ← h.count]
  rfl

/-- What the live orders are without the one in a slot. -/
def others (e : RiskEngine) (i : Nat) : List OpenOrder :=
  ((scheme e.mask).entries ((scheme e.mask).removeAt e.slots i)).map Slot.order

variable {i : Nat}

theorem perm_others (h : Tabled e) (hi : i < e.mask + 1) (hocc : (e.slots i).occupied = true) :
    e.openOrders.Perm ((e.slots i).order :: others e i) :=
  (h.table.removeAt_perm h.lawful h.hasRoom hi (by simpa [scheme] using hocc)).map Slot.order

/-- A slot's order is replaced by one of the same id. -/
theorem replace (h : Tabled e) (hi : i < e.mask + 1) (hocc : (e.slots i).occupied = true)
    {o : OpenOrder} (hid : o.clientOrderId = (e.slots i).order.clientOrderId) {e' : RiskEngine}
    (hslots : e'.slots = Function.update e.slots i ⟨o, true⟩) (hmask : e'.mask = e.mask)
    (hlive : e'.live = e.live) (hmax : e'.cfg.maxOpenOrders = e.cfg.maxOpenOrders) :
    Tabled e' ∧ e'.openOrders.Perm (o :: others e i) := by
  have hocc' : (scheme e.mask).vacant (e.slots i) = false := by simpa [scheme] using hocc
  have hperm : e'.openOrders.Perm (o :: others e i) := by
    rw [openOrders, hslots, hmask]
    exact (h.table.replaceAt_perm h.lawful h.hasRoom hi hocc' (e := ⟨o, true⟩) rfl hid).map Slot.order
  refine ⟨⟨hmask ▸ h.power, by rw [hmask, hmax]; exact h.room, ?_, ?_, ?_⟩, hperm⟩
  · rw [hslots, hmask]
    exact (h.table.replaceAt hi hocc' (e := ⟨o, true⟩) rfl hid).1
  · rw [hlive, h.count, hperm.length_eq, (h.perm_others hi hocc).length_eq]
    rfl
  · rw [hlive, hmax]
    exact h.bound

/-- A released slot's order is no longer live. -/
theorem release (h : Tabled e) (hi : i < e.mask + 1) (hocc : (e.slots i).occupied = true) :
    Tabled (e.release i) ∧ (e.release i).openOrders = others e i := by
  have hocc' : (scheme e.mask).vacant (e.slots i) = false := by simpa [scheme] using hocc
  have hopen : (e.release i).openOrders = others e i := by
    rw [openOrders, slots_release]
    rfl
  have hlen := (h.perm_others hi hocc).length_eq
  have hcount := h.count
  have hbound := h.bound
  refine ⟨⟨h.power, h.room, ?_, ?_, ?_⟩, hopen⟩
  · rw [slots_release]
    exact (h.table.removeAt h.lawful h.hasRoom hi hocc').1
  · rw [hopen]
    show e.live - 1 = _
    rw [List.length_cons] at hlen
    omega
  · show e.live - 1 ≤ e.cfg.maxOpenOrders
    omega

/-- What changes neither the table nor its bound. -/
theorem of_same {e' : RiskEngine} (h : Tabled e) (hslots : e'.slots = e.slots)
    (hmask : e'.mask = e.mask) (hlive : e'.live = e.live)
    (hmax : e'.cfg.maxOpenOrders = e.cfg.maxOpenOrders) : Tabled e' := by
  refine ⟨?_, ?_, ?_, ?_, ?_⟩
  · rw [hmask]
    exact h.power
  · rw [hmask, hmax]
    exact h.room
  · rw [hmask, hslots]
    exact h.table
  · rw [hlive, openOrders_congr hslots hmask]
    exact h.count
  · rw [hlive, hmax]
    exact h.bound

end Tabled

/-- Apart from the accounts, finishing an order is releasing its slot. -/
theorem close_frame (e : RiskEngine) (i : Nat) (o : OpenOrder) (type : ExecType) :
    (e.close i o type).slots = (e.release i).slots ∧ (e.close i o type).mask = e.mask ∧
      (e.close i o type).live = (e.release i).live ∧ (e.close i o type).cfg = e.cfg := by
  cases type <;> exact ⟨rfl, rfl, rfl, rfl⟩

/-- A finished order is no longer live. -/
theorem Tabled.close {e : RiskEngine} {i : Nat} (h : Tabled e) (hi : i < e.mask + 1)
    (hocc : (e.slots i).occupied = true) (o : OpenOrder) (type : ExecType) :
    Tabled (e.close i o type) ∧ (e.close i o type).openOrders = Tabled.others e i := by
  obtain ⟨htabled, hopen⟩ := h.release hi hocc
  obtain ⟨hslots, hmask, hlive, hcfg⟩ := close_frame e i o type
  exact ⟨htabled.of_same hslots hmask hlive (by rw [hcfg]; rfl),
    (openOrders_congr hslots hmask).trans hopen⟩

theorem openOrders_new (cfg : RiskConfig) : (new cfg).openOrders = [] := by
  refine List.eq_nil_iff_forall_not_mem.mpr fun o ho => ?_
  obtain ⟨i, -, hi⟩ := mem_openOrders.mp ho
  cases hi

theorem tabled_new (cfg : RiskConfig) : Tabled (new cfg) := by
  obtain ⟨⟨k, hk⟩, hle⟩ := Words.bitCeil_spec (max cfg.maxOpenOrders 1 * 2)
  have hsize : (new cfg).mask + 1 = tableSizeFor cfg.maxOpenOrders := by
    show tableSizeFor cfg.maxOpenOrders - 1 + 1 = _
    unfold tableSizeFor
    omega
  have hempty := openOrders_new cfg
  refine ⟨⟨k, hsize.trans hk⟩, ?_, ⟨?_, ?_⟩, ?_, Nat.zero_le _⟩
  · rw [hsize]
    show cfg.maxOpenOrders < _
    unfold tableSizeFor
    omega
  · intro p _ hocc
    cases hocc
  · intro p _ q _ hocc
    cases hocc
  · rw [hempty]
    rfl

/-! ## Which ids are open -/

/-- The service counts an order of that id as live. -/
def IsOpen (e : RiskEngine) (id : UInt64) : Prop := ∃ o ∈ e.openOrders, o.clientOrderId = id

/-- The report ends the order it is about. -/
def endsOrder (type : ExecType) (leavesQuantity : UInt32) : Bool :=
  (type = .fill && leavesQuantity = 0) || type = .canceled || type = .rejected

namespace Tabled

variable {e : RiskEngine}

theorem isOpen_of_perm {e' : RiskEngine} {l : List OpenOrder} (h : e'.openOrders.Perm l)
    (id : UInt64) : e'.IsOpen id ↔ ∃ o ∈ l, o.clientOrderId = id := by
  simp only [IsOpen, h.mem_iff]

/-- An accepted order was not open and is now; a refused one changes nothing. -/
theorem onNewOrder (h : Tabled e) (clientOrderId : UInt64) (symbolId : UInt16) (side : Side)
    (price : Int64) (quantity : UInt32) :
    Tabled (e.onNewOrder clientOrderId symbolId side price quantity).2 ∧
    ((e.onNewOrder clientOrderId symbolId side price quantity).1.accepted = true →
      ¬ e.IsOpen clientOrderId) ∧
    ∀ id, (e.onNewOrder clientOrderId symbolId side price quantity).2.IsOpen id ↔
      e.IsOpen id ∨ ((e.onNewOrder clientOrderId symbolId side price quantity).1.accepted = true ∧
        id = clientOrderId) := by
  unfold RiskEngine.onNewOrder
  split
  · refine ⟨h.of_same rfl rfl rfl rfl, fun haccepted => (nomatch haccepted), fun id => ?_⟩
    simp only [Decision.reject, Bool.false_eq_true, false_and, or_false]
    rfl
  · rename_i hok
    obtain ⟨-, hfind, hlive, -⟩ := refusal_none hok
    obtain ⟨hrecorded, hperm⟩ :=
      h.record (o := ⟨clientOrderId, 0, price, quantity, symbolId, side⟩) hfind hlive
    refine ⟨hrecorded.of_same rfl rfl rfl rfl,
      fun _ ⟨o, ho, hid⟩ => h.find_none hfind o ho hid, fun id => ?_⟩
    refine (isOpen_of_perm hperm id).trans ?_
    simp only [List.mem_cons, IsOpen, Decision.accept, true_and]
    constructor
    · rintro ⟨o, rfl | ho, rfl⟩
      · exact .inr rfl
      · exact .inl ⟨o, ho, rfl⟩
    · rintro (⟨o, ho, rfl⟩ | rfl)
      · exact ⟨o, .inr ho, rfl⟩
      · exact ⟨_, .inl rfl, rfl⟩

theorem onCancel (h : Tabled e) (clientOrderId origClientOrderId : UInt64) :
    Tabled (e.onCancel clientOrderId origClientOrderId).2 ∧
      (e.onCancel clientOrderId origClientOrderId).2.openOrders = e.openOrders := by
  unfold RiskEngine.onCancel
  split <;> exact ⟨h.of_same rfl rfl rfl rfl, rfl⟩

/-- Writing over a slot with an order of the same id changes no id. -/
theorem isOpen_replace (h : Tabled e) {i : Nat} (hi : i < e.mask + 1)
    (hocc : (e.slots i).occupied = true) {o : OpenOrder}
    (hid : o.clientOrderId = (e.slots i).order.clientOrderId) {e' : RiskEngine}
    (hperm : e'.openOrders.Perm (o :: others e i)) (id : UInt64) : e'.IsOpen id ↔ e.IsOpen id := by
  rw [isOpen_of_perm hperm, isOpen_of_perm (h.perm_others hi hocc)]
  simp only [List.mem_cons, exists_eq_or_imp, hid]

/-- A fill changes what is left of its order. -/
theorem applyFill (h : Tabled e) {i : Nat} (hi : i < e.mask + 1)
    (hocc : (e.slots i).occupied = true) {o : OpenOrder}
    (hid : o.clientOrderId = (e.slots i).order.clientOrderId) (price : Int64)
    (quantity leavesQuantity : UInt32) :
    Tabled (e.applyFill i o price quantity leavesQuantity) ∧
      (e.applyFill i o price quantity leavesQuantity).openOrders.Perm
        ({ o with leavesQuantity } :: others e i) := by
  have hid' : ({ o with leavesQuantity } : OpenOrder).clientOrderId =
      (e.slots i).order.clientOrderId := hid
  refine h.replace hi hocc hid' rfl rfl rfl ?_
  unfold RiskEngine.applyFill
  dsimp only
  split <;> rfl

/-- A report that ends its order closes that id; no report opens one or closes another. -/
theorem onExecReport (h : Tabled e) (clientOrderId exchangeOrderId : UInt64) (type : ExecType)
    (price : Int64) (quantity leavesQuantity : UInt32) :
    Tabled (e.onExecReport clientOrderId exchangeOrderId type price quantity leavesQuantity) ∧
    ∀ id, (e.onExecReport clientOrderId exchangeOrderId type price quantity
        leavesQuantity).IsOpen id ↔
      e.IsOpen id ∧ ¬ (endsOrder type leavesQuantity = true ∧ id = clientOrderId) := by
  unfold RiskEngine.onExecReport
  split
  · rename_i hfind
    refine ⟨h.of_same rfl rfl rfl rfl, fun id => ?_⟩
    constructor
    · rintro ⟨o, ho, rfl⟩
      exact ⟨⟨o, ho, rfl⟩, fun hend => h.find_none hfind o ho hend.2⟩
    · exact fun hopen => hopen.1
  rename_i i hfind
  obtain ⟨hi, hocc, hid, -⟩ := h.find_some hfind
  dsimp only
  have hnote : (if exchangeOrderId ≠ 0 then { (e.slots i).order with exchangeOrderId }
      else (e.slots i).order).clientOrderId = (e.slots i).order.clientOrderId := by
    split <;> rfl
  generalize (if exchangeOrderId ≠ 0 then { (e.slots i).order with exchangeOrderId }
    else (e.slots i).order) = o at hnote ⊢
  obtain ⟨hnoted, hperm⟩ : Tabled { e with slots := Function.update e.slots i ⟨o, true⟩ } ∧
      ({ e with slots := Function.update e.slots i ⟨o, true⟩ } : RiskEngine).openOrders.Perm
        (o :: others e i) := h.replace hi hocc hnote rfl rfl rfl rfl
  have hslot : ({ e with slots := Function.update e.slots i ⟨o, true⟩ } : RiskEngine).slots i =
      ⟨o, true⟩ := Function.update_self ..
  have hmask : ({ e with slots := Function.update e.slots i ⟨o, true⟩ } : RiskEngine).mask =
      e.mask := rfl
  have hsame := h.isOpen_replace hi hocc hnote hperm
  generalize ({ e with slots := Function.update e.slots i ⟨o, true⟩ } : RiskEngine) = e₁
    at hnoted hslot hmask hsame ⊢
  rw [← hmask] at hi
  -- Whether or not the report is a fill, the slot holds an order of that id and no id changed.
  have hfilled : ∃ e₂, (if isFill type = true then e₁.applyFill i o price quantity leavesQuantity
      else e₁) = e₂ ∧ Tabled e₂ ∧ e₂.mask = e₁.mask ∧ (e₂.slots i).occupied = true ∧
      (e₂.slots i).order.clientOrderId = clientOrderId ∧ ∀ id, e₂.IsOpen id ↔ e.IsOpen id := by
    have hocc₁ : (e₁.slots i).occupied = true := by rw [hslot]
    have hid₁ : o.clientOrderId = (e₁.slots i).order.clientOrderId := by rw [hslot]
    split
    · obtain ⟨htabled, hperm₂⟩ := hnoted.applyFill hi hocc₁ hid₁ price quantity leavesQuantity
      have hslot₂ : (e₁.applyFill i o price quantity leavesQuantity).slots i =
          ⟨{ o with leavesQuantity }, true⟩ := Function.update_self ..
      have hid₂ : ({ o with leavesQuantity } : OpenOrder).clientOrderId =
          (e₁.slots i).order.clientOrderId := hid₁
      refine ⟨_, rfl, htabled, rfl, by rw [hslot₂], by rw [hslot₂]; exact hnote.trans hid,
        fun id => ?_⟩
      exact (hnoted.isOpen_replace hi hocc₁ hid₂ hperm₂ id).trans (hsame id)
    · exact ⟨_, rfl, hnoted, rfl, hocc₁, hid₁.symm.trans (hnote.trans hid), hsame⟩
  obtain ⟨e₂, heq, htabled, hmask₂, hocc₂, hid₂, hsame₂⟩ := hfilled
  rw [heq]
  have hends : endsOrder type leavesQuantity = true ↔
      (type = .fill ∧ leavesQuantity = 0) ∨ type = .canceled ∨ type = .rejected := by
    simp [endsOrder, or_assoc]
  rw [← hmask₂] at hi
  split
  · rename_i hterminal
    obtain ⟨hclosed, hopen⟩ := htabled.close hi hocc₂ (e₂.slots i).order type
    refine ⟨hclosed, fun id => ?_⟩
    have hbefore := htabled.perm_others hi hocc₂
    have hnodup := (hbefore.map OpenOrder.clientOrderId).nodup_iff.mp htabled.nodup
    rw [List.map_cons, List.nodup_cons, hid₂, List.mem_map] at hnodup
    rw [← hsame₂ id, isOpen_of_perm hbefore, IsOpen, hopen]
    simp only [hends.mpr hterminal, true_and, List.mem_cons, exists_eq_or_imp, hid₂]
    constructor
    · rintro ⟨x, hx, rfl⟩
      exact ⟨.inr ⟨x, hx, rfl⟩, fun heq => hnodup.1 ⟨x, hx, heq⟩⟩
    · rintro ⟨rfl | hx, hne⟩
      · exact absurd rfl hne
      · exact hx
  · rename_i hterminal
    refine ⟨htabled, fun id => ?_⟩
    rw [hsame₂ id]
    exact ⟨fun hopen => ⟨hopen, fun hend => hterminal (hends.mp hend.1)⟩, fun hopen => hopen.1⟩

end Tabled

end RiskEngine

end MarketData.Risk
