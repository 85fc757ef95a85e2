import MarketData.Lib.OpenMap
import MarketData.Risk.Rollback

/-!
# `Risk/Lookup.lean` — the table of open orders is a map

The table is sized from `max_open_orders`, twice as large at least, so its loops end and its
probes stay short. The sizing is done in the 64 bits of a `size_t`, though: the doubling may wrap,
and the table is then too small for the orders that the limit lets in.

## A map of which the ids are known

`Listed` carries beside the engine the ids that were accepted or adopted and have not ended, which
is what the table should hold; `IsMap` compares the two, and says that the loops end and that at
most half of the slots are occupied. It is kept by every call as long as the table has room for what
the limit allows, and that is a fact about the constructor's argument alone. So the equivalence has
**a number on one side and all runs on the other**.

The half that fails needs a run in which the table fills up. `adopt` takes orders of the log on
without running the limits, one after the other, and `Adopted` follows `k` of them by induction; the
table that fills up is never written out.

Adopting is what a start does with the orders it finds on record, so such a run is a start over a
long log. How many orders a log can name is not bounded by the table either.
-/

set_option autoImplicit false

namespace MarketData.Risk

open MarketData.Wire MarketData.Probing

/-- `table_size_for` in 64 bits. There is no power of two for `bit_ceil` to return above `2 ^ 63`. -/
def slotCount (maxOpenOrders : UInt64) : Option Nat :=
  let want := (if maxOpenOrders < 1 then 1 else maxOpenOrders) * 2
  if want.toNat ≤ 2 ^ 63 then some (Words.bitCeil want.toNat) else none

namespace RiskEngine

/-- The constructor, for that `max_open_orders`. -/
def construct (cfg : RiskConfig) (maxOpenOrders : UInt64) : Option RiskEngine :=
  (slotCount maxOpenOrders).map fun slots =>
    { cfg := { cfg with maxOpenOrders := maxOpenOrders.toNat }, mask := slots - 1 }

/-- What opens and closes orders. -/
inductive TableCall where
  | newOrder (clientOrderId : UInt64) (symbolId : UInt16) (side : Side) (price : Int64)
      (quantity : UInt32)
  | cancel (clientOrderId origClientOrderId : UInt64)
  | execReport (clientOrderId exchangeOrderId : UInt64) (type : ExecType) (price : Int64)
      (quantity leavesQuantity : UInt32)
  | adopt (order : OpenOrder)
  deriving DecidableEq, Repr

/-- An engine, and the ids that were accepted or adopted and that no report has ended since. -/
structure Listed where
  engine : RiskEngine
  ids : List UInt64 := []

namespace Listed

def step (p : Listed) : TableCall → Listed
  | .newOrder clientOrderId symbolId side price quantity =>
    let (decision, e) := p.engine.onNewOrder clientOrderId symbolId side price quantity
    ⟨e, if decision.accepted then clientOrderId :: p.ids else p.ids⟩
  | .cancel clientOrderId origClientOrderId =>
    ⟨(p.engine.onCancel clientOrderId origClientOrderId).2, p.ids⟩
  | .execReport clientOrderId exchangeOrderId type price quantity leavesQuantity =>
    ⟨p.engine.onExecReport clientOrderId exchangeOrderId type price quantity leavesQuantity,
      if endsOrder type leavesQuantity then p.ids.filter (· ≠ clientOrderId) else p.ids⟩
  | .adopt order =>
    let (adopted, e) := p.engine.adopt order
    ⟨e, if adopted then order.clientOrderId :: p.ids else p.ids⟩

/-- The slots in use. -/
def occupied (e : RiskEngine) : Nat := ((scheme e.mask).entries e.slots).length

/-- What makes the table a map: its loops end, an id is found just if it is live and in a slot that
holds it, at most half of the slots are occupied, as many as `live` says, and none is empty between
an entry and its home. -/
structure IsMap (p : Listed) : Prop where
  findEnds : ∀ id, (scheme p.engine.mask).ProbeEnds p.engine.slots id
  freeSlotEnds : ∀ id, (scheme p.engine.mask).VacancyEnds p.engine.slots id
  releaseEnds : ∀ id i, p.engine.find id = some i → (scheme p.engine.mask).closes
    (p.engine.mask + 1) i i (Function.update p.engine.slots i {}) = true
  found : ∀ id, (p.engine.find id).isSome = true ↔ id ∈ p.ids
  slot : ∀ id i, p.engine.find id = some i → i < p.engine.mask + 1 ∧
    (p.engine.slots i).occupied = true ∧ (p.engine.slots i).order.clientOrderId = id
  half : 2 * occupied p.engine ≤ p.engine.mask + 1
  live : p.engine.live = occupied p.engine
  chained : Chained (scheme p.engine.mask) p.engine.slots fun _ => False

/-! ## A table that is large enough -/

/-- What every call keeps. -/
structure Sound (p : Listed) : Prop where
  tabled : Tabled p.engine
  twice : 2 * p.engine.cfg.maxOpenOrders ≤ p.engine.mask + 1
  ids : ∀ id, p.engine.IsOpen id ↔ id ∈ p.ids

/-- No call changes the size of the table or the limit. -/
theorem step_sizes (p : Listed) (c : TableCall) :
    (p.step c).engine.mask = p.engine.mask ∧
      (p.step c).engine.cfg.maxOpenOrders = p.engine.cfg.maxOpenOrders := by
  cases c with
  | newOrder clientOrderId symbolId side price quantity =>
    show (p.engine.onNewOrder clientOrderId symbolId side price quantity).2.mask = _ ∧
      (p.engine.onNewOrder clientOrderId symbolId side price quantity).2.cfg.maxOpenOrders = _
    unfold onNewOrder
    split <;> exact ⟨rfl, rfl⟩
  | cancel clientOrderId origClientOrderId =>
    show (p.engine.onCancel clientOrderId origClientOrderId).2.mask = _ ∧
      (p.engine.onCancel clientOrderId origClientOrderId).2.cfg.maxOpenOrders = _
    unfold onCancel
    split <;> exact ⟨rfl, rfl⟩
  | adopt order =>
    show (p.engine.adopt order).2.mask = _ ∧ (p.engine.adopt order).2.cfg.maxOpenOrders = _
    unfold adopt
    split
    · exact ⟨rfl, rfl⟩
    split <;> exact ⟨rfl, rfl⟩
  | execReport clientOrderId exchangeOrderId type price quantity leavesQuantity =>
    show (p.engine.onExecReport clientOrderId exchangeOrderId type price quantity
        leavesQuantity).mask = _ ∧
      (p.engine.onExecReport clientOrderId exchangeOrderId type price quantity
        leavesQuantity).cfg.maxOpenOrders = _
    unfold onExecReport
    split
    · exact ⟨rfl, rfl⟩
    rename_i i _
    dsimp only
    generalize (if exchangeOrderId ≠ 0 then { (p.engine.slots i).order with exchangeOrderId }
      else (p.engine.slots i).order) = o
    have hfilled : ∀ e : RiskEngine, e.mask = p.engine.mask →
        e.cfg.maxOpenOrders = p.engine.cfg.maxOpenOrders →
        (if isFill type = true then e.applyFill i o price quantity leavesQuantity else e).mask =
            p.engine.mask ∧
          (if isFill type = true then e.applyFill i o price quantity leavesQuantity
            else e).cfg.maxOpenOrders = p.engine.cfg.maxOpenOrders := by
      intro e hmask hmax
      split
      · refine ⟨hmask, ?_⟩
        unfold applyFill
        dsimp only
        split <;> exact hmax
      · exact ⟨hmask, hmax⟩
    have hnoted := hfilled { p.engine with slots := Function.update p.engine.slots i ⟨o, true⟩ } rfl
      rfl
    generalize (if isFill type = true then
      ({ p.engine with slots := Function.update p.engine.slots i ⟨o, true⟩ } : RiskEngine).applyFill
        i o price quantity leavesQuantity
      else { p.engine with slots := Function.update p.engine.slots i ⟨o, true⟩ }) = e at hnoted ⊢
    split
    · obtain ⟨-, hmask, -, hcfg⟩ := close_frame e i (e.slots i).order type
      rw [hmask, hcfg]
      exact hnoted
    · exact hnoted

/-- An adopted order is open from then on. -/
theorem isOpen_adopt {e : RiskEngine} (h : Tabled e) (order : OpenOrder) (id : UInt64) :
    (e.adopt order).2.IsOpen id ↔
      e.IsOpen id ∨ ((e.adopt order).1 = true ∧ id = order.clientOrderId) := by
  unfold RiskEngine.adopt
  split
  · simp
  rename_i hroom
  split
  · simp
  rename_i hfind
  have hnone : e.find order.clientOrderId = none := by simpa using hfind
  obtain ⟨-, hperm⟩ := h.record hnone (Nat.lt_of_not_le fun hle => hroom (.inr hle))
  refine (Tabled.isOpen_of_perm hperm id).trans ?_
  simp only [List.mem_cons, exists_eq_or_imp, true_and, IsOpen, eq_comm (a := order.clientOrderId)]
  exact or_comm

theorem Sound.step {p : Listed} (h : Sound p) (c : TableCall) : Sound (p.step c) := by
  obtain ⟨hmask, hmax⟩ := step_sizes p c
  have htwice : 2 * (p.step c).engine.cfg.maxOpenOrders ≤ (p.step c).engine.mask + 1 := by
    rw [hmask, hmax]
    exact h.twice
  refine ⟨?_, htwice, ?_⟩
  · cases c with
    | newOrder => exact (h.tabled.onNewOrder ..).1
    | cancel => exact (h.tabled.onCancel ..).1
    | execReport => exact (h.tabled.onExecReport ..).1
    | adopt order => exact h.tabled.adopt order
  · intro id
    cases c with
    | newOrder clientOrderId symbolId side price quantity =>
      refine ((h.tabled.onNewOrder clientOrderId symbolId side price quantity).2.2 id).trans ?_
      rw [h.ids]
      show _ ↔ id ∈ (if (p.engine.onNewOrder clientOrderId symbolId side price quantity).1.accepted
        then clientOrderId :: p.ids else p.ids)
      split
      · rename_i haccepted
        rw [haccepted, List.mem_cons]
        simp [or_comm]
      · rename_i hrefused
        simp [hrefused]
    | cancel clientOrderId origClientOrderId =>
      have hsame := (h.tabled.onCancel clientOrderId origClientOrderId).2
      show (∃ o ∈ (p.engine.onCancel clientOrderId origClientOrderId).2.openOrders, _) ↔ _
      rw [hsame]
      exact h.ids id
    | execReport clientOrderId exchangeOrderId type price quantity leavesQuantity =>
      refine ((h.tabled.onExecReport clientOrderId exchangeOrderId type price quantity
        leavesQuantity).2 id).trans ?_
      rw [h.ids]
      show _ ↔ id ∈ (if endsOrder type leavesQuantity then p.ids.filter (· ≠ clientOrderId)
        else p.ids)
      split
      · rename_i hends
        rw [List.mem_filter]
        simp [hends]
      · rename_i hends
        simp [hends]
    | adopt order =>
      refine (isOpen_adopt h.tabled order id).trans ?_
      rw [h.ids]
      show _ ↔ id ∈ (if (p.engine.adopt order).1 then order.clientOrderId :: p.ids else p.ids)
      split
      · rename_i hadopted
        rw [hadopted, List.mem_cons]
        simp [or_comm]
      · rename_i hrefused
        simp [hrefused]

theorem Sound.run {p : Listed} (h : Sound p) (calls : List TableCall) :
    Sound (calls.foldl Listed.step p) := by
  induction calls generalizing p with
  | nil => exact h
  | cons c calls ih => exact ih (h.step c)

theorem Sound.isMap {p : Listed} (h : Sound p) : p.IsMap := by
  have htabled := h.tabled
  have hlive : p.engine.live = occupied p.engine := by
    rw [htabled.count, openOrders, List.length_map]
    rfl
  have hvacancy := vacancyEnds htabled.lawful htabled.hasRoom
  refine ⟨fun id => (hvacancy id).probeEnds, hvacancy, ?_, ?_, ?_, ?_, hlive, htabled.table.chained⟩
  · intro id i hi
    obtain ⟨hlt, hoccupied, -⟩ := htabled.find_some hi
    exact closes_removeAt htabled.lawful htabled.hasRoom hlt (by simpa [scheme] using hoccupied)
  · intro id
    rw [htabled.find_isSome, ← h.ids]
    rfl
  · intro id i hi
    obtain ⟨hlt, hoccupied, hid, -⟩ := htabled.find_some hi
    exact ⟨hlt, hoccupied, hid⟩
  · have hbound := htabled.bound
    have htwice := h.twice
    omega

/-! ## The size of the table -/

theorem slotCount_small {m : UInt64} (h : m.toNat ≤ 2 ^ 62) :
    slotCount m = some (tableSizeFor m.toNat) := by
  have hone : (1 : UInt64).toNat = 1 := rfl
  have htwo : (2 : UInt64).toNat = 2 := rfl
  have hwant : ((if m < 1 then 1 else m) * 2 : UInt64).toNat = max m.toNat 1 * 2 := by
    split
    · rename_i hlt
      rw [UInt64.lt_iff_toNat_lt, hone] at hlt
      rw [show max m.toNat 1 = 1 by omega]
      rfl
    · rename_i hlt
      rw [UInt64.lt_iff_toNat_lt, hone] at hlt
      rw [UInt64.toNat_mul, htwo, show max m.toNat 1 = m.toNat by omega,
        Nat.mod_eq_of_lt (by omega)]
  unfold slotCount tableSizeFor
  dsimp only
  rw [hwant, if_pos (by omega)]

/-- Where the doubling wraps, the table has room for twice what is past `2 ^ 63`. -/
theorem slotCount_large {m : UInt64} (h : 2 ^ 62 < m.toNat) {slots : Nat}
    (hslots : slotCount m = some slots) :
    2 ^ 63 ≤ m.toNat ∧ slots = Words.bitCeil (2 * (m.toNat - 2 ^ 63)) ∧ slots ≤ 2 ^ 63 := by
  have hone : (1 : UInt64).toNat = 1 := rfl
  have htwo : (2 : UInt64).toNat = 2 := rfl
  have hnot : ¬m < 1 := by
    rw [UInt64.lt_iff_toNat_lt, hone]
    omega
  have hm := m.toNat_lt
  unfold slotCount at hslots
  dsimp only at hslots
  rw [if_neg hnot, UInt64.toNat_mul, htwo] at hslots
  split at hslots
  · rename_i hle
    have hslots := Option.some.inj hslots
    by_cases hwrap : 2 ^ 63 ≤ m.toNat
    · have hmod : m.toNat * 2 % 2 ^ 64 = 2 * (m.toNat - 2 ^ 63) := by omega
      rw [hmod] at hslots hle
      exact ⟨hwrap, hslots.symm, hslots ▸ Words.bitCeil_le hle⟩
    · rw [Nat.mod_eq_of_lt (by omega)] at hle
      omega
  · cases hslots

theorem sound_construct (cfg : RiskConfig) {m : UInt64} (h : m.toNat ≤ 2 ^ 62) :
    ∃ e, construct cfg m = some e ∧ Sound ⟨e, []⟩ := by
  refine ⟨new { cfg with maxOpenOrders := m.toNat }, ?_, tabled_new _, ?_, fun id => ?_⟩
  · unfold construct
    rw [slotCount_small h]
    rfl
  · have hle := (Words.bitCeil_spec (max m.toNat 1 * 2)).2
    show 2 * m.toNat ≤ tableSizeFor m.toNat - 1 + 1
    unfold tableSizeFor
    omega
  · unfold IsOpen
    rw [openOrders_new]
    simp

/-! ## A table that is too small -/

/-- Orders on the first symbol, under the first numbers. -/
def adoptions (k : Nat) : List TableCall :=
  (List.range k).map fun i => .adopt { clientOrderId := UInt64.ofNat i }

/-- A table as it is after `k` adoptions. -/
structure Adopted (e : RiskEngine) (k : Nat) : Prop where
  power : ∃ j, e.mask + 1 = 2 ^ j
  table : Table (scheme e.mask) e.slots
  count : occupied e = k
  live : e.live = k
  ids : ∀ s ∈ (scheme e.mask).entries e.slots, s.order.clientOrderId.toNat < k

theorem Adopted.adopt {e : RiskEngine} {k : Nat} (h : Adopted e k) (hroom : k < e.mask + 1)
    (hmask : e.mask + 1 ≤ 2 ^ 63) (hsymbol : 0 < e.cfg.symbolCount)
    (hlive : k < e.cfg.maxOpenOrders) :
    Adopted (e.adopt { clientOrderId := UInt64.ofNat k }).2 (k + 1) := by
  have hlawful : (scheme e.mask).Lawful :=
    ⟨h.power, fun _ => Nat.lt_succ_of_le Nat.and_le_right, rfl⟩
  have hentries : ((scheme e.mask).entries e.slots).length < (scheme e.mask).size := by
    show occupied e < e.mask + 1
    rw [h.count]
    exact hroom
  have hk : (UInt64.ofNat k).toNat = k := UInt64.toNat_ofNat_of_lt' (by show k < 2 ^ 64; omega)
  have hnew : ∀ s ∈ (scheme e.mask).entries e.slots,
      (scheme e.mask).key s ≠ (scheme e.mask).key ⟨{ clientOrderId := UInt64.ofNat k }, true⟩ := by
    intro s hs heq
    have hlt := h.ids s hs
    rw [show s.order.clientOrderId = UInt64.ofNat k from heq, hk] at hlt
    exact Nat.lt_irrefl _ hlt
  have hfind : e.find (UInt64.ofNat k) = none := by
    cases hfind : e.find (UInt64.ofNat k) with
    | none => rfl
    | some i =>
      obtain ⟨hi, hoccupied, hkey⟩ := Table.find_eq_some hlawful hentries hfind
      exact absurd hkey (hnew _ (mem_entries.mpr ⟨i, hi, rfl, hoccupied⟩))
  have hadopt : (e.adopt { clientOrderId := UInt64.ofNat k }).2 =
      e.record { clientOrderId := UInt64.ofNat k } := by
    have hopen : ¬(e.cfg.symbolCount ≤ (0 : UInt16).toNat ∨ e.cfg.maxOpenOrders ≤ e.live) := by
      rw [h.live]
      rintro (hle | hle)
      · exact absurd hsymbol (Nat.not_lt_of_le hle)
      · omega
    unfold RiskEngine.adopt
    rw [if_neg hopen, hfind]
    rfl
  have hinsert := h.table.insert hlawful hentries (e := ⟨{ clientOrderId := UInt64.ofNat k }, true⟩)
    rfl hnew
  have hperm := h.table.insert_perm hlawful hentries
    (e := ⟨{ clientOrderId := UInt64.ofNat k }, true⟩) rfl hnew
  rw [hadopt]
  refine ⟨h.power, hinsert.1, ?_, ?_, fun s hs => ?_⟩
  · exact hperm.length_eq.trans (by rw [List.length_cons]; exact congrArg (· + 1) h.count)
  · show e.live + 1 = k + 1
    rw [h.live]
  · rcases (hinsert.2 s).mp hs with rfl | hs
    · rw [hk]
      exact Nat.lt_succ_self k
    · exact Nat.lt_succ_of_lt (h.ids s hs)

/-- As many orders as the table has slots can be adopted, if the limit lets them in. -/
theorem adopted_run {e : RiskEngine} (h : Adopted e 0) (hmask : e.mask + 1 ≤ 2 ^ 63)
    (hsymbol : 0 < e.cfg.symbolCount) {k : Nat} (hk : k ≤ e.mask + 1)
    (hlive : k ≤ e.cfg.maxOpenOrders) :
    Adopted ((adoptions k).foldl step ⟨e, []⟩).engine k ∧
      ((adoptions k).foldl step ⟨e, []⟩).engine.mask = e.mask ∧
      ((adoptions k).foldl step ⟨e, []⟩).engine.cfg = e.cfg := by
  induction k with
  | zero => exact ⟨h, rfl, rfl⟩
  | succ k ih =>
    obtain ⟨hadopted, hsame, hcfg⟩ := ih (by omega) (by omega)
    have hlast : (adoptions (k + 1)).foldl step ⟨e, []⟩ = ((adoptions k).foldl step ⟨e, []⟩).step
        (.adopt { clientOrderId := UInt64.ofNat k }) := by
      unfold adoptions
      rw [List.range_succ, List.map_append, List.foldl_append]
      rfl
    rw [hlast]
    generalize (adoptions k).foldl step ⟨e, []⟩ = p at hadopted hsame hcfg ⊢
    have hnext := hadopted.adopt (by omega) (by omega) (by rw [hcfg]; exact hsymbol)
      (by rw [hcfg]; exact hlive)
    refine ⟨hnext, (step_sizes p _).1.trans hsame, Eq.trans ?_ hcfg⟩
    show (p.engine.adopt _).2.cfg = p.engine.cfg
    unfold RiskEngine.adopt
    split
    · rfl
    split <;> rfl

theorem adopted_empty (e : RiskEngine) (hpower : ∃ j, e.mask + 1 = 2 ^ j) (hslots : e.slots = fun _ => {})
    (hlive : e.live = 0) : Adopted e 0 := by
  have hvacant : ∀ p, (scheme e.mask).vacant (e.slots p) = true := by
    intro p
    rw [hslots]
    rfl
  have hnone : (scheme e.mask).entries e.slots = [] := by
    refine List.eq_nil_iff_forall_not_mem.mpr fun s hs => ?_
    obtain ⟨p, -, rfl, hp⟩ := mem_entries.mp hs
    rw [hvacant p] at hp
    cases hp
  refine ⟨hpower, (Represents.of_vacant hvacant).table, ?_, hlive, fun s hs => ?_⟩
  · unfold occupied
    rw [hnone]
    rfl
  · rw [hnone] at hs
    cases hs

/-- One symbol, with no limits of its own. -/
def oneSymbol : RiskConfig := { symbols := fun _ => {}, symbolCount := 1 }

/-- **A table sized by a doubling that wrapped** comes to be more than half full. -/
theorem not_isMap_of_wrapped {m : UInt64} (h : 2 ^ 62 < m.toNat) {e : RiskEngine}
    (he : construct oneSymbol m = some e) :
    ∃ calls : List TableCall, ¬IsMap (calls.foldl step ⟨e, []⟩) := by
  obtain ⟨slots, hslots, rfl⟩ := Option.map_eq_some_iff.mp he
  obtain ⟨hwrap, heq, hle⟩ := slotCount_large h hslots
  obtain ⟨⟨j, hj⟩, hceil⟩ := Words.bitCeil_spec (2 * (m.toNat - 2 ^ 63))
  rw [← heq] at hj hceil
  have hpos : 0 < slots := hj ▸ Nat.two_pow_pos j
  have hsize : slots - 1 + 1 = slots := by omega
  have hempty := adopted_empty { cfg := { oneSymbol with maxOpenOrders := m.toNat }, mask := slots - 1 }
    ⟨j, hsize.trans hj⟩ rfl rfl
  refine ⟨adoptions (slots / 2 + 1), fun hmap => ?_⟩
  obtain ⟨hadopted, hmask, -⟩ := adopted_run hempty (k := slots / 2 + 1)
    (by show slots - 1 + 1 ≤ _; omega) Nat.one_pos (by show _ ≤ slots - 1 + 1; omega)
    (by show _ ≤ m.toNat; omega)
  have hhalf := hmap.half
  rw [hadopted.count, hmask] at hhalf
  replace hhalf : 2 * (slots / 2 + 1) ≤ slots - 1 + 1 := hhalf
  omega

/-- **The table of open orders is a map** for exactly the limits whose doubling a `size_t` holds
and `bit_ceil` has an answer to. -/
theorem table_is_map_iff (m : UInt64) :
    (∀ cfg, ∃ e, construct cfg m = some e ∧ ∀ calls : List TableCall,
      IsMap (calls.foldl step ⟨e, []⟩)) ↔ m.toNat ≤ 2 ^ 62 := by
  constructor
  · intro h
    by_contra hlarge
    obtain ⟨e, he, hmap⟩ := h oneSymbol
    obtain ⟨calls, hnot⟩ := not_isMap_of_wrapped (Nat.lt_of_not_le hlarge) he
    exact hnot (hmap calls)
  · intro h cfg
    obtain ⟨e, he, hsound⟩ := sound_construct cfg h
    exact ⟨e, he, fun calls => (hsound.run calls).isMap⟩

/-- With a limit of `2 ^ 63` the doubling comes to zero: the table has one slot, and once an order
is in it the search for another never ends. -/
theorem one_slot_never_ends :
    ∃ e, construct oneSymbol 9223372036854775808 = some e ∧ e.mask + 1 = 1 ∧
      let p := [TableCall.adopt { clientOrderId := 1 }].foldl step ⟨e, []⟩
      p.ids = [1] ∧ ¬(scheme p.engine.mask).ProbeEnds p.engine.slots 2 ∧ ¬IsMap p := by
  refine ⟨_, rfl, rfl, rfl, ?_⟩
  have hends : ¬(scheme 0).ProbeEnds (Function.update (fun _ => ({} : Slot)) 0
      ⟨{ clientOrderId := 1 }, true⟩) 2 := by
    refine not_probeEnds ⟨⟨0, rfl⟩, fun k => Nat.lt_succ_of_le Nat.and_le_right, rfl⟩ ?_ ?_
    · intro p hp
      obtain rfl : p = 0 := Nat.lt_one_iff.mp hp
      rw [Function.update_self]
      rfl
    · intro p hp
      obtain rfl : p = 0 := Nat.lt_one_iff.mp hp
      rw [Function.update_self]
      decide
  exact ⟨hends, fun hmap => hends (hmap.findEnds 2)⟩

end Listed

end RiskEngine

end MarketData.Risk
