import MarketData.Wire.Header

/-!
# `Wire/Message.lean` — the messages of the feed

`crates/wire/src/generated.rs`, from `messageHeader` to `decode_message`. A message is an
eight-byte header, a root block whose length the header states, and for `Snapshot` a group of
orders after it:

```
messageHeader   0 blockLength u16   2 templateId u16   4 schemaId u16   6 version u16
AddOrder        0 orderId u64   8 price i64      16 quantity u32     20 symbolId u16  22 side u8
ModifyOrder     0 orderId u64   8 newPrice i64   16 newQuantity u32  20 symbolId u16  22 side u8
                23 reason u8
DeleteOrder     0 orderId u64   8 symbolId u16   10 side u8
Trade           0 tradeId u64   8 aggressorOrderId u64   16 restingOrderId u64   24 price i64
                32 quantity u32   36 symbolId u16   38 aggressorSide u8
Snapshot        0 lastSequence u64   8 symbolId u16   10 flags u8
  group         0 blockLength u16   2 count u16
  order         0 orderId u64   8 price i64   16 quantity u32   20 side u8
Heartbeat       0 lastSequence u64
SequenceReset   0 newSequence u64
```

The seven `wrap` functions of the source check the same four things with their own constants
and are one function here, `wrapRoot`; `Snapshot` checks its group on top of it. An encoder
zeroes its extent, writes the header and puts the fields; what it leaves in the buffer is the
message's *block*, which does not depend on the buffer, followed by what was there before.
-/

set_option autoImplicit false

namespace MarketData.Wire

open MarketData.Bytes

/-! ## Enumerations -/

inductive Side where
  | bid
  | ask
  deriving DecidableEq, Repr

def Side.toU8 : Side → UInt8
  | .bid => 0
  | .ask => 1

def Side.fromU8 (v : UInt8) : Except WireError Side :=
  if v = 0 then .ok .bid
  else if v = 1 then .ok .ask
  else .error (.invalidEnum "Side" v.toNat)

inductive ModifyReason where
  | reduce
  | replace
  deriving DecidableEq, Repr

def ModifyReason.toU8 : ModifyReason → UInt8
  | .reduce => 0
  | .replace => 1

def ModifyReason.fromU8 (v : UInt8) : Except WireError ModifyReason :=
  if v = 0 then .ok .reduce
  else if v = 1 then .ok .replace
  else .error (.invalidEnum "ModifyReason" v.toNat)

@[simp] theorem Side.fromU8_toU8 (s : Side) : Side.fromU8 s.toU8 = .ok s := by
  cases s <;> rfl

@[simp] theorem ModifyReason.fromU8_toU8 (r : ModifyReason) :
    ModifyReason.fromU8 r.toU8 = .ok r := by
  cases r <;> rfl

/-! ## What the decoders read -/

structure AddOrder where
  orderId : UInt64
  price : Int64
  quantity : UInt32
  symbolId : UInt16
  sideRaw : UInt8
  deriving DecidableEq, Repr

def AddOrder.side (d : AddOrder) : Except WireError Side := Side.fromU8 d.sideRaw

structure ModifyOrder where
  orderId : UInt64
  newPrice : Int64
  newQuantity : UInt32
  symbolId : UInt16
  sideRaw : UInt8
  reasonRaw : UInt8
  deriving DecidableEq, Repr

def ModifyOrder.reason (d : ModifyOrder) : Except WireError ModifyReason :=
  ModifyReason.fromU8 d.reasonRaw

structure DeleteOrder where
  orderId : UInt64
  symbolId : UInt16
  sideRaw : UInt8
  deriving DecidableEq, Repr

structure Trade where
  tradeId : UInt64
  aggressorOrderId : UInt64
  restingOrderId : UInt64
  price : Int64
  quantity : UInt32
  symbolId : UInt16
  aggressorSideRaw : UInt8
  deriving DecidableEq, Repr

structure SnapshotOrder where
  orderId : UInt64
  price : Int64
  quantity : UInt32
  sideRaw : UInt8
  deriving DecidableEq, Repr

def SnapshotOrder.side (d : SnapshotOrder) : Except WireError Side := Side.fromU8 d.sideRaw

structure Snapshot where
  lastSequence : UInt64
  symbolId : UInt16
  flags : UInt8
  orders : List SnapshotOrder
  deriving DecidableEq, Repr

inductive Message where
  | addOrder (d : AddOrder)
  | modifyOrder (d : ModifyOrder)
  | deleteOrder (d : DeleteOrder)
  | trade (d : Trade)
  | snapshot (d : Snapshot)
  | heartbeat (lastSequence : UInt64)
  | sequenceReset (newSequence : UInt64)
  deriving DecidableEq, Repr

/-- `SNAPSHOT_FLAG_LAST_FRAGMENT`: the last fragment of its symbol in this cycle. -/
def snapshotFlagLastFragment : UInt8 := 0x01
/-- `SNAPSHOT_FLAG_CYCLE_END`: the last fragment of the cycle. -/
def snapshotFlagCycleEnd : UInt8 := 0x02
/-- `SNAPSHOT_FLAG_CYCLE_START`: the first fragment of the cycle. -/
def snapshotFlagCycleStart : UInt8 := 0x04

namespace Template

def addOrder : UInt16 := 1
def modifyOrder : UInt16 := 2
def deleteOrder : UInt16 := 3
def trade : UInt16 := 4
def snapshot : UInt16 := 5
def heartbeat : UInt16 := 6
def sequenceReset : UInt16 := 7

end Template

/-! ## Decoding -/

/-- The checks every `wrap` makes: the template, the stated block length against this schema's,
the buffer against the stated block length. Answers the stated block length. -/
def wrapRoot (message : String) (templateId blockLength : UInt16) (b : Buf) :
    Except WireError Nat :=
  if b.length < messageHeaderLen then .error (.shortBuffer messageHeaderLen b.length)
  else if leU16 b 2 ≠ templateId then .error (.templateMismatch templateId (leU16 b 2))
  else if (leU16 b 0).toNat < blockLength.toNat then
    .error (.blockTooSmall message blockLength (leU16 b 0))
  else if b.length < messageHeaderLen + (leU16 b 0).toNat then
    .error (.shortBuffer (messageHeaderLen + (leU16 b 0).toNat) b.length)
  else .ok (leU16 b 0).toNat

/-- `AddOrderDecoder::wrap` and its accessors; with the message, `total_len`. -/
def AddOrder.wrap (b : Buf) : Except WireError (Message × Nat) := do
  let rootLen ← wrapRoot "AddOrder" Template.addOrder 24 b
  .ok (.addOrder
    { orderId := leU64 b 8, price := leI64 b 16, quantity := leU32 b 24, symbolId := leU16 b 28,
      sideRaw := leU8 b 30 }, messageHeaderLen + rootLen)

def ModifyOrder.wrap (b : Buf) : Except WireError (Message × Nat) := do
  let rootLen ← wrapRoot "ModifyOrder" Template.modifyOrder 24 b
  .ok (.modifyOrder
    { orderId := leU64 b 8, newPrice := leI64 b 16, newQuantity := leU32 b 24,
      symbolId := leU16 b 28, sideRaw := leU8 b 30, reasonRaw := leU8 b 31 },
    messageHeaderLen + rootLen)

def DeleteOrder.wrap (b : Buf) : Except WireError (Message × Nat) := do
  let rootLen ← wrapRoot "DeleteOrder" Template.deleteOrder 12 b
  .ok (.deleteOrder { orderId := leU64 b 8, symbolId := leU16 b 16, sideRaw := leU8 b 18 },
    messageHeaderLen + rootLen)

def Trade.wrap (b : Buf) : Except WireError (Message × Nat) := do
  let rootLen ← wrapRoot "Trade" Template.trade 40 b
  .ok (.trade
    { tradeId := leU64 b 8, aggressorOrderId := leU64 b 16, restingOrderId := leU64 b 24,
      price := leI64 b 32, quantity := leU32 b 40, symbolId := leU16 b 44,
      aggressorSideRaw := leU8 b 46 }, messageHeaderLen + rootLen)

/-- `SnapshotOrderDecoder` over one entry of the group. -/
def SnapshotOrder.read (b : Buf) : SnapshotOrder :=
  { orderId := leU64 b 0, price := leI64 b 8, quantity := leU32 b 16, sideRaw := leU8 b 20 }

/-- `SnapshotOrdersIter`: `remaining` entries of `blockLen` bytes from `pos` on. -/
def snapshotOrders (b : Buf) (blockLen : Nat) : (remaining pos : Nat) → List SnapshotOrder
  | 0, _ => []
  | remaining + 1, pos =>
    SnapshotOrder.read ((b.drop pos).take blockLen)
      :: snapshotOrders b blockLen remaining (pos + blockLen)

/-- `SnapshotDecoder::wrap`: the group header has to be there before the entry count can be
read, and the entries before they can be. -/
def Snapshot.wrap (b : Buf) : Except WireError (Message × Nat) := do
  let rootLen ← wrapRoot "Snapshot" Template.snapshot 12 b
  let group := messageHeaderLen + rootLen
  if b.length < group + groupSizeEncodingLen then
    .error (.shortBuffer (group + groupSizeEncodingLen) b.length)
  else
    let ordersBlockLength := (leU16 b group).toNat
    let ordersCount := (leU16 b (group + 2)).toNat
    let total := group + groupSizeEncodingLen + ordersCount * ordersBlockLength
    if b.length < total then .error (.shortBuffer total b.length)
    else .ok (.snapshot
      { lastSequence := leU64 b 8, symbolId := leU16 b 16, flags := leU8 b 18,
        orders := snapshotOrders b ordersBlockLength ordersCount
          (group + groupSizeEncodingLen) }, total)

def Heartbeat.wrap (b : Buf) : Except WireError (Message × Nat) := do
  let rootLen ← wrapRoot "Heartbeat" Template.heartbeat 8 b
  .ok (.heartbeat (leU64 b 8), messageHeaderLen + rootLen)

def SequenceReset.wrap (b : Buf) : Except WireError (Message × Nat) := do
  let rootLen ← wrapRoot "SequenceReset" Template.sequenceReset 8 b
  .ok (.sequenceReset (leU64 b 8), messageHeaderLen + rootLen)

/-- `decode_message`, with the message's `total_len`. -/
def decodeMessage (b : Buf) : Except WireError (Message × Nat) :=
  if b.length < messageHeaderLen then .error (.shortBuffer messageHeaderLen b.length)
  else if leU16 b 4 ≠ schemaId then .error (.schemaMismatch schemaId (leU16 b 4))
  else if leU16 b 2 = Template.addOrder then AddOrder.wrap b
  else if leU16 b 2 = Template.modifyOrder then ModifyOrder.wrap b
  else if leU16 b 2 = Template.deleteOrder then DeleteOrder.wrap b
  else if leU16 b 2 = Template.trade then Trade.wrap b
  else if leU16 b 2 = Template.snapshot then Snapshot.wrap b
  else if leU16 b 2 = Template.heartbeat then Heartbeat.wrap b
  else if leU16 b 2 = Template.sequenceReset then SequenceReset.wrap b
  else .error (.unknownTemplate (leU16 b 2))

/-! ## Encoding -/

/-- `write_message_header`. -/
def writeMessageHeader (b : Buf) (blockLength templateId : UInt16) : Buf :=
  putU16 (putU16 (putU16 (putU16 b 0 blockLength) 2 templateId) 4 schemaId) 6 schemaVersion

/-- The zeroed extent of a message with its header written. -/
def rootBlock (blockLength templateId : UInt16) : Buf :=
  writeMessageHeader (List.replicate (messageHeaderLen + blockLength.toNat) 0)
    blockLength templateId

/-- What every encoder does with the block it builds: refuse a buffer that is too short, or
overwrite its start. Answers the buffer and the bytes written. -/
def encodeBlock (block b : Buf) : Except WireError (Buf × Nat) :=
  if b.length < block.length then .error (.shortBuffer block.length b.length)
  else .ok (block ++ b.drop block.length, block.length)

def addOrderBlock (orderId : UInt64) (price : Int64) (quantity : UInt32) (symbolId : UInt16)
    (side : Side) : Buf :=
  let b := rootBlock 24 Template.addOrder
  let b := putU64 b 8 orderId
  let b := putI64 b 16 price
  let b := putU32 b 24 quantity
  let b := putU16 b 28 symbolId
  putU8 b 30 side.toU8

def encodeAddOrder (b : Buf) (orderId : UInt64) (price : Int64) (quantity : UInt32)
    (symbolId : UInt16) (side : Side) : Except WireError (Buf × Nat) :=
  encodeBlock (addOrderBlock orderId price quantity symbolId side) b

def modifyOrderBlock (orderId : UInt64) (newPrice : Int64) (newQuantity : UInt32)
    (symbolId : UInt16) (side : Side) (reason : ModifyReason) : Buf :=
  let b := rootBlock 24 Template.modifyOrder
  let b := putU64 b 8 orderId
  let b := putI64 b 16 newPrice
  let b := putU32 b 24 newQuantity
  let b := putU16 b 28 symbolId
  let b := putU8 b 30 side.toU8
  putU8 b 31 reason.toU8

def encodeModifyOrder (b : Buf) (orderId : UInt64) (newPrice : Int64) (newQuantity : UInt32)
    (symbolId : UInt16) (side : Side) (reason : ModifyReason) :
    Except WireError (Buf × Nat) :=
  encodeBlock (modifyOrderBlock orderId newPrice newQuantity symbolId side reason) b

def deleteOrderBlock (orderId : UInt64) (symbolId : UInt16) (side : Side) : Buf :=
  let b := rootBlock 12 Template.deleteOrder
  let b := putU64 b 8 orderId
  let b := putU16 b 16 symbolId
  putU8 b 18 side.toU8

def encodeDeleteOrder (b : Buf) (orderId : UInt64) (symbolId : UInt16) (side : Side) :
    Except WireError (Buf × Nat) :=
  encodeBlock (deleteOrderBlock orderId symbolId side) b

def tradeBlock (tradeId aggressorOrderId restingOrderId : UInt64) (price : Int64)
    (quantity : UInt32) (symbolId : UInt16) (aggressorSide : Side) : Buf :=
  let b := rootBlock 40 Template.trade
  let b := putU64 b 8 tradeId
  let b := putU64 b 16 aggressorOrderId
  let b := putU64 b 24 restingOrderId
  let b := putI64 b 32 price
  let b := putU32 b 40 quantity
  let b := putU16 b 44 symbolId
  putU8 b 46 aggressorSide.toU8

def encodeTrade (b : Buf) (tradeId aggressorOrderId restingOrderId : UInt64) (price : Int64)
    (quantity : UInt32) (symbolId : UInt16) (aggressorSide : Side) :
    Except WireError (Buf × Nat) :=
  encodeBlock (tradeBlock tradeId aggressorOrderId restingOrderId price quantity symbolId
    aggressorSide) b

def heartbeatBlock (lastSequence : UInt64) : Buf :=
  putU64 (rootBlock 8 Template.heartbeat) 8 lastSequence

def encodeHeartbeat (b : Buf) (lastSequence : UInt64) : Except WireError (Buf × Nat) :=
  encodeBlock (heartbeatBlock lastSequence) b

def sequenceResetBlock (newSequence : UInt64) : Buf :=
  putU64 (rootBlock 8 Template.sequenceReset) 8 newSequence

def encodeSequenceReset (b : Buf) (newSequence : UInt64) : Except WireError (Buf × Nat) :=
  encodeBlock (sequenceResetBlock newSequence) b

/-! ## Round trips -/

section ReadBack

@[simp] theorem ofNat_toNat_mod_u8 (v : UInt8) : UInt8.ofNat (v.toNat % 256 ^ 1) = v := by
  rw [Nat.mod_eq_of_lt (show v.toNat < 256 ^ 1 from v.toNat_lt), UInt8.ofNat_toNat]

@[simp] theorem ofNat_toNat_mod_u16 (v : UInt16) : UInt16.ofNat (v.toNat % 256 ^ 2) = v := by
  rw [Nat.mod_eq_of_lt (show v.toNat < 256 ^ 2 from v.toNat_lt), UInt16.ofNat_toNat]

@[simp] theorem ofNat_toNat_mod_u32 (v : UInt32) : UInt32.ofNat (v.toNat % 256 ^ 4) = v := by
  rw [Nat.mod_eq_of_lt (show v.toNat < 256 ^ 4 from v.toNat_lt), UInt32.ofNat_toNat]

@[simp] theorem ofNat_toNat_mod_u64 (v : UInt64) : UInt64.ofNat (v.toNat % 256 ^ 8) = v := by
  rw [Nat.mod_eq_of_lt (show v.toNat < 256 ^ 8 from v.toNat_lt), UInt64.ofNat_toNat]

end ReadBack

/-- The block decodes to the message, whatever follows it. -/
def Decodes (block : Buf) (m : Message) : Prop :=
  ∀ rest : Buf, decodeMessage (block ++ rest) = .ok (m, block.length)

theorem Decodes.length_pos {block : Buf} {m : Message} (h : Decodes block m) :
    0 < block.length := by
  cases block with
  | nil => cases h []
  | cons b bs => exact Nat.succ_pos _

/-- A message block: its header states its block length, its template and this schema. -/
structure IsRoot (b : Buf) (blockLength templateId : UInt16) : Prop where
  length : b.length = messageHeaderLen + blockLength.toNat
  blockLength : leU16 b 0 = blockLength
  template : leU16 b 2 = templateId
  schema : leU16 b 4 = schemaId

theorem isRoot_rootBlock (blockLength templateId : UInt16) :
    IsRoot (rootBlock blockLength templateId) blockLength templateId := by
  have hlen : 8 ≤ (List.replicate (messageHeaderLen + blockLength.toNat) (0 : UInt8)).length := by
    simp [messageHeaderLen]
  generalize hz : List.replicate (messageHeaderLen + blockLength.toNat) (0 : UInt8) = z at hlen
  have hlen' : z.length = messageHeaderLen + blockLength.toNat := by rw [← hz]; simp
  unfold rootBlock writeMessageHeader
  rw [hz]
  refine ⟨by simpa using hlen', ?_, ?_, ?_⟩
  · rw [leU16, putU16, leNat_putNat_of_disjoint _ _ _ _ _ _ (by decide), putU16,
      leNat_putNat_of_disjoint _ _ _ _ _ _ (by decide), putU16,
      leNat_putNat_of_disjoint _ _ _ _ _ _ (by decide)]
    exact leU16_putU16 _ (by omega)
  · rw [leU16, putU16, leNat_putNat_of_disjoint _ _ _ _ _ _ (by decide), putU16,
      leNat_putNat_of_disjoint _ _ _ _ _ _ (by decide)]
    exact leU16_putU16 _ (by rw [length_putU16]; omega)
  · rw [leU16, putU16, leNat_putNat_of_disjoint _ _ _ _ _ _ (by decide)]
    exact leU16_putU16 _ (by rw [length_putU16, length_putU16]; omega)

theorem IsRoot.putNat {b : Buf} {bl t : UInt16} (h : IsRoot b bl t) {o : Nat} (n v : Nat)
    (ho : 8 ≤ o) : IsRoot (putNat b o n v) bl t := by
  refine ⟨by rw [length_putNat]; exact h.length, ?_, ?_, ?_⟩
  · rw [leU16, leNat_putNat_of_disjoint _ _ _ _ _ _ (by omega)]; exact h.blockLength
  · rw [leU16, leNat_putNat_of_disjoint _ _ _ _ _ _ (by omega)]; exact h.template
  · rw [leU16, leNat_putNat_of_disjoint _ _ _ _ _ _ (by omega)]; exact h.schema

theorem IsRoot.append {b : Buf} {bl t : UInt16} (h : IsRoot b bl t) (rest : Buf) :
    leU16 (b ++ rest) 0 = bl ∧ leU16 (b ++ rest) 2 = t ∧ leU16 (b ++ rest) 4 = schemaId := by
  have hlen := h.length
  rw [messageHeaderLen] at hlen
  refine ⟨?_, ?_, ?_⟩
  · rw [leU16, leNat_append_left _ _ (by omega)]; exact h.blockLength
  · rw [leU16, leNat_append_left _ _ (by omega)]; exact h.template
  · rw [leU16, leNat_append_left _ _ (by omega)]; exact h.schema

/-- The checks pass where the stated length is at least this schema's. -/
theorem IsRoot.wrapRoot_of_le {b : Buf} {bl t c : UInt16} (h : IsRoot b bl t)
    (hc : c.toNat ≤ bl.toNat) (message : String) (rest : Buf) :
    wrapRoot message t c (b ++ rest) = .ok bl.toNat := by
  obtain ⟨h0, h2, -⟩ := h.append rest
  have hlen := h.length
  unfold MarketData.Wire.wrapRoot
  rw [h0, h2]
  rw [if_neg (by rw [List.length_append]; omega), if_neg (by simp), if_neg (Nat.not_lt.mpr hc),
    if_neg (by rw [List.length_append]; omega)]

theorem IsRoot.wrapRoot {b : Buf} {bl t : UInt16} (h : IsRoot b bl t) (message : String)
    (rest : Buf) : wrapRoot message t bl (b ++ rest) = .ok bl.toNat :=
  h.wrapRoot_of_le (Nat.le_refl _) message rest

/-- The template of the header picks the decoder. -/
theorem IsRoot.decodeMessage {b : Buf} {bl t : UInt16} (h : IsRoot b bl t) (rest : Buf) :
    decodeMessage (b ++ rest) =
      if t = Template.addOrder then AddOrder.wrap (b ++ rest)
      else if t = Template.modifyOrder then ModifyOrder.wrap (b ++ rest)
      else if t = Template.deleteOrder then DeleteOrder.wrap (b ++ rest)
      else if t = Template.trade then Trade.wrap (b ++ rest)
      else if t = Template.snapshot then Snapshot.wrap (b ++ rest)
      else if t = Template.heartbeat then Heartbeat.wrap (b ++ rest)
      else if t = Template.sequenceReset then SequenceReset.wrap (b ++ rest)
      else .error (.unknownTemplate t) := by
  obtain ⟨-, h2, h4⟩ := h.append rest
  have hlen := h.length
  unfold MarketData.Wire.decodeMessage
  rw [h2, h4, if_neg (by rw [List.length_append]; omega), if_neg (by simp)]

theorem isRoot_addOrderBlock (orderId : UInt64) (price : Int64) (quantity : UInt32)
    (symbolId : UInt16) (side : Side) :
    IsRoot (addOrderBlock orderId price quantity symbolId side) 24 Template.addOrder :=
  (((((isRoot_rootBlock 24 Template.addOrder).putNat _ _ (by decide)).putNat _ _ (by decide)).putNat
    _ _ (by decide)).putNat _ _ (by decide)).putNat _ _ (by decide)

theorem decodes_addOrder (orderId : UInt64) (price : Int64) (quantity : UInt32)
    (symbolId : UInt16) (side : Side) :
    Decodes (addOrderBlock orderId price quantity symbolId side)
      (.addOrder ⟨orderId, price, quantity, symbolId, side.toU8⟩) := by
  intro rest
  have hroot := isRoot_addOrderBlock orderId price quantity symbolId side
  have hlen : (rootBlock 24 Template.addOrder).length = 32 :=
    (isRoot_rootBlock 24 Template.addOrder).length
  rw [hroot.decodeMessage, if_pos rfl, AddOrder.wrap, hroot.wrapRoot]
  simp (disch := first | decide | simp [hlen]) only [addOrderBlock, leU64, leI64, leU32, leU16,
    leU8, putU64, putI64, putU32, putU16, putU8, leNat_append_left, length_putNat, hlen,
    leNat_putNat_of_disjoint, leNat_putNat_self, ofNat_toNat_mod_u8, ofNat_toNat_mod_u16,
    ofNat_toNat_mod_u32, ofNat_toNat_mod_u64, Int64.toInt64_toUInt64]
  rfl

theorem isRoot_modifyOrderBlock (orderId : UInt64) (newPrice : Int64) (newQuantity : UInt32)
    (symbolId : UInt16) (side : Side) (reason : ModifyReason) :
    IsRoot (modifyOrderBlock orderId newPrice newQuantity symbolId side reason) 24
      Template.modifyOrder :=
  ((((((isRoot_rootBlock 24 Template.modifyOrder).putNat _ _ (by decide)).putNat _ _
    (by decide)).putNat _ _ (by decide)).putNat _ _ (by decide)).putNat _ _ (by decide)).putNat _ _
    (by decide)

theorem decodes_modifyOrder (orderId : UInt64) (newPrice : Int64) (newQuantity : UInt32)
    (symbolId : UInt16) (side : Side) (reason : ModifyReason) :
    Decodes (modifyOrderBlock orderId newPrice newQuantity symbolId side reason)
      (.modifyOrder ⟨orderId, newPrice, newQuantity, symbolId, side.toU8, reason.toU8⟩) := by
  intro rest
  have hroot := isRoot_modifyOrderBlock orderId newPrice newQuantity symbolId side reason
  have hlen : (rootBlock 24 Template.modifyOrder).length = 32 :=
    (isRoot_rootBlock 24 Template.modifyOrder).length
  rw [hroot.decodeMessage, if_neg (by decide), if_pos rfl, ModifyOrder.wrap, hroot.wrapRoot]
  simp (disch := first | decide | simp [hlen]) only [modifyOrderBlock, leU64, leI64, leU32,
    leU16, leU8, putU64, putI64, putU32, putU16, putU8, leNat_append_left, length_putNat, hlen,
    leNat_putNat_of_disjoint, leNat_putNat_self, ofNat_toNat_mod_u8, ofNat_toNat_mod_u16,
    ofNat_toNat_mod_u32, ofNat_toNat_mod_u64, Int64.toInt64_toUInt64]
  rfl

theorem isRoot_deleteOrderBlock (orderId : UInt64) (symbolId : UInt16) (side : Side) :
    IsRoot (deleteOrderBlock orderId symbolId side) 12 Template.deleteOrder :=
  (((isRoot_rootBlock 12 Template.deleteOrder).putNat _ _ (by decide)).putNat _ _
    (by decide)).putNat _ _ (by decide)

theorem decodes_deleteOrder (orderId : UInt64) (symbolId : UInt16) (side : Side) :
    Decodes (deleteOrderBlock orderId symbolId side)
      (.deleteOrder ⟨orderId, symbolId, side.toU8⟩) := by
  intro rest
  have hroot := isRoot_deleteOrderBlock orderId symbolId side
  have hlen : (rootBlock 12 Template.deleteOrder).length = 20 :=
    (isRoot_rootBlock 12 Template.deleteOrder).length
  rw [hroot.decodeMessage, if_neg (by decide), if_neg (by decide), if_pos rfl, DeleteOrder.wrap,
    hroot.wrapRoot]
  simp (disch := first | decide | simp [hlen]) only [deleteOrderBlock, leU64, leU16, leU8, putU64,
    putU16, putU8, leNat_append_left, length_putNat, hlen, leNat_putNat_of_disjoint,
    leNat_putNat_self, ofNat_toNat_mod_u8, ofNat_toNat_mod_u16, ofNat_toNat_mod_u64]
  rfl

theorem isRoot_tradeBlock (tradeId aggressorOrderId restingOrderId : UInt64) (price : Int64)
    (quantity : UInt32) (symbolId : UInt16) (aggressorSide : Side) :
    IsRoot (tradeBlock tradeId aggressorOrderId restingOrderId price quantity symbolId
      aggressorSide) 40 Template.trade :=
  (((((((isRoot_rootBlock 40 Template.trade).putNat _ _ (by decide)).putNat _ _ (by decide)).putNat
    _ _ (by decide)).putNat _ _ (by decide)).putNat _ _ (by decide)).putNat _ _ (by decide)).putNat
    _ _ (by decide)

theorem decodes_trade (tradeId aggressorOrderId restingOrderId : UInt64) (price : Int64)
    (quantity : UInt32) (symbolId : UInt16) (aggressorSide : Side) :
    Decodes (tradeBlock tradeId aggressorOrderId restingOrderId price quantity symbolId
        aggressorSide)
      (.trade ⟨tradeId, aggressorOrderId, restingOrderId, price, quantity, symbolId,
        aggressorSide.toU8⟩) := by
  intro rest
  have hroot := isRoot_tradeBlock tradeId aggressorOrderId restingOrderId price quantity symbolId
    aggressorSide
  have hlen : (rootBlock 40 Template.trade).length = 48 :=
    (isRoot_rootBlock 40 Template.trade).length
  rw [hroot.decodeMessage, if_neg (by decide), if_neg (by decide), if_neg (by decide),
    if_pos rfl, Trade.wrap, hroot.wrapRoot]
  simp (disch := first | decide | simp [hlen]) only [tradeBlock, leU64, leI64, leU32, leU16, leU8,
    putU64, putI64, putU32, putU16, putU8, leNat_append_left, length_putNat, hlen,
    leNat_putNat_of_disjoint, leNat_putNat_self, ofNat_toNat_mod_u8, ofNat_toNat_mod_u16,
    ofNat_toNat_mod_u32, ofNat_toNat_mod_u64, Int64.toInt64_toUInt64]
  rfl

/-! A Heartbeat and a SequenceReset are a root block of one number. -/

section Numbers
variable (sequence : UInt64)

theorem isRoot_heartbeatBlock : IsRoot (heartbeatBlock sequence) 8 Template.heartbeat :=
  (isRoot_rootBlock 8 Template.heartbeat).putNat _ _ (by decide)

theorem isRoot_sequenceResetBlock :
    IsRoot (sequenceResetBlock sequence) 8 Template.sequenceReset :=
  (isRoot_rootBlock 8 Template.sequenceReset).putNat _ _ (by decide)

theorem decodes_heartbeat : Decodes (heartbeatBlock sequence) (.heartbeat sequence) := by
  intro rest
  have hroot := isRoot_heartbeatBlock sequence
  have hlen : (rootBlock 8 Template.heartbeat).length = 16 :=
    (isRoot_rootBlock 8 Template.heartbeat).length
  rw [hroot.decodeMessage, if_neg (by decide), if_neg (by decide), if_neg (by decide),
    if_neg (by decide), if_neg (by decide), if_pos rfl, Heartbeat.wrap, hroot.wrapRoot]
  simp (disch := first | decide | simp [hlen]) only [heartbeatBlock, leU64, putU64,
    leNat_append_left, length_putNat, hlen, leNat_putNat_self, ofNat_toNat_mod_u64]
  rfl

theorem decodes_sequenceReset :
    Decodes (sequenceResetBlock sequence) (.sequenceReset sequence) := by
  intro rest
  have hroot := isRoot_sequenceResetBlock sequence
  have hlen : (rootBlock 8 Template.sequenceReset).length = 16 :=
    (isRoot_rootBlock 8 Template.sequenceReset).length
  rw [hroot.decodeMessage, if_neg (by decide), if_neg (by decide), if_neg (by decide),
    if_neg (by decide), if_neg (by decide), if_neg (by decide), if_pos rfl, SequenceReset.wrap,
    hroot.wrapRoot]
  simp (disch := first | decide | simp [hlen]) only [sequenceResetBlock, leU64, putU64,
    leNat_append_left, length_putNat, hlen, leNat_putNat_self, ofNat_toNat_mod_u64]
  rfl

end Numbers

end MarketData.Wire
