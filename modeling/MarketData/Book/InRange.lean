import MarketData.Wire.OrderCodec
import MarketData.Wire.Packet
import MarketData.Book.Apply

/-!
# `Book/InRange.lean` — a datagram read with every slice checked

The accessors of `Wire/Header.lean` are total: past the end they read zeros. Those of the source
index a slice, and an index out of range ends the process. This module is the decoder a second time,
with reads that can be out of range, and says for which bytes none is.

## What is checked once, and what is not

`wrap` compares the buffer with the length that the header states and that length with the schema's,
so every field of a root block is inside of it. Of a group it compares the buffer with the number of
entries times the length of one, and **the length of one with nothing**. An entry is cut to that
length before its fields are read. So there is one way out of range, `ShortOrders`: a snapshot with
an entry too short for its own last field. Which field is read first does not matter, nor whether an
order fails to apply before the last one is reached, for all the entries have one length.

## Two models of one decoder

Where nothing is out of range the two agree (`readPacket_eq`, `applySnapshotOrders_eq`), and the
rest of the development is about the total one. `packetStarts` is where the iterator comes to; it is
computed with the total decoder, since where a message ends does not depend on what its entries
hold.
-/

set_option autoImplicit false

namespace MarketData.Wire

/-- What reading gives: `none` is a slice index out of range, an error is one the decoder
returns. -/
abbrev Checked (α : Type) := ExceptT WireError Option α

namespace Checked

variable {α β : Type}

/-- Nothing was out of range. -/
def total (e : Except WireError α) : Checked α := ExceptT.mk (some e)

/-- Something was. -/
def outOfRange : Checked α := ExceptT.mk none

@[simp] theorem total_ok_bind (a : α) (f : α → Checked β) : (total (.ok a) >>= f) = f a := rfl

@[simp] theorem total_error_bind (e : WireError) (f : α → Checked β) :
    (total (.error e) >>= f) = total (.error e) := rfl

@[simp] theorem outOfRange_bind (f : α → Checked β) : (outOfRange >>= f) = outOfRange := rfl

theorem ok_bind (a : α) (f : α → Except WireError β) : (Except.ok a >>= f) = f a := rfl

/-- Two continuations that agree on what was read. -/
theorem total_bind {e : Except WireError α} {f : α → Checked β} {g : α → Except WireError β}
    (h : ∀ a, e = .ok a → f a = total (g a)) : (total e >>= f) = total (e >>= g) := by
  cases e with
  | error e => rfl
  | ok a => exact h a rfl

/-- A field of `n` bytes, read from the slice `b[o..o + n]`. -/
def field (n : Nat) (read : Buf → Nat → α) (b : Buf) (o : Nat) : Checked α :=
  if o + n ≤ b.length then total (.ok (read b o)) else outOfRange

theorem field_of_le {n : Nat} {read : Buf → Nat → α} {b : Buf} {o : Nat} (h : o + n ≤ b.length) :
    field n read b o = total (.ok (read b o)) := if_pos h

def leU8 (b : Buf) (o : Nat) : Checked UInt8 := field 1 Wire.leU8 b o
def leU16 (b : Buf) (o : Nat) : Checked UInt16 := field 2 Wire.leU16 b o
def leU32 (b : Buf) (o : Nat) : Checked UInt32 := field 4 Wire.leU32 b o
def leU64 (b : Buf) (o : Nat) : Checked UInt64 := field 8 Wire.leU64 b o
def leI64 (b : Buf) (o : Nat) : Checked Int64 := field 8 Wire.leI64 b o

/-! ## The decoders -/

def PacketHeader.wrap (b : Buf) : Checked PacketHeader :=
  if b.length < packetHeaderLen then total (.error (.shortBuffer packetHeaderLen b.length))
  else do
    let schema ← leU16 b 0
    if schema ≠ schemaId then total (.error (.schemaMismatch schemaId schema))
    else do
      let version ← leU16 b 2
      let messageCount ← leU16 b 4
      let channel ← leU8 b 6
      let flags ← leU8 b 7
      let firstSequence ← leU64 b 8
      let sendTimestampNs ← leU64 b 16
      total (.ok { version, messageCount, channel, flags, firstSequence, sendTimestampNs })

def wrapRoot (message : String) (templateId blockLength : UInt16) (b : Buf) : Checked Nat :=
  if b.length < messageHeaderLen then total (.error (.shortBuffer messageHeaderLen b.length))
  else do
    let template ← leU16 b 2
    if template ≠ templateId then total (.error (.templateMismatch templateId template))
    else do
      let stated ← leU16 b 0
      if stated.toNat < blockLength.toNat then
        total (.error (.blockTooSmall message blockLength stated))
      else if b.length < messageHeaderLen + stated.toNat then
        total (.error (.shortBuffer (messageHeaderLen + stated.toNat) b.length))
      else total (.ok stated.toNat)

def AddOrder.wrap (b : Buf) : Checked (Message × Nat) := do
  let rootLen ← wrapRoot "AddOrder" Template.addOrder 24 b
  let orderId ← leU64 b 8
  let price ← leI64 b 16
  let quantity ← leU32 b 24
  let symbolId ← leU16 b 28
  let sideRaw ← leU8 b 30
  total (.ok (.addOrder { orderId, price, quantity, symbolId, sideRaw },
    messageHeaderLen + rootLen))

def ModifyOrder.wrap (b : Buf) : Checked (Message × Nat) := do
  let rootLen ← wrapRoot "ModifyOrder" Template.modifyOrder 24 b
  let orderId ← leU64 b 8
  let newPrice ← leI64 b 16
  let newQuantity ← leU32 b 24
  let symbolId ← leU16 b 28
  let sideRaw ← leU8 b 30
  let reasonRaw ← leU8 b 31
  total (.ok (.modifyOrder { orderId, newPrice, newQuantity, symbolId, sideRaw, reasonRaw },
    messageHeaderLen + rootLen))

def DeleteOrder.wrap (b : Buf) : Checked (Message × Nat) := do
  let rootLen ← wrapRoot "DeleteOrder" Template.deleteOrder 12 b
  let orderId ← leU64 b 8
  let symbolId ← leU16 b 16
  let sideRaw ← leU8 b 18
  total (.ok (.deleteOrder { orderId, symbolId, sideRaw }, messageHeaderLen + rootLen))

def Trade.wrap (b : Buf) : Checked (Message × Nat) := do
  let rootLen ← wrapRoot "Trade" Template.trade 40 b
  let tradeId ← leU64 b 8
  let aggressorOrderId ← leU64 b 16
  let restingOrderId ← leU64 b 24
  let price ← leI64 b 32
  let quantity ← leU32 b 40
  let symbolId ← leU16 b 44
  let aggressorSideRaw ← leU8 b 46
  total (.ok (.trade
    { tradeId, aggressorOrderId, restingOrderId, price, quantity, symbolId, aggressorSideRaw },
    messageHeaderLen + rootLen))

/-- The entry is a slice of its own, `blockLen` bytes long. -/
def SnapshotOrder.read (entry : Buf) : Checked SnapshotOrder := do
  let sideRaw ← leU8 entry 20
  let orderId ← leU64 entry 0
  let price ← leI64 entry 8
  let quantity ← leU32 entry 16
  total (.ok { orderId, price, quantity, sideRaw })

/-- The slice `b[pos..pos + blockLen]` of `SnapshotOrdersIter`. -/
def entryAt (b : Buf) (blockLen pos : Nat) : Checked Buf :=
  if pos + blockLen ≤ b.length then total (.ok ((b.drop pos).take blockLen)) else outOfRange

def snapshotOrders (b : Buf) (blockLen : Nat) : (remaining pos : Nat) → Checked (List SnapshotOrder)
  | 0, _ => total (.ok [])
  | remaining + 1, pos => do
    let entry ← entryAt b blockLen pos
    let order ← SnapshotOrder.read entry
    let orders ← snapshotOrders b blockLen remaining (pos + blockLen)
    total (.ok (order :: orders))

def Snapshot.wrap (b : Buf) : Checked (Message × Nat) := do
  let rootLen ← wrapRoot "Snapshot" Template.snapshot 12 b
  let group := messageHeaderLen + rootLen
  if b.length < group + groupSizeEncodingLen then
    total (.error (.shortBuffer (group + groupSizeEncodingLen) b.length))
  else do
    let ordersBlockLength ← leU16 b group
    let ordersCount ← leU16 b (group + 2)
    let extent := group + groupSizeEncodingLen + ordersCount.toNat * ordersBlockLength.toNat
    if b.length < extent then total (.error (.shortBuffer extent b.length))
    else do
      let lastSequence ← leU64 b 8
      let symbolId ← leU16 b 16
      let flags ← leU8 b 18
      let orders ← snapshotOrders b ordersBlockLength.toNat ordersCount.toNat
        (group + groupSizeEncodingLen)
      total (.ok (.snapshot { lastSequence, symbolId, flags, orders }, extent))

def Heartbeat.wrap (b : Buf) : Checked (Message × Nat) := do
  let rootLen ← wrapRoot "Heartbeat" Template.heartbeat 8 b
  let lastSequence ← leU64 b 8
  total (.ok (.heartbeat lastSequence, messageHeaderLen + rootLen))

def SequenceReset.wrap (b : Buf) : Checked (Message × Nat) := do
  let rootLen ← wrapRoot "SequenceReset" Template.sequenceReset 8 b
  let newSequence ← leU64 b 8
  total (.ok (.sequenceReset newSequence, messageHeaderLen + rootLen))

/-- `decode_message`, and every accessor of what it gives. -/
def decodeMessage (b : Buf) : Checked (Message × Nat) :=
  if b.length < messageHeaderLen then total (.error (.shortBuffer messageHeaderLen b.length))
  else do
    let schema ← leU16 b 4
    let template ← leU16 b 2
    if schema ≠ schemaId then total (.error (.schemaMismatch schemaId schema))
    else if template = Template.addOrder then AddOrder.wrap b
    else if template = Template.modifyOrder then ModifyOrder.wrap b
    else if template = Template.deleteOrder then DeleteOrder.wrap b
    else if template = Template.trade then Trade.wrap b
    else if template = Template.snapshot then Snapshot.wrap b
    else if template = Template.heartbeat then Heartbeat.wrap b
    else if template = Template.sequenceReset then SequenceReset.wrap b
    else total (.error (.unknownTemplate template))

/-- What the iterator yields, with the accessors of each message read before the next one is
decoded. -/
def messagesFrom (b : Buf) : (remaining pos : Nat) → (sequence : UInt64) →
    Option (List (Except WireError (UInt64 × Message)))
  | 0, _, _ => some []
  | remaining + 1, pos, sequence =>
    -- `&self.buf[self.pos..]`
    if pos ≤ b.length then
      match (decodeMessage (b.drop pos)).run with
      | some (.ok (msg, len)) =>
        (messagesFrom b remaining (pos + len) (sequence + 1)).map (.ok (sequence, msg) :: ·)
      | some (.error e) => some [.error e]
      | none => none
    else none

/-- `PacketReader::new` and all that is read of its messages. -/
def readPacket (b : Buf) : Option (Except WireError (List (Except WireError (UInt64 × Message)))) :=
  match (PacketHeader.wrap b).run with
  | some (.ok header) =>
    (messagesFrom b header.messageCount.toNat packetHeaderLen header.firstSequence).map .ok
  | some (.error e) => some (.error e)
  | none => none


/-! ## The one way out of range -/

/-- `orders_block_length`, of a snapshot that starts the bytes. -/
def ordersBlockLength (b : Buf) : Nat :=
  (Wire.leU16 b (messageHeaderLen + (Wire.leU16 b 0).toNat)).toNat

/-- `orders_count` -/
def ordersCount (b : Buf) : Nat :=
  (Wire.leU16 b (messageHeaderLen + (Wire.leU16 b 0).toNat + 2)).toNat

/-- The bytes start with a snapshot that has orders, each of them shorter than the fields read of
it. -/
def ShortOrders (b : Buf) : Prop :=
  Wire.leU16 b 2 = Template.snapshot ∧ ordersBlockLength b < 21 ∧ ordersCount b ≠ 0

instance (b : Buf) : Decidable (ShortOrders b) := inferInstanceAs (Decidable (_ ∧ _))

/-- Where the messages start that the iterator yields. -/
def startsFrom (b : Buf) : (remaining pos : Nat) → List Nat
  | 0, _ => []
  | remaining + 1, pos =>
    match Wire.decodeMessage (b.drop pos) with
    | .ok (_, len) => pos :: startsFrom b remaining (pos + len)
    | .error _ => []

def packetStarts (b : Buf) : List Nat :=
  match Wire.PacketHeader.wrap b with
  | .ok header => startsFrom b header.messageCount.toNat packetHeaderLen
  | .error _ => []

/-! ## What is checked -/

section

variable {b : Buf}

theorem header_eq (b : Buf) : PacketHeader.wrap b = total (Wire.PacketHeader.wrap b) := by
  unfold PacketHeader.wrap Wire.PacketHeader.wrap
  split
  · rfl
  · rename_i hlen
    have hlen : 24 ≤ b.length := Nat.le_of_not_lt hlen
    simp (disch := omega) only [leU8, leU16, leU64, field_of_le, total_ok_bind]
    split
    · rfl
    · rfl

theorem wrapRoot_eq (message : String) (templateId blockLength : UInt16) (b : Buf) :
    wrapRoot message templateId blockLength b =
      total (Wire.wrapRoot message templateId blockLength b) := by
  unfold wrapRoot Wire.wrapRoot
  split
  · rfl
  · rename_i hlen
    have hlen : 8 ≤ b.length := Nat.le_of_not_lt hlen
    simp (disch := omega) only [leU16, field_of_le, total_ok_bind]
    split
    · rfl
    split
    · rfl
    split
    · rfl
    · rfl

/-- The fields of a root block are in range. -/
theorem wrapRoot_bind {message : String} {templateId blockLength : UInt16} {n : Nat} {α : Type}
    {f : Nat → Checked α} {g : Nat → Except WireError α}
    (hn : messageHeaderLen + blockLength.toNat = n)
    (h : ∀ rootLen, n ≤ b.length → f rootLen = total (g rootLen)) :
    (wrapRoot message templateId blockLength b >>= f) =
      total (Wire.wrapRoot message templateId blockLength b >>= g) := by
  rw [wrapRoot_eq]
  refine total_bind fun rootLen hroot => ?_
  obtain ⟨hlen, -, -, hblock⟩ := wrapRoot?_some (wrapRoot_eq_ok.mp hroot)
  exact h rootLen (by omega)

theorem addOrder_eq (b : Buf) : AddOrder.wrap b = total (Wire.AddOrder.wrap b) := by
  refine wrapRoot_bind (n := 32) rfl fun rootLen hlen => ?_
  simp (disch := omega) only [leU8, leU16, leU32, leU64, leI64, field_of_le, total_ok_bind]

theorem modifyOrder_eq (b : Buf) : ModifyOrder.wrap b = total (Wire.ModifyOrder.wrap b) := by
  refine wrapRoot_bind (n := 32) rfl fun rootLen hlen => ?_
  simp (disch := omega) only [leU8, leU16, leU32, leU64, leI64, field_of_le, total_ok_bind]

theorem deleteOrder_eq (b : Buf) : DeleteOrder.wrap b = total (Wire.DeleteOrder.wrap b) := by
  refine wrapRoot_bind (n := 20) rfl fun rootLen hlen => ?_
  simp (disch := omega) only [leU8, leU16, leU64, field_of_le, total_ok_bind]

theorem trade_eq (b : Buf) : Trade.wrap b = total (Wire.Trade.wrap b) := by
  refine wrapRoot_bind (n := 48) rfl fun rootLen hlen => ?_
  simp (disch := omega) only [leU8, leU16, leU32, leU64, leI64, field_of_le, total_ok_bind]

theorem heartbeat_eq (b : Buf) : Heartbeat.wrap b = total (Wire.Heartbeat.wrap b) := by
  refine wrapRoot_bind (n := 16) rfl fun rootLen hlen => ?_
  rw [leU64, field_of_le (by omega), total_ok_bind]

theorem sequenceReset_eq (b : Buf) :
    SequenceReset.wrap b = total (Wire.SequenceReset.wrap b) := by
  refine wrapRoot_bind (n := 16) rfl fun rootLen hlen => ?_
  rw [leU64, field_of_le (by omega), total_ok_bind]

/-! ## The group -/

theorem entryAt_of_le {blockLen pos : Nat} (h : pos + blockLen ≤ b.length) :
    entryAt b blockLen pos = total (.ok ((b.drop pos).take blockLen)) := if_pos h

theorem length_entry {blockLen pos : Nat} (h : pos + blockLen ≤ b.length) :
    ((b.drop pos).take blockLen).length = blockLen := by
  rw [List.length_take, List.length_drop]
  omega

/-- An entry is read if its last field is in range, whichever field is read first. -/
theorem read_entry_eq (entry : Buf) : SnapshotOrder.read entry =
    if 21 ≤ entry.length then total (.ok (Wire.SnapshotOrder.read entry)) else outOfRange := by
  unfold SnapshotOrder.read
  split
  · simp (disch := omega) only [leU8, leU32, leU64, leI64, field_of_le, total_ok_bind]
    rfl
  · rename_i hshort
    rw [leU8, field, if_neg (by omega), outOfRange_bind]

theorem snapshotOrders_eq {blockLen : Nat} (h : 21 ≤ blockLen) (remaining pos : Nat)
    (hlen : pos + remaining * blockLen ≤ b.length) :
    snapshotOrders b blockLen remaining pos =
      total (.ok (Wire.snapshotOrders b blockLen remaining pos)) := by
  induction remaining generalizing pos with
  | zero => rfl
  | succ remaining ih =>
    rw [Nat.succ_mul] at hlen
    rw [snapshotOrders, entryAt_of_le (by omega), total_ok_bind, read_entry_eq,
      length_entry (by omega), if_pos h, total_ok_bind, ih (pos + blockLen) (by omega),
      total_ok_bind]
    rfl

theorem snapshotOrders_short {blockLen : Nat} (h : blockLen < 21) (remaining pos : Nat)
    (hlen : pos + blockLen ≤ b.length) :
    snapshotOrders b blockLen (remaining + 1) pos = outOfRange := by
  rw [snapshotOrders, entryAt_of_le hlen, total_ok_bind, read_entry_eq, length_entry hlen,
    if_neg (by omega), outOfRange_bind]

/-- **A snapshot** that is refused is refused; one that is not is read, or is short. -/
theorem snapshot_eq (b : Buf) : Snapshot.wrap b =
    if ShortOrders b ∧ (Wire.Snapshot.wrap b).isOk = true then outOfRange
    else total (Wire.Snapshot.wrap b) := by
  unfold Snapshot.wrap Wire.Snapshot.wrap
  rw [wrapRoot_eq]
  cases hroot : Wire.wrapRoot "Snapshot" Template.snapshot 12 b with
  | error e =>
    rw [if_neg fun h => Bool.false_ne_true h.2]
    rfl
  | ok rootLen =>
    obtain ⟨hlen, htemplate, rfl, hblock⟩ := wrapRoot?_some (wrapRoot_eq_ok.mp hroot)
    have hblock : 12 ≤ (Wire.leU16 b 0).toNat := hblock
    rw [total_ok_bind, ok_bind]
    dsimp only
    by_cases hgroup : b.length < messageHeaderLen + (Wire.leU16 b 0).toNat + groupSizeEncodingLen
    · rw [if_pos hgroup, if_pos hgroup, if_neg fun h => Bool.false_ne_true h.2]
    rw [if_neg hgroup, if_neg hgroup]
    unfold groupSizeEncodingLen at hgroup
    rw [leU16, field_of_le (by omega), total_ok_bind, leU16, field_of_le (by omega), total_ok_bind]
    have hsize : (Wire.leU16 b (messageHeaderLen + (Wire.leU16 b 0).toNat)).toNat =
        ordersBlockLength b := rfl
    have hcount : (Wire.leU16 b (messageHeaderLen + (Wire.leU16 b 0).toNat + 2)).toNat =
        ordersCount b := rfl
    simp only [hsize, hcount]
    by_cases hextent : b.length < messageHeaderLen + (Wire.leU16 b 0).toNat +
        groupSizeEncodingLen + ordersCount b * ordersBlockLength b
    · rw [if_pos hextent, if_pos hextent, if_neg fun h => Bool.false_ne_true h.2]
    rw [if_neg hextent, if_neg hextent]
    unfold messageHeaderLen at hlen
    simp (disch := omega) only [leU8, leU16, leU64, field_of_le, total_ok_bind]
    by_cases hshort : ShortOrders b
    · obtain ⟨-, hsize, hcount⟩ := hshort
      obtain ⟨n, hn⟩ := Nat.exists_eq_succ_of_ne_zero hcount
      rw [hn, Nat.succ_mul] at hextent
      have hnone : snapshotOrders b (ordersBlockLength b) (ordersCount b) (messageHeaderLen +
          (Wire.leU16 b 0).toNat + groupSizeEncodingLen) = outOfRange :=
        hn ▸ snapshotOrders_short hsize n _ (by omega)
      rw [if_pos ⟨⟨htemplate, hsize, hcount⟩, rfl⟩, hnone, outOfRange_bind]
    · have horders : snapshotOrders b (ordersBlockLength b) (ordersCount b) (messageHeaderLen +
          (Wire.leU16 b 0).toNat + groupSizeEncodingLen) = total (.ok (Wire.snapshotOrders b
            (ordersBlockLength b) (ordersCount b) (messageHeaderLen + (Wire.leU16 b 0).toNat +
              groupSizeEncodingLen))) := by
        by_cases hzero : ordersCount b = 0
        · rw [hzero]
          rfl
        · exact snapshotOrders_eq
            (Nat.le_of_not_lt fun h => hshort ⟨htemplate, h, hzero⟩) _ _ (by omega)
      rw [if_neg fun h => hshort h.1, horders, total_ok_bind]

/-! ## A datagram -/

theorem decodeMessage_eq (b : Buf) : decodeMessage b =
    if ShortOrders b ∧ (Wire.decodeMessage b).isOk = true then outOfRange
    else total (Wire.decodeMessage b) := by
  unfold decodeMessage Wire.decodeMessage
  by_cases hlen : b.length < messageHeaderLen
  · rw [if_pos hlen, if_pos hlen, if_neg fun h => Bool.false_ne_true h.2]
  have hlen8 : 8 ≤ b.length := Nat.le_of_not_lt hlen
  rw [if_neg hlen, if_neg hlen]
  simp (disch := omega) only [leU16, field_of_le, total_ok_bind]
  by_cases hschema : Wire.leU16 b 4 ≠ schemaId
  · rw [if_pos hschema, if_pos hschema, if_neg fun h => Bool.false_ne_true h.2]
  rw [if_neg hschema, if_neg hschema]
  have hother : ∀ {t : UInt16}, Wire.leU16 b 2 = t → t ≠ Template.snapshot → ¬ ShortOrders b :=
    fun ht hne hshort => hne (ht.symm.trans hshort.1)
  by_cases hadd : Wire.leU16 b 2 = Template.addOrder
  · rw [if_pos hadd, if_pos hadd, if_neg fun h => hother hadd (by decide) h.1, addOrder_eq]
  rw [if_neg hadd, if_neg hadd]
  by_cases hmodify : Wire.leU16 b 2 = Template.modifyOrder
  · rw [if_pos hmodify, if_pos hmodify, if_neg fun h => hother hmodify (by decide) h.1,
      modifyOrder_eq]
  rw [if_neg hmodify, if_neg hmodify]
  by_cases hdelete : Wire.leU16 b 2 = Template.deleteOrder
  · rw [if_pos hdelete, if_pos hdelete, if_neg fun h => hother hdelete (by decide) h.1,
      deleteOrder_eq]
  rw [if_neg hdelete, if_neg hdelete]
  by_cases htrade : Wire.leU16 b 2 = Template.trade
  · rw [if_pos htrade, if_pos htrade, if_neg fun h => hother htrade (by decide) h.1, trade_eq]
  rw [if_neg htrade, if_neg htrade]
  by_cases hsnapshot : Wire.leU16 b 2 = Template.snapshot
  · rw [if_pos hsnapshot, if_pos hsnapshot, snapshot_eq]
  have hnot : ¬ ShortOrders b := fun hshort => hsnapshot hshort.1
  rw [if_neg hsnapshot, if_neg hsnapshot, if_neg fun h : ShortOrders b ∧ _ => hnot h.1]
  split
  · exact heartbeat_eq b
  split
  · exact sequenceReset_eq b
  · rfl

theorem root_ok {message : String} {templateId blockLength : UInt16} {f : Nat → Message}
    {m : Message} {len : Nat}
    (h : (Wire.wrapRoot message templateId blockLength b >>= fun rootLen =>
      .ok (f rootLen, messageHeaderLen + rootLen)) = .ok (m, len)) :
    len ≤ b.length ∧ ∃ rootLen, m = f rootLen := by
  cases hroot : Wire.wrapRoot message templateId blockLength b with
  | error e =>
    rw [hroot] at h
    cases h
  | ok rootLen =>
    rw [hroot, ok_bind] at h
    cases h
    exact ⟨(wrapRoot?_some (wrapRoot_eq_ok.mp hroot)).1, rootLen, rfl⟩

/-- What a snapshot that is decoded has, in the bytes. -/
structure Wrapped (b : Buf) (d : Snapshot) : Prop where
  template : Wire.leU16 b 2 = Template.snapshot
  root : 20 ≤ b.length
  extent : messageHeaderLen + (Wire.leU16 b 0).toNat + groupSizeEncodingLen +
    ordersCount b * ordersBlockLength b ≤ b.length
  fields : d = ⟨Wire.leU64 b 8, Wire.leU16 b 16, Wire.leU8 b 18,
    Wire.snapshotOrders b (ordersBlockLength b) (ordersCount b)
      (messageHeaderLen + (Wire.leU16 b 0).toNat + groupSizeEncodingLen)⟩

theorem snapshot_ok {m : Message} {len : Nat} (h : Wire.Snapshot.wrap b = .ok (m, len)) :
    len ≤ b.length ∧ ∃ d, m = .snapshot d ∧ Wrapped b d := by
  unfold Wire.Snapshot.wrap at h
  cases hroot : Wire.wrapRoot "Snapshot" Template.snapshot 12 b with
  | error e =>
    rw [hroot] at h
    cases h
  | ok rootLen =>
    obtain ⟨hlen, htemplate, rfl, hblock⟩ := wrapRoot?_some (wrapRoot_eq_ok.mp hroot)
    have hblock : 12 ≤ (Wire.leU16 b 0).toNat := hblock
    rw [hroot, ok_bind] at h
    dsimp only at h
    split_ifs at h with hgroup hextent
    cases h
    have hextent := Nat.le_of_not_lt hextent
    unfold messageHeaderLen at hlen
    exact ⟨hextent, _, rfl, htemplate, by omega, hextent, rfl⟩

/-- A message ends within the bytes it is decoded from. -/
theorem decodeMessage_le {m : Message} {len : Nat} (h : Wire.decodeMessage b = .ok (m, len)) :
    len ≤ b.length := by
  unfold Wire.decodeMessage at h
  split_ifs at h
  · exact (root_ok h).1
  · exact (root_ok h).1
  · exact (root_ok h).1
  · exact (root_ok h).1
  · exact (snapshot_ok h).1
  · exact (root_ok h).1
  · exact (root_ok h).1

theorem decodeMessage_snapshot {d : Snapshot} {len : Nat}
    (h : Wire.decodeMessage b = .ok (.snapshot d, len)) : Wrapped b d := by
  unfold Wire.decodeMessage at h
  split_ifs at h
  · obtain ⟨-, rootLen, hm⟩ := root_ok h
    cases hm
  · obtain ⟨-, rootLen, hm⟩ := root_ok h
    cases hm
  · obtain ⟨-, rootLen, hm⟩ := root_ok h
    cases hm
  · obtain ⟨-, rootLen, hm⟩ := root_ok h
    cases hm
  · obtain ⟨-, d', hm, hd⟩ := snapshot_ok h
    cases hm
    exact hd
  · obtain ⟨-, rootLen, hm⟩ := root_ok h
    cases hm
  · obtain ⟨-, rootLen, hm⟩ := root_ok h
    cases hm

/-- **What the iterator yields is in range** unless it comes to a short snapshot. -/
theorem messagesFrom_eq (remaining pos : Nat) (sequence : UInt64) (hpos : pos ≤ b.length) :
    messagesFrom b remaining pos sequence =
      if ∃ p ∈ startsFrom b remaining pos, ShortOrders (b.drop p) then none
      else some (Wire.messagesFrom b remaining pos sequence) := by
  induction remaining generalizing pos sequence with
  | zero =>
    refine (if_neg ?_).symm
    rintro ⟨p, hp, -⟩
    cases hp
  | succ remaining ih =>
    rw [messagesFrom, if_pos hpos, decodeMessage_eq, startsFrom, Wire.messagesFrom]
    cases hdecode : Wire.decodeMessage (b.drop pos) with
    | error e =>
      rw [if_neg fun h => Bool.false_ne_true h.2]
      refine (if_neg ?_).symm
      rintro ⟨p, hp, -⟩
      cases hp
    | ok decoded =>
      obtain ⟨m, len⟩ := decoded
      have hle : pos + len ≤ b.length := by
        have := decodeMessage_le hdecode
        rw [List.length_drop] at this
        omega
      by_cases hshort : ShortOrders (b.drop pos)
      · rw [if_pos ⟨hshort, rfl⟩]
        exact (if_pos ⟨pos, List.mem_cons_self, hshort⟩).symm
      · rw [if_neg fun h => hshort h.1]
        show (messagesFrom b remaining (pos + len) (sequence + 1)).map _ = _
        rw [ih _ _ hle]
        by_cases hrest : ∃ p ∈ startsFrom b remaining (pos + len), ShortOrders (b.drop p)
        · obtain ⟨p, hp, hp'⟩ := hrest
          rw [if_pos ⟨p, hp, hp'⟩, if_pos ⟨p, List.mem_cons_of_mem _ hp, hp'⟩]
          rfl
        · rw [if_neg hrest, if_neg]
          · rfl
          · rintro ⟨p, hp, hp'⟩
            rcases List.mem_cons.mp hp with rfl | hp
            · exact hshort hp'
            · exact hrest ⟨p, hp, hp'⟩

theorem header_le {header : Wire.PacketHeader} (h : Wire.PacketHeader.wrap b = .ok header) :
    packetHeaderLen ≤ b.length := by
  unfold Wire.PacketHeader.wrap at h
  split_ifs at h with hlen
  exact Nat.le_of_not_lt hlen

/-- **Reading a datagram**, with everything in it: what the rest of the development has it read as,
or out of range at a short snapshot. -/
theorem readPacket_eq (b : Buf) : readPacket b =
    if ∃ pos ∈ packetStarts b, ShortOrders (b.drop pos) then none
    else some (Wire.readPacket b) := by
  unfold readPacket packetStarts Wire.readPacket
  rw [header_eq]
  cases hheader : Wire.PacketHeader.wrap b with
  | error e =>
    refine (if_neg ?_).symm
    rintro ⟨p, hp, -⟩
    cases hp
  | ok header =>
    show (messagesFrom _ _ _ _).map _ = _
    rw [messagesFrom_eq _ _ _ (header_le hheader)]
    dsimp only
    split
    · rfl
    · rfl

end

end Checked
end MarketData.Wire

namespace MarketData.Book

open MarketData.Wire

/-! ## Applying a snapshot's orders -/

section

variable {B : Type} [OrderBook B]

/-- One turn of `for order in d.orders()`, up to the book: the side is read, and refused, before the
other fields. -/
def readOrder (b : Buf) (blockLen pos : Nat) : Checked (Side × SnapshotOrder) := do
  let entry ← Checked.entryAt b blockLen pos
  let sideRaw ← Checked.leU8 entry 20
  let side ← Checked.total (Side.fromU8 sideRaw)
  let orderId ← Checked.leU64 entry 0
  let price ← Checked.leI64 entry 8
  let quantity ← Checked.leU32 entry 16
  Checked.total (.ok (side, { orderId, price, quantity, sideRaw }))

/-- The loop of `apply_snapshot_orders` over the bytes. -/
def addOrdersFrom (symbolId : UInt16) (b : Buf) (blockLen : Nat) :
    (remaining pos : Nat) → B → Option (Except ApplyError Unit × B)
  | 0, _, book => some (.ok (), book)
  | remaining + 1, pos, book =>
    match (readOrder b blockLen pos).run with
    | none => none
    | some (.error e) => some (.error (.wire e), book)
    | some (.ok (side, order)) =>
      match OrderBook.add book order.orderId side order.price order.quantity with
      | (.ok _, book) => addOrdersFrom symbolId b blockLen remaining (pos + blockLen) book
      | (.error (.duplicateOrderId orderId), book) =>
        some (.error (.snapshotOverlap symbolId orderId), book)
      | (.error e, book) => some (.error (.book symbolId e), book)

/-- What `d.orders()` starts with, and the symbol: the position of the first entry, the length of
one, how many there are. -/
def readGroup (b : Buf) : Checked (UInt16 × Nat × Nat × Nat) := do
  let symbolId ← Checked.leU16 b 16
  let rootLen ← Checked.leU16 b 0
  let group := messageHeaderLen + rootLen.toNat
  let blockLen ← Checked.leU16 b group
  let count ← Checked.leU16 b (group + 2)
  Checked.total (.ok (symbolId, group + groupSizeEncodingLen, blockLen.toNat, count.toNat))

/-- `apply_snapshot_orders`, of the snapshot that starts the bytes. -/
def applyOrders (books : BookSet B) (b : Buf) : Option (Except ApplyError Unit × BookSet B) :=
  match (readGroup b).run with
  | some (.ok (symbolId, pos, blockLen, count)) =>
    (addOrdersFrom symbolId b blockLen count pos (books.book symbolId)).map fun (result, book) =>
      (result, books.put symbolId book)
  | _ => none

theorem readOrder_eq {b : Buf} {blockLen pos : Nat} (h : pos + blockLen ≤ b.length) :
    readOrder b blockLen pos =
      if 21 ≤ blockLen then
        Checked.total ((SnapshotOrder.read ((b.drop pos).take blockLen)).side.map fun side =>
          (side, SnapshotOrder.read ((b.drop pos).take blockLen)))
      else Checked.outOfRange := by
  have hlen := Checked.length_entry h
  unfold readOrder
  rw [Checked.entryAt_of_le h, Checked.total_ok_bind]
  generalize (b.drop pos).take blockLen = entry at hlen ⊢
  split
  · simp (disch := omega) only [Checked.leU8, Checked.leU32, Checked.leU64, Checked.leI64,
      Checked.field_of_le, Checked.total_ok_bind]
    unfold SnapshotOrder.side
    show _ = Checked.total ((Side.fromU8 (leU8 entry 20)).map _)
    cases Side.fromU8 (leU8 entry 20) with
    | error e => rfl
    | ok side => rfl
  · rw [Checked.leU8, Checked.field, if_neg (by omega), Checked.outOfRange_bind]

theorem addOrdersFrom_eq (symbolId : UInt16) {b : Buf} {blockLen : Nat} (h : 21 ≤ blockLen)
    (remaining pos : Nat) (hlen : pos + remaining * blockLen ≤ b.length) (book : B) :
    addOrdersFrom symbolId b blockLen remaining pos book =
      some (addSnapshotOrders symbolId (snapshotOrders b blockLen remaining pos) book) := by
  induction remaining generalizing pos book with
  | zero => rfl
  | succ remaining ih =>
    rw [Nat.succ_mul] at hlen
    rw [addOrdersFrom, readOrder_eq (by omega), if_pos h, snapshotOrders, addSnapshotOrders]
    generalize SnapshotOrder.read ((b.drop pos).take blockLen) = order
    cases order.side with
    | error e => rfl
    | ok side =>
      dsimp only [Checked.total, ExceptT.run, ExceptT.mk, Except.map]
      rcases OrderBook.add book order.orderId side order.price order.quantity with ⟨result, book'⟩
      cases result with
      | ok _ => exact ih (pos + blockLen) (by omega) book'
      | error e =>
        cases e with
        | duplicateOrderId orderId => rfl
        | _ => rfl

theorem addOrdersFrom_short (symbolId : UInt16) {b : Buf} {blockLen : Nat} (h : blockLen < 21)
    (remaining pos : Nat) (hlen : pos + blockLen ≤ b.length) (book : B) :
    addOrdersFrom symbolId b blockLen (remaining + 1) pos book = none := by
  rw [addOrdersFrom, readOrder_eq hlen, if_neg (Nat.not_le.mpr h)]
  rfl

/-- **Applying a snapshot's orders**, of one that is decoded. -/
theorem applyOrders_eq (books : BookSet B) {b : Buf} {d : Snapshot} {len : Nat}
    (h : decodeMessage b = .ok (.snapshot d, len)) : applyOrders books b =
      if Checked.ShortOrders b then none else some (applySnapshotOrders books d) := by
  obtain ⟨htemplate, hroot, hextent, rfl⟩ := Checked.decodeMessage_snapshot h
  have hgroup : readGroup b = Checked.total (.ok (leU16 b 16,
      messageHeaderLen + (leU16 b 0).toNat + groupSizeEncodingLen,
      Checked.ordersBlockLength b, Checked.ordersCount b)) := by
    unfold readGroup
    unfold groupSizeEncodingLen at hextent
    simp (disch := omega) only [Checked.leU16, Checked.field_of_le, Checked.total_ok_bind]
    rfl
  unfold applyOrders
  rw [hgroup]
  show Option.map _ (addOrdersFrom _ _ _ _ _ _) = _
  by_cases hshort : Checked.ShortOrders b
  · obtain ⟨-, hsize, hcount⟩ := hshort
    obtain ⟨n, hn⟩ := Nat.exists_eq_succ_of_ne_zero hcount
    rw [hn, Nat.succ_mul] at hextent
    rw [if_pos ⟨htemplate, hsize, hcount⟩, hn, addOrdersFrom_short _ hsize _ _ (by omega)]
    rfl
  · rw [if_neg hshort]
    by_cases hzero : Checked.ordersCount b = 0
    · rw [hzero]
      rfl
    · have hsize : 21 ≤ Checked.ordersBlockLength b :=
        Nat.le_of_not_lt fun h => hshort ⟨htemplate, h, hzero⟩
      rw [addOrdersFrom_eq _ hsize _ _ (by omega)]
      rfl

end

/-! ## Every byte string -/

/-- Nothing that is read of the datagram is out of range, nor where a snapshot in it is applied. -/
structure InRange (b : Buf) : Prop where
  read : ∃ messages, Checked.readPacket b = some messages
  applied : ∀ pos ∈ Checked.packetStarts b, ∀ d len,
    decodeMessage (b.drop pos) = .ok (.snapshot d, len) →
      ∀ {B : Type} [OrderBook B] (books : BookSet B), ∃ result,
        applyOrders books (b.drop pos) = some result

/-- **Reading a datagram never leaves it, if and only if** none of its messages is a snapshot whose
orders are too short to be read. -/
theorem in_range_iff (b : Buf) :
    InRange b ↔ ∀ pos ∈ Checked.packetStarts b, ¬ Checked.ShortOrders (b.drop pos) := by
  constructor
  · rintro ⟨⟨messages, hread⟩, -⟩ pos hpos hshort
    rw [Checked.readPacket_eq, if_pos ⟨pos, hpos, hshort⟩] at hread
    cases hread
  · intro h
    refine ⟨⟨readPacket b, ?_⟩, fun pos hpos d len hdecode B _ books => ?_⟩
    · rw [Checked.readPacket_eq, if_neg fun ⟨pos, hpos, hshort⟩ => h pos hpos hshort]
    · rw [applyOrders_eq books hdecode, if_neg (h pos hpos)]
      exact ⟨_, rfl⟩

/-- A snapshot datagram with one order, whose entries are stated to be empty. -/
def emptyEntry : Buf :=
  putU16 (packetHeaderBlock 0 packetFlagSnapshot 1 0) 4 1 ++
    rootBlock 12 Template.snapshot ++ [0, 0, 1, 0]

theorem empty_entry_out_of_range : ¬ InRange emptyEntry := by
  rintro ⟨⟨messages, hread⟩, -⟩
  have hshort : ∃ pos ∈ Checked.packetStarts emptyEntry,
      Checked.ShortOrders (emptyEntry.drop pos) := by decide +kernel
  rw [Checked.readPacket_eq, if_pos hshort] at hread
  cases hread

end MarketData.Book
