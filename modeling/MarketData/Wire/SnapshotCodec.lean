import MarketData.Wire.Packet

/-!
# `Wire/SnapshotCodec.lean` — the snapshot encoder

`SnapshotEncoder` and `patch_snapshot_flags` (`crates/wire/src/generated.rs`). The encoder writes
straight into the caller's buffer: `start` writes the root block and the group header, each
`push_order` appends an entry while there is room, and `finish` patches the entry count. The
flags are patched afterwards, when it is known whether this fragment is the last one.

## The block it leaves

An encoder that writes into a buffer has a value only in the end, after two patches. `snapshotBlock`
is that value, written down directly: the head with its count and its flags, and the entries.
`Packed` is an encoder on the way there, and who makes its calls shows with it that they leave the
block (`Matching/Snapshot.lean`, `Wire/PacketWriter.lean`); from there on a snapshot message is this
block.

## Its parts

A decoder finds the group behind a root block whose length it has to be told, and the entries at
another length it has to be told. `SnapshotParts` is a message with any two such lengths, and reads
back whatever they are (`SnapshotParts.decodes`). The block of an encoder is the case in which both
are those of its own schema (`patchedHead_eq`), which is why nothing about it is read off its bytes
twice.

The count of a group is 16 bits wide. `push_order` refuses the order for which there would be no
count, so a block of that many orders does not come from an encoder, and `decodes_snapshot` asks for
fewer.
-/

set_option autoImplicit false

namespace MarketData.Wire

open MarketData.Bytes

structure SnapshotEncoder where
  buf : Buf
  pos : Nat
  count : UInt16

/-- The 24 bytes `start` writes: header, root block, group header. -/
def snapshotHead (lastSequence : UInt64) (symbolId : UInt16) (flags : UInt8) : Buf :=
  let b := List.replicate (messageHeaderLen + 12 + groupSizeEncodingLen) 0
  let b := writeMessageHeader b 12 Template.snapshot
  let b := putU64 b 8 lastSequence
  let b := putU16 b 16 symbolId
  let b := putU8 b 18 flags
  putU16 b 20 24

/-- The 24 bytes `push_order` writes. -/
def snapshotEntry (orderId : UInt64) (price : Int64) (quantity : UInt32) (side : Side) : Buf :=
  let b := List.replicate 24 0
  let b := putU64 b 0 orderId
  let b := putI64 b 8 price
  let b := putU32 b 16 quantity
  putU8 b 20 side.toU8

namespace SnapshotEncoder

def start (b : Buf) (lastSequence : UInt64) (symbolId : UInt16) (flags : UInt8) :
    Except WireError SnapshotEncoder :=
  let head := messageHeaderLen + 12 + groupSizeEncodingLen
  if b.length < head then .error (.shortBuffer head b.length)
  else .ok ⟨snapshotHead lastSequence symbolId flags ++ b.drop head, head, 0⟩

def pushOrder (e : SnapshotEncoder) (orderId : UInt64) (price : Int64) (quantity : UInt32)
    (side : Side) : Except WireError SnapshotEncoder :=
  if e.buf.length < e.pos + 24 then .error (.shortBuffer (e.pos + 24) e.buf.length)
  else if e.count.toNat = 65535 then .error (.groupOverflow "orders")
  else .ok ⟨e.buf.take e.pos ++ snapshotEntry orderId price quantity side ++ e.buf.drop (e.pos + 24),
    e.pos + 24, e.count + 1⟩

/-- Patches the group count; answers the buffer and the bytes written. -/
def finish (e : SnapshotEncoder) : Buf × Nat := (putU16 e.buf 22 e.count, e.pos)

end SnapshotEncoder

/-- `patch_snapshot_flags`. -/
def patchSnapshotFlags (b : Buf) (flags : UInt8) : Except WireError Buf :=
  let offset := messageHeaderLen + 10
  if b.length ≤ offset then .error (.shortBuffer (offset + 1) b.length)
  else .ok (putU8 b offset flags)

/-! ## The block a snapshot message occupies -/

/-- One order as the encoder is given it. -/
structure EncodedOrder where
  orderId : UInt64
  price : Int64
  quantity : UInt32
  side : Side
  deriving DecidableEq, Repr

def EncodedOrder.entry (o : EncodedOrder) : Buf :=
  snapshotEntry o.orderId o.price o.quantity o.side

/-- The order a decoder reads from the entry. -/
def EncodedOrder.read (o : EncodedOrder) : SnapshotOrder :=
  ⟨o.orderId, o.price, o.quantity, o.side.toU8⟩

@[simp] theorem EncodedOrder.length_entry (o : EncodedOrder) : o.entry.length = 24 := by
  simp [EncodedOrder.entry, snapshotEntry]

@[simp] theorem length_snapshotHead (lastSequence : UInt64) (symbolId : UInt16) (flags : UInt8) :
    (snapshotHead lastSequence symbolId flags).length = 24 := by
  simp [snapshotHead, writeMessageHeader, messageHeaderLen, groupSizeEncodingLen]

/-- The head with its count patched, and its flags unless they are zero. -/
def patchedHead (lastSequence : UInt64) (symbolId : UInt16) (flags : UInt8) (count : UInt16) :
    Buf :=
  let b := putU16 (snapshotHead lastSequence symbolId 0) 22 count
  if flags ≠ 0 then putU8 b 18 flags else b

/-- The bytes of a snapshot message. -/
def snapshotBlock (lastSequence : UInt64) (symbolId : UInt16) (flags : UInt8)
    (orders : List EncodedOrder) : Buf :=
  patchedHead lastSequence symbolId flags (UInt16.ofNat orders.length)
    ++ (orders.map EncodedOrder.entry).flatten

@[simp] theorem length_patchedHead (lastSequence : UInt64) (symbolId : UInt16) (flags : UInt8)
    (count : UInt16) : (patchedHead lastSequence symbolId flags count).length = 24 := by
  unfold patchedHead
  dsimp only
  split <;> simp

theorem length_entries (orders : List EncodedOrder) :
    ((orders.map EncodedOrder.entry).flatten).length = 24 * orders.length := by
  induction orders with
  | nil => rfl
  | cons o orders ih =>
    rw [List.map_cons, List.flatten_cons, List.length_append, ih, EncodedOrder.length_entry,
      List.length_cons]
    omega

@[simp] theorem length_snapshotBlock (lastSequence : UInt64) (symbolId : UInt16) (flags : UInt8)
    (orders : List EncodedOrder) :
    (snapshotBlock lastSequence symbolId flags orders).length = 24 + 24 * orders.length := by
  rw [snapshotBlock, List.length_append, length_patchedHead, length_entries]

theorem read_entry (o : EncodedOrder) : SnapshotOrder.read o.entry = o.read := by
  simp (disch := first | decide | simp) only [SnapshotOrder.read, EncodedOrder.entry,
    EncodedOrder.read, snapshotEntry, leU64, leI64, leU32, leU8, putU64, putI64, putU32, putU8,
    leNat_putNat_of_disjoint, leNat_putNat_self, ofNat_toNat_mod_u8, ofNat_toNat_mod_u32,
    ofNat_toNat_mod_u64, Int64.toInt64_toUInt64]

/-! ## The parts of a snapshot message -/

/-- The header and root block of a Snapshot. -/
def snapshotRoot (lastSequence : UInt64) (symbolId : UInt16) (flags : UInt8) : Buf :=
  let b := rootBlock 12 Template.snapshot
  let b := putU64 b 8 lastSequence
  let b := putU16 b 16 symbolId
  putU8 b 18 flags

/-- A group's header: the length of an entry, and their number. -/
def groupHead (blockLength count : UInt16) : Buf :=
  putU16 (putU16 (List.replicate groupSizeEncodingLen 0) 0 blockLength) 2 count

theorem isRoot_snapshotRoot (lastSequence : UInt64) (symbolId : UInt16) (flags : UInt8) :
    IsRoot (snapshotRoot lastSequence symbolId flags) 12 Template.snapshot :=
  (((isRoot_rootBlock 12 Template.snapshot).putNat _ _ (by decide)).putNat _ _ (by decide)).putNat
    _ _ (by decide)

theorem length_groupHead (blockLength count : UInt16) :
    (groupHead blockLength count).length = 4 := by
  simp [groupHead, groupSizeEncodingLen]

theorem groupHead_fields (blockLength count : UInt16) :
    leU16 (groupHead blockLength count) 0 = blockLength ∧
      leU16 (groupHead blockLength count) 2 = count := by
  constructor <;>
    simp (disch := first | decide | simp [groupSizeEncodingLen]) only [groupHead, leU16, putU16,
      leNat_putNat_of_disjoint, leNat_putNat_self, ofNat_toNat_mod_u16]

theorem snapshotRoot_fields (lastSequence : UInt64) (symbolId : UInt16) (flags : UInt8) :
    leU64 (snapshotRoot lastSequence symbolId flags) 8 = lastSequence ∧
      leU16 (snapshotRoot lastSequence symbolId flags) 16 = symbolId ∧
      leU8 (snapshotRoot lastSequence symbolId flags) 18 = flags := by
  have hlen : (rootBlock 12 Template.snapshot).length = 20 :=
    (isRoot_rootBlock 12 Template.snapshot).length
  refine ⟨?_, ?_, leU8_putU8 flags (by simp [hlen])⟩ <;>
    simp (disch := first | decide | simp [hlen]) only [snapshotRoot, leU64, leU16, putU64, putU16,
      putU8, leNat_putNat_of_disjoint, leNat_putNat_self, ofNat_toNat_mod_u16,
      ofNat_toNat_mod_u64]

/-- What `start` writes and `finish` patches are the two parts, one after the other. -/
theorem putU16_snapshotHead (lastSequence : UInt64) (symbolId : UInt16) (flags : UInt8)
    (count : UInt16) : putU16 (snapshotHead lastSequence symbolId flags) 22 count =
      snapshotRoot lastSequence symbolId flags ++ groupHead 24 count := by
  have hlen : (rootBlock 12 Template.snapshot).length = 20 :=
    (isRoot_rootBlock 12 Template.snapshot).length
  have hroot : (snapshotRoot lastSequence symbolId flags).length = 20 :=
    (isRoot_snapshotRoot lastSequence symbolId flags).length
  have hhead : writeMessageHeader
      (List.replicate (messageHeaderLen + 12 + groupSizeEncodingLen) 0) 12 Template.snapshot =
        rootBlock 12 Template.snapshot ++ List.replicate groupSizeEncodingLen 0 := by
    rw [List.replicate_add, writeMessageHeader, putU16, putU16, putU16, putU16]
    simp (disch := simp [messageHeaderLen]) only [putNat_append_left]
    rfl
  have hstart : snapshotHead lastSequence symbolId flags =
      putU16 (snapshotRoot lastSequence symbolId flags ++ List.replicate groupSizeEncodingLen 0)
        20 24 := by
    rw [snapshotHead, hhead]
    simp (disch := simp [hlen]) only [putU64, putU16, putU8, putNat_append_left, snapshotRoot]
  rw [hstart, putU16, putU16, putNat_append_right _ _ _ (show 20 = _ + 0 by rw [hroot]),
    putNat_append_right _ _ _ (show 22 = _ + 2 by rw [hroot])]
  rfl

/-- The group reads back, entry by entry, at the length its entries have. -/
theorem snapshotOrders_flatten {k : Nat} {entries : List Buf} (hk : ∀ e ∈ entries, e.length = k)
    (front rest : Buf) : snapshotOrders (front ++ entries.flatten ++ rest) k entries.length
      front.length = entries.map SnapshotOrder.read := by
  induction entries generalizing front with
  | nil => rfl
  | cons e entries ih =>
    have he : e.length = k := hk e (List.mem_cons_self ..)
    have hdrop : (front ++ (e :: entries).flatten ++ rest).drop front.length =
        e ++ (entries.flatten ++ rest) := by
      simp [List.append_assoc]
    have hfront : front ++ (e :: entries).flatten ++ rest =
        (front ++ e) ++ entries.flatten ++ rest := by
      simp [List.append_assoc]
    have hrec := ih (fun e' he' => hk e' (List.mem_cons_of_mem _ he')) (front ++ e)
    rw [List.length_append, he] at hrec
    rw [List.length_cons, snapshotOrders, hdrop, List.take_left' he, hfront, hrec, List.map_cons]

/-- A snapshot message in its parts: a root block of at least this schema's length, a group header,
and entries of the length it states. -/
structure SnapshotParts (root head : Buf) (entries : List Buf) (blockLength k count : UInt16) :
    Prop where
  isRoot : IsRoot root blockLength Template.snapshot
  known : 12 ≤ blockLength.toNat
  length_head : head.length = 4
  stated : leU16 head 0 = k ∧ leU16 head 2 = count
  length_entry : ∀ e ∈ entries, e.length = k.toNat
  number : entries.length = count.toNat

section Parts
variable {root head : Buf} {entries : List Buf} {blockLength k count : UInt16}

theorem SnapshotParts.length_flatten (h : SnapshotParts root head entries blockLength k count) :
    entries.flatten.length = count.toNat * k.toNat := by
  rw [List.length_flatten, List.map_congr_left h.length_entry, List.map_const',
    List.sum_replicate_nat, h.number]

/-- The root block is where it was. -/
theorem SnapshotParts.leNat_root (h : SnapshotParts root head entries blockLength k count)
    (rest : Buf) {o n : Nat} (hon : o + n ≤ 20) :
    leNat (root ++ (head ++ (entries.flatten ++ rest))) o n = leNat root o n := by
  have hlen : root.length = 8 + blockLength.toNat := h.isRoot.length
  have hknown := h.known
  exact leNat_append_left _ _ (by omega)

/-- The group header follows it. -/
theorem SnapshotParts.leU16_head (h : SnapshotParts root head entries blockLength k count)
    (rest : Buf) {o : Nat} (ho : o + 2 ≤ 4) :
    leU16 (root ++ (head ++ (entries.flatten ++ rest))) (8 + blockLength.toNat + o) =
      leU16 head o := by
  have hlen : root.length = 8 + blockLength.toNat := h.isRoot.length
  rw [leU16, ← hlen, leNat_append_right _ _ (Nat.le_add_right ..), Nat.add_sub_cancel_left,
    leNat_append_left _ _ (by rw [h.length_head]; exact ho), leU16]

/-- **A snapshot message reads back from its parts.** -/
theorem SnapshotParts.decodes (h : SnapshotParts root head entries blockLength k count) :
    Decodes (root ++ head ++ entries.flatten)
      (.snapshot ⟨leU64 root 8, leU16 root 16, leU8 root 18, entries.map SnapshotOrder.read⟩) := by
  intro rest
  have hlen : root.length = 8 + blockLength.toNat := h.isRoot.length
  have horders := snapshotOrders_flatten h.length_entry (root ++ head) rest
  have htotal : (root ++ head ++ entries.flatten).length =
      8 + blockLength.toNat + 4 + count.toNat * k.toNat := by
    rw [List.length_append, List.length_append, h.length_flatten, h.length_head, hlen]
  rw [h.number, List.length_append, h.length_head, hlen] at horders
  rw [htotal]
  have hfits : (root ++ head ++ entries.flatten ++ rest).length =
      8 + blockLength.toNat + 4 + count.toNat * k.toNat + rest.length := by
    rw [List.length_append, htotal]
  rw [show root ++ head ++ entries.flatten ++ rest = root ++ (head ++ (entries.flatten ++ rest)) by
    simp [List.append_assoc]] at horders hfits ⊢
  have hwrap := h.isRoot.wrapRoot_of_le (c := 12) h.known "Snapshot"
    (head ++ (entries.flatten ++ rest))
  have hk := h.leU16_head rest (o := 0) (by decide)
  have hcount := h.leU16_head rest (o := 2) (by decide)
  rw [h.stated.1, Nat.add_zero] at hk
  rw [h.stated.2] at hcount
  rw [h.isRoot.decodeMessage, if_neg (by decide), if_neg (by decide), if_neg (by decide),
    if_neg (by decide), if_pos rfl, Snapshot.wrap]
  simp only [hwrap, bind, Except.bind, messageHeaderLen, groupSizeEncodingLen, hk, hcount, horders]
  rw [if_neg (by omega), if_neg (by omega)]
  simp only [leU64, leU16, leU8]
  rw [h.leNat_root rest (by decide), h.leNat_root rest (by decide), h.leNat_root rest (by decide)]

end Parts

/-! ## The block in its parts -/

/-- The encoder's head, with its count and its flags patched. -/
theorem patchedHead_eq (lastSequence : UInt64) (symbolId : UInt16) (flags : UInt8)
    (count : UInt16) : patchedHead lastSequence symbolId flags count =
      snapshotRoot lastSequence symbolId flags ++ groupHead 24 count := by
  rw [patchedHead, putU16_snapshotHead]
  split
  · have hlen : (snapshotRoot lastSequence symbolId 0).length = 20 :=
      (isRoot_snapshotRoot lastSequence symbolId 0).length
    rw [putU8, putNat_append_left _ _ _ (by rw [hlen]; decide)]
    -- the flags are written over the zero that was there
    simp only [snapshotRoot, putU8, putNat, List.set_set]
  · rename_i hflags
    rw [not_not.mp hflags]

/-- The entries of a group are as long as its header says. -/
theorem snapshotParts_entries (lastSequence : UInt64) (symbolId : UInt16) (flags : UInt8)
    {orders : List EncodedOrder} (hcount : orders.length < 65536) :
    SnapshotParts (snapshotRoot lastSequence symbolId flags)
      (groupHead 24 (UInt16.ofNat orders.length)) (orders.map EncodedOrder.entry) 12 24
      (UInt16.ofNat orders.length) where
  isRoot := isRoot_snapshotRoot lastSequence symbolId flags
  known := Nat.le_refl _
  length_head := length_groupHead ..
  stated := groupHead_fields ..
  length_entry := by
    intro e he
    obtain ⟨o, -, rfl⟩ := List.mem_map.mp he
    exact o.length_entry
  number := by
    rw [List.length_map, UInt16.toNat_ofNat']
    exact (Nat.mod_eq_of_lt hcount).symm

/-- **A snapshot message reads back**, its group included. -/
theorem decodes_snapshot (lastSequence : UInt64) (symbolId : UInt16) (flags : UInt8)
    {orders : List EncodedOrder} (hcount : orders.length < 65536) :
    Decodes (snapshotBlock lastSequence symbolId flags orders)
      (.snapshot ⟨lastSequence, symbolId, flags, orders.map EncodedOrder.read⟩) := by
  have hdecodes := (snapshotParts_entries lastSequence symbolId flags hcount).decodes
  obtain ⟨hlast, hsymbol, hflags⟩ := snapshotRoot_fields lastSequence symbolId flags
  have hread : (orders.map EncodedOrder.entry).map SnapshotOrder.read =
      orders.map EncodedOrder.read := by
    rw [List.map_map]
    exact List.map_congr_left fun o _ => read_entry o
  rw [hlast, hsymbol, hflags, hread, ← patchedHead_eq] at hdecodes
  exact hdecodes

/-! ## What the encoder has taken -/

/-- An encoder that has taken the orders `taken`, over a buffer that was `b`. -/
structure Packed (e : SnapshotEncoder) (head b : Buf) (taken : List EncodedOrder) : Prop where
  buf : e.buf = head ++ (taken.map EncodedOrder.entry).flatten ++ b.drop (24 + 24 * taken.length)
  pos : e.pos = 24 + 24 * taken.length
  count : e.count = UInt16.ofNat taken.length
  room : 24 + 24 * taken.length ≤ b.length
  few : taken.length ≤ 65535

theorem Packed.length_buf {e : SnapshotEncoder} {head b : Buf} {taken : List EncodedOrder}
    (h : Packed e head b taken) (hhead : head.length = 24) : e.buf.length = b.length := by
  have hroom := h.room
  rw [h.buf, List.length_append, List.length_append, hhead, length_entries, List.length_drop]
  omega

/-- One more order, where there is room for it. -/
theorem Packed.push {e : SnapshotEncoder} {head b : Buf} {taken : List EncodedOrder}
    (h : Packed e head b taken) (hhead : head.length = 24) (o : EncodedOrder)
    (hroom : 24 + 24 * (taken.length + 1) ≤ b.length) (hfew : taken.length < 65535) :
    ∃ e', e.pushOrder o.orderId o.price o.quantity o.side = .ok e' ∧
      Packed e' head b (taken ++ [o]) := by
  have hlen := h.length_buf hhead
  have hcount : e.count.toNat = taken.length := by
    rw [h.count, UInt16.toNat_ofNat']
    exact Nat.mod_eq_of_lt (by omega)
  unfold SnapshotEncoder.pushOrder
  rw [if_neg (by rw [hlen, h.pos]; omega), if_neg (by rw [hcount]; omega)]
  refine ⟨_, rfl, ?_, ?_, ?_, ?_, ?_⟩
  · have hfront : e.buf.take e.pos = head ++ (taken.map EncodedOrder.entry).flatten := by
      rw [h.buf, h.pos]
      apply List.take_left'
      rw [List.length_append, hhead, length_entries]
    have hback : e.buf.drop (e.pos + 24) = b.drop (24 + 24 * (taken ++ [o]).length) := by
      have hsplit : (head ++ (taken.map EncodedOrder.entry).flatten).length = e.pos := by
        rw [List.length_append, hhead, length_entries, h.pos]
      rw [h.buf, ← hsplit, List.drop_length_add_append, List.drop_drop, List.length_append,
        List.length_singleton]
      congr 1
    dsimp only
    rw [hfront, hback, List.map_append, List.flatten_append]
    simp only [List.map_cons, List.map_nil, List.flatten_cons, List.flatten_nil, List.append_nil,
      List.append_assoc]
    rfl
  · show e.pos + 24 = _
    rw [h.pos, List.length_append, List.length_singleton]
    omega
  · show e.count + 1 = _
    rw [h.count, List.length_append, List.length_singleton, UInt16.ofNat_add]
    rfl
  · rw [List.length_append, List.length_singleton]
    exact hroom
  · rw [List.length_append, List.length_singleton]
    exact hfew

end MarketData.Wire
