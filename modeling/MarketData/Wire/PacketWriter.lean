import MarketData.Lib.Results
import MarketData.Wire.SnapshotCodec

/-!
# `Wire/PacketWriter.lean` — packing messages into one datagram

`PacketWriter` (`crates/wire/src/generated.rs`). It borrows a buffer, writes the datagram's header
at `new`, appends a message per call, and patches the count of messages at `finish`. Six of the
seven messages have a method of their own that encodes into the unwritten tail. A Snapshot does not:
its encoder takes the tail, and what it wrote is recorded with `commit`.

## The count

The two ways of recording a message are not alike. `commit` refuses the message for which there
would be no number, the count being sixteen bits wide; the six methods add one to the count and look
at nothing. What they do at the last number depends on how the crate was built, and is modelled as
the release profile has it: the count starts again at 0.

## What is proved

A writer has written `front` when its buffer starts with `front` and `pos` is where `front` ends
(`Wrote`). `FeedMessage.write_of_room` is a call that has room: it appends the message's block,
whichever message it is, so that a list of messages leaves their blocks one after the other
(`writeAll_of_room`). `FeedMessage.write_appended` is what *every* successful call does, room or
not: one is added to the count and the bytes already written stay. That is enough to say what a
datagram with too many messages claims to hold (`writePacket_header`).

A call that fails leaves nothing here. In the source it may leave bytes past `pos`, which the next
call overwrites and no reader is sent.
-/

set_option autoImplicit false

namespace MarketData.Wire

open MarketData.Bytes

structure PacketWriter where
  buf : Buf
  pos : Nat
  count : UInt16

namespace PacketWriter

def new (b : Buf) (channel flags : UInt8) (firstSequence sendTimestampNs : UInt64) :
    Except WireError PacketWriter := do
  let b ← encodePacketHeader b channel flags firstSequence sendTimestampNs
  .ok ⟨b, packetHeaderLen, 0⟩

/-- The unwritten tail, for encoders that write themselves. -/
def tail (w : PacketWriter) : Buf := w.buf.drop w.pos

/-- Records `n` bytes written into `tail` as one message. -/
def commit (w : PacketWriter) (n : Nat) : Except WireError PacketWriter :=
  if w.buf.length < w.pos + n then .error (.shortBuffer (w.pos + n) w.buf.length)
  else if w.count = 65535 then .error (.groupOverflow "packet")
  else .ok { w with pos := w.pos + n, count := w.count + 1 }

/-- What every appending method does with its encoder. -/
def append (w : PacketWriter) (encode : Buf → Except WireError (Buf × Nat)) :
    Except WireError PacketWriter := do
  let (written, n) ← encode w.tail
  .ok ⟨w.buf.take w.pos ++ written, w.pos + n, w.count + 1⟩

def addOrder (w : PacketWriter) (orderId : UInt64) (price : Int64) (quantity : UInt32)
    (symbolId : UInt16) (side : Side) : Except WireError PacketWriter :=
  w.append fun b => encodeAddOrder b orderId price quantity symbolId side

def modifyOrder (w : PacketWriter) (orderId : UInt64) (newPrice : Int64) (newQuantity : UInt32)
    (symbolId : UInt16) (side : Side) (reason : ModifyReason) : Except WireError PacketWriter :=
  w.append fun b => encodeModifyOrder b orderId newPrice newQuantity symbolId side reason

def deleteOrder (w : PacketWriter) (orderId : UInt64) (symbolId : UInt16) (side : Side) :
    Except WireError PacketWriter :=
  w.append fun b => encodeDeleteOrder b orderId symbolId side

def trade (w : PacketWriter) (tradeId aggressorOrderId restingOrderId : UInt64) (price : Int64)
    (quantity : UInt32) (symbolId : UInt16) (aggressorSide : Side) :
    Except WireError PacketWriter :=
  w.append fun b =>
    encodeTrade b tradeId aggressorOrderId restingOrderId price quantity symbolId aggressorSide

def heartbeat (w : PacketWriter) (lastSequence : UInt64) : Except WireError PacketWriter :=
  w.append fun b => encodeHeartbeat b lastSequence

def sequenceReset (w : PacketWriter) (newSequence : UInt64) : Except WireError PacketWriter :=
  w.append fun b => encodeSequenceReset b newSequence

/-- A Snapshot as its callers write one: the encoder over `tail`, then `commit`. -/
def snapshot (w : PacketWriter) (lastSequence : UInt64) (symbolId : UInt16) (flags : UInt8)
    (orders : List EncodedOrder) : Except WireError PacketWriter := do
  let e ← SnapshotEncoder.start w.tail lastSequence symbolId flags
  let e ← orders.foldlM (fun e o => e.pushOrder o.orderId o.price o.quantity o.side) e
  let (written, n) := e.finish
  commit { w with buf := w.buf.take w.pos ++ written } n

/-- Patches the message count; answers the buffer and the datagram's length. -/
def finish (w : PacketWriter) : Buf × Nat := (putU16 w.buf 4 w.count, w.pos)

end PacketWriter

/-! ## What is written -/

/-- The orders of one Snapshot. Their number stands in sixteen bits. -/
structure OrdersGroup where
  orders : List EncodedOrder
  countable : orders.length ≤ 65535

/-- A message of the feed as an encoder is given it. -/
inductive FeedMessage where
  | addOrder (orderId : UInt64) (price : Int64) (quantity : UInt32) (symbolId : UInt16)
      (side : Side)
  | modifyOrder (orderId : UInt64) (newPrice : Int64) (newQuantity : UInt32) (symbolId : UInt16)
      (side : Side) (reason : ModifyReason)
  | deleteOrder (orderId : UInt64) (symbolId : UInt16) (side : Side)
  | trade (tradeId aggressorOrderId restingOrderId : UInt64) (price : Int64) (quantity : UInt32)
      (symbolId : UInt16) (aggressorSide : Side)
  | snapshot (lastSequence : UInt64) (symbolId : UInt16) (flags : UInt8) (group : OrdersGroup)
  | heartbeat (lastSequence : UInt64)
  | sequenceReset (newSequence : UInt64)

namespace FeedMessage

/-- The fields a decoder reads of the message. -/
def read : FeedMessage → Message
  | .addOrder orderId price quantity symbolId side =>
    .addOrder ⟨orderId, price, quantity, symbolId, side.toU8⟩
  | .modifyOrder orderId newPrice newQuantity symbolId side reason =>
    .modifyOrder ⟨orderId, newPrice, newQuantity, symbolId, side.toU8, reason.toU8⟩
  | .deleteOrder orderId symbolId side => .deleteOrder ⟨orderId, symbolId, side.toU8⟩
  | .trade tradeId aggressorOrderId restingOrderId price quantity symbolId aggressorSide =>
    .trade ⟨tradeId, aggressorOrderId, restingOrderId, price, quantity, symbolId,
      aggressorSide.toU8⟩
  | .snapshot lastSequence symbolId flags group =>
    .snapshot ⟨lastSequence, symbolId, flags, group.orders.map EncodedOrder.read⟩
  | .heartbeat lastSequence => .heartbeat lastSequence
  | .sequenceReset newSequence => .sequenceReset newSequence

/-- The call of the writer that appends the message. -/
def write (m : FeedMessage) (w : PacketWriter) : Except WireError PacketWriter :=
  match m with
  | .addOrder orderId price quantity symbolId side =>
    w.addOrder orderId price quantity symbolId side
  | .modifyOrder orderId newPrice newQuantity symbolId side reason =>
    w.modifyOrder orderId newPrice newQuantity symbolId side reason
  | .deleteOrder orderId symbolId side => w.deleteOrder orderId symbolId side
  | .trade tradeId aggressorOrderId restingOrderId price quantity symbolId aggressorSide =>
    w.trade tradeId aggressorOrderId restingOrderId price quantity symbolId aggressorSide
  | .snapshot lastSequence symbolId flags group =>
    w.snapshot lastSequence symbolId flags group.orders
  | .heartbeat lastSequence => w.heartbeat lastSequence
  | .sequenceReset newSequence => w.sequenceReset newSequence

/-- The bytes the message occupies. -/
def block : FeedMessage → Buf
  | .addOrder orderId price quantity symbolId side =>
    addOrderBlock orderId price quantity symbolId side
  | .modifyOrder orderId newPrice newQuantity symbolId side reason =>
    modifyOrderBlock orderId newPrice newQuantity symbolId side reason
  | .deleteOrder orderId symbolId side => deleteOrderBlock orderId symbolId side
  | .trade tradeId aggressorOrderId restingOrderId price quantity symbolId aggressorSide =>
    tradeBlock tradeId aggressorOrderId restingOrderId price quantity symbolId aggressorSide
  | .snapshot lastSequence symbolId flags group =>
    snapshotRoot lastSequence symbolId flags ++ groupHead 24 (UInt16.ofNat group.orders.length)
      ++ (group.orders.map EncodedOrder.entry).flatten
  | .heartbeat lastSequence => heartbeatBlock lastSequence
  | .sequenceReset newSequence => sequenceResetBlock newSequence

end FeedMessage

/-- A datagram of the messages: the buffer it was written into, and its length. -/
def writePacket (b : Buf) (channel flags : UInt8) (firstSequence sendTimestampNs : UInt64)
    (ms : List FeedMessage) : Except WireError (Buf × Nat) := do
  let w ← PacketWriter.new b channel flags firstSequence sendTimestampNs
  let w ← ms.foldlM (fun w m => m.write w) w
  .ok w.finish

/-! ## A call that has room -/

/-- The writer's buffer starts with `front`, and `pos` is where it ends. -/
structure Wrote (w : PacketWriter) (front rest : Buf) : Prop where
  buf : w.buf = front ++ rest
  pos : w.pos = front.length

theorem Wrote.tail {w : PacketWriter} {front rest : Buf} (h : Wrote w front rest) :
    w.tail = rest := by
  rw [PacketWriter.tail, h.buf, h.pos, List.drop_left]

theorem Wrote.take {w : PacketWriter} {front rest : Buf} (h : Wrote w front rest) :
    w.buf.take w.pos = front := by
  rw [h.buf, h.pos, List.take_left]

/-- The writer once `block` has been appended. -/
def PacketWriter.after (front rest block : Buf) (count : UInt16) : PacketWriter :=
  ⟨front ++ block ++ rest.drop block.length, front.length + block.length, count + 1⟩

theorem Wrote.append_of_room {w : PacketWriter} {front rest : Buf} (h : Wrote w front rest)
    {block : Buf} (hroom : block.length ≤ rest.length) :
    w.append (encodeBlock block) = .ok (.after front rest block w.count) := by
  rw [PacketWriter.append, h.tail, h.take, h.pos, encodeBlock, if_neg (by omega),
    PacketWriter.after, List.append_assoc]
  rfl

theorem Packed.foldlM {head b : Buf} (hhead : head.length = 24) (orders : List EncodedOrder)
    {e : SnapshotEncoder} {taken : List EncodedOrder} (h : Packed e head b taken)
    (hroom : 24 + 24 * (taken.length + orders.length) ≤ b.length)
    (hfew : taken.length + orders.length ≤ 65535) :
    ∃ e', orders.foldlM (fun e o => e.pushOrder o.orderId o.price o.quantity o.side) e = .ok e' ∧
      Packed e' head b (taken ++ orders) := by
  induction orders generalizing e taken with
  | nil => exact ⟨e, rfl, by rw [List.append_nil]; exact h⟩
  | cons o orders ih =>
    rw [List.length_cons] at hroom hfew
    obtain ⟨e', hpush, hpacked⟩ := h.push hhead o (by omega) (by omega)
    obtain ⟨e'', hfold, hpacked'⟩ := ih hpacked
      (by rw [List.length_append, List.length_singleton]; omega)
      (by rw [List.length_append, List.length_singleton]; omega)
    refine ⟨e'', ?_, by rw [List.append_assoc] at hpacked'; exact hpacked'⟩
    rw [List.foldlM_cons, hpush]
    exact hfold

/-- The encoder over a tail with room leaves the message's block there. -/
theorem Wrote.snapshot_of_room {w : PacketWriter} {front rest : Buf} (h : Wrote w front rest)
    (lastSequence : UInt64) (symbolId : UInt16) (flags : UInt8) (group : OrdersGroup)
    (hroom : (FeedMessage.snapshot lastSequence symbolId flags group).block.length ≤ rest.length)
    (hcount : w.count ≠ 65535) :
    w.snapshot lastSequence symbolId flags group.orders =
      .ok (.after front rest (FeedMessage.snapshot lastSequence symbolId flags group).block
        w.count) := by
  have hhead := length_snapshotHead lastSequence symbolId flags
  have hlen : (FeedMessage.snapshot lastSequence symbolId flags group).block.length =
      24 + 24 * group.orders.length := by
    rw [FeedMessage.block, List.length_append, length_entries, ← putU16_snapshotHead,
      length_putU16, hhead]
  rw [hlen] at hroom
  have hstart : SnapshotEncoder.start rest lastSequence symbolId flags =
      .ok ⟨snapshotHead lastSequence symbolId flags ++ rest.drop 24, 24, 0⟩ := by
    rw [SnapshotEncoder.start, if_neg]
    · rfl
    · rw [messageHeaderLen, groupSizeEncodingLen]
      omega
  have hempty : Packed ⟨snapshotHead lastSequence symbolId flags ++ rest.drop 24, 24, 0⟩
      (snapshotHead lastSequence symbolId flags) rest [] :=
    ⟨by simp, rfl, rfl, by rw [List.length_nil]; omega, Nat.zero_le _⟩
  obtain ⟨e, hfold, hpacked⟩ := hempty.foldlM hhead group.orders
    (by rw [List.length_nil, Nat.zero_add]; exact hroom)
    (by rw [List.length_nil, Nat.zero_add]; exact group.countable)
  rw [List.nil_append] at hpacked
  have hfinish : e.finish = ((FeedMessage.snapshot lastSequence symbolId flags group).block ++
      rest.drop (24 + 24 * group.orders.length), 24 + 24 * group.orders.length) := by
    rw [SnapshotEncoder.finish, hpacked.buf, hpacked.count, hpacked.pos, List.append_assoc, putU16,
      putNat_append_left _ _ _ (by rw [hhead]), ← putU16, putU16_snapshotHead, ← List.append_assoc]
    rfl
  have hfits : ¬ (front ++ ((FeedMessage.snapshot lastSequence symbolId flags group).block ++
      rest.drop (24 + 24 * group.orders.length))).length <
        front.length + (24 + 24 * group.orders.length) := by
    rw [List.length_append, List.length_append, hlen]
    omega
  rw [PacketWriter.snapshot, h.tail, h.take, h.pos, hstart]
  simp only [bind, Except.bind] at hfold ⊢
  rw [hfold]
  dsimp only
  rw [hfinish, PacketWriter.commit]
  dsimp only
  rw [if_neg hfits, if_neg hcount, PacketWriter.after, hlen, List.append_assoc]

/-- **A call that has room** appends the block of its message. -/
theorem FeedMessage.write_of_room (m : FeedMessage) {w : PacketWriter} {front rest : Buf}
    (h : Wrote w front rest) (hroom : m.block.length ≤ rest.length) (hcount : w.count ≠ 65535) :
    m.write w = .ok (.after front rest m.block w.count) := by
  cases m with
  | snapshot lastSequence symbolId flags group =>
    exact h.snapshot_of_room lastSequence symbolId flags group hroom hcount
  | addOrder | modifyOrder | deleteOrder | trade | heartbeat | sequenceReset =>
    exact h.append_of_room hroom

/-- The bytes of the messages. -/
def blocksOf (ms : List FeedMessage) : Buf := (ms.map FeedMessage.block).flatten

/-- **A list of messages that has room** leaves their blocks one after the other. -/
theorem writeAll_of_room (ms : List FeedMessage) {w : PacketWriter} {front rest : Buf}
    (h : Wrote w front rest) (hroom : (blocksOf ms).length ≤ rest.length)
    (hcount : w.count.toNat + ms.length ≤ 65535) :
    ms.foldlM (fun w m => m.write w) w =
      .ok ⟨front ++ blocksOf ms ++ rest.drop (blocksOf ms).length,
        front.length + (blocksOf ms).length, w.count + UInt16.ofNat ms.length⟩ := by
  induction ms generalizing w front rest with
  | nil =>
    have hw : w = ⟨front ++ rest, front.length, w.count⟩ := by
      rw [← h.buf, ← h.pos]
    simp [blocksOf, pure, Except.pure, ← hw]
  | cons m ms ih =>
    have hsplit : blocksOf (m :: ms) = m.block ++ blocksOf ms := by
      rw [blocksOf, List.map_cons, List.flatten_cons, blocksOf]
    rw [hsplit, List.length_append] at hroom
    rw [List.length_cons] at hcount
    have hne : w.count ≠ 65535 := by
      rintro hfull
      rw [hfull, show (65535 : UInt16).toNat = 65535 from rfl] at hcount
      omega
    have hnext : (w.count + 1).toNat = w.count.toNat + 1 := by
      rw [UInt16.toNat_add, show (1 : UInt16).toNat = 1 from rfl]
      exact Nat.mod_eq_of_lt (by omega)
    have hstep : Wrote (.after front rest m.block w.count) (front ++ m.block)
        (rest.drop m.block.length) :=
      ⟨rfl, by rw [PacketWriter.after, List.length_append]⟩
    have hrest := ih hstep (by rw [List.length_drop]; omega)
      (by rw [PacketWriter.after, hnext]; omega)
    rw [List.foldlM_cons, m.write_of_room h (by omega) hne]
    show ms.foldlM _ (PacketWriter.after front rest m.block w.count) = _
    rw [hrest, hsplit, PacketWriter.after, List.length_append, List.length_append, List.length_cons,
      List.drop_drop, UInt16.ofNat_add, UInt16.add_comm (UInt16.ofNat ms.length), UInt16.add_assoc,
      Nat.add_assoc, List.append_assoc front]
    rfl

/-! ## Any call -/

/-- What a successful call leaves: one more message, and the bytes that were there. -/
structure Appended (w w' : PacketWriter) : Prop where
  count : w'.count = w.count + 1
  kept : w'.buf.take w.pos = w.buf.take w.pos
  pos : w.pos ≤ w'.pos
  inside : w'.pos ≤ w'.buf.length

theorem PacketWriter.append_appended {w w' : PacketWriter} {block : Buf}
    (hw : w.pos ≤ w.buf.length) (h : w.append (encodeBlock block) = .ok w') : Appended w w' := by
  obtain ⟨written, hwritten, h⟩ := bind_eq_ok h
  rw [encodeBlock] at hwritten
  split_ifs at hwritten with hshort
  cases hwritten
  cases h
  have htail : w.tail.length = w.buf.length - w.pos := List.length_drop
  have htake : (w.buf.take w.pos).length = w.pos := List.length_take_of_le hw
  refine ⟨rfl, ?_, Nat.le_add_right .., ?_⟩
  · show (w.buf.take w.pos ++ (block ++ w.tail.drop block.length)).take w.pos = _
    exact List.take_left' htake
  · show w.pos + block.length ≤ (w.buf.take w.pos ++ (block ++ w.tail.drop block.length)).length
    rw [List.length_append, List.length_append, htake]
    omega

theorem PacketWriter.snapshot_appended {w w' : PacketWriter} {lastSequence : UInt64}
    {symbolId : UInt16} {flags : UInt8} {orders : List EncodedOrder} (hw : w.pos ≤ w.buf.length)
    (h : w.snapshot lastSequence symbolId flags orders = .ok w') : Appended w w' := by
  obtain ⟨e, -, h⟩ := bind_eq_ok h
  obtain ⟨e', -, h⟩ := bind_eq_ok h
  have htake : (w.buf.take w.pos).length = w.pos := List.length_take_of_le hw
  change PacketWriter.commit { w with buf := w.buf.take w.pos ++ e'.finish.1 } e'.finish.2 = _ at h
  rw [PacketWriter.commit] at h
  split_ifs at h with hshort hfull
  cases h
  exact ⟨rfl, List.take_left' htake, Nat.le_add_right .., Nat.le_of_not_lt hshort⟩

/-- **Any call that succeeds** adds one to the count, and keeps what was written. -/
theorem FeedMessage.write_appended {m : FeedMessage} {w w' : PacketWriter}
    (hw : w.pos ≤ w.buf.length) (h : m.write w = .ok w') : Appended w w' := by
  cases m with
  | snapshot => exact PacketWriter.snapshot_appended hw h
  | addOrder | modifyOrder | deleteOrder | trade | heartbeat | sequenceReset =>
    exact PacketWriter.append_appended hw h

theorem writeAll_appended {ms : List FeedMessage} {w w' : PacketWriter}
    (hw : w.pos ≤ w.buf.length) (h : ms.foldlM (fun w m => m.write w) w = .ok w') :
    w'.count = w.count + UInt16.ofNat ms.length ∧ w'.buf.take w.pos = w.buf.take w.pos ∧
      w.pos ≤ w'.pos := by
  induction ms generalizing w with
  | nil =>
    cases h
    exact ⟨by simp, rfl, Nat.le_refl _⟩
  | cons m ms ih =>
    rw [List.foldlM_cons] at h
    obtain ⟨w₁, hm, hms⟩ := bind_eq_ok h
    obtain ⟨hcount, hkept, hpos, hinside⟩ := FeedMessage.write_appended hw hm
    obtain ⟨hcount', hkept', hpos'⟩ := ih hinside hms
    refine ⟨?_, ?_, Nat.le_trans hpos hpos'⟩
    · rw [hcount', hcount, List.length_cons, UInt16.ofNat_add,
        UInt16.add_comm (UInt16.ofNat ms.length), UInt16.add_assoc]
      rfl
    · have hcut := congrArg (List.take w.pos) hkept'
      rw [List.take_take, List.take_take, Nat.min_eq_left hpos] at hcut
      rw [hcut, hkept]

/-- **The count of a datagram** is that of its messages, as far as sixteen bits go. -/
theorem writePacket_header {b : Buf} {channel flags : UInt8} {firstSequence now : UInt64}
    {ms : List FeedMessage} {out : Buf} {n : Nat}
    (h : writePacket b channel flags firstSequence now ms = .ok (out, n)) :
    24 ≤ n ∧ IsHeader (out.take 24) flags firstSequence (UInt16.ofNat ms.length) := by
  have hhead := length_packetHeaderBlock channel flags firstSequence now
  have hheader := isHeader_packetHeaderBlock channel flags firstSequence now
  obtain ⟨w, hnew, h⟩ := bind_eq_ok h
  obtain ⟨w', hms, hfinish⟩ := bind_eq_ok h
  obtain ⟨b', hencode, hnew⟩ := bind_eq_ok hnew
  rw [encodePacketHeader] at hencode
  split_ifs at hencode with hshort
  generalize packetHeaderBlock channel flags firstSequence now = header at hhead hheader hencode
  obtain rfl := Except.ok.inj hencode
  obtain rfl := Except.ok.inj hnew
  obtain ⟨hcount, hkept, hpos⟩ := writeAll_appended
    (by
      show 24 ≤ (header ++ b.drop packetHeaderLen).length
      rw [List.length_append, hhead]
      omega) hms
  obtain ⟨rfl, rfl⟩ : putU16 w'.buf 4 w'.count = out ∧ w'.pos = n :=
    Prod.mk.inj (Except.ok.inj hfinish)
  refine ⟨hpos, ?_⟩
  have hfront : w'.buf.take 24 = header := by
    have hfirst : (header ++ b.drop packetHeaderLen).take 24 = header := List.take_left' hhead
    exact hkept.trans hfirst
  have hbuf : w'.buf = header ++ w'.buf.drop 24 := by
    rw [← hfront, List.take_append_drop]
  have hpatch : putU16 (header ++ w'.buf.drop 24) 4 w'.count =
      putU16 header 4 w'.count ++ w'.buf.drop 24 := by
    rw [putU16, putNat_append_left _ _ _ (by rw [hhead]; decide), putU16]
  rw [hbuf, hpatch, List.take_left' (by rw [length_putU16, hhead]), hcount, UInt16.zero_add]
  exact hheader.patchCount _

/-- The bytes of a datagram of the messages. -/
def datagramLen (ms : List FeedMessage) : Nat := packetHeaderLen + (blocksOf ms).length

/-- **The datagram of messages that fit**, as it is sent. -/
theorem writePacket_of_room {b : Buf} {ms : List FeedMessage} (hroom : datagramLen ms ≤ b.length)
    (hcount : ms.length ≤ 65535) (channel flags : UInt8) (firstSequence now : UInt64) :
    ∃ out, writePacket b channel flags firstSequence now ms = .ok (out, datagramLen ms) ∧
      out.take (datagramLen ms) = out.take 24 ++ blocksOf ms := by
  rw [datagramLen, packetHeaderLen] at hroom
  have hhead := length_packetHeaderBlock channel flags firstSequence now
  generalize hheader : packetHeaderBlock channel flags firstSequence now = header at hhead
  have hnew : PacketWriter.new b channel flags firstSequence now =
      .ok ⟨header ++ b.drop 24, 24, 0⟩ := by
    rw [PacketWriter.new, encodePacketHeader, if_neg (by rw [packetHeaderLen]; omega), hheader]
    rfl
  have hwrote : Wrote ⟨header ++ b.drop 24, 24, 0⟩ header (b.drop 24) := ⟨rfl, hhead.symm⟩
  have hall := writeAll_of_room ms hwrote (by rw [List.length_drop]; omega)
    (by rw [show (0 : UInt16).toNat = 0 from rfl]; omega)
  generalize hrest : (b.drop 24).drop (blocksOf ms).length = rest at hall
  rw [hhead, List.append_assoc] at hall
  refine ⟨putU16 header 4 (0 + UInt16.ofNat ms.length) ++ (blocksOf ms ++ rest), ?_, ?_⟩
  · rw [writePacket, hnew]
    simp only [bind, Except.bind] at hall ⊢
    rw [hall, putU16, ← putNat_append_left _ _ _ (by rw [hhead]; decide), ← putU16]
    rfl
  · have hpatched : (putU16 header 4 (0 + UInt16.ofNat ms.length)).length = 24 := by
      rw [length_putU16, hhead]
    rw [List.take_left' hpatched, ← List.append_assoc]
    apply List.take_left'
    rw [List.length_append, hpatched, datagramLen, packetHeaderLen]

end MarketData.Wire
