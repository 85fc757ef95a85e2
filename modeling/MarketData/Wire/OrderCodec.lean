import MarketData.Lib.Results
import MarketData.Wire.Message
import MarketData.Wire.OrderPath

/-!
# `Wire/OrderCodec.lean` — the order path's messages as bytes

The `scope="orderPath"` half of `schema/market-data.xml`, as `schema/codegen.py` turns it into
`crates/wire/src/generated.rs` and `cpp/wire/include/wire/generated.hpp`. A message fills one slot
of a ring: the eight-byte message header, and a root block whose length the header states.

```
NewOrder          0 clientOrderId u64   8 price i64   16 quantity u32   20 symbolId u16   22 side u8
CancelOrder       0 clientOrderId u64   8 origClientOrderId u64   16 symbolId u16   18 side u8
ExecReport        0 clientOrderId u64   8 exchangeOrderId u64   16 tradeId u64   24 price i64
                  32 quantity u32   36 leavesQuantity u32   40 symbolId u16   42 side u8
                  43 execType u8   44 rejectReason u8
ReconcileRequest  0 requestId u64
```

The two emitters do not write the same checks. The Rust dispatch asks for this schema's id before
it looks at the template; a C++ decoder is wrapped directly and never asks (`wrapRoot?_eq`).

## Two encoders

An encoder of either language clears the message's extent, writes the header and puts the fields.
The Rust one is modelled by the block it leaves, as for the feed. The C++ one is modelled as it
works, on the caller's buffer and with its own offsets, and that **it leaves the same bytes is
proved** (`PathMessage.encode?_eq`): the offsets of one emitter are what the other has to agree
with, so they are written down twice here as they are there.

A message passes between the languages when what one writes the other reads (`PathMessage.Crosses`).
Nothing is said of a message that came from neither encoder; what a decoder makes of those is
`NewOrder.decodes_iff`, for the one kind that is passed on as it came.
-/

set_option autoImplicit false

namespace MarketData.Wire

open MarketData.Bytes

/-! ## Enumerations -/

def ExecType.toU8 : ExecType → UInt8
  | .acknowledged => 0
  | .partialFill => 1
  | .fill => 2
  | .canceled => 3
  | .rejected => 4
  | .orderStatus => 5
  | .statusComplete => 6

def ExecType.fromU8 (v : UInt8) : Except WireError ExecType :=
  if v = 0 then .ok .acknowledged
  else if v = 1 then .ok .partialFill
  else if v = 2 then .ok .fill
  else if v = 3 then .ok .canceled
  else if v = 4 then .ok .rejected
  else if v = 5 then .ok .orderStatus
  else if v = 6 then .ok .statusComplete
  else .error (.invalidEnum "ExecType" v.toNat)

def RejectReason.toU8 : RejectReason → UInt8
  | .notRejected => 0
  | .unknownSymbol => 1
  | .maxOrderQuantity => 2
  | .maxNotional => 3
  | .priceCollar => 4
  | .openOrderLimit => 5
  | .positionLimit => 6
  | .duplicateClientOrderId => 7
  | .unknownOrder => 8
  | .queueFull => 9
  | .invalidQuantity => 10

def RejectReason.fromU8 (v : UInt8) : Except WireError RejectReason :=
  if v = 0 then .ok .notRejected
  else if v = 1 then .ok .unknownSymbol
  else if v = 2 then .ok .maxOrderQuantity
  else if v = 3 then .ok .maxNotional
  else if v = 4 then .ok .priceCollar
  else if v = 5 then .ok .openOrderLimit
  else if v = 6 then .ok .positionLimit
  else if v = 7 then .ok .duplicateClientOrderId
  else if v = 8 then .ok .unknownOrder
  else if v = 9 then .ok .queueFull
  else if v = 10 then .ok .invalidQuantity
  else .error (.invalidEnum "RejectReason" v.toNat)

@[simp] theorem ExecType.fromU8_toU8 (t : ExecType) : ExecType.fromU8 t.toU8 = .ok t := by
  cases t <;> rfl

@[simp] theorem RejectReason.fromU8_toU8 (r : RejectReason) :
    RejectReason.fromU8 r.toU8 = .ok r := by
  cases r <;> rfl

/-! ## What the decoders read -/

namespace Template

def newOrder : UInt16 := 8
def cancelOrder : UInt16 := 9
def execReport : UInt16 := 10
def reconcileRequest : UInt16 := 11

end Template

/-- The accessors of `NewOrderDecoder`. -/
def NewOrder.read (b : Buf) : NewOrder :=
  { clientOrderId := leU64 b 8, price := leI64 b 16, quantity := leU32 b 24, symbolId := leU16 b 28,
    side := (Side.fromU8 (leU8 b 30)).toOption }

def CancelOrder.read (b : Buf) : CancelOrder :=
  { clientOrderId := leU64 b 8, origClientOrderId := leU64 b 16, symbolId := leU16 b 24,
    side := (Side.fromU8 (leU8 b 26)).toOption }

/-- A report as it is read, with whatever stands where its enumerations should. -/
structure RawExecReport where
  clientOrderId : UInt64
  exchangeOrderId : UInt64
  tradeId : UInt64
  price : Int64
  quantity : UInt32
  leavesQuantity : UInt32
  symbolId : UInt16
  sideRaw : UInt8
  execTypeRaw : UInt8
  rejectReasonRaw : UInt8
  deriving DecidableEq, Repr

def RawExecReport.side (d : RawExecReport) : Except WireError Side := Side.fromU8 d.sideRaw

def RawExecReport.execType (d : RawExecReport) : Except WireError ExecType :=
  ExecType.fromU8 d.execTypeRaw

def RawExecReport.rejectReason (d : RawExecReport) : Except WireError RejectReason :=
  RejectReason.fromU8 d.rejectReasonRaw

/-- The accessors of `ExecReportDecoder`. -/
def RawExecReport.read (b : Buf) : RawExecReport :=
  { clientOrderId := leU64 b 8, exchangeOrderId := leU64 b 16, tradeId := leU64 b 24,
    price := leI64 b 32, quantity := leU32 b 40, leavesQuantity := leU32 b 44,
    symbolId := leU16 b 48, sideRaw := leU8 b 50, execTypeRaw := leU8 b 51,
    rejectReasonRaw := leU8 b 52 }

inductive OrderPathMessage where
  | newOrder (d : NewOrder)
  | cancelOrder (d : CancelOrder)
  | execReport (d : RawExecReport)
  | reconcileRequest (requestId : UInt64)
  deriving DecidableEq, Repr

/-! ## Decoding -/

/-- `NewOrderDecoder::wrap`; with the message, `total_len`. -/
def NewOrder.wrap (b : Buf) : Except WireError (OrderPathMessage × Nat) := do
  let rootLen ← wrapRoot "NewOrder" Template.newOrder 24 b
  .ok (.newOrder (NewOrder.read b), messageHeaderLen + rootLen)

def CancelOrder.wrap (b : Buf) : Except WireError (OrderPathMessage × Nat) := do
  let rootLen ← wrapRoot "CancelOrder" Template.cancelOrder 24 b
  .ok (.cancelOrder (CancelOrder.read b), messageHeaderLen + rootLen)

def ExecReport.wrap (b : Buf) : Except WireError (OrderPathMessage × Nat) := do
  let rootLen ← wrapRoot "ExecReport" Template.execReport 48 b
  .ok (.execReport (RawExecReport.read b), messageHeaderLen + rootLen)

def ReconcileRequest.wrap (b : Buf) : Except WireError (OrderPathMessage × Nat) := do
  let rootLen ← wrapRoot "ReconcileRequest" Template.reconcileRequest 16 b
  .ok (.reconcileRequest (leU64 b 8), messageHeaderLen + rootLen)

/-- `decode_order_path_message`. A template of the feed is as unknown to it as any other. -/
def decodeOrderPathMessage (b : Buf) : Except WireError (OrderPathMessage × Nat) :=
  if b.length < messageHeaderLen then .error (.shortBuffer messageHeaderLen b.length)
  else if leU16 b 4 ≠ schemaId then .error (.schemaMismatch schemaId (leU16 b 4))
  else if leU16 b 2 = Template.newOrder then NewOrder.wrap b
  else if leU16 b 2 = Template.cancelOrder then CancelOrder.wrap b
  else if leU16 b 2 = Template.execReport then ExecReport.wrap b
  else if leU16 b 2 = Template.reconcileRequest then ReconcileRequest.wrap b
  else .error (.unknownTemplate (leU16 b 2))

/-- What the `wrap` of every C++ decoder checks, with the stated block length. -/
def wrapRoot? (templateId blockLength : UInt16) (b : Buf) : Option Nat :=
  if b.length < messageHeaderLen then none
  else if leU16 b 2 ≠ templateId then none
  else if (leU16 b 0).toNat < blockLength.toNat then none
  else if b.length < messageHeaderLen + (leU16 b 0).toNat then none
  else some (leU16 b 0).toNat

/-- `NewOrderDecoder::wrap` of the C++ side. -/
def NewOrder.wrap? (b : Buf) : Option NewOrder :=
  (wrapRoot? Template.newOrder 24 b).map fun _ => NewOrder.read b

def CancelOrder.wrap? (b : Buf) : Option CancelOrder :=
  (wrapRoot? Template.cancelOrder 24 b).map fun _ => CancelOrder.read b

def ExecReport.wrap? (b : Buf) : Option RawExecReport :=
  (wrapRoot? Template.execReport 48 b).map fun _ => RawExecReport.read b

def ReconcileRequest.wrap? (b : Buf) : Option UInt64 :=
  (wrapRoot? Template.reconcileRequest 16 b).map fun _ => leU64 b 8

/-! ## Encoding -/

def newOrderBlock (clientOrderId : UInt64) (price : Int64) (quantity : UInt32)
    (symbolId : UInt16) (side : Side) : Buf :=
  let b := rootBlock 24 Template.newOrder
  let b := putU64 b 8 clientOrderId
  let b := putI64 b 16 price
  let b := putU32 b 24 quantity
  let b := putU16 b 28 symbolId
  putU8 b 30 side.toU8

def encodeNewOrder (b : Buf) (clientOrderId : UInt64) (price : Int64) (quantity : UInt32)
    (symbolId : UInt16) (side : Side) : Except WireError (Buf × Nat) :=
  encodeBlock (newOrderBlock clientOrderId price quantity symbolId side) b

def cancelOrderBlock (clientOrderId origClientOrderId : UInt64) (symbolId : UInt16)
    (side : Side) : Buf :=
  let b := rootBlock 24 Template.cancelOrder
  let b := putU64 b 8 clientOrderId
  let b := putU64 b 16 origClientOrderId
  let b := putU16 b 24 symbolId
  putU8 b 26 side.toU8

def encodeCancelOrder (b : Buf) (clientOrderId origClientOrderId : UInt64) (symbolId : UInt16)
    (side : Side) : Except WireError (Buf × Nat) :=
  encodeBlock (cancelOrderBlock clientOrderId origClientOrderId symbolId side) b

def execReportBlock (r : ExecReport) : Buf :=
  let b := rootBlock 48 Template.execReport
  let b := putU64 b 8 r.clientOrderId
  let b := putU64 b 16 r.exchangeOrderId
  let b := putU64 b 24 r.tradeId
  let b := putI64 b 32 r.price
  let b := putU32 b 40 r.quantity
  let b := putU32 b 44 r.leavesQuantity
  let b := putU16 b 48 r.symbolId
  let b := putU8 b 50 r.side.toU8
  let b := putU8 b 51 r.execType.toU8
  putU8 b 52 r.rejectReason.toU8

def encodeExecReport (b : Buf) (r : ExecReport) : Except WireError (Buf × Nat) :=
  encodeBlock (execReportBlock r) b

def reconcileRequestBlock (requestId : UInt64) : Buf :=
  putU64 (rootBlock 16 Template.reconcileRequest) 8 requestId

def encodeReconcileRequest (b : Buf) (requestId : UInt64) : Except WireError (Buf × Nat) :=
  encodeBlock (reconcileRequestBlock requestId) b

/-- What every C++ encoder does: clear the message's extent in the caller's buffer, write the
header, and store the fields. -/
def encodeStores? (blockLength templateId : UInt16) (stores : Buf → Buf) (b : Buf) :
    Option (Buf × Nat) :=
  let kLen := messageHeaderLen + blockLength.toNat
  if b.length < kLen then none
  else
    some (stores (writeMessageHeader (List.replicate kLen 0 ++ b.drop kLen) blockLength templateId),
      kLen)

/-- `encode_new_order` of the C++ side. -/
def encodeNewOrder? (b : Buf) (clientOrderId : UInt64) (price : Int64) (quantity : UInt32)
    (symbolId : UInt16) (side : Side) : Option (Buf × Nat) :=
  encodeStores? 24 Template.newOrder (fun b =>
    let b := putU64 b messageHeaderLen clientOrderId
    let b := putI64 b (messageHeaderLen + 8) price
    let b := putU32 b (messageHeaderLen + 16) quantity
    let b := putU16 b (messageHeaderLen + 20) symbolId
    putU8 b (messageHeaderLen + 22) side.toU8) b

def encodeCancelOrder? (b : Buf) (clientOrderId origClientOrderId : UInt64) (symbolId : UInt16)
    (side : Side) : Option (Buf × Nat) :=
  encodeStores? 24 Template.cancelOrder (fun b =>
    let b := putU64 b messageHeaderLen clientOrderId
    let b := putU64 b (messageHeaderLen + 8) origClientOrderId
    let b := putU16 b (messageHeaderLen + 16) symbolId
    putU8 b (messageHeaderLen + 18) side.toU8) b

def encodeExecReport? (b : Buf) (r : ExecReport) : Option (Buf × Nat) :=
  encodeStores? 48 Template.execReport (fun b =>
    let b := putU64 b messageHeaderLen r.clientOrderId
    let b := putU64 b (messageHeaderLen + 8) r.exchangeOrderId
    let b := putU64 b (messageHeaderLen + 16) r.tradeId
    let b := putI64 b (messageHeaderLen + 24) r.price
    let b := putU32 b (messageHeaderLen + 32) r.quantity
    let b := putU32 b (messageHeaderLen + 36) r.leavesQuantity
    let b := putU16 b (messageHeaderLen + 40) r.symbolId
    let b := putU8 b (messageHeaderLen + 42) r.side.toU8
    let b := putU8 b (messageHeaderLen + 43) r.execType.toU8
    putU8 b (messageHeaderLen + 44) r.rejectReason.toU8) b

def encodeReconcileRequest? (b : Buf) (requestId : UInt64) : Option (Buf × Nat) :=
  encodeStores? 16 Template.reconcileRequest (fun b => putU64 b messageHeaderLen requestId) b

/-! ## The two sets of checks -/

/-- The C++ `wrap` takes what the Rust `wrap` takes, with the same block length. -/
theorem wrapRoot?_eq (message : String) (templateId blockLength : UInt16) (b : Buf) :
    wrapRoot? templateId blockLength b = (wrapRoot message templateId blockLength b).toOption := by
  unfold wrapRoot? wrapRoot
  split_ifs <;> rfl

theorem wrapRoot?_some {templateId blockLength : UInt16} {b : Buf} {rootLen : Nat}
    (h : wrapRoot? templateId blockLength b = some rootLen) :
    messageHeaderLen + rootLen ≤ b.length ∧ leU16 b 2 = templateId ∧
      rootLen = (leU16 b 0).toNat ∧ blockLength.toNat ≤ rootLen := by
  unfold wrapRoot? at h
  split_ifs at h with hheader htemplate hblock hroot
  cases h
  exact ⟨Nat.le_of_not_lt hroot, not_not.mp htemplate, rfl, Nat.le_of_not_lt hblock⟩

theorem wrapRoot?_eq_some {templateId blockLength : UInt16} {b : Buf}
    (htemplate : leU16 b 2 = templateId) (hblock : blockLength.toNat ≤ (leU16 b 0).toNat)
    (hroot : messageHeaderLen + (leU16 b 0).toNat ≤ b.length) :
    wrapRoot? templateId blockLength b = some (leU16 b 0).toNat := by
  unfold wrapRoot?
  rw [if_neg (by omega), if_neg (not_not.mpr htemplate), if_neg (by omega), if_neg (by omega)]

/-- What is read of an order is in the part of the message that this schema knows. -/
theorem NewOrder.read_take {b : Buf} {n : Nat} (hn : messageHeaderLen + 24 ≤ n) :
    NewOrder.read (b.take n) = NewOrder.read b := by
  have hread : ∀ o k, o + k ≤ 32 → leNat (b.take n) o k = leNat b o k := by
    intro o k hok
    rw [messageHeaderLen] at hn
    exact leNat_take b (by omega)
  simp only [NewOrder.read, leU64, leI64, leU32, leU16, leU8]
  rw [hread 8 8 (by decide), hread 16 8 (by decide), hread 24 4 (by decide), hread 28 2 (by decide),
    hread 30 1 (by decide)]

/-- The header's fields are in its eight bytes. -/
theorem leU16_take {b : Buf} {o n : Nat} (ho : o + 2 ≤ n) : leU16 (b.take n) o = leU16 b o := by
  rw [leU16, leNat_take b ho, leU16]

theorem wrapRoot_eq_ok {message : String} {templateId blockLength : UInt16} {b : Buf}
    {rootLen : Nat} : wrapRoot message templateId blockLength b = .ok rootLen ↔
      wrapRoot? templateId blockLength b = some rootLen := by
  rw [wrapRoot?_eq message]
  cases wrapRoot message templateId blockLength b with
  | error e => simp [Except.toOption]
  | ok stated => simp [Except.toOption]

/-- **What the Rust dispatch reads as a NewOrder** is what a C++ decoder takes for one, in a message
whose header names this schema. -/
theorem NewOrder.decodes_iff {b : Buf} {m : NewOrder} :
    (∃ n, decodeOrderPathMessage b = .ok (.newOrder m, n)) ↔
      NewOrder.wrap? b = some m ∧ leU16 b 4 = schemaId := by
  constructor
  · intro h
    obtain ⟨n, h⟩ := h
    unfold decodeOrderPathMessage at h
    split_ifs at h with hheader hschema hnew hcancel hreport hreconcile
    · obtain ⟨rootLen, hroot, h⟩ := bind_eq_ok h
      simp only [Except.ok.injEq, Prod.mk.injEq, OrderPathMessage.newOrder.injEq] at h
      obtain ⟨rfl, -⟩ := h
      refine ⟨?_, not_not.mp hschema⟩
      rw [NewOrder.wrap?, wrapRoot_eq_ok.mp hroot]
      rfl
    · obtain ⟨rootLen, -, h⟩ := bind_eq_ok h
      simp at h
    · obtain ⟨rootLen, -, h⟩ := bind_eq_ok h
      simp at h
    · obtain ⟨rootLen, -, h⟩ := bind_eq_ok h
      simp at h
  · intro h
    obtain ⟨hwrap, hschema⟩ := h
    obtain ⟨rootLen, hroot, rfl⟩ := Option.map_eq_some_iff.mp hwrap
    obtain ⟨hlen, htemplate, -, -⟩ := wrapRoot?_some hroot
    refine ⟨messageHeaderLen + rootLen, ?_⟩
    unfold decodeOrderPathMessage
    rw [if_neg (by omega), if_neg (not_not.mpr hschema), if_pos htemplate, NewOrder.wrap,
      wrapRoot_eq_ok.mpr hroot]
    rfl

/-- **A cut of the message** is the same NewOrder where it holds all of the root block, and none
where it does not. -/
theorem NewOrder.wrap?_take {b : Buf} {m : NewOrder} {n : Nat} (h : NewOrder.wrap? b = some m)
    (hn : messageHeaderLen + 24 ≤ n) :
    NewOrder.wrap? (b.take n) = some m ↔ messageHeaderLen + (leU16 b 0).toNat ≤ n := by
  obtain ⟨rootLen, hroot, rfl⟩ := Option.map_eq_some_iff.mp h
  obtain ⟨hlen, htemplate, rfl, hblock⟩ := wrapRoot?_some hroot
  have hheader : ∀ o, o + 2 ≤ 8 → leU16 (b.take n) o = leU16 b o := by
    intro o ho
    rw [messageHeaderLen] at hn
    exact leU16_take (by omega)
  constructor
  · intro hcut
    obtain ⟨cutLen, hcutRoot, -⟩ := Option.map_eq_some_iff.mp hcut
    obtain ⟨hcutLen, -, rfl, -⟩ := wrapRoot?_some hcutRoot
    rw [hheader 0 (by decide), List.length_take] at hcutLen
    omega
  · intro hfits
    have hcut : wrapRoot? Template.newOrder 24 (b.take n) = some (leU16 b 0).toNat := by
      rw [← hheader 0 (by decide)]
      apply wrapRoot?_eq_some
      · rw [hheader 2 (by decide), htemplate]
      · rw [hheader 0 (by decide)]
        exact hblock
      · rw [hheader 0 (by decide), List.length_take]
        omega
    rw [NewOrder.wrap?, hcut, Option.map_some, NewOrder.read_take hn]

/-! ## From one language to the other -/

/-- A message of the order path as an encoder is given it. -/
inductive PathMessage where
  | newOrder (clientOrderId : UInt64) (price : Int64) (quantity : UInt32) (symbolId : UInt16)
      (side : Side)
  | cancelOrder (clientOrderId origClientOrderId : UInt64) (symbolId : UInt16) (side : Side)
  | execReport (r : ExecReport)
  | reconcileRequest (requestId : UInt64)
  deriving DecidableEq, Repr

/-- The report with its enumerations as they stand in the message. -/
def ExecReport.raw (r : ExecReport) : RawExecReport :=
  { r with
    sideRaw := r.side.toU8, execTypeRaw := r.execType.toU8, rejectReasonRaw := r.rejectReason.toU8 }

/-- The validating accessors answer what was put in. -/
theorem ExecReport.raw_valid (r : ExecReport) : r.raw.side = .ok r.side ∧
    r.raw.execType = .ok r.execType ∧ r.raw.rejectReason = .ok r.rejectReason :=
  ⟨Side.fromU8_toU8 _, ExecType.fromU8_toU8 _, RejectReason.fromU8_toU8 _⟩

namespace PathMessage

/-- The fields a decoder reads of the message. -/
def read : PathMessage → OrderPathMessage
  | .newOrder clientOrderId price quantity symbolId side =>
    .newOrder ⟨clientOrderId, price, quantity, symbolId, some side⟩
  | .cancelOrder clientOrderId origClientOrderId symbolId side =>
    .cancelOrder ⟨clientOrderId, origClientOrderId, symbolId, some side⟩
  | .execReport r => .execReport r.raw
  | .reconcileRequest requestId => .reconcileRequest requestId

/-- The Rust encoder of the message. -/
def encode (b : Buf) : PathMessage → Except WireError (Buf × Nat)
  | .newOrder clientOrderId price quantity symbolId side =>
    encodeNewOrder b clientOrderId price quantity symbolId side
  | .cancelOrder clientOrderId origClientOrderId symbolId side =>
    encodeCancelOrder b clientOrderId origClientOrderId symbolId side
  | .execReport r => encodeExecReport b r
  | .reconcileRequest requestId => encodeReconcileRequest b requestId

/-- The C++ encoder of the message. -/
def encode? (b : Buf) : PathMessage → Option (Buf × Nat)
  | .newOrder clientOrderId price quantity symbolId side =>
    encodeNewOrder? b clientOrderId price quantity symbolId side
  | .cancelOrder clientOrderId origClientOrderId symbolId side =>
    encodeCancelOrder? b clientOrderId origClientOrderId symbolId side
  | .execReport r => encodeExecReport? b r
  | .reconcileRequest requestId => encodeReconcileRequest? b requestId

/-- The C++ decoder of the message's class. -/
def wrap? (b : Buf) : PathMessage → Option OrderPathMessage
  | .newOrder .. => (NewOrder.wrap? b).map .newOrder
  | .cancelOrder .. => (CancelOrder.wrap? b).map .cancelOrder
  | .execReport .. => (ExecReport.wrap? b).map .execReport
  | .reconcileRequest .. => (ReconcileRequest.wrap? b).map .reconcileRequest

/-- The bytes the message occupies. -/
def block : PathMessage → Buf
  | .newOrder clientOrderId price quantity symbolId side =>
    newOrderBlock clientOrderId price quantity symbolId side
  | .cancelOrder clientOrderId origClientOrderId symbolId side =>
    cancelOrderBlock clientOrderId origClientOrderId symbolId side
  | .execReport r => execReportBlock r
  | .reconcileRequest requestId => reconcileRequestBlock requestId

/-- Both encoders write the message where it fits, and either language reads it back. -/
structure Crosses (m : PathMessage) (b out : Buf) (n : Nat) : Prop where
  rust : m.encode b = .ok (out, n)
  cpp : m.encode? b = some (out, n)
  toRust : decodeOrderPathMessage (out.take n) = .ok (m.read, n)
  toCpp : m.wrap? (out.take n) = some m.read

theorem encode_eq (m : PathMessage) (b : Buf) : m.encode b = encodeBlock m.block b := by
  cases m with
  | newOrder | cancelOrder | execReport | reconcileRequest => rfl

end PathMessage

/-- A root block cleared and headed in the caller's buffer. -/
theorem writeMessageHeader_append (blockLength templateId : UInt16) (rest : Buf) :
    writeMessageHeader (List.replicate (messageHeaderLen + blockLength.toNat) 0 ++ rest) blockLength
      templateId = rootBlock blockLength templateId ++ rest := by
  rw [rootBlock, writeMessageHeader, writeMessageHeader, putU16, putU16, putU16, putU16]
  simp (disch := simp [messageHeaderLen]; try omega) only [putNat_append_left, putU16]

theorem length_rootBlock (blockLength templateId : UInt16) :
    (rootBlock blockLength templateId).length = messageHeaderLen + blockLength.toNat :=
  (isRoot_rootBlock blockLength templateId).length

/-- Stores that stay inside of the extent leave a block there, as a Rust encoder does. -/
theorem encodeStores?_eq {blockLength templateId : UInt16} {stores : Buf → Buf} {block : Buf}
    (hstores : ∀ rest, stores (rootBlock blockLength templateId ++ rest) = block ++ rest)
    (hlen : block.length = messageHeaderLen + blockLength.toNat) (b : Buf) :
    encodeStores? blockLength templateId stores b = (encodeBlock block b).toOption := by
  unfold encodeStores? encodeBlock
  dsimp only
  rw [writeMessageHeader_append, hstores, hlen]
  split_ifs
  · rfl
  · rfl

namespace PathMessage

/-- The stated length of the message's root block, and its template. -/
def blockLength : PathMessage → UInt16
  | .newOrder .. | .cancelOrder .. => 24
  | .execReport .. => 48
  | .reconcileRequest .. => 16

def template : PathMessage → UInt16
  | .newOrder .. => Template.newOrder
  | .cancelOrder .. => Template.cancelOrder
  | .execReport .. => Template.execReport
  | .reconcileRequest .. => Template.reconcileRequest

theorem isRoot_block (m : PathMessage) : IsRoot m.block m.blockLength m.template := by
  cases m with
  | newOrder =>
    exact (((((isRoot_rootBlock 24 Template.newOrder).putNat _ _ (by decide)).putNat _ _
      (by decide)).putNat _ _ (by decide)).putNat _ _ (by decide)).putNat _ _ (by decide)
  | cancelOrder =>
    exact ((((isRoot_rootBlock 24 Template.cancelOrder).putNat _ _ (by decide)).putNat _ _
      (by decide)).putNat _ _ (by decide)).putNat _ _ (by decide)
  | execReport =>
    exact ((((((((((isRoot_rootBlock 48 Template.execReport).putNat _ _ (by decide)).putNat _ _
      (by decide)).putNat _ _ (by decide)).putNat _ _ (by decide)).putNat _ _ (by decide)).putNat
      _ _ (by decide)).putNat _ _ (by decide)).putNat _ _ (by decide)).putNat _ _
      (by decide)).putNat _ _ (by decide)
  | reconcileRequest => exact (isRoot_rootBlock 16 Template.reconcileRequest).putNat _ _ (by decide)

/-- **The two languages' encoders write the same bytes**, or neither writes any. -/
theorem encode?_eq (m : PathMessage) (b : Buf) : m.encode? b = (m.encode b).toOption := by
  have hlen := m.isRoot_block.length
  cases m with
  | newOrder clientOrderId price quantity symbolId side =>
    simp only [block, blockLength] at hlen
    show encodeNewOrder? .. = (encodeNewOrder ..).toOption
    unfold encodeNewOrder? encodeNewOrder
    refine encodeStores?_eq (fun rest => ?_) hlen b
    simp (disch := simp [length_rootBlock, messageHeaderLen]) only [newOrderBlock, putU64, putI64,
      putU32, putU16, putU8, messageHeaderLen, Nat.reduceAdd, putNat_append_left]
  | cancelOrder clientOrderId origClientOrderId symbolId side =>
    simp only [block, blockLength] at hlen
    show encodeCancelOrder? .. = (encodeCancelOrder ..).toOption
    unfold encodeCancelOrder? encodeCancelOrder
    refine encodeStores?_eq (fun rest => ?_) hlen b
    simp (disch := simp [length_rootBlock, messageHeaderLen]) only [cancelOrderBlock, putU64,
      putU16, putU8, messageHeaderLen, Nat.reduceAdd, putNat_append_left]
  | execReport r =>
    simp only [block, blockLength] at hlen
    show encodeExecReport? .. = (encodeExecReport ..).toOption
    unfold encodeExecReport? encodeExecReport
    refine encodeStores?_eq (fun rest => ?_) hlen b
    simp (disch := simp [length_rootBlock, messageHeaderLen]) only [execReportBlock, putU64, putI64,
      putU32, putU16, putU8, messageHeaderLen, Nat.reduceAdd, putNat_append_left]
  | reconcileRequest requestId =>
    simp only [block, blockLength] at hlen
    show encodeReconcileRequest? .. = (encodeReconcileRequest ..).toOption
    unfold encodeReconcileRequest? encodeReconcileRequest
    refine encodeStores?_eq (fun rest => ?_) hlen b
    simp (disch := simp [length_rootBlock, messageHeaderLen]) only [reconcileRequestBlock, putU64,
      messageHeaderLen, putNat_append_left]

/-- The checks of a decoder of the message's class pass on its block. -/
theorem wrapRoot_block (m : PathMessage) (message : String) :
    wrapRoot message m.template m.blockLength m.block = .ok m.blockLength.toNat := by
  have h := m.isRoot_block.wrapRoot message []
  rwa [List.append_nil] at h

/-- The dispatch of `decode_order_path_message` on the message's block. -/
theorem decode_block (m : PathMessage) : decodeOrderPathMessage m.block =
    if m.template = Template.newOrder then NewOrder.wrap m.block
    else if m.template = Template.cancelOrder then CancelOrder.wrap m.block
    else if m.template = Template.execReport then ExecReport.wrap m.block
    else if m.template = Template.reconcileRequest then ReconcileRequest.wrap m.block
    else .error (.unknownTemplate m.template) := by
  have hroot := m.isRoot_block
  have hlen := hroot.length
  unfold decodeOrderPathMessage
  rw [if_neg (by omega), if_neg (by rw [hroot.schema]; simp), hroot.template]

section Reads

theorem read_newOrderBlock (clientOrderId : UInt64) (price : Int64) (quantity : UInt32)
    (symbolId : UInt16) (side : Side) :
    NewOrder.read (newOrderBlock clientOrderId price quantity symbolId side) =
      ⟨clientOrderId, price, quantity, symbolId, some side⟩ := by
  simp (disch := first | decide | simp [length_rootBlock, messageHeaderLen]) only [NewOrder.read,
    newOrderBlock, leU64, leI64, leU32, leU16, leU8, putU64, putI64, putU32, putU16, putU8,
    leNat_putNat_of_disjoint, leNat_putNat_self, ofNat_toNat_mod_u8, ofNat_toNat_mod_u16,
    ofNat_toNat_mod_u32, ofNat_toNat_mod_u64, Int64.toInt64_toUInt64, Side.fromU8_toU8]
  rfl

theorem read_cancelOrderBlock (clientOrderId origClientOrderId : UInt64) (symbolId : UInt16)
    (side : Side) :
    CancelOrder.read (cancelOrderBlock clientOrderId origClientOrderId symbolId side) =
      ⟨clientOrderId, origClientOrderId, symbolId, some side⟩ := by
  simp (disch := first | decide | simp [length_rootBlock, messageHeaderLen]) only [CancelOrder.read,
    cancelOrderBlock, leU64, leU16, leU8, putU64, putU16, putU8, leNat_putNat_of_disjoint,
    leNat_putNat_self, ofNat_toNat_mod_u8, ofNat_toNat_mod_u16, ofNat_toNat_mod_u64,
    Side.fromU8_toU8]
  rfl

theorem read_execReportBlock (r : ExecReport) : RawExecReport.read (execReportBlock r) = r.raw := by
  simp (disch := first | decide | simp [length_rootBlock, messageHeaderLen]) only
    [RawExecReport.read, execReportBlock, leU64, leI64, leU32, leU16, leU8, putU64, putI64, putU32,
    putU16, putU8, leNat_putNat_of_disjoint, leNat_putNat_self, ofNat_toNat_mod_u8,
    ofNat_toNat_mod_u16, ofNat_toNat_mod_u32, ofNat_toNat_mod_u64, Int64.toInt64_toUInt64]
  rfl

theorem read_reconcileRequestBlock (requestId : UInt64) :
    leU64 (reconcileRequestBlock requestId) 8 = requestId :=
  leU64_putU64 requestId (by simp [length_rootBlock, messageHeaderLen])

end Reads

/-- **Either language reads the block back.** -/
theorem reads_block (m : PathMessage) :
    decodeOrderPathMessage m.block = .ok (m.read, m.block.length) ∧
      m.wrap? m.block = some m.read := by
  have hwrap := m.wrapRoot_block
  have hwrap? := wrapRoot_eq_ok.mp (hwrap "")
  rw [m.isRoot_block.length, decode_block]
  cases m with
  | newOrder clientOrderId price quantity symbolId side =>
    simp only [template, blockLength, block] at hwrap hwrap? ⊢
    simp only [if_pos, NewOrder.wrap, NewOrder.wrap?, wrap?, hwrap, hwrap?, bind, Except.bind,
      read_newOrderBlock, read, Option.map_some, and_self]
  | cancelOrder =>
    simp only [template, blockLength, block] at hwrap hwrap? ⊢
    rw [if_neg (by decide), if_pos trivial]
    simp only [CancelOrder.wrap, CancelOrder.wrap?, wrap?, hwrap, hwrap?, bind, Except.bind,
      read_cancelOrderBlock, read, Option.map_some, and_self]
  | execReport =>
    simp only [template, blockLength, block] at hwrap hwrap? ⊢
    rw [if_neg (by decide), if_neg (by decide), if_pos trivial]
    simp only [ExecReport.wrap, ExecReport.wrap?, wrap?, hwrap, hwrap?, bind, Except.bind,
      read_execReportBlock, read, Option.map_some, and_self]
  | reconcileRequest =>
    simp only [template, blockLength, block] at hwrap hwrap? ⊢
    rw [if_neg (by decide), if_neg (by decide), if_neg (by decide), if_pos trivial]
    simp only [ReconcileRequest.wrap, ReconcileRequest.wrap?, wrap?, hwrap, hwrap?, bind,
      Except.bind, read_reconcileRequestBlock, read, Option.map_some, and_self]

/-- **The order path crosses** from either language to the other. -/
theorem crosses (m : PathMessage) {b : Buf} (hroom : m.block.length ≤ b.length) :
    ∃ out, m.Crosses b out m.block.length := by
  have hencode : m.encode b = .ok (m.block ++ b.drop m.block.length, m.block.length) := by
    rw [encode_eq, encodeBlock, if_neg (Nat.not_lt.mpr hroom)]
  obtain ⟨hrust, hcpp⟩ := m.reads_block
  refine ⟨m.block ++ b.drop m.block.length, hencode, ?_, ?_, ?_⟩
  · rw [encode?_eq, hencode]
    rfl
  · rw [List.take_left]
    exact hrust
  · rw [List.take_left]
    exact hcpp

end PathMessage
end MarketData.Wire
