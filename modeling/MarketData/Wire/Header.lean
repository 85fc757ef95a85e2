import Mathlib.Data.Nat.Basic
import MarketData.Lib.Bytes

/-!
# `Wire/Header.lean` — the field accessors and the datagram header

`crates/wire/src/generated.rs` and `crates/wire/src/error.rs`. Every field of the feed is a
little-endian integer at a fixed byte offset, read by `le_*` and written by `put_*`; this file
is those accessors, the errors a decoder can return, and `packetHeader`, the 24 bytes of
framing in front of every datagram.

```
0  schemaId       u16      6  channel          u8       8  firstSequence    u64
2  version        u16      7  flags            u8      16  sendTimestampNs  u64
4  messageCount   u16
```

The Rust decoders borrow the buffer and read a field when it is asked for. Here a decoder
answers the fields it would read, as a record; a field that the source validates only on
demand (`side()`, `reason()`) stays the raw byte it is on the wire.

The accessors are those of `Lib/Bytes.lean` at the four widths, with values of the width they have.
They are total, as there; the source's slices are not, and a decoder's `wrap` is what keeps them
inside of the buffer.
-/

set_option autoImplicit false

namespace MarketData.Wire

open MarketData.Bytes

/-- A datagram, or a part of one. -/
abbrev Buf := List UInt8

/-- `WireError` (`error.rs`). -/
inductive WireError where
  | shortBuffer (needed got : Nat)
  | schemaMismatch (expected got : UInt16)
  | templateMismatch (expected got : UInt16)
  | blockTooSmall (message : String) (needed got : UInt16)
  | unknownTemplate (id : UInt16)
  | invalidEnum (name : String) (value : Nat)
  | groupOverflow (group : String)
  deriving DecidableEq, Repr

/-! ## `le_*` and `put_*` -/

def leU8 (b : Buf) (o : Nat) : UInt8 := UInt8.ofNat (leNat b o 1)
def leU16 (b : Buf) (o : Nat) : UInt16 := UInt16.ofNat (leNat b o 2)
def leU32 (b : Buf) (o : Nat) : UInt32 := UInt32.ofNat (leNat b o 4)
def leU64 (b : Buf) (o : Nat) : UInt64 := UInt64.ofNat (leNat b o 8)
def leI64 (b : Buf) (o : Nat) : Int64 := (leU64 b o).toInt64

def putU8 (b : Buf) (o : Nat) (v : UInt8) : Buf := putNat b o 1 v.toNat
def putU16 (b : Buf) (o : Nat) (v : UInt16) : Buf := putNat b o 2 v.toNat
def putU32 (b : Buf) (o : Nat) (v : UInt32) : Buf := putNat b o 4 v.toNat
def putU64 (b : Buf) (o : Nat) (v : UInt64) : Buf := putNat b o 8 v.toNat
def putI64 (b : Buf) (o : Nat) (v : Int64) : Buf := putU64 b o v.toUInt64

section Lengths
variable (b : Buf) (o : Nat)

@[simp] theorem length_putU8 (v : UInt8) : (putU8 b o v).length = b.length := length_putNat ..
@[simp] theorem length_putU16 (v : UInt16) : (putU16 b o v).length = b.length := length_putNat ..
@[simp] theorem length_putU32 (v : UInt32) : (putU32 b o v).length = b.length := length_putNat ..
@[simp] theorem length_putU64 (v : UInt64) : (putU64 b o v).length = b.length := length_putNat ..
@[simp] theorem length_putI64 (v : Int64) : (putI64 b o v).length = b.length := length_putNat ..

end Lengths

/-! A field reads back the value that was put there. -/

section Same
variable {b : Buf} {o : Nat}

theorem leU8_putU8 (v : UInt8) (h : o + 1 ≤ b.length) : leU8 (putU8 b o v) o = v := by
  rw [leU8, putU8, leNat_putNat_self _ _ _ _ h,
    Nat.mod_eq_of_lt (show v.toNat < 256 ^ 1 from v.toNat_lt), UInt8.ofNat_toNat]

theorem leU16_putU16 (v : UInt16) (h : o + 2 ≤ b.length) : leU16 (putU16 b o v) o = v := by
  rw [leU16, putU16, leNat_putNat_self _ _ _ _ h,
    Nat.mod_eq_of_lt (show v.toNat < 256 ^ 2 from v.toNat_lt), UInt16.ofNat_toNat]

theorem leU32_putU32 (v : UInt32) (h : o + 4 ≤ b.length) : leU32 (putU32 b o v) o = v := by
  rw [leU32, putU32, leNat_putNat_self _ _ _ _ h,
    Nat.mod_eq_of_lt (show v.toNat < 256 ^ 4 from v.toNat_lt), UInt32.ofNat_toNat]

theorem leU64_putU64 (v : UInt64) (h : o + 8 ≤ b.length) : leU64 (putU64 b o v) o = v := by
  rw [leU64, putU64, leNat_putNat_self _ _ _ _ h,
    Nat.mod_eq_of_lt (show v.toNat < 256 ^ 8 from v.toNat_lt), UInt64.ofNat_toNat]

end Same

/-! ## The datagram header -/

def schemaId : UInt16 := 1
def schemaVersion : UInt16 := 1
def packetHeaderLen : Nat := 24
def messageHeaderLen : Nat := 8
def groupSizeEncodingLen : Nat := 4

/-- `PACKET_FLAG_SNAPSHOT`: this datagram belongs to a snapshot cycle. -/
def packetFlagSnapshot : UInt8 := 0x01

/-- What `PacketHeaderDecoder` reads. -/
structure PacketHeader where
  version : UInt16
  messageCount : UInt16
  channel : UInt8
  flags : UInt8
  firstSequence : UInt64
  sendTimestampNs : UInt64
  deriving DecidableEq, Repr

/-- `PacketHeaderDecoder::wrap`: refuses a short buffer or a foreign schema. -/
def PacketHeader.wrap (b : Buf) : Except WireError PacketHeader :=
  if b.length < packetHeaderLen then .error (.shortBuffer packetHeaderLen b.length)
  else if leU16 b 0 ≠ schemaId then .error (.schemaMismatch schemaId (leU16 b 0))
  else .ok
    { version := leU16 b 2, messageCount := leU16 b 4, channel := leU8 b 6, flags := leU8 b 7,
      firstSequence := leU64 b 8, sendTimestampNs := leU64 b 16 }

def PacketHeader.isSnapshot (h : PacketHeader) : Bool := h.flags &&& packetFlagSnapshot ≠ 0

/-- `is_snapshot_datagram` (`feed-handler/src/main.rs`): the routing test of the handler. -/
def isSnapshotDatagram (b : Buf) : Bool :=
  match PacketHeader.wrap b with
  | .ok h => h.isSnapshot
  | .error _ => false

/-- The header block `encode_packet_header` leaves in the first 24 bytes. -/
def packetHeaderBlock (channel flags : UInt8) (firstSequence sendTimestampNs : UInt64) : Buf :=
  let b := List.replicate packetHeaderLen 0
  let b := putU16 b 0 schemaId
  let b := putU16 b 2 schemaVersion
  let b := putU16 b 4 0
  let b := putU8 b 6 channel
  let b := putU8 b 7 flags
  let b := putU64 b 8 firstSequence
  putU64 b 16 sendTimestampNs

/-- `encode_packet_header`: the first 24 bytes are zeroed and rewritten, the rest is kept. -/
def encodePacketHeader (b : Buf) (channel flags : UInt8)
    (firstSequence sendTimestampNs : UInt64) : Except WireError Buf :=
  if b.length < packetHeaderLen then .error (.shortBuffer packetHeaderLen b.length)
  else .ok (packetHeaderBlock channel flags firstSequence sendTimestampNs
    ++ b.drop packetHeaderLen)

/-- `patch_packet_channel`: the two arms send identical bytes apart from this one field. -/
def patchPacketChannel (b : Buf) (channel : UInt8) : Except WireError Buf :=
  if b.length < packetHeaderLen then .error (.shortBuffer packetHeaderLen b.length)
  else .ok (putU8 b 6 channel)

/-- `patch_message_count`. -/
def patchMessageCount (b : Buf) (count : UInt16) : Except WireError Buf :=
  if b.length < packetHeaderLen then .error (.shortBuffer packetHeaderLen b.length)
  else .ok (putU16 b 4 count)

end MarketData.Wire
