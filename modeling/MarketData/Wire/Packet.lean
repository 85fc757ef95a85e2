import Mathlib.Data.List.Basic
import MarketData.Wire.Message

/-!
# `Wire/Packet.lean` — a datagram and the messages in it

`PacketReader` and `PacketMessageIter` (`crates/wire/src/generated.rs`). Nothing on the wire
repeats a message's sequence: message `i` of a datagram has sequence `firstSequence + i`. The
iterator yields the first decode error and then nothing.

## Blocks

A message is read at a position, and the next one starts where it ends: so a datagram is not a list
of messages until all of it has been decoded. `Decodes` (`Wire/Message.lean`) makes it one. A
*block* is bytes that decode to a message **whatever follows them**, and a datagram whose body is
blocks one after the other reads back as their messages (`readPacket_blocks`). Everything that sends
datagrams in this development, the publisher and its snapshots, shows that what it has written is a
header and blocks, and is done with bytes.

`IsHeader` leaves open what a reader does not look at for that: the channel, by which the two arms
differ, and the time it was sent. `decodeAll` is a convenience for statements, the messages of a
list of datagrams under their sequences, or the first error in any of them.
-/

set_option autoImplicit false

namespace MarketData.Wire

open MarketData.Bytes

/-- `PacketMessageIter`: `remaining` messages from `pos` on, the first with sequence `sequence`. -/
def messagesFrom (b : Buf) :
    (remaining pos : Nat) → (sequence : UInt64) → List (Except WireError (UInt64 × Message))
  | 0, _, _ => []
  | remaining + 1, pos, sequence =>
    match decodeMessage (b.drop pos) with
    | .ok (msg, len) =>
      .ok (sequence, msg) :: messagesFrom b remaining (pos + len) (sequence + 1)
    | .error e => [.error e]

/-- `PacketReader::new` and `messages()`: what a consumer iterates over. -/
def readPacket (b : Buf) : Except WireError (List (Except WireError (UInt64 × Message))) := do
  let header ← PacketHeader.wrap b
  .ok (messagesFrom b header.messageCount.toNat packetHeaderLen header.firstSequence)

/-- Consecutive messages with their sequences. -/
def numbered (first : UInt64) : List Message → List (UInt64 × Message)
  | [] => []
  | m :: ms => (first, m) :: numbered (first + 1) ms

/-- **The body reads back**: consecutive blocks yield their messages, numbered from the first
sequence on. -/
theorem messagesFrom_blocks {blocks : List Buf} {ms : List Message}
    (h : List.Forall₂ Decodes blocks ms) (front rest : Buf) (first : UInt64) :
    messagesFrom (front ++ blocks.flatten ++ rest) ms.length front.length first =
      (numbered first ms).map .ok := by
  induction h generalizing front first with
  | nil => rfl
  | @cons block m blocks ms hd _ ih =>
    have hdrop : (front ++ (block :: blocks).flatten ++ rest).drop front.length =
        block ++ (blocks.flatten ++ rest) := by
      simp [List.append_assoc]
    have hfront : front ++ (block :: blocks).flatten ++ rest =
        (front ++ block) ++ blocks.flatten ++ rest := by
      simp [List.append_assoc]
    rw [List.length_cons, messagesFrom, hdrop, hd]
    dsimp only
    rw [numbered, List.map_cons, hfront, ← List.length_append, ih]

/-! ## The header of a sent datagram -/

/-- The 24 bytes name `count` messages from `first` on, whatever channel and time they name. -/
structure IsHeader (h : Buf) (flags : UInt8) (first : UInt64) (count : UInt16) : Prop where
  length : h.length = packetHeaderLen
  schema : leU16 h 0 = schemaId
  count : leU16 h 4 = count
  flags : leU8 h 7 = flags
  first : leU64 h 8 = first

@[simp] theorem length_packetHeaderBlock (channel flags : UInt8) (first now : UInt64) :
    (packetHeaderBlock channel flags first now).length = 24 := by
  simp [packetHeaderBlock, packetHeaderLen]

theorem isHeader_packetHeaderBlock (channel flags : UInt8) (first now : UInt64) :
    IsHeader (packetHeaderBlock channel flags first now) flags first 0 := by
  refine ⟨length_packetHeaderBlock .., ?_, ?_, ?_, ?_⟩ <;>
    simp (disch := first | decide | simp [packetHeaderLen]) only [packetHeaderBlock, leU64, leU16,
      leU8, putU64, putU16, putU8, leNat_putNat_of_disjoint, leNat_putNat_self,
      ofNat_toNat_mod_u8, ofNat_toNat_mod_u16, ofNat_toNat_mod_u64]

variable {h : Buf} {flags : UInt8} {first : UInt64} {count : UInt16}

theorem IsHeader.patchCount (hh : IsHeader h flags first count) (c : UInt16) :
    IsHeader (putU16 h 4 c) flags first c := by
  have hlen : h.length = 24 := hh.length
  refine ⟨by rw [length_putU16]; exact hh.length, ?_, leU16_putU16 c (by omega), ?_, ?_⟩
  · rw [leU16, putU16, leNat_putNat_of_disjoint _ _ _ _ _ _ (by decide)]; exact hh.schema
  · rw [leU8, putU16, leNat_putNat_of_disjoint _ _ _ _ _ _ (by decide)]; exact hh.flags
  · rw [leU64, putU16, leNat_putNat_of_disjoint _ _ _ _ _ _ (by decide)]; exact hh.first

theorem IsHeader.patchChannel (hh : IsHeader h flags first count) (c : UInt8) :
    IsHeader (putU8 h 6 c) flags first count := by
  refine ⟨by rw [length_putU8]; exact hh.length, ?_, ?_, ?_, ?_⟩
  · rw [leU16, putU8, leNat_putNat_of_disjoint _ _ _ _ _ _ (by decide)]; exact hh.schema
  · rw [leU16, putU8, leNat_putNat_of_disjoint _ _ _ _ _ _ (by decide)]; exact hh.count
  · rw [leU8, putU8, leNat_putNat_of_disjoint _ _ _ _ _ _ (by decide)]; exact hh.flags
  · rw [leU64, putU8, leNat_putNat_of_disjoint _ _ _ _ _ _ (by decide)]; exact hh.first

theorem IsHeader.wrap (hh : IsHeader h flags first count) (body : Buf) :
    ∃ header, PacketHeader.wrap (h ++ body) = .ok header ∧ header.messageCount = count ∧
      header.firstSequence = first ∧ header.flags = flags := by
  have hlen : h.length = 24 := hh.length
  have h0 : leU16 (h ++ body) 0 = schemaId := by
    rw [leU16, leNat_append_left _ _ (by omega)]; exact hh.schema
  have h4 : leU16 (h ++ body) 4 = count := by
    rw [leU16, leNat_append_left _ _ (by omega)]; exact hh.count
  have h7 : leU8 (h ++ body) 7 = flags := by
    rw [leU8, leNat_append_left _ _ (by omega)]; exact hh.flags
  have h8 : leU64 (h ++ body) 8 = first := by
    rw [leU64, leNat_append_left _ _ (by omega)]; exact hh.first
  have hbounds : ¬ (h ++ body).length < packetHeaderLen := by
    rw [List.length_append, hlen, packetHeaderLen]
    omega
  rw [PacketHeader.wrap, if_neg hbounds, if_neg (by rw [h0]; simp)]
  exact ⟨_, rfl, h4, h8, h7⟩

/-- **A sent datagram reads back.** -/
theorem readPacket_blocks {blocks : List Buf} {ms : List Message}
    (hh : IsHeader h flags first count) (hblocks : List.Forall₂ Decodes blocks ms)
    (hcount : count.toNat = ms.length) :
    readPacket (h ++ blocks.flatten) = .ok ((numbered first ms).map .ok) := by
  obtain ⟨header, hwrap, hc, hf, -⟩ := hh.wrap blocks.flatten
  have hbody := messagesFrom_blocks hblocks h [] first
  rw [List.append_nil, hh.length] at hbody
  rw [readPacket, hwrap]
  show Except.ok (messagesFrom _ header.messageCount.toNat packetHeaderLen header.firstSequence) = _
  rw [hc, hf, hcount, hbody]

/-- A datagram as it is sent on channel 0: the header, then the blocks of its messages. -/
def packet (flags : UInt8) (first : UInt64) (blocks : List Buf) : Buf :=
  putU16 (packetHeaderBlock 0 flags first 0) 4 (UInt16.ofNat blocks.length) ++ blocks.flatten

theorem isHeader_packet (flags : UInt8) (first : UInt64) (blocks : List Buf) :
    IsHeader (putU16 (packetHeaderBlock 0 flags first 0) 4 (UInt16.ofNat blocks.length)) flags first
      (UInt16.ofNat blocks.length) :=
  (isHeader_packetHeaderBlock 0 flags first 0).patchCount _

/-! ## A sequence of datagrams -/

/-- Every message of a datagram with its sequence, or the first error. -/
def decodeDatagram (b : Buf) : Except WireError (List (UInt64 × Message)) := do
  let messages ← readPacket b
  messages.mapM id

/-- The messages of the datagrams, one after the other. -/
def decodeAll : List Buf → Except WireError (List (UInt64 × Message))
  | [] => .ok []
  | b :: bs => do
    let ms ← decodeDatagram b
    let rest ← decodeAll bs
    .ok (ms ++ rest)

theorem mapM_id_ok (ms : List (UInt64 × Message)) :
    (ms.map Except.ok).mapM id = (.ok ms : Except WireError _) := by
  induction ms with
  | nil => rfl
  | cons m ms ih =>
    rw [List.map_cons, List.mapM_cons, ih]
    rfl

theorem decodeDatagram_blocks {blocks : List Buf} {ms : List Message}
    (hh : IsHeader h flags first count) (hblocks : List.Forall₂ Decodes blocks ms)
    (hcount : count.toNat = ms.length) :
    decodeDatagram (h ++ blocks.flatten) = .ok (numbered first ms) := by
  rw [decodeDatagram, readPacket_blocks hh hblocks hcount]
  exact mapM_id_ok _

theorem decodeAll_append {bs : List Buf} {b : Buf} {ms ms' : List (UInt64 × Message)}
    (hbs : decodeAll bs = .ok ms) (hb : decodeDatagram b = .ok ms') :
    decodeAll (bs ++ [b]) = .ok (ms ++ ms') := by
  induction bs generalizing ms with
  | nil =>
    cases hbs
    rw [List.nil_append, decodeAll, hb]
    simp [decodeAll, bind, Except.bind]
  | cons x bs ih =>
    rw [decodeAll] at hbs
    cases hx : decodeDatagram x with
    | error e => rw [hx] at hbs; cases hbs
    | ok mx =>
      cases hrest : decodeAll bs with
      | error e => rw [hx, hrest] at hbs; cases hbs
      | ok mrest =>
        rw [hx, hrest] at hbs
        cases hbs
        rw [List.cons_append, decodeAll, hx, ih hrest]
        simp [bind, Except.bind, List.append_assoc]

theorem numbered_append (first : UInt64) (ms ms' : List Message) :
    numbered first (ms ++ ms') =
      numbered first ms ++ numbered (first + UInt64.ofNat ms.length) ms' := by
  induction ms generalizing first with
  | nil => simp [numbered]
  | cons m ms ih =>
    have hnext : first + 1 + UInt64.ofNat ms.length = first + UInt64.ofNat (ms.length + 1) := by
      rw [UInt64.ofNat_add, UInt64.add_assoc, UInt64.add_comm 1]
      rfl
    rw [List.cons_append, numbered, ih, numbered, List.cons_append, List.length_cons, hnext]

end MarketData.Wire
