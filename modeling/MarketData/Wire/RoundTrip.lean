import Mathlib.Data.List.Enum
import MarketData.Wire.OrderCodec
import MarketData.Wire.PacketWriter

/-!
# `Wire/RoundTrip.lean` — what is written is what is read

The writer of `Wire/PacketWriter.lean` against the reader of `Wire/Packet.lean`, and the two
languages' codecs of the order path against each other.

A datagram `ReadsAs` a list of messages when the iterator yields these messages under consecutive
numbers, and stands at the end of the datagram afterwards. The numbers are counted as naturals:
that is what `firstSequence + i` says, and the iterator's own sum is one of sixty-four bits.

## A later schema

Every length a decoder steps by is one it was told, so that it can pass over what a later schema
has appended. `Extension` is what may be appended to a message: bytes after its root block, and
bytes after each entry of its group, with the stated lengths raised by as much. A message reads the
same with any of it (`FeedMessage.decodes_extended`). For a message that is a root block and nothing
else this follows from its own reading, **without going through its fields again**: each field is
where it was, and the checks that passed pass on a longer block (`decodes_raise`). A Snapshot has a
group behind its root block, and is read from its parts.

## The count

`PacketWriter` counts in sixteen bits, and only `commit` asks whether there is a number left. A list
too long for the count is written without complaint, as long as no Snapshot of it comes where the
count is full, and its datagram claims the rest modulo `65536`; `roundTrips_iff` says that this and
the end of the sequence numbers are all that comes between a list that fits and its messages. Both
are as the release profile has them: a build that checks its sums stops there instead.

A group of orders cannot be too long in this way, because the encoder of a Snapshot does ask, and
`OrdersGroup` is what it takes.
-/

set_option autoImplicit false

namespace MarketData.Wire

open MarketData.Bytes

/-! ## What a datagram reads as -/

/-- Where the iterator stands after `remaining` messages. -/
def messagesEnd (b : Buf) : (remaining pos : Nat) → Nat
  | 0, pos => pos
  | remaining + 1, pos =>
    match decodeMessage (b.drop pos) with
    | .ok (_, len) => messagesEnd b remaining (pos + len)
    | .error _ => pos

def packetEnd (b : Buf) : Except WireError Nat := do
  let header ← PacketHeader.wrap b
  .ok (messagesEnd b header.messageCount.toNat packetHeaderLen)

/-- The datagram reads as the messages, message `i` under the number `first + i`, and ends with
them. -/
structure ReadsAs (datagram : Buf) (first : UInt64) (ms : List Message) : Prop where
  messages : ∃ entries : List (UInt64 × Message), readPacket datagram = .ok (entries.map .ok) ∧
    entries.map (fun e => (e.2, e.1.toNat)) = ms.zipIdx first.toNat
  consumed : packetEnd datagram = .ok datagram.length

theorem messagesEnd_blocks {blocks : List Buf} {ms : List Message}
    (h : List.Forall₂ Decodes blocks ms) (front rest : Buf) :
    messagesEnd (front ++ blocks.flatten ++ rest) ms.length front.length =
      (front ++ blocks.flatten).length := by
  induction h generalizing front with
  | nil => simp [messagesEnd]
  | @cons block m blocks ms hd _ ih =>
    have hdrop : (front ++ (block :: blocks).flatten ++ rest).drop front.length =
        block ++ (blocks.flatten ++ rest) := by
      simp [List.append_assoc]
    have hfront : front ++ (block :: blocks).flatten = (front ++ block) ++ blocks.flatten := by
      simp [List.append_assoc]
    rw [List.length_cons, messagesEnd, hdrop, hd]
    dsimp only
    rw [hfront, ← List.length_append, ih]

/-- The numbers of sixty-four bits are those counted on from the first, as long as there are any. -/
theorem numbered_zipIdx (first : UInt64) (ms : List Message) :
    (numbered first ms).map (fun e => (e.2, e.1.toNat)) = ms.zipIdx first.toNat ↔
      first.toNat + ms.length ≤ 2 ^ 64 := by
  have hfirst := first.toNat_lt
  induction ms generalizing first with
  | nil =>
    rw [List.length_nil]
    exact iff_of_true rfl (Nat.le_of_lt hfirst)
  | cons m ms ih =>
    rw [numbered, List.map_cons, List.zipIdx_cons, List.cons.injEq, List.length_cons]
    by_cases hlast : first.toNat + 1 < 2 ^ 64
    · have hnext : (first + 1).toNat = first.toNat + 1 := by
        rw [UInt64.toNat_add]
        exact Nat.mod_eq_of_lt hlast
      have hrest := ih (first + 1) (by rw [hnext]; exact hlast)
      rw [hnext] at hrest
      constructor
      · rintro ⟨-, h⟩
        have := hrest.mp h
        omega
      · intro h
        exact ⟨rfl, hrest.mpr (by omega)⟩
    · -- the number after the last one is zero
      have hnext : (first + 1).toNat = 0 := by
        rw [UInt64.toNat_add, show (1 : UInt64).toNat = 1 from rfl,
          show first.toNat + 1 = 2 ^ 64 by omega, Nat.mod_self]
      cases ms with
      | nil =>
        rw [List.length_nil]
        exact iff_of_true ⟨rfl, rfl⟩ (by omega)
      | cons m' ms =>
        rw [numbered, List.map_cons, List.zipIdx_cons, hnext, List.length_cons]
        refine iff_of_false ?_ (by omega)
        rintro ⟨-, h⟩
        have hnumber := congrArg Prod.snd (List.cons.inj h).1
        dsimp only at hnumber
        omega

theorem length_messagesFrom_le (b : Buf) (remaining pos : Nat) (sequence : UInt64) :
    (messagesFrom b remaining pos sequence).length ≤ remaining := by
  induction remaining generalizing pos sequence with
  | zero => exact Nat.le_refl _
  | succ remaining ih =>
    rw [messagesFrom]
    split
    · rw [List.length_cons]
      exact Nat.succ_le_succ (ih ..)
    · exact Nat.succ_le_succ (Nat.zero_le _)

section Datagrams
variable {h body : Buf} {flags : UInt8} {first : UInt64} {count : UInt16} {ms : List Message}

/-- No datagram reads as more messages than its header names. -/
theorem ReadsAs.length_le (hr : ReadsAs (h ++ body) first ms) (hh : IsHeader h flags first count) :
    ms.length ≤ count.toNat := by
  obtain ⟨header, hwrap, hc, -, -⟩ := hh.wrap body
  obtain ⟨entries, hread, hentries⟩ := hr.messages
  rw [readPacket, hwrap] at hread
  have hmessages : messagesFrom (h ++ body) header.messageCount.toNat packetHeaderLen
      header.firstSequence = entries.map .ok := Except.ok.inj hread
  have hlen := length_messagesFrom_le (h ++ body) header.messageCount.toNat packetHeaderLen
    header.firstSequence
  have hcount := congrArg List.length hentries
  rw [hmessages, List.length_map, hc] at hlen
  rw [List.length_map, List.length_zipIdx] at hcount
  omega

/-- **Blocks under a header that counts them** read as their messages, if there are numbers for
all. -/
theorem readsAs_iff {blocks : List Buf} (hh : IsHeader h flags first count)
    (hblocks : List.Forall₂ Decodes blocks ms) (hcount : count.toNat = ms.length) :
    ReadsAs (h ++ blocks.flatten) first ms ↔ first.toNat + ms.length ≤ 2 ^ 64 := by
  have hread := readPacket_blocks hh hblocks hcount
  rw [← numbered_zipIdx]
  constructor
  · intro hr
    obtain ⟨entries, hread', hentries⟩ := hr.messages
    rw [hread] at hread'
    have hmap := Except.ok.inj hread'
    have hsame : numbered first ms = entries :=
      List.map_injective_iff.mpr (fun _ _ h => Except.ok.inj h) hmap
    rw [hsame]
    exact hentries
  · intro hnumbers
    refine ⟨⟨numbered first ms, hread, hnumbers⟩, ?_⟩
    obtain ⟨header, hwrap, hc, -, -⟩ := hh.wrap blocks.flatten
    have hend := messagesEnd_blocks hblocks h []
    rw [List.append_nil, hh.length] at hend
    rw [packetEnd, hwrap]
    show Except.ok (messagesEnd _ header.messageCount.toNat packetHeaderLen) = _
    rw [hc, hcount, hend]

end Datagrams

/-! ## Extension -/

/-- The length stated at the start of `b`, raised by `k`. -/
def raiseLength (b : Buf) (k : Nat) : Buf := putU16 b 0 (leU16 b 0 + UInt16.ofNat k)

/-- What a later schema appends to a message: to its root block, and to each entry of its group. -/
structure Extension where
  root : Buf
  entryLength : Nat
  entries : List Buf

/-- The length this schema gives the message's root block. -/
def FeedMessage.blockLength : FeedMessage → UInt16
  | .addOrder .. | .modifyOrder .. => 24
  | .deleteOrder .. | .snapshot .. => 12
  | .trade .. => 40
  | .heartbeat .. | .sequenceReset .. => 8

/-- The message with its blocks extended, and their stated lengths raised. -/
def FeedMessage.extended (m : FeedMessage) (x : Extension) : Buf :=
  match m with
  | .snapshot lastSequence symbolId flags group =>
    (raiseLength (snapshotRoot lastSequence symbolId flags) x.root.length ++ x.root)
      ++ raiseLength (groupHead 24 (UInt16.ofNat group.orders.length)) x.entryLength
      ++ (List.zipWith (fun o e => EncodedOrder.entry o ++ e) group.orders x.entries).flatten
  | m => raiseLength m.block x.root.length ++ x.root

/-- The raised lengths stand in sixteen bits, and every entry is extended by the same length. -/
structure Extension.Fits (x : Extension) (m : FeedMessage) : Prop where
  root : m.blockLength.toNat + x.root.length < 65536
  entry : 24 + x.entryLength < 65536
  alike : ∀ e ∈ x.entries, e.length = x.entryLength
  every : ∀ lastSequence symbolId flags group, m = .snapshot lastSequence symbolId flags group →
    x.entries.length = group.orders.length

theorem length_raiseLength (b : Buf) (k : Nat) : (raiseLength b k).length = b.length :=
  length_putU16 ..

/-- Nothing but the stated length changes. -/
theorem leNat_raiseLength (b : Buf) (k : Nat) (rest : Buf) {o n : Nat} (ho : 2 ≤ o)
    (hon : o + n ≤ b.length) : leNat (raiseLength b k ++ rest) o n = leNat b o n := by
  rw [leNat_append_left _ _ (by rw [length_raiseLength]; exact hon), raiseLength, putU16,
    leNat_putNat_of_disjoint _ _ _ _ _ _ (.inr ho)]

theorem leU16_raiseLength (b : Buf) (k : Nat) (rest : Buf) (hb : 2 ≤ b.length) :
    leU16 (raiseLength b k ++ rest) 0 = leU16 b 0 + UInt16.ofNat k := by
  rw [leU16, leNat_append_left _ _ (by rw [length_raiseLength]; exact hb), ← leU16, raiseLength,
    leU16_putU16 _ hb]

theorem toNat_raised {blockLength : UInt16} {k : Nat} (hfits : blockLength.toNat + k < 65536) :
    (blockLength + UInt16.ofNat k).toNat = blockLength.toNat + k := by
  rw [UInt16.toNat_add, UInt16.toNat_ofNat', Nat.mod_eq_of_lt (show k < 2 ^ 16 by omega)]
  exact Nat.mod_eq_of_lt hfits

section Plain
variable {b extra : Buf} {blockLength templateId : UInt16}

theorem IsRoot.raise (h : IsRoot b blockLength templateId)
    (hfits : blockLength.toNat + extra.length < 65536) :
    IsRoot (raiseLength b extra.length ++ extra) (blockLength + UInt16.ofNat extra.length)
      templateId := by
  have hlen : b.length = 8 + blockLength.toNat := h.length
  refine ⟨?_, ?_, ?_, ?_⟩
  · rw [List.length_append, length_raiseLength, hlen, toNat_raised hfits, messageHeaderLen,
      Nat.add_assoc]
  · rw [leU16_raiseLength _ _ _ (by omega), h.blockLength]
  · rw [leU16, leNat_raiseLength _ _ _ (by decide) (by omega)]
    exact h.template
  · rw [leU16, leNat_raiseLength _ _ _ (by decide) (by omega)]
    exact h.schema

/-- The fields of the root block are where they were. -/
theorem IsRoot.leNat_raise (h : IsRoot b blockLength templateId) (rest : Buf) {o n : Nat}
    (ho : 2 ≤ o) (hon : o + n ≤ messageHeaderLen + blockLength.toNat) :
    leNat (raiseLength b extra.length ++ extra ++ rest) o n = leNat (b ++ []) o n := by
  rw [List.append_assoc, leNat_raiseLength _ _ _ ho (by rw [h.length]; exact hon), List.append_nil]

/-- **A message without a group** reads the same with its root block extended. -/
theorem decodes_raise {m : Message} (h : IsRoot b blockLength templateId)
    (hplain : templateId ≠ Template.snapshot) (hm : Decodes b m)
    (hfits : blockLength.toNat + extra.length < 65536) :
    Decodes (raiseLength b extra.length ++ extra) m := by
  intro rest
  have hdec := hm []
  have hraised := h.raise hfits
  have hsame : ∀ o n, 2 ≤ o → o + n ≤ messageHeaderLen + blockLength.toNat →
      leNat (raiseLength b extra.length ++ extra ++ rest) o n = leNat (b ++ []) o n :=
    fun _ _ => h.leNat_raise rest
  -- the checks that passed pass on the longer block, and say how much of it the schema knows
  have hchecks : ∀ {message t c n}, templateId = t → wrapRoot message t c (b ++ []) = .ok n →
      wrapRoot message t c (raiseLength b extra.length ++ extra ++ rest) = .ok (n + extra.length) ∧
        c.toNat ≤ blockLength.toNat := by
    intro message t c n ht hwrap
    obtain ⟨-, -, rfl, hc⟩ := wrapRoot?_some (wrapRoot_eq_ok.mp hwrap)
    rw [(h.append []).1] at hc ⊢
    subst ht
    rw [hraised.wrapRoot_of_le (by rw [toNat_raised hfits]; omega), toNat_raised hfits]
    exact ⟨rfl, hc⟩
  rw [messageHeaderLen] at hsame
  rw [h.decodeMessage] at hdec
  rw [hraised.decodeMessage, List.length_append, length_raiseLength]
  split_ifs at hdec ⊢ with hadd hmodify hdelete htrade hbeat hreset
  · obtain ⟨n, hwrap, hdec⟩ := bind_eq_ok hdec
    obtain ⟨hwrap', hc⟩ := hchecks hadd hwrap
    obtain ⟨rfl, hlen⟩ := Prod.mk.inj (Except.ok.inj hdec)
    replace hc : 24 ≤ blockLength.toNat := hc
    simp (disch := omega) only [AddOrder.wrap, hwrap', bind, Except.bind, hsame, ← hlen,
      leU64, leI64, leU32, leU16, leU8, Nat.add_assoc]
  · obtain ⟨n, hwrap, hdec⟩ := bind_eq_ok hdec
    obtain ⟨hwrap', hc⟩ := hchecks hmodify hwrap
    obtain ⟨rfl, hlen⟩ := Prod.mk.inj (Except.ok.inj hdec)
    replace hc : 24 ≤ blockLength.toNat := hc
    simp (disch := omega) only [ModifyOrder.wrap, hwrap', bind, Except.bind, hsame, ← hlen,
      leU64, leI64, leU32, leU16, leU8, Nat.add_assoc]
  · obtain ⟨n, hwrap, hdec⟩ := bind_eq_ok hdec
    obtain ⟨hwrap', hc⟩ := hchecks hdelete hwrap
    obtain ⟨rfl, hlen⟩ := Prod.mk.inj (Except.ok.inj hdec)
    replace hc : 12 ≤ blockLength.toNat := hc
    simp (disch := omega) only [DeleteOrder.wrap, hwrap', bind, Except.bind, hsame, ← hlen,
      leU64, leU16, leU8, Nat.add_assoc]
  · obtain ⟨n, hwrap, hdec⟩ := bind_eq_ok hdec
    obtain ⟨hwrap', hc⟩ := hchecks htrade hwrap
    obtain ⟨rfl, hlen⟩ := Prod.mk.inj (Except.ok.inj hdec)
    replace hc : 40 ≤ blockLength.toNat := hc
    simp (disch := omega) only [Trade.wrap, hwrap', bind, Except.bind, hsame, ← hlen,
      leU64, leI64, leU32, leU16, leU8, Nat.add_assoc]
  · obtain ⟨n, hwrap, hdec⟩ := bind_eq_ok hdec
    obtain ⟨hwrap', hc⟩ := hchecks hbeat hwrap
    obtain ⟨rfl, hlen⟩ := Prod.mk.inj (Except.ok.inj hdec)
    replace hc : 8 ≤ blockLength.toNat := hc
    simp (disch := omega) only [Heartbeat.wrap, hwrap', bind, Except.bind, hsame, leU64,
      ← hlen, Nat.add_assoc]
  · obtain ⟨n, hwrap, hdec⟩ := bind_eq_ok hdec
    obtain ⟨hwrap', hc⟩ := hchecks hreset hwrap
    obtain ⟨rfl, hlen⟩ := Prod.mk.inj (Except.ok.inj hdec)
    replace hc : 8 ≤ blockLength.toNat := hc
    simp (disch := omega) only [SequenceReset.wrap, hwrap', bind, Except.bind, hsame, leU64,
      ← hlen, Nat.add_assoc]

end Plain

/-! ## The messages of the feed -/

/-- An entry is read the same with bytes after it. -/
theorem read_entry_append (o : EncodedOrder) (e : Buf) :
    SnapshotOrder.read (o.entry ++ e) = o.read := by
  rw [← read_entry]
  simp (disch := simp) only [SnapshotOrder.read, leU64, leI64, leU32, leU8, leNat_append_left]

/-- The entries of a group, each with its own extension. -/
theorem read_extended_entries {orders : List EncodedOrder} {extras : List Buf}
    (hlen : extras.length = orders.length) :
    (List.zipWith (fun o e => EncodedOrder.entry o ++ e) orders extras).map SnapshotOrder.read =
      orders.map EncodedOrder.read := by
  induction orders generalizing extras with
  | nil => rfl
  | cons o orders ih =>
    cases extras with
    | nil => cases hlen
    | cons e extras =>
      rw [List.zipWith_cons_cons, List.map_cons, read_entry_append, List.map_cons,
        ih (Nat.succ.inj hlen)]

theorem length_extended_entry {orders : List EncodedOrder} {extras : List Buf} {k : Nat}
    (hk : ∀ e ∈ extras, e.length = k) {b : Buf}
    (hb : b ∈ List.zipWith (fun o e => EncodedOrder.entry o ++ e) orders extras) :
    b.length = 24 + k := by
  obtain ⟨i, hi, rfl⟩ := List.getElem_of_mem hb
  rw [List.getElem_zipWith, List.length_append, EncodedOrder.length_entry,
    hk _ (List.getElem_mem _)]

/-- A group header with the length of its entries raised. -/
theorem raised_groupHead (k : Nat) (count : UInt16) :
    leU16 (raiseLength (groupHead 24 count) k) 0 = UInt16.ofNat (24 + k) ∧
      leU16 (raiseLength (groupHead 24 count) k) 2 = count := by
  obtain ⟨h0, h2⟩ := groupHead_fields 24 count
  have hlen := length_groupHead 24 count
  constructor
  · have h := leU16_raiseLength (groupHead 24 count) k [] (by omega)
    rw [List.append_nil, h0] at h
    rw [h, UInt16.ofNat_add]
    rfl
  · have h := leNat_raiseLength (groupHead 24 count) k [] (o := 2) (n := 2) (by decide) (by omega)
    rw [List.append_nil] at h
    rw [leU16, h, ← leU16, h2]

theorem decodes_extended_snapshot (lastSequence : UInt64) (symbolId : UInt16) (flags : UInt8)
    (group : OrdersGroup) {x : Extension}
    (hx : x.Fits (.snapshot lastSequence symbolId flags group)) :
    Decodes ((FeedMessage.snapshot lastSequence symbolId flags group).extended x)
      (FeedMessage.snapshot lastSequence symbolId flags group).read := by
  have hroot := isRoot_snapshotRoot lastSequence symbolId flags
  have hnumber := hx.every _ _ _ _ rfl
  have hcountable := group.countable
  have hfits : (12 : UInt16).toNat + x.root.length < 65536 := hx.root
  have hentry := hx.entry
  obtain ⟨hlast, hsymbol, hflags⟩ := snapshotRoot_fields lastSequence symbolId flags
  have hparts : SnapshotParts
      (raiseLength (snapshotRoot lastSequence symbolId flags) x.root.length ++ x.root)
      (raiseLength (groupHead 24 (UInt16.ofNat group.orders.length)) x.entryLength)
      (List.zipWith (fun o e => EncodedOrder.entry o ++ e) group.orders x.entries)
      (12 + UInt16.ofNat x.root.length) (UInt16.ofNat (24 + x.entryLength))
      (UInt16.ofNat group.orders.length) := by
    refine ⟨hroot.raise hfits, ?_, ?_, raised_groupHead .., ?_, ?_⟩
    · rw [toNat_raised hfits]
      exact Nat.le_add_right ..
    · rw [length_raiseLength, length_groupHead]
    · intro b hb
      rw [length_extended_entry hx.alike hb, UInt16.toNat_ofNat', Nat.mod_eq_of_lt hentry]
    · rw [List.length_zipWith, hnumber, Nat.min_self, UInt16.toNat_ofNat', Nat.mod_eq_of_lt]
      omega
  have hdecodes := hparts.decodes
  rw [read_extended_entries hnumber] at hdecodes
  simp (disch := simp [hroot.length, messageHeaderLen]) only [leU64, leU16, leU8,
    leNat_raiseLength] at hdecodes
  rw [← leU64, ← leU16, ← leU8, hlast, hsymbol, hflags] at hdecodes
  exact hdecodes

theorem FeedMessage.decodes (m : FeedMessage) : Decodes m.block m.read := by
  cases m with
  | snapshot lastSequence symbolId flags group =>
    have hcountable := group.countable
    have h := decodes_snapshot lastSequence symbolId flags
      (show group.orders.length < 65536 by omega)
    rw [snapshotBlock, patchedHead_eq] at h
    exact h
  | addOrder => exact decodes_addOrder _ _ _ _ _
  | modifyOrder => exact decodes_modifyOrder _ _ _ _ _ _
  | deleteOrder => exact decodes_deleteOrder _ _ _
  | trade => exact decodes_trade _ _ _ _ _ _ _
  | heartbeat => exact decodes_heartbeat _
  | sequenceReset => exact decodes_sequenceReset _

/-- **A message reads the same however its blocks are extended.** -/
theorem FeedMessage.decodes_extended (m : FeedMessage) {x : Extension} (hx : x.Fits m) :
    Decodes (m.extended x) m.read := by
  have hm := m.decodes
  have hfits := hx.root
  cases m with
  | snapshot lastSequence symbolId flags group =>
    exact decodes_extended_snapshot lastSequence symbolId flags group hx
  | addOrder => exact decodes_raise (isRoot_addOrderBlock ..) (by decide) hm hfits
  | modifyOrder => exact decodes_raise (isRoot_modifyOrderBlock ..) (by decide) hm hfits
  | deleteOrder => exact decodes_raise (isRoot_deleteOrderBlock ..) (by decide) hm hfits
  | trade => exact decodes_raise (isRoot_tradeBlock ..) (by decide) hm hfits
  | heartbeat => exact decodes_raise (isRoot_heartbeatBlock _) (by decide) hm hfits
  | sequenceReset => exact decodes_raise (isRoot_sequenceResetBlock _) (by decide) hm hfits

/-! ## Round trips -/

/-- The messages, extended one by one. -/
def extendedBlocks (ms : List FeedMessage) (xs : List Extension) : List Buf :=
  List.zipWith FeedMessage.extended ms xs

theorem decodes_extendedBlocks {ms : List FeedMessage} {xs : List Extension}
    (hx : List.Forall₂ Extension.Fits xs ms) :
    List.Forall₂ Decodes (extendedBlocks ms xs) (ms.map FeedMessage.read) := by
  induction hx with
  | nil => exact .nil
  | cons hfits _ ih => exact .cons (FeedMessage.decodes_extended _ hfits) ih

theorem decodes_blocksOf (ms : List FeedMessage) :
    List.Forall₂ Decodes (ms.map FeedMessage.block) (ms.map FeedMessage.read) := by
  induction ms with
  | nil => exact .nil
  | cons m ms ih => exact .cons m.decodes ih

/-- The messages are written as one datagram, which reads as those messages and nothing else; and
so does the datagram in which they are extended in any way that their stated lengths can name. -/
def RoundTrips (b : Buf) (channel flags : UInt8) (first now : UInt64) (ms : List FeedMessage) :
    Prop :=
  ∃ out, writePacket b channel flags first now ms = .ok (out, datagramLen ms) ∧
    ReadsAs (out.take (datagramLen ms)) first (ms.map FeedMessage.read) ∧
    ∀ xs, List.Forall₂ Extension.Fits xs ms →
      ReadsAs (out.take packetHeaderLen ++ (extendedBlocks ms xs).flatten) first
        (ms.map FeedMessage.read)

/-- **A list that fits the buffer** makes the round trip exactly where its messages can be counted
and numbered. -/
theorem roundTrips_iff {b : Buf} {ms : List FeedMessage} (hroom : datagramLen ms ≤ b.length)
    (channel flags : UInt8) (first now : UInt64) :
    RoundTrips b channel flags first now ms ↔
      ms.length ≤ 65535 ∧ first.toNat + ms.length ≤ 2 ^ 64 := by
  have hsize : (ms.map FeedMessage.read).length = ms.length := List.length_map ..
  constructor
  · rintro ⟨out, hwrite, hreads, -⟩
    obtain ⟨hlong, hheader⟩ := writePacket_header hwrite
    have hsplit : out.take (datagramLen ms) =
        out.take 24 ++ (out.take (datagramLen ms)).drop 24 := by
      have h := (List.take_append_drop 24 (out.take (datagramLen ms))).symm
      rwa [List.take_take, Nat.min_eq_left hlong] at h
    have hfew : ms.length ≤ 65535 := by
      rw [hsplit] at hreads
      have hle := hreads.length_le hheader
      rw [hsize, UInt16.toNat_ofNat'] at hle
      have hlt := Nat.mod_lt ms.length (show 0 < 2 ^ 16 by decide)
      omega
    obtain ⟨out', hwrite', hbytes⟩ := writePacket_of_room hroom hfew channel flags first now
    obtain rfl : out = out' := by
      rw [hwrite] at hwrite'
      exact (Prod.mk.inj (Except.ok.inj hwrite')).1
    have hcount : (UInt16.ofNat ms.length).toNat = (ms.map FeedMessage.read).length := by
      rw [hsize, UInt16.toNat_ofNat', Nat.mod_eq_of_lt (by omega)]
    rw [hbytes] at hreads
    have h := (readsAs_iff hheader (decodes_blocksOf ms) hcount).mp hreads
    rw [hsize] at h
    exact ⟨hfew, h⟩
  · rintro ⟨hfew, hnumbers⟩
    obtain ⟨out, hwrite, hbytes⟩ := writePacket_of_room hroom hfew channel flags first now
    obtain ⟨-, hheader⟩ := writePacket_header hwrite
    have hcount : (UInt16.ofNat ms.length).toNat = (ms.map FeedMessage.read).length := by
      rw [hsize, UInt16.toNat_ofNat', Nat.mod_eq_of_lt (by omega)]
    refine ⟨out, hwrite, ?_, fun xs hx => ?_⟩
    · rw [hbytes]
      exact (readsAs_iff hheader (decodes_blocksOf ms) hcount).mpr (by rw [hsize]; exact hnumbers)
    · exact (readsAs_iff hheader (decodes_extendedBlocks hx) hcount).mpr
        (by rw [hsize]; exact hnumbers)

/-- **What is written is what is read.** On the feed this holds of every list that fits the buffer,
but for one too long for its count or for its numbers; on the order path it holds of every
message, from either language to the other. -/
theorem wire_round_trip (b : Buf) (channel flags : UInt8) (first now : UInt64)
    (ms : List FeedMessage) (m : PathMessage) (b' : Buf) :
    (datagramLen ms ≤ b.length →
      (RoundTrips b channel flags first now ms ↔
        ms.length ≤ 65535 ∧ first.toNat + ms.length ≤ 2 ^ 64)) ∧
      (m.block.length ≤ b'.length → ∃ out, m.Crosses b' out m.block.length) :=
  ⟨fun hroom => roundTrips_iff hroom channel flags first now, fun hroom => m.crosses hroom⟩

/-- An AddOrder and the Snapshot that shows it, and a NewOrder. -/
theorem wire_round_trip_two :
    RoundTrips (List.replicate 200 0) 0 0 7 1 [.addOrder 1 100 10 3 .bid,
        .snapshot 7 3 6 ⟨[⟨1, 100, 10, .bid⟩], by decide⟩] ∧
      ∃ out, (PathMessage.newOrder 1 100 10 3 .bid).Crosses (List.replicate 64 0) out 32 := by
  obtain ⟨hfeed, hpath⟩ := wire_round_trip (List.replicate 200 0) 0 0 7 1 [.addOrder 1 100 10 3 .bid,
    .snapshot 7 3 6 ⟨[⟨1, 100, 10, .bid⟩], by decide⟩] (.newOrder 1 100 10 3 .bid)
    (List.replicate 64 0)
  exact ⟨(hfeed (by decide +kernel)).mpr ⟨by decide, by decide⟩, hpath (by decide +kernel)⟩

/-- A buffer for `n` Heartbeats. -/
theorem heartbeats_fit (n : Nat) (lastSequence : UInt64) :
    datagramLen (List.replicate n (.heartbeat lastSequence)) ≤
      (List.replicate (24 + 16 * n) (0 : UInt8)).length := by
  have hlen : (heartbeatBlock lastSequence).length = 16 :=
    (isRoot_heartbeatBlock lastSequence).length
  rw [datagramLen, blocksOf, List.map_replicate, List.length_flatten, List.map_replicate,
    List.sum_replicate_nat, FeedMessage.block, hlen, List.length_replicate, packetHeaderLen,
    Nat.mul_comm]

/-- One Heartbeat more than can be counted, in a buffer that has room for all. -/
theorem wire_round_trip_uncounted :
    datagramLen (List.replicate 65536 (.heartbeat 0)) ≤
        (List.replicate (24 + 16 * 65536) (0 : UInt8)).length ∧
      ¬ RoundTrips (List.replicate (24 + 16 * 65536) 0) 0 0 1 0
        (List.replicate 65536 (.heartbeat 0)) := by
  have hroom := heartbeats_fit 65536 0
  refine ⟨hroom, fun h => ?_⟩
  have hcount := ((roundTrips_iff hroom 0 0 1 0).mp h).1
  rw [List.length_replicate] at hcount
  omega

end MarketData.Wire
