import MarketData.Matching.Publishing

/-!
# `Matching/Snapshot.lean` — publishing a snapshot cycle

`FeedPublisher::publish_snapshot` (`crates/matching-engine/src/feed.rs`): what is still buffered
goes out first, then every symbol's orders in queue order, as many to a datagram as fit. A symbol
without orders still gets one empty fragment. The flags of a fragment are patched in once it is
known whether it is the last one.

The orders still to be written are passed along in place of the count of those written. The
fragment loop ends because every turn but the last packs an order; the model runs it for one turn
more than there are orders.

## From the buffer to a list of fragments

The encoder writes into the publisher's own buffer, one order after the other until one does not
fit. `Packed` (`Wire/SnapshotCodec.lean`) is what it has come to after some orders, as bytes, and
`packOrders_spec` gives the number it stops at; `perFragment` is that number, computed from the
length of the buffer. With it the cycle can be written down without a loop: `fragmentsOf` cuts a
symbol's orders into pieces of that many, and `cycleFragments` does so for every symbol, and **what
was sent is that list** (`publishSnapshot_ok`).

A datagram too small for one order is an error of the source, and the only way the packing can fail.
The flush before the cycle can fail for the self-check's sake (`SelfCheckPasses`) or because a
socket does not take it; snapshots themselves are never dropped by the injector.
-/

set_option autoImplicit false

namespace MarketData.Matching

open MarketData.Wire MarketData.Book
open MarketData.Bytes

/-- What one snapshot cycle put on the wire. -/
structure SnapshotCycle where
  /-- First snapshot-space sequence used by this cycle. -/
  sequence : UInt64
  /-- The incremental sequence the books reflect. -/
  lastSequence : UInt64
  datagrams : Nat := 0
  orders : Nat := 0
  symbols : Nat := 0
  deriving DecidableEq, Repr

namespace FeedPublisher

/-- Packs orders while the encoder takes them; answers how many it took. -/
def packOrders (e : SnapshotEncoder) : List RestingOrder → SnapshotEncoder × Nat
  | [] => (e, 0)
  | o :: orders =>
    match e.pushOrder o.orderId o.price o.quantity o.side with
    | .error _ => (e, 0)
    | .ok e =>
      let (e, packed) := packOrders e orders
      (e, packed + 1)

def fragmentFlags (first last lastSymbol : Bool) : UInt8 :=
  let flags : UInt8 := if first then 0 ||| snapshotFlagCycleStart else 0
  if last then
    let flags := flags ||| snapshotFlagLastFragment
    if lastSymbol then flags ||| snapshotFlagCycleEnd else flags
  else flags

section Publish

variable (env : Env)

def sendSnapshotArm (p : FeedPublisher) (channel : UInt8) (len : Nat) :
    Except IoError FeedPublisher := do
  let buf ← wireToIo (patchPacketChannel p.snapshotBuf channel)
  send env { p with snapshotBuf := buf } channel (buf.take len)

/-- Snapshots are not subject to the loss injector. -/
def sendSnapshotDatagram (p : FeedPublisher) (len : Nat) : Except IoError FeedPublisher := do
  let now := env.clock (p.datagrams + p.snapshotDatagrams)
  let seq := p.snapshotSeq
  let buf ← wireToIo (encodePacketHeader p.snapshotBuf 0 packetFlagSnapshot seq now)
  let buf ← wireToIo (patchMessageCount buf 1)
  let p ← sendSnapshotArm env { p with snapshotSeq := seq + 1, snapshotBuf := buf } 0 len
  let p ← sendSnapshotArm env p 1 len
  .ok { p with snapshotDatagrams := p.snapshotDatagrams + 1 }

/-- One turn of the fragment loop: as many of `rest`, the orders still to be written, as fit.
Answers how many that was. -/
def writeFragment (p : FeedPublisher) (lastSequence : UInt64) (symbolId : UInt16)
    (first lastSymbol : Bool) (orders rest : List RestingOrder) :
    Except IoError (FeedPublisher × Nat) := do
  let head := packetHeaderLen
  let e ← wireToIo (SnapshotEncoder.start (p.snapshotBuf.drop head) lastSequence symbolId 0)
  let (e, packed) := packOrders e rest
  let (tail, n) := e.finish
  if packed = 0 ∧ orders ≠ [] then .error .snapshotOrderTooLarge
  else
    -- Whether this is the last fragment is only known now.
    let flags := fragmentFlags first (rest.length ≤ packed) lastSymbol
    let tail ← (if flags ≠ 0 then wireToIo (patchSnapshotFlags tail flags) else .ok tail)
    let p := { p with snapshotBuf := p.snapshotBuf.take head ++ tail }
    let p ← sendSnapshotDatagram env p (head + n)
    .ok (p, packed)

/-- The fragments of one symbol. -/
def fragmentLoop (lastSequence : UInt64) (symbolId : UInt16) (lastSymbol : Bool)
    (orders : List RestingOrder) : Nat → FeedPublisher → SnapshotCycle → Bool →
    List RestingOrder → Except IoError (FeedPublisher × SnapshotCycle)
  | 0, p, cycle, _, _ => .ok (p, cycle)
  | fuel + 1, p, cycle, first, rest => do
    let (p, packed) ← writeFragment env p lastSequence symbolId first lastSymbol orders rest
    let cycle := { cycle with
      datagrams := cycle.datagrams + 1, orders := cycle.orders + packed }
    if rest.length ≤ packed then .ok (p, cycle)
    else fragmentLoop lastSequence symbolId lastSymbol orders fuel p cycle false (rest.drop packed)

/-- A symbol's orders as a snapshot lists them. -/
def snapshotOrdersOf (b : ReferenceBook) : List RestingOrder :=
  b.ordersInQueueOrder .bid ++ b.ordersInQueueOrder .ask

def symbolLoop (lastSequence : UInt64) : FeedPublisher → SnapshotCycle → Bool →
    List (UInt16 × ReferenceBook) → Except IoError (FeedPublisher × SnapshotCycle)
  | p, cycle, _, [] => .ok (p, cycle)
  | p, cycle, first, (symbolId, b) :: rest => do
    let orders := snapshotOrdersOf b
    let (p, cycle) ← fragmentLoop env lastSequence symbolId rest.isEmpty orders (orders.length + 1)
      p { cycle with symbols := cycle.symbols + 1 } first orders
    symbolLoop lastSequence p cycle false rest

/-- Publishes a full snapshot of every symbol on both arms. -/
def publishSnapshot (p : FeedPublisher) (books : Books) :
    Except IoError (FeedPublisher × SnapshotCycle) := do
  let p ← flush env p
  let lastSequence := p.lastSequence
  symbolLoop env lastSequence p { sequence := p.snapshotSeq, lastSequence := lastSequence } true
    books.toList

end Publish

/-! ## Packing -/

/-- An order as the encoder is given it. -/
def encodedOrder (o : RestingOrder) : EncodedOrder := ⟨o.orderId, o.price, o.quantity, o.side⟩

/-- How many orders a fragment takes, in a datagram of `len` bytes. -/
def perFragment (len : Nat) : Nat := min ((len - 48) / 24) 65535

/-- **The encoder takes as many orders as fit.** -/
theorem packOrders_spec {head b : Buf} (hhead : head.length = 24) (orders : List RestingOrder)
    {e : SnapshotEncoder} {taken : List EncodedOrder} (h : Packed e head b taken)
    {k : Nat} (hk : taken.length + k = min ((b.length - 24) / 24) 65535) :
    (packOrders e orders).2 = min orders.length k ∧
      Packed (packOrders e orders).1 head b (taken ++ (orders.take k).map encodedOrder) := by
  have hroom := h.room
  induction orders generalizing e taken k with
  | nil =>
    rw [List.take_nil, List.map_nil, List.append_nil]
    exact ⟨(Nat.zero_min k).symm, h⟩
  | cons o orders ih =>
    cases k with
    | zero =>
      -- the buffer or the count is used up, and the push is refused
      have hrefused : ∃ err, e.pushOrder o.orderId o.price o.quantity o.side = .error err := by
        have hlen := h.length_buf hhead
        have hcount : e.count.toNat = taken.length := by
          rw [h.count, UInt16.toNat_ofNat']
          exact Nat.mod_eq_of_lt (by have := h.few; omega)
        unfold SnapshotEncoder.pushOrder
        by_cases hfull : e.buf.length < e.pos + 24
        · rw [if_pos hfull]
          exact ⟨_, rfl⟩
        · rw [if_neg hfull, if_pos]
          · exact ⟨_, rfl⟩
          · rw [hlen, h.pos] at hfull
            rw [hcount]
            omega
      obtain ⟨err, hpush⟩ := hrefused
      rw [packOrders, hpush, List.take_zero, List.map_nil, List.append_nil]
      exact ⟨(Nat.min_zero _).symm, h⟩
    | succ k =>
      obtain ⟨e', hpush, hpacked⟩ := h.push hhead (encodedOrder o) (by omega) (by omega)
      have hpush' : e.pushOrder o.orderId o.price o.quantity o.side = .ok e' := hpush
      obtain ⟨hcount, hall⟩ := ih hpacked (k := k)
        (by rw [List.length_append, List.length_singleton]; omega) hpacked.room
      rw [packOrders, hpush']
      dsimp only
      rw [hcount, List.length_cons, Nat.succ_min_succ, List.take_succ_cons, List.map_cons]
      rw [List.append_assoc] at hall
      exact ⟨rfl, hall⟩

/-! ## Sending -/

/-- The snapshot messages that went out on both arms between two states of a publisher. -/
structure Sent (p p' : FeedPublisher) (fragments : List Snapshot) : Prop where
  armA : ∃ sent, p'.a = p.a ++ sent ∧
    decodeAll sent = .ok (numbered p.snapshotSeq (fragments.map .snapshot))
  armB : ∃ sent, p'.b = p.b ++ sent ∧
    decodeAll sent = .ok (numbered p.snapshotSeq (fragments.map .snapshot))
  snapshotSeq : p'.snapshotSeq = p.snapshotSeq + UInt64.ofNat fragments.length
  snapshotBuf : p'.snapshotBuf.length = p.snapshotBuf.length

theorem Sent.refl (p : FeedPublisher) : Sent p p [] :=
  ⟨⟨[], (List.append_nil _).symm, rfl⟩, ⟨[], (List.append_nil _).symm, rfl⟩,
    (UInt64.add_zero _).symm, rfl⟩

theorem decodeAll_concat {l l' : List Buf} {ms ms' : List (UInt64 × Message)}
    (h : decodeAll l = .ok ms) (h' : decodeAll l' = .ok ms') :
    decodeAll (l ++ l') = .ok (ms ++ ms') := by
  induction l generalizing ms with
  | nil =>
    cases h
    exact h'
  | cons b l ih =>
    rw [decodeAll] at h
    obtain ⟨mb, hb, h⟩ := bind_eq_ok h
    obtain ⟨mrest, hrest, h⟩ := bind_eq_ok h
    cases h
    rw [List.cons_append, decodeAll, hb, ih hrest]
    show Except.ok (mb ++ (mrest ++ ms')) = _
    rw [List.append_assoc]

theorem Sent.trans {p p' p'' : FeedPublisher} {fs fs' : List Snapshot} (h : Sent p p' fs)
    (h' : Sent p' p'' fs') : Sent p p'' (fs ++ fs') := by
  have hnumbered : numbered p.snapshotSeq ((fs ++ fs').map Message.snapshot) =
      numbered p.snapshotSeq (fs.map .snapshot) ++ numbered p'.snapshotSeq (fs'.map .snapshot) := by
    rw [List.map_append, numbered_append, h.snapshotSeq, List.length_map]
  obtain ⟨sentA, hA, hdA⟩ := h.armA
  obtain ⟨sentA', hA', hdA'⟩ := h'.armA
  obtain ⟨sentB, hB, hdB⟩ := h.armB
  obtain ⟨sentB', hB', hdB'⟩ := h'.armB
  refine ⟨⟨sentA ++ sentA', ?_, ?_⟩, ⟨sentB ++ sentB', ?_, ?_⟩, ?_, ?_⟩
  · rw [hA', hA, List.append_assoc]
  · rw [hnumbered]
    exact decodeAll_concat hdA hdA'
  · rw [hB', hB, List.append_assoc]
  · rw [hnumbered]
    exact decodeAll_concat hdB hdB'
  · rw [h'.snapshotSeq, h.snapshotSeq, List.length_append, UInt64.ofNat_add, UInt64.add_assoc]
  · rw [h'.snapshotBuf, h.snapshotBuf]

variable {env : Env}

theorem sendSnapshotArm_ok (hsend : ∀ n, env.sendOk n = true) {p : FeedPublisher}
    (channel : UInt8) (len : Nat) {header body : Buf} {first : UInt64} {count : UInt16}
    (hbuf : p.snapshotBuf = header ++ body) (hh : IsHeader header packetFlagSnapshot first count) :
    ∃ p' header', sendSnapshotArm env p channel len = .ok p' ∧ p'.snapshotBuf = header' ++ body ∧
      IsHeader header' packetFlagSnapshot first count ∧
      p'.a = p.a ++ armLog (channel = 0) false ((header' ++ body).take len) ∧
      p'.b = p.b ++ armLog (channel ≠ 0) false ((header' ++ body).take len) ∧
      p'.snapshotSeq = p.snapshotSeq := by
  have hlen : ¬ p.snapshotBuf.length < packetHeaderLen := by
    rw [hbuf, List.length_append, hh.length]
    exact Nat.not_lt.mpr (Nat.le_add_right ..)
  have hpatch : patchPacketChannel p.snapshotBuf channel =
      .ok (putU8 header 6 channel ++ body) := by
    have hroom : 6 + 1 ≤ header.length := by
      rw [hh.length]
      decide
    rw [patchPacketChannel, if_neg hlen, hbuf, putU8, putNat_append_left _ _ _ hroom]
    rfl
  unfold sendSnapshotArm
  rw [hpatch]
  show ∃ p' header', send env { p with snapshotBuf := putU8 header 6 channel ++ body } channel
    ((putU8 header 6 channel ++ body).take len) = .ok p' ∧ _
  rw [send, if_pos (hsend _)]
  by_cases hc : channel = 0
  · rw [if_pos hc]
    exact ⟨_, putU8 header 6 channel, rfl, rfl, hh.patchChannel channel, by simp [armLog, hc],
      by simp [armLog, hc], rfl⟩
  · rw [if_neg hc]
    exact ⟨_, putU8 header 6 channel, rfl, rfl, hh.patchChannel channel, by simp [armLog, hc],
      by simp [armLog, hc], rfl⟩

/-- **A snapshot datagram goes out on both arms**, holding the one message written behind its
header. -/
theorem sendSnapshotDatagram_ok (hsend : ∀ n, env.sendOk n = true) {p : FeedPublisher}
    {front block rest : Buf} {d : Snapshot} (hbuf : p.snapshotBuf = front ++ (block ++ rest))
    (hfront : front.length = packetHeaderLen) (hblock : Decodes block (.snapshot d)) :
    ∃ p', sendSnapshotDatagram env p (packetHeaderLen + block.length) = .ok p' ∧ Sent p p' [d] := by
  have hlen : ¬ p.snapshotBuf.length < packetHeaderLen := by
    rw [hbuf, List.length_append, hfront]
    exact Nat.not_lt.mpr (Nat.le_add_right ..)
  have hdrop : p.snapshotBuf.drop packetHeaderLen = block ++ rest := by
    rw [hbuf, ← hfront, List.drop_left]
  have hheader := isHeader_packetHeaderBlock 0 packetFlagSnapshot p.snapshotSeq
    (env.clock (p.datagrams + p.snapshotDatagrams))
  generalize hb : packetHeaderBlock 0 packetFlagSnapshot p.snapshotSeq
    (env.clock (p.datagrams + p.snapshotDatagrams)) = header at hheader
  have hroom : 4 + 2 ≤ header.length := by
    rw [hheader.length]
    decide
  have hwritten : encodePacketHeader p.snapshotBuf 0 packetFlagSnapshot p.snapshotSeq
      (env.clock (p.datagrams + p.snapshotDatagrams)) = .ok (header ++ (block ++ rest)) := by
    rw [encodePacketHeader, if_neg hlen, hb, hdrop]
  have hcounted : patchMessageCount (header ++ (block ++ rest)) 1 =
      .ok (putU16 header 4 1 ++ (block ++ rest)) := by
    have hbound : ¬ (header ++ (block ++ rest)).length < packetHeaderLen := by
      rw [List.length_append, hheader.length]
      exact Nat.not_lt.mpr (Nat.le_add_right ..)
    rw [patchMessageCount, if_neg hbound, putU16, putNat_append_left _ _ _ hroom]
    rfl
  have htake : ∀ header' : Buf, header'.length = packetHeaderLen →
      (header' ++ (block ++ rest)).take (packetHeaderLen + block.length) =
        header' ++ [block].flatten := by
    intro header' hlength
    rw [← List.append_assoc, List.flatten_singleton]
    apply List.take_left'
    rw [List.length_append, hlength]
  have hdecode : ∀ header' : Buf, IsHeader header' packetFlagSnapshot p.snapshotSeq 1 →
      decodeAll [header' ++ [block].flatten] = .ok (numbered p.snapshotSeq [.snapshot d]) := by
    intro header' hh
    have hone := decodeDatagram_blocks hh (List.Forall₂.cons hblock List.Forall₂.nil) rfl
    rw [decodeAll, hone]
    rfl
  unfold sendSnapshotDatagram
  dsimp only
  rw [hwritten]
  simp only [wireToIo, bind, Except.bind]
  rw [hcounted]
  dsimp only
  have hcount := hheader.patchCount 1
  generalize putU16 header 4 1 = counted at hcount ⊢
  obtain ⟨p₁, headerA, harmA, hbufA, hhA, haA, hbA, hseqA⟩ := sendSnapshotArm_ok hsend 0
    (packetHeaderLen + block.length) (p := { p with
      snapshotSeq := p.snapshotSeq + 1
      snapshotBuf := counted ++ (block ++ rest) }) rfl hcount
  obtain ⟨p₂, headerB, harmB, hbufB, hhB, haB, hbB, hseqB⟩ :=
    sendSnapshotArm_ok hsend 1 (packetHeaderLen + block.length) hbufA hhA
  rw [harmA]
  dsimp only
  rw [harmB]
  have hlogA : p₂.a = p.a ++ [headerA ++ [block].flatten] := by
    rw [haB, haA, htake headerA hhA.length]
    simp [armLog]
  have hlogB : p₂.b = p.b ++ [headerB ++ [block].flatten] := by
    rw [hbB, hbA, htake headerB hhB.length]
    simp [armLog]
  refine ⟨_, rfl, ⟨_, hlogA, hdecode headerA hhA⟩, ⟨_, hlogB, hdecode headerB hhB⟩, ?_, ?_⟩
  · show p₂.snapshotSeq = _
    rw [hseqB, hseqA]
    rfl
  · show p₂.snapshotBuf.length = _
    rw [hbufB, hbuf]
    simp only [List.length_append, hhB.length, hfront]

/-! ## What a cycle consists of -/

/-- One fragment: the first `k` of the orders still to be written. -/
def fragment (k : Nat) (lastSequence : UInt64) (symbolId : UInt16) (first lastSymbol : Bool)
    (rest : List RestingOrder) : Snapshot :=
  ⟨lastSequence, symbolId, fragmentFlags first (rest.length ≤ k) lastSymbol,
    (rest.take k).map fun o => (encodedOrder o).read⟩

/-- The fragments of a symbol, `k` orders to a fragment. -/
def fragmentsOf (k : Nat) (lastSequence : UInt64) (symbolId : UInt16) (lastSymbol : Bool) :
    Nat → Bool → List RestingOrder → List Snapshot
  | 0, _, _ => []
  | fuel + 1, first, rest =>
    fragment k lastSequence symbolId first lastSymbol rest ::
      if rest.length ≤ k then []
      else fragmentsOf k lastSequence symbolId lastSymbol fuel false (rest.drop k)

/-- The fragments of a whole cycle. -/
def cycleFragments (k : Nat) (lastSequence : UInt64) :
    Bool → List (UInt16 × ReferenceBook) → List Snapshot
  | _, [] => []
  | first, (symbolId, b) :: rest =>
    fragmentsOf k lastSequence symbolId rest.isEmpty ((snapshotOrdersOf b).length + 1) first
      (snapshotOrdersOf b) ++ cycleFragments k lastSequence false rest

/-- The encoder's buffer, its count and flags patched, starts with the message's block. -/
theorem patched_of_packed {e : SnapshotEncoder} {b : Buf} {lastSequence : UInt64}
    {symbolId : UInt16} {taken : List EncodedOrder}
    (h : Packed e (snapshotHead lastSequence symbolId 0) b taken) (flags : UInt8) :
    (if flags ≠ 0 then wireToIo (patchSnapshotFlags e.finish.1 flags) else .ok e.finish.1) =
      (.ok (snapshotBlock lastSequence symbolId flags taken ++ b.drop (24 + 24 * taken.length)) :
        Except IoError Buf) := by
  have hhead := length_snapshotHead lastSequence symbolId 0
  have hfinish : e.finish.1 = putU16 (snapshotHead lastSequence symbolId 0) 22
      (UInt16.ofNat taken.length) ++
      ((taken.map EncodedOrder.entry).flatten ++ b.drop (24 + 24 * taken.length)) := by
    rw [SnapshotEncoder.finish, h.buf, h.count, List.append_assoc, putU16,
      putNat_append_left _ _ _ (by rw [hhead])]
    rfl
  rw [hfinish, snapshotBlock, patchedHead]
  by_cases hflags : flags = 0
  · rw [hflags, if_neg (by decide), if_neg (by decide), List.append_assoc]
  · have hroom : ¬ (putU16 (snapshotHead lastSequence symbolId 0) 22 (UInt16.ofNat taken.length) ++
        ((taken.map EncodedOrder.entry).flatten ++
          b.drop (24 + 24 * taken.length))).length ≤ messageHeaderLen + 10 := by
      rw [List.length_append, length_putU16, hhead, messageHeaderLen]
      omega
    rw [if_pos hflags, if_pos hflags, patchSnapshotFlags, if_neg hroom, putU8, putNat_append_left _ _ _
      (by rw [length_putU16, hhead, messageHeaderLen]; decide), List.append_assoc]
    rfl

/-- **A turn of the fragment loop** sends one fragment, with as many orders as fit. -/
theorem writeFragment_ok (hsend : ∀ n, env.sendOk n = true) {p : FeedPublisher}
    (hlen : 72 ≤ p.snapshotBuf.length) (lastSequence : UInt64) (symbolId : UInt16)
    (first lastSymbol : Bool) {orders rest : List RestingOrder} (hrest : rest = [] → orders = []) :
    ∃ p', writeFragment env p lastSequence symbolId first lastSymbol orders rest =
        .ok (p', min rest.length (perFragment p.snapshotBuf.length)) ∧
      Sent p p' [fragment (perFragment p.snapshotBuf.length) lastSequence symbolId first lastSymbol
        rest] := by
  have hk : 1 ≤ perFragment p.snapshotBuf.length := by
    unfold perFragment
    omega
  have hdrop : (p.snapshotBuf.drop packetHeaderLen).length = p.snapshotBuf.length - 24 := by
    rw [List.length_drop, packetHeaderLen]
  have hstart : SnapshotEncoder.start (p.snapshotBuf.drop packetHeaderLen) lastSequence symbolId 0 =
      .ok ⟨snapshotHead lastSequence symbolId 0 ++ (p.snapshotBuf.drop packetHeaderLen).drop 24,
        24, 0⟩ := by
    rw [SnapshotEncoder.start, if_neg]
    · rfl
    · rw [hdrop, messageHeaderLen, groupSizeEncodingLen]
      omega
  have hempty : Packed ⟨snapshotHead lastSequence symbolId 0 ++
      (p.snapshotBuf.drop packetHeaderLen).drop 24, 24, 0⟩ (snapshotHead lastSequence symbolId 0)
      (p.snapshotBuf.drop packetHeaderLen) [] :=
    ⟨by simp, rfl, rfl, by rw [hdrop, List.length_nil]; omega, Nat.zero_le _⟩
  obtain ⟨hpacked, hall⟩ := packOrders_spec (length_snapshotHead ..) rest hempty
    (k := perFragment p.snapshotBuf.length) (by
      rw [hdrop, List.length_nil, Nat.zero_add, perFragment, Nat.sub_sub])
  rw [List.nil_append] at hall
  generalize hpair : packOrders _ rest = pair at hpacked hall
  obtain ⟨e, packed⟩ := pair
  dsimp only at hpacked hall
  subst hpacked
  have hfew := hall.few
  have hlast : decide (rest.length ≤ min rest.length (perFragment p.snapshotBuf.length)) =
      decide (rest.length ≤ perFragment p.snapshotBuf.length) := by
    rw [decide_eq_decide]
    omega
  unfold fragment
  generalize perFragment p.snapshotBuf.length = k at hk hpair hall hfew hlast ⊢
  generalize hflags : fragmentFlags first (rest.length ≤ k) lastSymbol = flags
  generalize htaken : (rest.take k).map encodedOrder = taken at hall hfew
  have hsent : ¬ (min rest.length k = 0 ∧ orders ≠ []) := by
    rintro ⟨hzero, hne⟩
    apply hne
    apply hrest
    rw [← List.length_eq_zero_iff]
    omega
  have hpatched := patched_of_packed hall flags
  have hpos := hall.pos
  have hblock := decodes_snapshot lastSequence symbolId flags (show taken.length < 65536 by omega)
  rw [← htaken, List.map_map, htaken] at hblock
  obtain ⟨p', hsendOk, hsentOk⟩ := sendSnapshotDatagram_ok hsend (p := { p with
    snapshotBuf := p.snapshotBuf.take packetHeaderLen ++
      (snapshotBlock lastSequence symbolId flags taken ++
        (p.snapshotBuf.drop packetHeaderLen).drop (24 + 24 * taken.length)) }) rfl
    (by rw [List.length_take, packetHeaderLen]; omega) hblock
  refine ⟨p', ?_, hsentOk.armA, hsentOk.armB, hsentOk.snapshotSeq, ?_⟩
  · rw [length_snapshotBlock, ← hpos] at hsendOk
    rw [← hpos] at hpatched
    simp only [writeFragment, hstart, wireToIo, bind, Except.bind, hpair]
    rw [if_neg hsent, hlast, hflags]
    simp only [wireToIo] at hpatched
    rw [hpatched]
    dsimp only
    rw [SnapshotEncoder.finish, hsendOk]
  · rw [hsentOk.snapshotBuf]
    have hroom := hall.room
    simp only [List.length_append, List.length_take, length_snapshotBlock, List.length_drop] at *
    omega

/-- **The fragments of one symbol**: the loop ends, every turn but the last packing an order. -/
theorem fragmentLoop_ok (hsend : ∀ n, env.sendOk n = true) (lastSequence : UInt64)
    (symbolId : UInt16) (lastSymbol : Bool) (orders : List RestingOrder) {fuel : Nat}
    {p : FeedPublisher} (hlen : 72 ≤ p.snapshotBuf.length) (cycle : SnapshotCycle) (first : Bool)
    {rest : List RestingOrder} (hrest : rest = [] → orders = []) (hfuel : rest.length < fuel) :
    ∃ p' cycle', fragmentLoop env lastSequence symbolId lastSymbol orders fuel p cycle first rest =
        .ok (p', cycle') ∧
      Sent p p' (fragmentsOf (perFragment p.snapshotBuf.length) lastSequence symbolId lastSymbol fuel
        first rest) := by
  induction fuel generalizing p cycle first rest with
  | zero => exact absurd hfuel (Nat.not_lt_zero _)
  | succ fuel ih =>
    have hk : 1 ≤ perFragment p.snapshotBuf.length := by
      unfold perFragment
      omega
    obtain ⟨p₁, hwritten, hsent⟩ :=
      writeFragment_ok hsend hlen lastSequence symbolId first lastSymbol hrest
    rw [fragmentLoop, hwritten, fragmentsOf]
    simp only [bind, Except.bind]
    by_cases hlast : rest.length ≤ perFragment p.snapshotBuf.length
    · rw [if_pos (by omega), if_pos hlast]
      exact ⟨p₁, _, rfl, hsent⟩
    · rw [if_neg (by omega), if_neg hlast, Nat.min_eq_right (by omega)]
      have hbuf := hsent.snapshotBuf
      have hnonempty : rest.drop (perFragment p.snapshotBuf.length) = [] → orders = [] := by
        intro hnil
        rw [List.drop_eq_nil_iff] at hnil
        exact absurd hnil hlast
      obtain ⟨p', cycle', hloop, hsent'⟩ := ih (p := p₁) (by omega)
        { cycle with
          datagrams := cycle.datagrams + 1
          orders := cycle.orders + perFragment p.snapshotBuf.length } false hnonempty
        (by rw [List.length_drop]; omega)
      rw [hbuf] at hsent'
      exact ⟨p', cycle', hloop, hsent.trans hsent'⟩

theorem symbolLoop_ok (hsend : ∀ n, env.sendOk n = true) (lastSequence : UInt64)
    (symbols : List (UInt16 × ReferenceBook)) {p : FeedPublisher}
    (hlen : 72 ≤ p.snapshotBuf.length) (cycle : SnapshotCycle) (first : Bool) :
    ∃ p' cycle', symbolLoop env lastSequence p cycle first symbols = .ok (p', cycle') ∧
      Sent p p' (cycleFragments (perFragment p.snapshotBuf.length) lastSequence first symbols) := by
  induction symbols generalizing p cycle first with
  | nil => exact ⟨p, cycle, rfl, Sent.refl p⟩
  | cons symbol symbols ih =>
    obtain ⟨symbolId, b⟩ := symbol
    obtain ⟨p₁, cycle₁, hloop, hsent⟩ := fragmentLoop_ok hsend lastSequence symbolId
      symbols.isEmpty (snapshotOrdersOf b) hlen { cycle with symbols := cycle.symbols + 1 } first
      id (Nat.lt_succ_self _)
    have hbuf := hsent.snapshotBuf
    obtain ⟨p', cycle', hrest, hsent'⟩ := ih (p := p₁) (by omega) cycle₁ false
    rw [hbuf] at hsent'
    refine ⟨p', cycle', ?_, hsent.trans hsent'⟩
    rw [symbolLoop]
    simp only [bind, Except.bind, Nat.succ_eq_add_one] at hloop ⊢
    rw [hloop]
    exact hrest

/-! ## The flush in front of a cycle -/

/-- An arm that can be sent on is sent on. -/
theorem sendArm_succeeds (hsend : ∀ n, env.sendOk n = true) {p : FeedPublisher} (channel : UInt8)
    (drop : Bool) (len : Nat) (hlen : packetHeaderLen ≤ p.buf.length) :
    ∃ p', sendArm env p channel drop len = .ok p' ∧ p'.buf.length = p.buf.length ∧
      p'.shadow = p.shadow ∧ p'.nextSeq = p.nextSeq ∧ p'.snapshotBuf = p.snapshotBuf := by
  unfold sendArm
  cases drop with
  | true => exact ⟨p, rfl, rfl, rfl, rfl, rfl⟩
  | false =>
    rw [if_neg Bool.false_ne_true, patchPacketChannel, if_neg (Nat.not_lt.mpr hlen)]
    simp only [wireToIo, bind, Except.bind]
    rw [send, if_pos (hsend _)]
    by_cases hc : channel = 0
    · rw [if_pos hc]
      exact ⟨_, rfl, length_putU8 .., rfl, rfl, rfl⟩
    · rw [if_neg hc]
      exact ⟨_, rfl, length_putU8 .., rfl, rfl, rfl⟩

/-- The messages in the buffer apply to the shadow book, if there is one. -/
def SelfCheckPasses (p : FeedPublisher) : Prop :=
  ∀ shadow, p.shadow = some shadow → p.count ≠ 0 → ∃ pending shadow', Filling p pending ∧
    replayShadow shadow ((numbered p.firstSeq pending).map .ok) = .ok shadow'

/-- **A flush succeeds** where both arms take what is sent and the self-check has no objection. -/
theorem flush_succeeds (hsend : ∀ n, env.sendOk n = true) {p : FeedPublisher}
    (hlen : packetHeaderLen ≤ p.buf.length) (hcheck : p.SelfCheckPasses) :
    ∃ p', flush env p = .ok p' ∧ p'.nextSeq = p.nextSeq ∧ p'.snapshotBuf = p.snapshotBuf := by
  by_cases hcount : p.count = 0
  · exact ⟨p, flush_zero hcount, rfl, rfl⟩
  · generalize hnow : env.clock (p.datagrams + p.snapshotDatagrams) = now
    obtain ⟨buf₀, hbuf₀, hlen₀⟩ : ∃ buf₀, encodePacketHeader p.buf 0 0 p.firstSeq now = .ok buf₀ ∧
        packetHeaderLen ≤ buf₀.length := by
      rw [encodePacketHeader, if_neg (Nat.not_lt.mpr hlen)]
      refine ⟨_, rfl, ?_⟩
      rw [List.length_append, length_packetHeaderBlock]
      exact Nat.le_add_right ..
    obtain ⟨buf₁, hbuf₁, hlen₁⟩ : ∃ buf₁, patchMessageCount buf₀ p.count = .ok buf₁ ∧
        packetHeaderLen ≤ buf₁.length := by
      rw [patchMessageCount, if_neg (Nat.not_lt.mpr hlen₀)]
      exact ⟨_, rfl, by rw [length_putU16]; exact hlen₀⟩
    obtain ⟨header, hbuf, hh⟩ := writeHeader_ok hbuf₀ hbuf₁
    obtain ⟨p₁, hA, hlenA, hshadowA, hseqA, hsnapA⟩ := sendArm_succeeds hsend
      (p := { p with buf := buf₁ }) 0 (env.drops p.datagrams).1 p.pos hlen₁
    obtain ⟨p₂, hB, -, hshadowB, hseqB, hsnapB⟩ := sendArm_succeeds hsend 1
      (env.drops p.datagrams).2 p.pos (hlenA ▸ hlen₁)
    obtain ⟨headerA, hbufA, hhA, -⟩ := sendArm_ok hA hbuf hh
    obtain ⟨headerB, hbufB, hhB, -⟩ := sendArm_ok hB hbufA hhA
    have hshadow : p₂.shadow = p.shadow := hshadowB.trans hshadowA
    have hchecked : ∃ shadow', selfCheck p₂.shadow (p₂.buf.take p.pos) = .ok shadow' := by
      cases hsome : p.shadow with
      | none =>
        rw [hshadow, hsome]
        exact ⟨_, rfl⟩
      | some shadow =>
        obtain ⟨pending, shadow', ⟨⟨blocks, hblocks, hpos, hbody⟩, hpending⟩, hreplay⟩ :=
          hcheck shadow hsome hcount
        have htake : p₂.buf.take p.pos = headerB ++ blocks.flatten := by
          rw [hbufB, List.take_append, hhB.length, List.take_of_length_le, ← hbody, List.drop_take]
          rw [hhB.length]
          omega
        rw [hshadow, hsome, htake, selfCheck, readPacket_blocks hhB hblocks hpending]
        dsimp only
        rw [hreplay]
        exact ⟨_, rfl⟩
    obtain ⟨shadow', hchecked⟩ := hchecked
    rw [flush, if_neg hcount]
    simp only [hnow, hbuf₀, hbuf₁, wireToIo, bind, Except.bind, hA, hB, hchecked]
    exact ⟨_, rfl, hseqB.trans hseqA, hsnapB.trans hsnapA⟩

/-- **A snapshot cycle goes out**: on both arms the fragments of every symbol, one to a datagram,
and each names the last sequence at entry. -/
theorem publishSnapshot_ok (hsend : ∀ n, env.sendOk n = true) {p : FeedPublisher}
    (hlen : packetHeaderLen ≤ p.buf.length) (hsnap : 72 ≤ p.snapshotBuf.length)
    (hcheck : p.SelfCheckPasses) (books : Books) :
    ∃ p₀ p' cycle, flush env p = .ok p₀ ∧ publishSnapshot env p books = .ok (p', cycle) ∧
      Sent p₀ p' (cycleFragments (perFragment p.snapshotBuf.length) p.lastSequence true
        books.toList) := by
  obtain ⟨p₀, hflush, hseq, hbuf⟩ := flush_succeeds hsend hlen hcheck
  have hlast : p₀.lastSequence = p.lastSequence := by
    rw [lastSequence, lastSequence, hseq]
  obtain ⟨p', cycle, hloop, hsent⟩ := symbolLoop_ok hsend p₀.lastSequence books.toList
    (p := p₀) (by rw [hbuf]; exact hsnap)
    { sequence := p₀.snapshotSeq, lastSequence := p₀.lastSequence } true
  rw [hbuf, hlast] at hsent
  refine ⟨p₀, p', cycle, hflush, ?_, hsent⟩
  rw [publishSnapshot, hflush]
  exact hloop

end FeedPublisher

end MarketData.Matching
