import MarketData.Matching.Snapshot

/-!
# `Matching/Sequencing.lean` — the numbering of the incremental feed

However emits, flushes, timer flushes, heartbeats and snapshot cycles follow on each other, and
whatever the loss injector drops, the datagrams offered to the replay service tile the messages
emitted so far: each carries the next batch, named by its header, within the batch size and the
datagram's bytes, and every emit answered the sequence its message has there.

## What is offered, not what arrives

Sequences are given out by the publisher once, and the datagrams that carry them go to three places.
An arm may lose one, by the injector or by its socket; the replay service is offered every one, and
is what the numbering is stated about. `Tiles` is an inductive over the offered datagrams: each
carries the messages from the next sequence on, at least one of them, and there is **no other
datagram of the incremental space**.

Heartbeats and snapshot cycles are calls like the others. A heartbeat takes no number, a snapshot
cycle flushes and leaves the numbering alone (`Numbered.publishSnapshot`), although both use the
same buffer.

Every call of the run succeeds here; an emit whose message does not fit a datagram of its own is an
error, and what follows it is not asked.
-/

set_option autoImplicit false

namespace MarketData.Matching

open MarketData.Wire MarketData.Book

namespace FeedPublisher

/-! ## Calls -/

/-- What can be asked of a publisher. -/
inductive FeedCall where
  | addOrder (orderId : UInt64) (price : Int64) (quantity : UInt32) (symbolId : UInt16)
      (side : Side)
  | modifyOrder (orderId : UInt64) (newPrice : Int64) (newQuantity : UInt32) (symbolId : UInt16)
      (side : Side) (reason : ModifyReason)
  | deleteOrder (orderId : UInt64) (symbolId : UInt16) (side : Side)
  | trade (tradeId aggressorOrderId restingOrderId : UInt64) (price : Int64) (quantity : UInt32)
      (symbolId : UInt16) (aggressorSide : Side)
  | heartbeat (lastSequence : UInt64)
  | flush
  | flushOnTimer
  | publishSnapshot (books : Books)

namespace FeedCall

/-- The message a call puts on the feed. -/
def message : FeedCall → Option Message
  | addOrder orderId price quantity symbolId side =>
    some (.addOrder ⟨orderId, price, quantity, symbolId, side.toU8⟩)
  | modifyOrder orderId newPrice newQuantity symbolId side reason =>
    some (.modifyOrder ⟨orderId, newPrice, newQuantity, symbolId, side.toU8, reason.toU8⟩)
  | deleteOrder orderId symbolId side => some (.deleteOrder ⟨orderId, symbolId, side.toU8⟩)
  | trade tradeId aggressorOrderId restingOrderId price quantity symbolId aggressorSide =>
    some (.trade ⟨tradeId, aggressorOrderId, restingOrderId, price, quantity, symbolId,
      aggressorSide.toU8⟩)
  | heartbeat lastSequence => some (.heartbeat lastSequence)
  | _ => none

/-- The call, with the sequence it answers. -/
def perform (env : Env) (p : FeedPublisher) :
    FeedCall → Except IoError (Option UInt64 × FeedPublisher)
  | addOrder orderId price quantity symbolId side =>
    (p.addOrder env orderId price quantity symbolId side).map fun r => (some r.1, r.2)
  | modifyOrder orderId newPrice newQuantity symbolId side reason =>
    (p.modifyOrder env orderId newPrice newQuantity symbolId side reason).map fun r =>
      (some r.1, r.2)
  | deleteOrder orderId symbolId side =>
    (p.deleteOrder env orderId symbolId side).map fun r => (some r.1, r.2)
  | trade tradeId aggressorOrderId restingOrderId price quantity symbolId aggressorSide =>
    (p.trade env tradeId aggressorOrderId restingOrderId price quantity symbolId
      aggressorSide).map fun r => (some r.1, r.2)
  | heartbeat lastSequence => (p.heartbeat env lastSequence).map fun r => (some r.1, r.2)
  | flush => (FeedPublisher.flush env p).map fun p => (none, p)
  | flushOnTimer => (FeedPublisher.flushOnTimer env p).map fun p => (none, p)
  | publishSnapshot books => (FeedPublisher.publishSnapshot env p books).map fun r => (none, r.1)

end FeedCall

variable {env : Env} {p p' : FeedPublisher} {flushed pending : List Message}

/-- What a call comes to: an emit of its message, a flush, or a snapshot cycle. -/
inductive Performs (env : Env) (p : FeedPublisher) :
    Option Message → Option UInt64 → FeedPublisher → Prop
  | emit {block : Buf} {m : Message} {seq : UInt64} {p' : FeedPublisher} : Decodes block m →
      emit env p (encodeBlock block) = .ok (seq, p') → Performs env p (some m) (some seq) p'
  | flush {p' : FeedPublisher} : flush env p = .ok p' → Performs env p none none p'
  | snapshot {p' : FeedPublisher} {books : Books} {cycle : SnapshotCycle} :
      publishSnapshot env p books = .ok (p', cycle) → Performs env p none none p'

theorem FeedCall.perform_performs {c : FeedCall} {seq : Option UInt64}
    (h : c.perform env p = .ok (seq, p')) : Performs env p c.message seq p' := by
  cases c with
  | addOrder orderId price quantity symbolId side =>
    obtain ⟨⟨s, q⟩, hemit, heq⟩ := map_eq_ok h
    cases heq
    exact .emit (decodes_addOrder _ _ _ _ _) hemit
  | modifyOrder orderId newPrice newQuantity symbolId side reason =>
    obtain ⟨⟨s, q⟩, hemit, heq⟩ := map_eq_ok h
    cases heq
    exact .emit (decodes_modifyOrder _ _ _ _ _ _) hemit
  | deleteOrder orderId symbolId side =>
    obtain ⟨⟨s, q⟩, hemit, heq⟩ := map_eq_ok h
    cases heq
    exact .emit (decodes_deleteOrder _ _ _) hemit
  | trade tradeId aggressorOrderId restingOrderId price quantity symbolId aggressorSide =>
    obtain ⟨⟨s, q⟩, hemit, heq⟩ := map_eq_ok h
    cases heq
    exact .emit (decodes_trade _ _ _ _ _ _ _) hemit
  | heartbeat lastSequence =>
    obtain ⟨⟨s, q⟩, hemit, heq⟩ := map_eq_ok h
    cases heq
    exact .emit (decodes_heartbeat _) hemit
  | flush =>
    obtain ⟨q, hflush, heq⟩ := map_eq_ok h
    cases heq
    exact .flush hflush
  | flushOnTimer =>
    obtain ⟨q, hflush, heq⟩ := map_eq_ok h
    cases heq
    exact .flush hflush
  | publishSnapshot books =>
    obtain ⟨⟨q, cycle⟩, hcycle, heq⟩ := map_eq_ok h
    cases heq
    exact .snapshot hcycle

/-! ## What is offered -/

/-- A datagram that carries the messages from the sequence on: its header names the first and how
many they are, its body is their blocks and nothing else, and it stays within the batch size and
the bytes of a datagram. -/
structure Carries (batch maxBytes : Nat) (first : UInt64) (ms : List Message) (d : Buf) : Prop where
  reads : readPacket d = .ok ((numbered first ms).map .ok)
  header : ∃ h, PacketHeader.wrap d = .ok h ∧ h.firstSequence = first ∧
    h.messageCount.toNat = ms.length
  body : ∃ blocks, List.Forall₂ Decodes blocks ms ∧ d.drop packetHeaderLen = blocks.flatten
  some_message : ms ≠ []
  few : ms.length ≤ batch
  short : d.length ≤ maxBytes

/-- The datagrams carry the messages, from sequence 1 on and batch after batch. -/
inductive Tiles (batch maxBytes : Nat) : List Buf → List Message → Prop
  | nil : Tiles batch maxBytes [] []
  | snoc {ds : List Buf} {ms batch' : List Message} {d : Buf} : Tiles batch maxBytes ds ms →
      Carries batch maxBytes (1 + UInt64.ofNat ms.length) batch' d →
      Tiles batch maxBytes (ds ++ [d]) (ms ++ batch')

/-- **What is offered tiles what was emitted**: read one after the other the datagrams carry the
messages with the sequences 1, 2, 3, and so on. -/
theorem Tiles.decodeAll {batch maxBytes : Nat} {ds : List Buf} {ms : List Message}
    (h : Tiles batch maxBytes ds ms) : decodeAll ds = .ok (numbered 1 ms) := by
  induction h with
  | nil => rfl
  | snoc _ hd ih =>
    rw [numbered_append]
    refine decodeAll_append ih ?_
    rw [decodeDatagram, hd.reads]
    exact mapM_id_ok _

/-- The buffer holds the next batch, and the counters continue what was offered. -/
structure Sequenced (batchSize : UInt16) (maxBytes : Nat) (p : FeedPublisher)
    (flushed pending : List Message) : Prop where
  tiles : Tiles batchSize.toNat maxBytes p.uplink flushed
  size : p.batchSize = batchSize
  positive : 1 ≤ batchSize
  buffer : Filling p pending
  length : p.buf.length = maxBytes
  short : pending ≠ [] → p.pos ≤ maxBytes
  few : p.count ≤ batchSize
  first : pending ≠ [] → p.firstSeq = 1 + UInt64.ofNat flushed.length
  next : p.nextSeq = 1 + UInt64.ofNat (flushed.length + pending.length)

variable {batchSize : UInt16} {maxBytes : Nat}

theorem sequenced_new (env : Env) (batchSize : UInt16) (maxDatagramBytes : Nat)
    (shadow : Option Books) : Sequenced (new batchSize maxDatagramBytes).batchSize maxDatagramBytes
      { new batchSize maxDatagramBytes with shadow := shadow } [] [] :=
  ⟨.nil, rfl, (published_new env batchSize maxDatagramBytes shadow).batch, filling_nil rfl rfl,
    List.length_replicate, fun h => absurd rfl h, UInt16.le_iff_toNat_le.mpr (Nat.zero_le _),
    fun h => absurd rfl h, rfl⟩

theorem Sequenced.pending_eq_nil (hp : Sequenced batchSize maxBytes p flushed pending)
    (hcount : p.count = 0) : pending = [] := by
  have hc := hp.buffer.count
  rw [hcount] at hc
  exact List.length_eq_zero_iff.mp hc.symm

/-- **A flush** offers the buffer as one more datagram. -/
theorem Sequenced.flush (hp : Sequenced batchSize maxBytes p flushed pending) (h : flush env p = .ok p') :
    Sequenced batchSize maxBytes p' (flushed ++ pending) [] ∧ p'.count = 0 := by
  by_cases hcount : p.count = 0
  · rw [flush_zero hcount] at h
    obtain rfl := Except.ok.inj h
    obtain rfl := hp.pending_eq_nil hcount
    rw [List.append_nil]
    exact ⟨hp, hcount⟩
  · have hne : pending ≠ [] := by
      intro hnil
      have hc := hp.buffer.count
      rw [hnil] at hc
      exact hcount (UInt16.toNat_inj.mp hc)
    obtain ⟨blocks, hblocks, hpos, hbody⟩ := hp.buffer.blocks
    obtain ⟨headerA, headerB, -, hhB, -, -, hup, hpos', hcount', hnext, hbatch, -, hlength⟩ :=
      flush_ok h hcount (by omega)
    have hcarries : Carries batchSize.toNat maxBytes (1 + UInt64.ofNat flushed.length) pending
        (headerB ++ blocks.flatten) := by
      rw [hp.first hne] at hhB
      obtain ⟨header, hwrap, hnames, hstarts, -⟩ := hhB.wrap blocks.flatten
      have hlen := hhB.length
      have hfew := UInt16.le_iff_toNat_le.mp hp.few
      have hshort := hp.short hne
      refine ⟨readPacket_blocks hhB hblocks hp.buffer.count, ⟨header, hwrap, hstarts, ?_⟩,
        ⟨blocks, hblocks, ?_⟩, hne, ?_, ?_⟩
      · rw [hnames, hp.buffer.count]
      · rw [← hlen, List.drop_left]
      · rw [← hp.buffer.count]
        exact hfew
      · rw [List.length_append, hlen, ← hpos]
        exact hshort
    refine ⟨⟨?_, hbatch.trans hp.size, hp.positive, filling_nil hpos' hcount',
      hlength.trans hp.length, fun h => absurd rfl h, ?_, fun h => absurd rfl h, ?_⟩, hcount'⟩
    · rw [hup, hbody]
      exact .snoc hp.tiles hcarries
    · rw [hcount']
      exact UInt16.le_iff_toNat_le.mpr (Nat.zero_le _)
    · rw [hnext, hp.next, List.length_append]
      rfl

/-- A message is put behind what the buffer holds. -/
theorem Sequenced.commit {block tail : Buf} {written : Nat} {m : Message}
    (hp : Sequenced batchSize maxBytes p flushed pending) (hm : Decodes block m)
    (hfirst : p.firstSeq = 1 + UInt64.ofNat flushed.length)
    (h : encodeBlock block (p.buf.drop p.pos) = .ok (tail, written))
    (hcount : p.count < batchSize) :
    Sequenced batchSize maxBytes (p.commit tail written).2 flushed (pending ++ [m]) := by
  have hroom : p.count.toNat + 1 < 2 ^ 16 :=
    Nat.lt_of_le_of_lt (UInt16.lt_iff_toNat_lt.mp hcount) batchSize.toNat_lt
  have hfilling := hp.buffer.commit hm h hroom
  obtain ⟨hlen, rfl, rfl⟩ := encodeBlock_ok h
  have hblock := hm.length_pos
  have hbuf := hp.length
  rw [List.length_drop] at hlen
  refine ⟨hp.tiles, hp.size, hp.positive, hfilling, ?_, fun _ => ?_, ?_, fun _ => hfirst, ?_⟩
  · show (p.buf.take p.pos ++ (block ++ (p.buf.drop p.pos).drop block.length)).length = maxBytes
    simp only [List.length_append, List.length_take, List.length_drop]
    omega
  · show p.pos + block.length ≤ maxBytes
    omega
  · show p.count + 1 ≤ batchSize
    rw [UInt16.le_iff_toNat_le, UInt16.toNat_add, UInt16.toNat_one, Nat.mod_eq_of_lt hroom]
    exact UInt16.lt_iff_toNat_lt.mp hcount
  · show p.nextSeq + 1 = _
    rw [hp.next, List.length_append, ← Nat.add_assoc, UInt64.ofNat_add _ [m].length,
      UInt64.add_assoc]
    rfl

theorem Sequenced.start (hp : Sequenced batchSize maxBytes p flushed []) :
    Sequenced batchSize maxBytes { p with firstSeq := p.nextSeq } flushed [] :=
  ⟨hp.tiles, hp.size, hp.positive, ⟨hp.buffer.blocks, hp.buffer.count⟩, hp.length,
    fun h => absurd rfl h, hp.few, fun h => absurd rfl h, hp.next⟩

theorem Sequenced.firstSeq_start (hp : Sequenced batchSize maxBytes p flushed []) :
    ({ p with firstSeq := p.nextSeq } : FeedPublisher).firstSeq =
      1 + UInt64.ofNat flushed.length := by
  show p.nextSeq = _
  rw [hp.next, List.length_nil, Nat.add_zero]

theorem Sequenced.count_lt (hp : Sequenced batchSize maxBytes p flushed pending) (hcount : p.count = 0) :
    p.count < batchSize := by
  rw [hcount]
  exact UInt16.lt_iff_toNat_lt.mpr (UInt16.le_iff_toNat_le.mp hp.positive)

/-- The messages `ms` were emitted; the first of them are offered, the rest are in the buffer. -/
def Numbered (batchSize : UInt16) (maxBytes : Nat) (p : FeedPublisher) (ms : List Message) : Prop :=
  ∃ flushed pending, ms = flushed ++ pending ∧ Sequenced batchSize maxBytes p flushed pending

variable {ms : List Message}

/-- An emit starts with room for one more message and the first sequence known, whichever of the
two it flushes for. -/
theorem Numbered.startDatagram (hp : Numbered batchSize maxBytes p ms)
    (h : FeedPublisher.startDatagram env p = .ok p') :
    ∃ flushed pending, ms = flushed ++ pending ∧ Sequenced batchSize maxBytes p' flushed pending ∧
      p'.firstSeq = 1 + UInt64.ofNat flushed.length ∧ p'.count < batchSize := by
  obtain ⟨flushed, pending, rfl, hp⟩ := hp
  obtain ⟨q, hq, h⟩ := bind_eq_ok h
  obtain rfl := Except.ok.inj h
  by_cases hcount : q.count = 0
  · have hempty : Sequenced batchSize maxBytes q (flushed ++ pending) [] := by
      split at hq
      · exact (hp.flush hq).1
      · obtain rfl := Except.ok.inj hq
        obtain rfl := hp.pending_eq_nil hcount
        rw [List.append_nil]
        exact hp
    rw [if_pos hcount]
    exact ⟨flushed ++ pending, [], by rw [List.append_nil], hempty.start, hempty.firstSeq_start,
      hempty.count_lt hcount⟩
  · rw [if_neg hcount]
    split at hq
    · exact absurd (hp.flush hq).2 hcount
    · rename_i hfull
      obtain rfl := Except.ok.inj hq
      rw [hp.size] at hfull
      refine ⟨flushed, pending, rfl, hp, hp.first ?_, UInt16.not_le.mp hfull⟩
      rintro rfl
      exact hcount (UInt16.toNat_inj.mp hp.buffer.count)

/-- **An emit** appends its message, and answers the sequence after the last. -/
theorem Numbered.emit {block : Buf} {m : Message} {seq : UInt64} (hp : Numbered batchSize maxBytes p ms)
    (hm : Decodes block m) (h : emit env p (encodeBlock block) = .ok (seq, p')) :
    seq = 1 + UInt64.ofNat ms.length ∧ Numbered batchSize maxBytes p' (ms ++ [m]) := by
  unfold FeedPublisher.emit at h
  obtain ⟨p₁, h₁, h⟩ := bind_eq_ok h
  obtain ⟨flushed, pending, rfl, hp₁, hfirst, hcount⟩ := hp.startDatagram h₁
  have hseq : p₁.nextSeq = 1 + UInt64.ofNat (flushed ++ pending).length := by
    rw [hp₁.next, List.length_append]
  split at h
  · rename_i tail written henc
    cases h
    exact ⟨hseq, flushed, pending ++ [m], by rw [List.append_assoc],
      hp₁.commit hm hfirst henc hcount⟩
  · split at h
    · cases h
    · -- The message did not fit: it is encoded once more, into an empty datagram.
      obtain ⟨p₂, h₂, h⟩ := bind_eq_ok h
      obtain ⟨⟨tail, written⟩, henc, h⟩ := bind_eq_ok h
      obtain ⟨hp₂, hcount₂⟩ := hp₁.flush h₂
      cases h
      refine ⟨?_, flushed ++ pending, [m], rfl,
        hp₂.start.commit hm hp₂.firstSeq_start (wireToIo_ok henc) (hp₂.count_lt hcount₂)⟩
      show p₂.nextSeq = _
      rw [hp₂.next, List.length_nil, Nat.add_zero]
  · cases h

theorem Numbered.flush (hp : Numbered batchSize maxBytes p ms) (h : FeedPublisher.flush env p = .ok p') :
    Numbered batchSize maxBytes p' ms := by
  obtain ⟨flushed, pending, rfl, hp⟩ := hp
  exact ⟨flushed ++ pending, [], by rw [List.append_nil], (hp.flush h).1⟩

/-! ## Snapshot cycles -/

/-- What a snapshot leaves alone: everything the numbering of the increments is kept in. -/
structure SameStream (p p' : FeedPublisher) : Prop where
  buf : p'.buf = p.buf
  pos : p'.pos = p.pos
  count : p'.count = p.count
  firstSeq : p'.firstSeq = p.firstSeq
  nextSeq : p'.nextSeq = p.nextSeq
  batchSize : p'.batchSize = p.batchSize
  uplink : p'.uplink = p.uplink

theorem SameStream.refl (p : FeedPublisher) : SameStream p p := ⟨rfl, rfl, rfl, rfl, rfl, rfl, rfl⟩

theorem SameStream.trans {p p' p'' : FeedPublisher} (h : SameStream p p') (h' : SameStream p' p'') :
    SameStream p p'' :=
  ⟨h'.buf.trans h.buf, h'.pos.trans h.pos, h'.count.trans h.count, h'.firstSeq.trans h.firstSeq,
    h'.nextSeq.trans h.nextSeq, h'.batchSize.trans h.batchSize, h'.uplink.trans h.uplink⟩

theorem Numbered.congr (hp : Numbered batchSize maxBytes p ms) (h : SameStream p p') :
    Numbered batchSize maxBytes p' ms := by
  obtain ⟨flushed, pending, rfl, hp⟩ := hp
  obtain ⟨blocks, hblocks, hpos, hbody⟩ := hp.buffer.blocks
  refine ⟨flushed, pending, rfl, ?_, ?_, hp.positive, ⟨⟨blocks, hblocks, ?_, ?_⟩, ?_⟩, ?_, ?_, ?_,
    ?_, ?_⟩
  · rw [h.uplink]
    exact hp.tiles
  · exact h.batchSize.trans hp.size
  · rw [h.pos]
    exact hpos
  · rw [h.buf, h.pos]
    exact hbody
  · rw [h.count]
    exact hp.buffer.count
  · rw [h.buf]
    exact hp.length
  · rw [h.pos]
    exact hp.short
  · rw [h.count]
    exact hp.few
  · rw [h.firstSeq]
    exact hp.first
  · rw [h.nextSeq]
    exact hp.next

theorem send_same {channel : UInt8} {bytes : Buf} (h : send env p channel bytes = .ok p') :
    SameStream p p' := by
  unfold send at h
  split at h
  · obtain rfl := Except.ok.inj h
    split <;> exact ⟨rfl, rfl, rfl, rfl, rfl, rfl, rfl⟩
  · cases h

theorem sendSnapshotDatagram_same {len : Nat} (h : sendSnapshotDatagram env p len = .ok p') :
    SameStream p p' := by
  have harm : ∀ {q q' : FeedPublisher} {channel : UInt8},
      sendSnapshotArm env q channel len = .ok q' → SameStream q q' := by
    intro q q' channel harm
    obtain ⟨buf, -, harm⟩ := bind_eq_ok harm
    have hsame := send_same harm
    exact ⟨hsame.buf, hsame.pos, hsame.count, hsame.firstSeq, hsame.nextSeq, hsame.batchSize,
      hsame.uplink⟩
  obtain ⟨buf₀, -, h⟩ := bind_eq_ok h
  obtain ⟨buf₁, -, h⟩ := bind_eq_ok h
  obtain ⟨p₁, hA, h⟩ := bind_eq_ok h
  obtain ⟨p₂, hB, h⟩ := bind_eq_ok h
  obtain rfl := Except.ok.inj h
  have hboth := (harm hA).trans (harm hB)
  exact ⟨hboth.buf, hboth.pos, hboth.count, hboth.firstSeq, hboth.nextSeq, hboth.batchSize,
    hboth.uplink⟩

theorem writeFragment_same {lastSequence : UInt64} {symbolId : UInt16} {first lastSymbol : Bool}
    {orders rest : List RestingOrder} {packed : Nat}
    (h : writeFragment env p lastSequence symbolId first lastSymbol orders rest = .ok (p', packed)) :
    SameStream p p' := by
  obtain ⟨e, -, h⟩ := bind_eq_ok h
  dsimp only at h
  split at h
  · cases h
  · obtain ⟨tail, -, h⟩ := bind_eq_ok h
    obtain ⟨q, hsend, h⟩ := bind_eq_ok h
    cases h
    have hsame := sendSnapshotDatagram_same hsend
    exact ⟨hsame.buf, hsame.pos, hsame.count, hsame.firstSeq, hsame.nextSeq, hsame.batchSize,
      hsame.uplink⟩

theorem fragmentLoop_same {lastSequence : UInt64} {symbolId : UInt16} {lastSymbol : Bool}
    {orders : List RestingOrder} {fuel : Nat} {cycle cycle' : SnapshotCycle} {first : Bool}
    {rest : List RestingOrder} (h : fragmentLoop env lastSequence symbolId lastSymbol orders fuel p
      cycle first rest = .ok (p', cycle')) : SameStream p p' := by
  induction fuel generalizing p cycle first rest with
  | zero =>
    cases h
    exact .refl _
  | succ fuel ih =>
    obtain ⟨⟨q, packed⟩, hwrite, h⟩ := bind_eq_ok h
    have hsame := writeFragment_same hwrite
    dsimp only at h
    split at h
    · cases h
      exact hsame
    · exact hsame.trans (ih h)

theorem symbolLoop_same {lastSequence : UInt64} {cycle cycle' : SnapshotCycle} {first : Bool}
    {symbols : List (UInt16 × ReferenceBook)}
    (h : symbolLoop env lastSequence p cycle first symbols = .ok (p', cycle')) :
    SameStream p p' := by
  induction symbols generalizing p cycle first with
  | nil =>
    cases h
    exact .refl _
  | cons symbol symbols ih =>
    obtain ⟨symbolId, b⟩ := symbol
    obtain ⟨⟨q, cycle₁⟩, hloop, h⟩ := bind_eq_ok h
    exact (fragmentLoop_same hloop).trans (ih h)

/-- **A snapshot cycle** flushes, and leaves the numbering of the increments alone. -/
theorem Numbered.publishSnapshot {books : Books} {cycle : SnapshotCycle}
    (hp : Numbered batchSize maxBytes p ms)
    (h : FeedPublisher.publishSnapshot env p books = .ok (p', cycle)) :
    Numbered batchSize maxBytes p' ms := by
  obtain ⟨q, hflush, h⟩ := bind_eq_ok h
  exact (hp.flush hflush).congr (symbolLoop_same h)

/-! ## Runs -/

/-- The calls in turn, and the sequence each emit answered with its message. -/
def run (env : Env) (p : FeedPublisher) :
    List FeedCall → Except IoError (FeedPublisher × List (UInt64 × Message))
  | [] => .ok (p, [])
  | c :: cs => do
    let (seq, p) ← c.perform env p
    let (p, answered) ← run env p cs
    .ok (p, (Option.map₂ Prod.mk seq c.message).toList ++ answered)

/-- **A call** numbers its message, if it has one, after those before. -/
theorem Numbered.perform {c : FeedCall} {seq : Option UInt64} (hp : Numbered batchSize maxBytes p ms)
    (h : c.perform env p = .ok (seq, p')) :
    Numbered batchSize maxBytes p' (ms ++ c.message.toList) ∧
      (Option.map₂ Prod.mk seq c.message).toList =
        numbered (1 + UInt64.ofNat ms.length) c.message.toList := by
  have hperforms := FeedCall.perform_performs h
  generalize c.message = message at hperforms ⊢
  cases hperforms with
  | emit hm hemit =>
    obtain ⟨rfl, hp'⟩ := hp.emit hm hemit
    exact ⟨hp', rfl⟩
  | flush hflush =>
    rw [Option.toList_none, List.append_nil]
    exact ⟨hp.flush hflush, rfl⟩
  | snapshot hcycle =>
    rw [Option.toList_none, List.append_nil]
    exact ⟨hp.publishSnapshot hcycle, rfl⟩

theorem Numbered.run {calls : List FeedCall} {answered : List (UInt64 × Message)}
    (hp : Numbered batchSize maxBytes p ms) (h : run env p calls = .ok (p', answered)) :
    Numbered batchSize maxBytes p' (ms ++ calls.filterMap FeedCall.message) ∧
      answered = numbered (1 + UInt64.ofNat ms.length) (calls.filterMap FeedCall.message) := by
  induction calls generalizing p ms answered with
  | nil =>
    cases h
    rw [List.filterMap_nil, List.append_nil]
    exact ⟨hp, rfl⟩
  | cons c calls ih =>
    obtain ⟨⟨seq, q⟩, hcall, h⟩ := bind_eq_ok h
    obtain ⟨⟨q', rest⟩, hrest, h⟩ := bind_eq_ok h
    cases h
    obtain ⟨hq, hanswer⟩ := hp.perform hcall
    obtain ⟨hp', hanswers⟩ := ih hq hrest
    have hcons : (c :: calls).filterMap FeedCall.message =
        c.message.toList ++ calls.filterMap FeedCall.message := by
      rw [List.filterMap_cons]
      cases c.message <;> rfl
    rw [hcons, ← List.append_assoc]
    refine ⟨hp', ?_⟩
    rw [hanswer, hanswers, List.length_append, UInt64.ofNat_add, ← UInt64.add_assoc,
      ← numbered_append]

theorem numbered_toNat (ms : List Message) (first : UInt64) (h : first.toNat + ms.length ≤ 2 ^ 64) :
    (numbered first ms).map (fun e => e.1.toNat) = List.range' first.toNat ms.length := by
  induction ms generalizing first with
  | nil => rfl
  | cons m ms ih =>
    rw [List.length_cons] at h
    rw [numbered, List.map_cons, List.length_cons, List.range'_succ]
    by_cases hlast : ms = []
    · rw [hlast]
      rfl
    · have hpos := List.length_pos_iff.mpr hlast
      have hnext : (first + 1).toNat = first.toNat + 1 := by
        rw [UInt64.toNat_add, UInt64.toNat_one, Nat.mod_eq_of_lt (by omega)]
      rw [ih (first + 1) (by omega), hnext]

/-- **The incremental feed is numbered 1, 2, 3, and so on.** Whatever is called, in whatever order,
and whatever is dropped: every emit answered the next number; what is offered to the replay service
tiles the messages of the calls, up to what the buffer still holds, with those numbers; and a last
flush offers the rest. -/
theorem feed_sequencing (env : Env) (batchSize : UInt16) (maxDatagramBytes : Nat)
    (shadow : Option Books) (calls : List FeedCall) {p : FeedPublisher}
    {answered : List (UInt64 × Message)}
    (h : run env { new batchSize maxDatagramBytes with shadow := shadow } calls =
      .ok (p, answered)) :
    answered = numbered 1 (calls.filterMap FeedCall.message) ∧
      (∃ flushed pending, calls.filterMap FeedCall.message = flushed ++ pending ∧
        Tiles (max 1 batchSize.toNat) maxDatagramBytes p.uplink flushed ∧
        decodeAll p.uplink = .ok (numbered 1 flushed) ∧
        (flushed.length < 2 ^ 64 → (numbered 1 flushed).map (fun e => e.1.toNat) =
          List.range' 1 flushed.length)) ∧
      ∀ p', flush env p = .ok p' → decodeAll p'.uplink = .ok answered := by
  have hbatch : (new batchSize maxDatagramBytes).batchSize.toNat = max 1 batchSize.toNat := by
    show (if batchSize < 1 then (1 : UInt16) else batchSize).toNat = _
    split
    · rename_i hlt
      have hzero := UInt16.lt_iff_toNat_lt.mp hlt
      rw [UInt16.toNat_one] at hzero ⊢
      omega
    · rename_i hge
      have hone := UInt16.le_iff_toNat_le.mp (UInt16.not_lt.mp hge)
      rw [UInt16.toNat_one] at hone
      omega
  have hstart : Numbered (new batchSize maxDatagramBytes).batchSize maxDatagramBytes
      { new batchSize maxDatagramBytes with shadow := shadow } [] :=
    ⟨[], [], rfl, sequenced_new env batchSize maxDatagramBytes shadow⟩
  obtain ⟨hnumbered, hanswered⟩ := hstart.run h
  rw [List.nil_append] at hnumbered
  rw [List.length_nil] at hanswered
  refine ⟨hanswered, ?_, fun p' hflush => ?_⟩
  · obtain ⟨flushed, pending, hall, hp⟩ := hnumbered
    have htiles := hp.tiles
    rw [hbatch] at htiles
    exact ⟨flushed, pending, hall, htiles, htiles.decodeAll, fun hfew => numbered_toNat flushed 1
      (by rw [UInt64.toNat_one]; omega)⟩
  · obtain ⟨flushed, pending, hall, hp⟩ := hnumbered
    rw [hanswered, hall]
    exact (hp.flush hflush).1.tiles.decodeAll

/-- Batches of two, the first dropped on both arms, and a snapshot cycle of the two orders
between. -/
def droppedCalls : List FeedCall :=
  [.addOrder 1 100 5 1 .bid, .heartbeat 1, .addOrder 2 101 5 1 .ask,
    .publishSnapshot (Books.new.put 1
      ((ReferenceBook.new.add 1 .bid 100 5).2.add 2 .ask 101 5).2),
    .deleteOrder 1 1 .bid, .flushOnTimer]

theorem feed_sequencing_dropped :
    ∃ p answered, run ⟨fun _ => 0, fun n => (n = 0, n = 0), fun _ => true⟩
        { new 2 100 with shadow := none } droppedCalls = .ok (p, answered) ∧
      answered.map (·.1) = [1, 2, 3, 4] ∧ ∃ flushed pending,
        droppedCalls.filterMap FeedCall.message = flushed ++ pending ∧ Tiles 2 100 p.uplink flushed := by
  have hok : (run ⟨fun _ => 0, fun n => (n = 0, n = 0), fun _ => true⟩
      { new 2 100 with shadow := none } droppedCalls).toOption.isSome = true := by decide +kernel
  cases hrun : run ⟨fun _ => 0, fun n => (n = 0, n = 0), fun _ => true⟩
      { new 2 100 with shadow := none } droppedCalls with
  | error e =>
    rw [hrun] at hok
    cases hok
  | ok r =>
    obtain ⟨p, answered⟩ := r
    obtain ⟨hanswered, ⟨flushed, pending, hall, htiles, -⟩, -⟩ := feed_sequencing _ 2 100 none
      droppedCalls hrun
    refine ⟨p, answered, rfl, ?_, flushed, pending, hall, htiles⟩
    rw [hanswered]
    rfl

end FeedPublisher

end MarketData.Matching
