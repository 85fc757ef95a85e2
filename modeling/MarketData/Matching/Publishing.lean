import MarketData.Matching.Feed
import MarketData.Lib.Results
import Mathlib.Data.List.Forall2

/-!
# `Matching/Publishing.lean` — what the publisher flushes reads back

Between two calls the datagram buffer holds the blocks of the messages emitted since the last
flush, and the datagrams flushed so far read back as the messages before them, numbered from 1
on without a break. `Published.emit` and `Published.flush` keep that, however the batches fall. An
arm that the loss injector leaves alone carries the same.

## Two halves of the stream

At any time the messages emitted are of two kinds, those in datagrams that were flushed and those in
the buffer. `Published` has a list for each and says where they meet, so an emit appends to the
second, a flush moves the second behind the first, and an emit that flushes first is one after the
other. What is in the buffer is given as bytes, blocks behind room for a header (`Filling`), since
the flush will write that header and nothing else.

The arms differ in one byte, and a header read without it is the same header (`IsHeader`). So what
is proved of the copy on one arm is proved of the other, and of the copy that the replay service is
offered.

Everything here is about calls that succeed. When they do is `Matching/Steady.lean`.
-/

set_option autoImplicit false

namespace MarketData.Matching

open MarketData.Wire MarketData.Book MarketData.Bytes

namespace FeedPublisher

/-- The buffer holds the blocks of `ms` behind room for the header, and the counters agree. -/
structure Filling (p : FeedPublisher) (ms : List Message) : Prop where
  blocks : ∃ blocks, List.Forall₂ Decodes blocks ms ∧
    p.pos = packetHeaderLen + blocks.flatten.length ∧
    (p.buf.take p.pos).drop packetHeaderLen = blocks.flatten
  count : p.count.toNat = ms.length

/-- The datagrams flushed so far carry `flushed`, the buffer holds `pending`, and the sequences
of both follow on each other from 1. -/
structure Published (env : Env) (p : FeedPublisher) (flushed pending : List Message) : Prop where
  uplink : decodeAll p.uplink = .ok (numbered 1 flushed)
  armA : (∀ n, (env.drops n).1 = false) → decodeAll p.a = .ok (numbered 1 flushed)
  armB : (∀ n, (env.drops n).2 = false) → decodeAll p.b = .ok (numbered 1 flushed)
  buffer : Filling p pending
  first : pending ≠ [] → p.firstSeq = 1 + UInt64.ofNat flushed.length
  next : p.nextSeq = 1 + UInt64.ofNat (flushed.length + pending.length)
  batch : 1 ≤ p.batchSize

variable {env : Env} {p p' : FeedPublisher} {flushed pending : List Message}

theorem filling_nil (hpos : p.pos = packetHeaderLen) (hcount : p.count = 0) : Filling p [] := by
  refine ⟨⟨[], List.Forall₂.nil, hpos, ?_⟩, by rw [hcount]; rfl⟩
  rw [hpos, List.flatten_nil, List.drop_eq_nil_iff, List.length_take]
  exact Nat.min_le_left ..

theorem published_new (env : Env) (batchSize : UInt16) (maxDatagramBytes : Nat)
    (shadow : Option Books) :
    Published env { new batchSize maxDatagramBytes with shadow := shadow } [] [] := by
  refine ⟨rfl, fun _ => rfl, fun _ => rfl, filling_nil rfl rfl, fun h => absurd rfl h, rfl, ?_⟩
  show 1 ≤ if batchSize < 1 then 1 else batchSize
  split
  · exact UInt16.le_refl 1
  · rename_i h
    exact UInt16.not_lt.mp h

/-! ## Flushing -/

theorem Published.pending_eq_nil (hp : Published env p flushed pending) (hcount : p.count = 0) :
    pending = [] := by
  have hc := hp.buffer.count
  rw [hcount] at hc
  exact List.length_eq_zero_iff.mp hc.symm

/-- What an arm's send leaves unchanged. -/
structure SameDatagram (p p' : FeedPublisher) : Prop where
  nextSeq : p'.nextSeq = p.nextSeq
  uplink : p'.uplink = p.uplink
  batchSize : p'.batchSize = p.batchSize
  snapshotBuf : p'.snapshotBuf = p.snapshotBuf

theorem SameDatagram.trans {p p' p'' : FeedPublisher} (h : SameDatagram p p')
    (h' : SameDatagram p' p'') : SameDatagram p p'' :=
  ⟨h'.nextSeq.trans h.nextSeq, h'.uplink.trans h.uplink, h'.batchSize.trans h.batchSize,
    h'.snapshotBuf.trans h.snapshotBuf⟩

/-- What an arm adds to its log: the datagram, unless it is another arm's or dropped. -/
def armLog (mine drop : Bool) (datagram : Buf) : List Buf :=
  if mine && !drop then [datagram] else []

theorem send_ok {channel : UInt8} {bytes : Buf} (h : send env p channel bytes = .ok p') :
    p'.buf = p.buf ∧ p'.a = p.a ++ armLog (channel = 0) false bytes ∧
    p'.b = p.b ++ armLog (channel ≠ 0) false bytes ∧ SameDatagram p p' := by
  unfold send at h
  split at h
  · obtain rfl := Except.ok.inj h
    by_cases hc : channel = 0
    · rw [if_pos hc]
      exact ⟨rfl, by simp [armLog, hc], by simp [armLog, hc], ⟨rfl, rfl, rfl, rfl⟩⟩
    · rw [if_neg hc]
      exact ⟨rfl, by simp [armLog, hc], by simp [armLog, hc], ⟨rfl, rfl, rfl, rfl⟩⟩
  · cases h

/-- An arm changes the channel byte of the header and nothing else of the datagram. -/
theorem sendArm_ok {channel : UInt8} {drop : Bool} {len : Nat} {header body : Buf}
    {flags : UInt8} {first : UInt64} {count : UInt16}
    (h : sendArm env p channel drop len = .ok p') (hbuf : p.buf = header ++ body)
    (hh : IsHeader header flags first count) :
    ∃ header', p'.buf = header' ++ body ∧ IsHeader header' flags first count ∧
      p'.a = p.a ++ armLog (channel = 0) drop ((header' ++ body).take len) ∧
      p'.b = p.b ++ armLog (channel ≠ 0) drop ((header' ++ body).take len) ∧
      SameDatagram p p' := by
  unfold sendArm at h
  split at h
  · rename_i hdrop
    obtain rfl := Except.ok.inj h
    exact ⟨header, hbuf, hh, by simp [armLog, hdrop], by simp [armLog, hdrop],
      ⟨rfl, rfl, rfl, rfl⟩⟩
  · rename_i hdrop
    have hlen : ¬ p.buf.length < packetHeaderLen := by
      rw [hbuf, List.length_append, hh.length]
      exact Nat.not_lt.mpr (Nat.le_add_right ..)
    have hpatch : patchPacketChannel p.buf channel = .ok (putU8 header 6 channel ++ body) := by
      have hroom : 6 + 1 ≤ header.length := by
        rw [hh.length]
        decide
      rw [patchPacketChannel, if_neg hlen, hbuf, putU8, putNat_append_left _ _ _ hroom]
      rfl
    rw [hpatch] at h
    obtain ⟨hbuf', ha, hb, hsame⟩ :=
      send_ok (p := { p with buf := putU8 header 6 channel ++ body }) h
    rw [Bool.eq_false_of_not_eq_true hdrop]
    exact ⟨putU8 header 6 channel, hbuf', hh.patchChannel channel, ha, hb,
      ⟨hsame.nextSeq, hsame.uplink, hsame.batchSize, hsame.snapshotBuf⟩⟩

theorem wireToIo_ok {α : Type} {x : Except WireError α} {a : α} (h : wireToIo x = .ok a) :
    x = .ok a := by
  cases x with
  | error e => cases h
  | ok b => rw [Except.ok.inj h]

theorem length_ge_of_header {buf buf₀ : Buf} {first now : UInt64}
    (h : encodePacketHeader buf 0 0 first now = .ok buf₀) : packetHeaderLen ≤ buf.length := by
  unfold encodePacketHeader at h
  split at h
  · cases h
  · rename_i hlen
    exact Nat.not_lt.mp hlen

/-- The header a flush writes, in front of what the buffer holds. -/
theorem writeHeader_ok {buf buf₀ buf₁ : Buf} {first now : UInt64} {count : UInt16}
    (h₀ : encodePacketHeader buf 0 0 first now = .ok buf₀)
    (h₁ : patchMessageCount buf₀ count = .ok buf₁) :
    ∃ header, buf₁ = header ++ buf.drop packetHeaderLen ∧ IsHeader header 0 first count := by
  have hheader := isHeader_packetHeaderBlock 0 0 first now
  unfold encodePacketHeader at h₀
  split at h₀
  · cases h₀
  · obtain rfl := Except.ok.inj h₀
    unfold patchMessageCount at h₁
    split at h₁
    · cases h₁
    · obtain rfl := Except.ok.inj h₁
      refine ⟨_, ?_, hheader.patchCount count⟩
      rw [putU16, putNat_append_left _ _ _ (by simp)]
      rfl

/-- **What a flush flushes**: one datagram with a header that names the batch, followed by what
the buffer held. The arms' copies differ in the header's channel byte alone. -/
theorem flush_ok (h : flush env p = .ok p') (hcount : p.count ≠ 0)
    (hpos : packetHeaderLen ≤ p.pos) :
    ∃ headerA headerB, IsHeader headerA 0 p.firstSeq p.count ∧
      IsHeader headerB 0 p.firstSeq p.count ∧
      p'.a = p.a ++ armLog true (env.drops p.datagrams).1
        (headerA ++ (p.buf.take p.pos).drop packetHeaderLen) ∧
      p'.b = p.b ++ armLog true (env.drops p.datagrams).2
        (headerB ++ (p.buf.take p.pos).drop packetHeaderLen) ∧
      p'.uplink = p.uplink ++ [headerB ++ (p.buf.take p.pos).drop packetHeaderLen] ∧
      p'.pos = packetHeaderLen ∧ p'.count = 0 ∧ p'.nextSeq = p.nextSeq ∧
      p'.batchSize = p.batchSize ∧ p'.snapshotBuf = p.snapshotBuf ∧
      p'.buf.length = p.buf.length := by
  unfold flush at h
  rw [if_neg hcount] at h
  obtain ⟨buf₀, h₀, h⟩ := bind_eq_ok h
  obtain ⟨buf₁, h₁, h⟩ := bind_eq_ok h
  obtain ⟨p₁, hA, h⟩ := bind_eq_ok h
  obtain ⟨p₂, hB, h⟩ := bind_eq_ok h
  obtain ⟨shadow, -, h⟩ := bind_eq_ok h
  have hlen := length_ge_of_header (wireToIo_ok h₀)
  obtain ⟨header, hbuf, hh⟩ := writeHeader_ok (wireToIo_ok h₀) (wireToIo_ok h₁)
  obtain ⟨headerA, hbufA, hhA, haA, hbA, hsameA⟩ := sendArm_ok hA hbuf hh
  obtain ⟨headerB, hbufB, hhB, haB, hbB, hsameB⟩ := sendArm_ok hB hbufA hhA
  have htake : ∀ header' : Buf, IsHeader header' 0 p.firstSeq p.count →
      (header' ++ p.buf.drop packetHeaderLen).take p.pos =
        header' ++ (p.buf.take p.pos).drop packetHeaderLen := by
    intro header' hh'
    rw [List.take_append, hh'.length, List.take_of_length_le (by rw [hh'.length]; exact hpos),
      List.drop_take]
  have hsame := hsameA.trans hsameB
  obtain rfl := Except.ok.inj h
  refine ⟨headerA, headerB, hhA, hhB, ?_, ?_, ?_, rfl, rfl, hsame.nextSeq, hsame.batchSize,
    hsame.snapshotBuf, ?_⟩
  · show p₂.a = _
    rw [haB, haA, htake headerA hhA]
    simp [armLog]
  · show p₂.b = _
    rw [hbB, hbA, htake headerB hhB]
    simp [armLog]
  · show p₂.uplink ++ [p₂.buf.take p.pos] = _
    rw [hsame.uplink, hbufB, htake headerB hhB]
  · show p₂.buf.length = _
    rw [hbufB, List.length_append, hhB.length, List.length_drop]
    omega

theorem flush_zero (hcount : p.count = 0) : flush env p = .ok p := by
  rw [flush, if_pos hcount]

theorem decodeAll_armLog {log : List Buf} {drop : Bool} {datagram : Buf}
    {ms ms' : List (UInt64 × Message)} (hlog : decodeAll log = .ok ms)
    (hd : decodeDatagram datagram = .ok ms') (hdrop : drop = false) :
    decodeAll (log ++ armLog true drop datagram) = .ok (ms ++ ms') := by
  rw [hdrop]
  exact decodeAll_append hlog hd

/-- **A flush** moves everything from the buffer to the flushed datagrams. -/
theorem Published.flush (hp : Published env p flushed pending) (h : flush env p = .ok p') :
    Published env p' (flushed ++ pending) [] ∧ p'.count = 0 ∧ p'.pos = packetHeaderLen ∧
    p'.batchSize = p.batchSize := by
  by_cases hcount : p.count = 0
  · rw [flush_zero hcount] at h
    obtain rfl := Except.ok.inj h
    obtain rfl := hp.pending_eq_nil hcount
    obtain ⟨blocks, hblocks, hpos, -⟩ := hp.buffer.blocks
    cases hblocks
    rw [List.append_nil]
    exact ⟨hp, hcount, hpos, rfl⟩
  · have hne : pending ≠ [] := by
      intro hnil
      have hc := hp.buffer.count
      rw [hnil] at hc
      exact hcount (UInt16.toNat_inj.mp hc)
    obtain ⟨blocks, hblocks, hpos, hbody⟩ := hp.buffer.blocks
    obtain ⟨headerA, headerB, hhA, hhB, ha, hb, hup, hpos', hcount', hnext, hbatch, -⟩ :=
      flush_ok h hcount (by omega)
    rw [hbody] at ha hb hup
    have hdA := decodeDatagram_blocks hhA hblocks hp.buffer.count
    have hdB := decodeDatagram_blocks hhB hblocks hp.buffer.count
    rw [hp.first hne] at hdA hdB
    refine ⟨⟨?_, fun hno => ?_, fun hno => ?_, filling_nil hpos' hcount', fun h => absurd rfl h,
      ?_, ?_⟩, hcount', hpos', hbatch⟩
    · rw [hup, numbered_append]
      exact decodeAll_append hp.uplink hdB
    · rw [ha, numbered_append]
      exact decodeAll_armLog (hp.armA hno) hdA (hno _)
    · rw [hb, numbered_append]
      exact decodeAll_armLog (hp.armB hno) hdB (hno _)
    · rw [hnext, hp.next, List.length_append]
      rfl
    · rw [hbatch]
      exact hp.batch

/-! ## Emitting -/

theorem encodeBlock_ok {block b tail : Buf} {written : Nat}
    (h : encodeBlock block b = .ok (tail, written)) :
    block.length ≤ b.length ∧ tail = block ++ b.drop block.length ∧ written = block.length := by
  unfold encodeBlock at h
  split at h
  · cases h
  · rename_i hlen
    cases h
    exact ⟨Nat.not_lt.mp hlen, rfl, rfl⟩

/-- Writing a block behind what the buffer holds. -/
theorem Filling.commit {block tail : Buf} {written : Nat} {m : Message}
    (hp : Filling p pending) (hm : Decodes block m)
    (h : encodeBlock block (p.buf.drop p.pos) = .ok (tail, written))
    (hroom : p.count.toNat + 1 < 2 ^ 16) : Filling (p.commit tail written).2 (pending ++ [m]) := by
  obtain ⟨blocks, hblocks, hpos, hbody⟩ := hp.blocks
  obtain ⟨hlen, rfl, rfl⟩ := encodeBlock_ok h
  have hblock := hm.length_pos
  rw [List.length_drop] at hlen
  have hprefix : (p.buf.take p.pos).length = p.pos := by
    rw [List.length_take]
    omega
  refine ⟨⟨blocks ++ [block], List.rel_append hblocks (.cons hm .nil), ?_, ?_⟩, ?_⟩
  · show p.pos + block.length = _
    rw [hpos, List.flatten_append, List.length_append, List.flatten_singleton, Nat.add_assoc]
  · show ((p.buf.take p.pos ++ (block ++ _)).take (p.pos + block.length)).drop packetHeaderLen = _
    have htake : ∀ rest : Buf, (p.buf.take p.pos ++ (block ++ rest)).take (p.pos + block.length) =
        p.buf.take p.pos ++ block := by
      intro rest
      rw [← List.append_assoc]
      exact List.take_left' (by rw [List.length_append, hprefix])
    rw [htake, List.drop_append_of_le_length (by omega), hbody, List.flatten_append,
      List.flatten_singleton]
  · show (p.count + 1).toNat = _
    rw [UInt16.toNat_add, hp.count, List.length_append]
    rw [hp.count] at hroom
    exact Nat.mod_eq_of_lt hroom

/-- Committing a message to a datagram whose first sequence is known. -/
theorem Published.commit {block tail : Buf} {written : Nat} {m : Message}
    (hp : Published env p flushed pending) (hm : Decodes block m)
    (hfirst : p.firstSeq = 1 + UInt64.ofNat flushed.length)
    (h : encodeBlock block (p.buf.drop p.pos) = .ok (tail, written))
    (hcount : p.count < p.batchSize) :
    Published env (p.commit tail written).2 flushed (pending ++ [m]) := by
  have hroom : p.count.toNat + 1 < 2 ^ 16 :=
    Nat.lt_of_le_of_lt (UInt16.lt_iff_toNat_lt.mp hcount) p.batchSize.toNat_lt
  refine ⟨hp.uplink, hp.armA, hp.armB, hp.buffer.commit hm h hroom, fun _ => hfirst, ?_, hp.batch⟩
  show p.nextSeq + 1 = _
  rw [hp.next, List.length_append, ← Nat.add_assoc, UInt64.ofNat_add _ [m].length,
    UInt64.add_assoc]
  rfl

/-- A datagram that has no message yet starts at the next sequence. -/
theorem Published.start (hp : Published env p flushed []) :
    Published env { p with firstSeq := p.nextSeq } flushed [] :=
  ⟨hp.uplink, hp.armA, hp.armB, ⟨hp.buffer.blocks, hp.buffer.count⟩, fun h => absurd rfl h,
    hp.next, hp.batch⟩

theorem Published.firstSeq_start (hp : Published env p flushed []) :
    ({ p with firstSeq := p.nextSeq } : FeedPublisher).firstSeq =
      1 + UInt64.ofNat flushed.length := by
  show p.nextSeq = _
  rw [hp.next, List.length_nil, Nat.add_zero]

/-- The messages `ms` were emitted, some of them flushed and the rest still in the buffer. -/
def Emitted (env : Env) (p : FeedPublisher) (ms : List Message) : Prop :=
  ∃ flushed pending, ms = flushed ++ pending ∧ Published env p flushed pending

variable {ms : List Message}

theorem Emitted.nextSeq (hp : Emitted env p ms) : p.nextSeq = 1 + UInt64.ofNat ms.length := by
  obtain ⟨flushed, pending, rfl, hp⟩ := hp
  rw [hp.next, List.length_append]

theorem Published.count_lt (hp : Published env p flushed pending) (hcount : p.count = 0) :
    p.count < p.batchSize := by
  rw [hcount]
  exact UInt16.lt_iff_toNat_lt.mpr (UInt16.le_iff_toNat_le.mp hp.batch)

/-- An emit starts with room for one more message and the first sequence known. -/
theorem Emitted.startDatagram (hp : Emitted env p ms)
    (h : FeedPublisher.startDatagram env p = .ok p') :
    ∃ flushed pending, ms = flushed ++ pending ∧ Published env p' flushed pending ∧
      p'.firstSeq = 1 + UInt64.ofNat flushed.length ∧ p'.count < p'.batchSize := by
  obtain ⟨flushed, pending, rfl, hp⟩ := hp
  obtain ⟨q, hq, h⟩ := bind_eq_ok h
  obtain rfl := Except.ok.inj h
  by_cases hcount : q.count = 0
  · -- the buffer is empty: either it was all along, or the full batch was just flushed
    have hpub : Published env q (flushed ++ pending) [] := by
      split at hq
      · exact (hp.flush hq).1
      · obtain rfl := Except.ok.inj hq
        obtain rfl := hp.pending_eq_nil hcount
        rw [List.append_nil]
        exact hp
    rw [if_pos hcount]
    exact ⟨flushed ++ pending, [], by rw [List.append_nil], hpub.start, hpub.firstSeq_start,
      hpub.count_lt hcount⟩
  · rw [if_neg hcount]
    split at hq
    · exact absurd (hp.flush hq).2.1 hcount
    · rename_i hfull
      obtain rfl := Except.ok.inj hq
      refine ⟨flushed, pending, rfl, hp, hp.first ?_, UInt16.not_le.mp hfull⟩
      rintro rfl
      exact hcount (UInt16.toNat_inj.mp hp.buffer.count)

/-- **An emit** appends its message and answers the message's place in the stream. -/
theorem Emitted.emit {block : Buf} {m : Message} {seq : UInt64} (hp : Emitted env p ms)
    (hm : Decodes block m) (h : emit env p (encodeBlock block) = .ok (seq, p')) :
    seq = 1 + UInt64.ofNat ms.length ∧ Emitted env p' (ms ++ [m]) := by
  unfold FeedPublisher.emit at h
  obtain ⟨p₁, h₁, h⟩ := bind_eq_ok h
  obtain ⟨flushed, pending, rfl, hp₁, hfirst, hcount⟩ := hp.startDatagram h₁
  have hseq : p₁.nextSeq = 1 + UInt64.ofNat (flushed ++ pending).length := by
    rw [hp₁.next, List.length_append]
  split at h
  · rename_i tail written henc
    cases h
    exact ⟨hseq, flushed, pending ++ [m], by rw [List.append_assoc],
      hp₁.commit hm hfirst henc hcount⟩
  · split at h
    · cases h
    · obtain ⟨p₂, h₂, h⟩ := bind_eq_ok h
      obtain ⟨⟨tail, written⟩, henc, h⟩ := bind_eq_ok h
      obtain ⟨hp₂, hcount₂, -, hbatch₂⟩ := hp₁.flush h₂
      cases h
      refine ⟨?_, flushed ++ pending, [m], rfl,
        hp₂.start.commit hm hp₂.firstSeq_start (wireToIo_ok henc) (hp₂.count_lt hcount₂)⟩
      show p₂.nextSeq = _
      rw [hp₂.next, List.length_nil, Nat.add_zero]
  · cases h

theorem Emitted.flush (hp : Emitted env p ms) (h : FeedPublisher.flush env p = .ok p') :
    Published env p' ms [] := by
  obtain ⟨flushed, pending, rfl, hp⟩ := hp
  exact (hp.flush h).1

theorem Published.emitted (hp : Published env p flushed pending) :
    Emitted env p (flushed ++ pending) :=
  ⟨flushed, pending, rfl, hp⟩

end FeedPublisher

end MarketData.Matching
