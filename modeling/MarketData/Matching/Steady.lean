import MarketData.Matching.Priority
import MarketData.Matching.Sequencing
import MarketData.Matching.Snapshot

/-!
# `Matching/Steady.lean` — a feed that can send does not fail

Beside a send that fails, four things can make a publisher return an error: a message that does not
fit an empty datagram, a snapshot order that does not, a datagram the self-check cannot decode, and
a message it cannot apply. None of them happens where a datagram has room for the largest message
and the messages emitted apply to the books they were emitted for.

## A condition on the messages

Three of the four are settled by a size and by the round trips of the codecs. The fourth is about
contents: the shadow books take what the engine announces, and refuse what does not apply, a second
add of one id, a delete of nothing. `Apply` says of all messages emitted so far that they apply to
empty books, and an emit succeeds as long as it stays so (`Flowing.emit`). **Whose books these are
is left open**; that the engine's messages apply is `Matching/Flows.lean`.

`Steady` has two lists, what was flushed and what is buffered, since the shadow books have seen the
first and not yet the second.
-/

set_option autoImplicit false

namespace MarketData.Matching

open MarketData.Wire MarketData.Book

/-- Every message applies, to empty books. -/
def Apply (ms : List Message) : Prop :=
  ∀ a ∈ replay Books.new (numbered 1 ms), a.result = .ok ()

namespace FeedPublisher

/-- The bytes of a datagram are enough for its header and the largest message, a trade. -/
def largestDatagram : Nat := 72

/-- `Sequenced`, and the self-check's books are those of what was flushed. -/
structure Steady (batchSize : UInt16) (maxBytes : Nat) (p : FeedPublisher)
    (flushed pending : List Message) : Prop where
  sequenced : Sequenced batchSize maxBytes p flushed pending
  snapshotBuf : p.snapshotBuf.length = maxBytes
  shadow : ∀ books, p.shadow = some books → books = replayed Books.new (numbered 1 flushed)

variable {env : Env} {batchSize : UInt16} {maxBytes : Nat} {p p' : FeedPublisher}
  {flushed pending : List Message}

/-! ## The self-check -/

theorem replayShadow_eq {books : Books} {stream : List (UInt64 × Message)}
    (h : ∀ a ∈ replay books stream, a.result = .ok ()) :
    replayShadow books (stream.map .ok) = .ok (replayed books stream) := by
  induction stream generalizing books with
  | nil => rfl
  | cons entry rest ih =>
    obtain ⟨sequence, m⟩ := entry
    have hfirst : (applyMessage books m).1 = .ok () := h _ List.mem_cons_self
    have hrest := ih fun a ha => h a (List.mem_cons_of_mem _ ha)
    rw [List.map_cons, replayShadow, replayed]
    cases happly : applyMessage books m with
    | mk result books' =>
      rw [happly] at hfirst hrest
      cases hfirst
      exact hrest

/-- What is in the buffer applies behind what was flushed. -/
theorem Steady.replay_pending (hp : Steady batchSize maxBytes p flushed pending)
    (happly : Apply (flushed ++ pending)) (hsome : pending ≠ []) {books : Books}
    (hbooks : p.shadow = some books) :
    replayShadow books ((numbered p.firstSeq pending).map .ok) =
      .ok (replayed Books.new (numbered 1 (flushed ++ pending))) := by
  rw [hp.sequenced.first hsome, hp.shadow books hbooks, numbered_append, replayed_append]
  refine replayShadow_eq fun a ha => happly a ?_
  rw [numbered_append, replay_append]
  exact List.mem_append_right _ ha

theorem Steady.selfCheckPasses (hp : Steady batchSize maxBytes p flushed pending)
    (happly : Apply (flushed ++ pending)) : p.SelfCheckPasses := by
  intro books hbooks hcount
  have hsome : pending ≠ [] := by
    rintro rfl
    exact hcount (UInt16.toNat_inj.mp hp.sequenced.buffer.count)
  exact ⟨pending, _, hp.sequenced.buffer, hp.replay_pending happly hsome hbooks⟩

/-- A flush checks the datagram it offers. -/
theorem flush_selfCheck (h : flush env p = .ok p') (hcount : p.count ≠ 0) :
    ∃ d, p'.uplink = p.uplink ++ [d] ∧ selfCheck p.shadow d = .ok p'.shadow := by
  have harm : ∀ {q q' : FeedPublisher} {channel : UInt8} {drop : Bool} {len : Nat},
      sendArm env q channel drop len = .ok q' → q'.shadow = q.shadow ∧ q'.uplink = q.uplink := by
    intro q q' channel drop len harm
    unfold sendArm at harm
    split at harm
    · cases harm
      exact ⟨rfl, rfl⟩
    · obtain ⟨buf, -, harm⟩ := bind_eq_ok harm
      unfold send at harm
      split at harm
      · cases harm
        split <;> exact ⟨rfl, rfl⟩
      · cases harm
  unfold flush at h
  rw [if_neg hcount] at h
  obtain ⟨buf₀, -, h⟩ := bind_eq_ok h
  obtain ⟨buf₁, -, h⟩ := bind_eq_ok h
  obtain ⟨p₁, hA, h⟩ := bind_eq_ok h
  obtain ⟨p₂, hB, h⟩ := bind_eq_ok h
  obtain ⟨shadow, hcheck, h⟩ := bind_eq_ok h
  obtain ⟨hshadowA, huplinkA⟩ := harm hA
  obtain ⟨hshadowB, huplinkB⟩ := harm hB
  cases h
  refine ⟨_, congrArg (· ++ _) (huplinkB.trans huplinkA), ?_⟩
  rw [← hcheck, hshadowB, hshadowA]

/-- **A flush succeeds**, and the self-check has then seen everything. -/
theorem Steady.flush (hsend : ∀ n, env.sendOk n = true) (hroom : largestDatagram ≤ maxBytes)
    (hp : Steady batchSize maxBytes p flushed pending) (happly : Apply (flushed ++ pending)) :
    ∃ p', FeedPublisher.flush env p = .ok p' ∧
      Steady batchSize maxBytes p' (flushed ++ pending) [] ∧ p'.count = 0 := by
  have hlen : packetHeaderLen ≤ p.buf.length := by
    rw [hp.sequenced.length]
    exact le_trans (by decide) hroom
  obtain ⟨p', hflush, -, hsnapshot⟩ :=
    flush_succeeds hsend hlen (hp.selfCheckPasses happly)
  obtain ⟨hsequenced, hcount'⟩ := hp.sequenced.flush hflush
  refine ⟨p', hflush, ⟨hsequenced, ?_, fun books hbooks => ?_⟩, hcount'⟩
  · rw [hsnapshot]
    exact hp.snapshotBuf
  by_cases hcount : p.count = 0
  · rw [flush_zero hcount] at hflush
    obtain rfl := Except.ok.inj hflush
    rw [hp.shadow books hbooks, hp.sequenced.pending_eq_nil hcount, List.append_nil]
  have hsome : pending ≠ [] := by
    rintro rfl
    exact hcount (UInt16.toNat_inj.mp hp.sequenced.buffer.count)
  obtain ⟨blocks, hblocks, hpos, hbody⟩ := hp.sequenced.buffer.blocks
  obtain ⟨headerA, headerB, -, hhB, -, -, huplink, -⟩ := flush_ok hflush hcount (by omega)
  obtain ⟨d, huplink', hcheck⟩ := flush_selfCheck hflush hcount
  rw [huplink, List.append_cancel_left_eq, List.singleton_inj, hbody] at huplink'
  rw [← huplink', hbooks] at hcheck
  cases hold : p.shadow with
  | none =>
    rw [hold] at hcheck
    cases hcheck
  | some before =>
    rw [hold, selfCheck, readPacket_blocks hhB hblocks hp.sequenced.buffer.count] at hcheck
    dsimp only at hcheck
    rw [hp.replay_pending happly hsome hold] at hcheck
    cases hcheck
    rfl

/-! ## Emitting -/

theorem Steady.start (hp : Steady batchSize maxBytes p flushed []) :
    Steady batchSize maxBytes { p with firstSeq := p.nextSeq } flushed [] :=
  ⟨hp.sequenced.start, hp.snapshotBuf, hp.shadow⟩

theorem Steady.commit {block tail : Buf} {written : Nat} {m : Message}
    (hp : Steady batchSize maxBytes p flushed pending) (hm : Decodes block m)
    (hfirst : p.firstSeq = 1 + UInt64.ofNat flushed.length)
    (h : encodeBlock block (p.buf.drop p.pos) = .ok (tail, written))
    (hcount : p.count < batchSize) :
    Steady batchSize maxBytes (p.commit tail written).2 flushed (pending ++ [m]) :=
  ⟨hp.sequenced.commit hm hfirst h hcount, hp.snapshotBuf, hp.shadow⟩

/-- The messages `ms` were emitted, and nothing is in the way of the next. -/
def Flowing (batchSize : UInt16) (maxBytes : Nat) (p : FeedPublisher) (ms : List Message) : Prop :=
  ∃ flushed pending, ms = flushed ++ pending ∧ Steady batchSize maxBytes p flushed pending

variable {ms : List Message}

theorem Flowing.startDatagram (hsend : ∀ n, env.sendOk n = true)
    (hroom : largestDatagram ≤ maxBytes) (hp : Flowing batchSize maxBytes p ms) (happly : Apply ms) :
    ∃ p', FeedPublisher.startDatagram env p = .ok p' ∧
      ∃ flushed pending, ms = flushed ++ pending ∧ Steady batchSize maxBytes p' flushed pending ∧
        p'.firstSeq = 1 + UInt64.ofNat flushed.length ∧ p'.count < batchSize := by
  obtain ⟨flushed, pending, rfl, hp⟩ := hp
  unfold FeedPublisher.startDatagram
  rw [hp.sequenced.size]
  by_cases hfull : batchSize ≤ p.count
  · obtain ⟨q, hflush, hq, hcount⟩ := hp.flush hsend hroom happly
    refine ⟨{ q with firstSeq := q.nextSeq }, ?_, flushed ++ pending, [], ?_, hq.start,
      hq.sequenced.firstSeq_start, hq.sequenced.count_lt hcount⟩
    · rw [if_pos hfull, hflush]
      show Except.ok (if q.count = 0 then _ else _) = _
      rw [if_pos hcount]
    · rw [List.append_nil]
  · rw [if_neg hfull]
    by_cases hcount : p.count = 0
    · obtain rfl := hp.sequenced.pending_eq_nil hcount
      refine ⟨{ p with firstSeq := p.nextSeq }, ?_, flushed, [], rfl, hp.start,
        hp.sequenced.firstSeq_start, hp.sequenced.count_lt hcount⟩
      show Except.ok (if p.count = 0 then _ else _) = _
      rw [if_pos hcount]
    · refine ⟨p, ?_, flushed, pending, rfl, hp, hp.sequenced.first ?_, UInt16.not_le.mp hfull⟩
      · show Except.ok (if p.count = 0 then _ else _) = _
        rw [if_neg hcount]
      · rintro rfl
        exact hcount (UInt16.toNat_inj.mp hp.sequenced.buffer.count)

/-- A message fits an empty datagram. -/
theorem Steady.fits {block : Buf} (hroom : largestDatagram ≤ maxBytes)
    (hp : Steady batchSize maxBytes p flushed []) (hblock : block.length ≤ 48) :
    ∃ tail written, encodeBlock block (p.buf.drop p.pos) = .ok (tail, written) := by
  obtain ⟨blocks, hblocks, hpos, -⟩ := hp.sequenced.buffer.blocks
  cases hblocks
  have hheader : packetHeaderLen = 24 := rfl
  unfold largestDatagram at hroom
  refine ⟨_, _, if_neg ?_⟩
  rw [List.length_drop, hp.sequenced.length, hpos, List.flatten_nil, List.length_nil]
  omega

/-- **An emit succeeds**, in whatever datagram its message fits. -/
theorem Flowing.emit {block : Buf} {m : Message} (hsend : ∀ n, env.sendOk n = true)
    (hroom : largestDatagram ≤ maxBytes) (hp : Flowing batchSize maxBytes p ms) (happly : Apply ms)
    (hm : Decodes block m) (hblock : block.length ≤ 48) :
    ∃ seq p', FeedPublisher.emit env p (encodeBlock block) = .ok (seq, p') ∧
      Flowing batchSize maxBytes p' (ms ++ [m]) := by
  obtain ⟨p₁, hstart, flushed, pending, rfl, hp₁, hfirst, hcount⟩ :=
    hp.startDatagram hsend hroom happly
  unfold FeedPublisher.emit
  by_cases hfits : (p₁.buf.drop p₁.pos).length < block.length
  · have henc₁ : encodeBlock block (p₁.buf.drop p₁.pos) =
        .error (.shortBuffer block.length (p₁.buf.drop p₁.pos).length) := if_pos hfits
    have hsome : p₁.count ≠ 0 := by
      intro hzero
      obtain rfl := hp₁.sequenced.pending_eq_nil hzero
      obtain ⟨tail, written, henc⟩ := hp₁.fits hroom hblock
      rw [henc₁] at henc
      cases henc
    obtain ⟨p₂, hflush, hp₂, hcount₂⟩ := hp₁.flush hsend hroom happly
    obtain ⟨tail, written, henc⟩ := hp₂.start.fits hroom hblock
    simp only [hstart, bind, Except.bind, henc₁, hsome, if_false, hflush, henc, wireToIo]
    exact ⟨_, _, rfl, flushed ++ pending, [m], rfl,
      hp₂.start.commit hm hp₂.sequenced.firstSeq_start henc (hp₂.sequenced.count_lt hcount₂)⟩
  · have henc : encodeBlock block (p₁.buf.drop p₁.pos) =
        .ok (block ++ (p₁.buf.drop p₁.pos).drop block.length, block.length) := if_neg hfits
    simp only [hstart, bind, Except.bind, henc]
    exact ⟨_, _, rfl, flushed, pending ++ [m], by rw [List.append_assoc],
      hp₁.commit hm hfirst henc hcount⟩

/-! ## Snapshot cycles -/

theorem send_shadow {channel : UInt8} {bytes : Buf} (h : send env p channel bytes = .ok p') :
    p'.shadow = p.shadow := by
  unfold send at h
  split at h
  · cases h
    split <;> rfl
  · cases h

theorem sendSnapshotDatagram_shadow {len : Nat} (h : sendSnapshotDatagram env p len = .ok p') :
    p'.shadow = p.shadow := by
  have harm : ∀ {q q' : FeedPublisher} {channel : UInt8},
      sendSnapshotArm env q channel len = .ok q' → q'.shadow = q.shadow := by
    intro q q' channel harm
    obtain ⟨buf, -, harm⟩ := bind_eq_ok harm
    have hsame := send_shadow harm
    exact hsame
  obtain ⟨buf₀, -, h⟩ := bind_eq_ok h
  obtain ⟨buf₁, -, h⟩ := bind_eq_ok h
  obtain ⟨p₁, hA, h⟩ := bind_eq_ok h
  obtain ⟨p₂, hB, h⟩ := bind_eq_ok h
  cases h
  have hfirst := harm hA
  exact (harm hB).trans hfirst

theorem fragmentLoop_shadow {lastSequence : UInt64} {symbolId : UInt16} {lastSymbol : Bool}
    {orders : List RestingOrder} {fuel : Nat} {cycle cycle' : SnapshotCycle} {first : Bool}
    {rest : List RestingOrder} (h : fragmentLoop env lastSequence symbolId lastSymbol orders fuel p
      cycle first rest = .ok (p', cycle')) : p'.shadow = p.shadow := by
  induction fuel generalizing p cycle first rest with
  | zero =>
    cases h
    rfl
  | succ fuel ih =>
    obtain ⟨⟨q, packed⟩, hwrite, h⟩ := bind_eq_ok h
    have hsame : q.shadow = p.shadow := by
      obtain ⟨e, -, hwrite⟩ := bind_eq_ok hwrite
      dsimp only at hwrite
      split at hwrite
      · cases hwrite
      · obtain ⟨tail, -, hwrite⟩ := bind_eq_ok hwrite
        obtain ⟨q', hsend, hwrite⟩ := bind_eq_ok hwrite
        cases hwrite
        have hsame := sendSnapshotDatagram_shadow hsend
        exact hsame
    dsimp only at h
    split at h
    · cases h
      exact hsame
    · exact (ih h).trans hsame

theorem symbolLoop_shadow {lastSequence : UInt64} {cycle cycle' : SnapshotCycle} {first : Bool}
    {symbols : List (UInt16 × ReferenceBook)}
    (h : symbolLoop env lastSequence p cycle first symbols = .ok (p', cycle')) :
    p'.shadow = p.shadow := by
  induction symbols generalizing p cycle first with
  | nil =>
    cases h
    rfl
  | cons symbol symbols ih =>
    obtain ⟨symbolId, b⟩ := symbol
    obtain ⟨⟨q, cycle₁⟩, hloop, h⟩ := bind_eq_ok h
    exact (ih h).trans (fragmentLoop_shadow hloop)

theorem Sequenced.congr (hp : Sequenced batchSize maxBytes p flushed pending)
    (h : SameStream p p') : Sequenced batchSize maxBytes p' flushed pending := by
  obtain ⟨hbuf, hpos, hcount, hfirst, hnext, hbatch, huplink⟩ := h
  refine ⟨?_, hbatch.trans hp.size, hp.positive, ⟨?_, ?_⟩, ?_, ?_, ?_, ?_, ?_⟩
  · rw [huplink]
    exact hp.tiles
  · rw [hbuf, hpos]
    exact hp.buffer.blocks
  · rw [hcount]
    exact hp.buffer.count
  · rw [hbuf]
    exact hp.length
  · rw [hpos]
    exact hp.short
  · rw [hcount]
    exact hp.few
  · rw [hfirst]
    exact hp.first
  · rw [hnext]
    exact hp.next

/-- **A snapshot cycle succeeds**, and the increments go on as if there had been none. -/
theorem Steady.publishSnapshot (hsend : ∀ n, env.sendOk n = true)
    (hroom : largestDatagram ≤ maxBytes) (hp : Steady batchSize maxBytes p flushed pending)
    (happly : Apply (flushed ++ pending)) (books : Books) :
    ∃ p' cycle, FeedPublisher.publishSnapshot env p books = .ok (p', cycle) ∧
      Steady batchSize maxBytes p' (flushed ++ pending) [] := by
  have hlen : packetHeaderLen ≤ p.buf.length := by
    rw [hp.sequenced.length]
    exact le_trans (by decide) hroom
  have hsnap : 72 ≤ p.snapshotBuf.length := by
    rw [hp.snapshotBuf]
    exact hroom
  obtain ⟨p₀, p', cycle, hflush, hcycle, hsent⟩ := publishSnapshot_ok hsend hlen hsnap
    (hp.selfCheckPasses happly) books
  obtain ⟨p₁, hflush₁, hp₁, -⟩ := hp.flush hsend hroom happly
  obtain rfl : p₁ = p₀ := Except.ok.inj (hflush₁.symm.trans hflush)
  have hloop := hcycle
  unfold FeedPublisher.publishSnapshot at hloop
  rw [hflush] at hloop
  refine ⟨p', cycle, hcycle, hp₁.sequenced.congr (symbolLoop_same hloop), ?_, ?_⟩
  · rw [hsent.snapshotBuf, hp₁.snapshotBuf]
  · rw [symbolLoop_shadow hloop]
    exact hp₁.shadow

end FeedPublisher

end MarketData.Matching
