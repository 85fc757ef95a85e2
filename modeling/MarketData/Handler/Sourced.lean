import MarketData.Lib.Run
import MarketData.Wire.SnapshotCodec
import MarketData.Handler.Handing
import MarketData.Handler.Ledger

/-!
# `Handler/Sourced.lean` — the handler on copies of a published stream

What the functions of `Handler/Loop.lean` do when everything they are given comes from the
publisher: the datagrams of the stream, the fragments of its snapshot cycles, and replayed
datagrams. Held traffic, drained traffic and replayed traffic then all reach the books as
messages of the stream at a list of sequences (`Consumer.applyAll`), and each function has one
equation that names the list. `Sourced` is the invariant behind them: everything buffered, in
the reorder window or in the recovery buffer, is a copy of a published datagram.

## Bytes stop here

The loop's functions take datagrams and decode them. From this module on nobody does: a datagram is
a copy of one of the publication's, and is spoken of by the sequences it carries. `heldSeqs` and
`answerSeqs` are such lists, computed from the headers, and `Drained` says of the drain which run of
sequences it applied and what it kept.

`Event.Of` is the whole of what is assumed of the publisher. Its snapshots are as of a sequence at
which a datagram ends, because a snapshot is taken at a flush; a fragment is a datagram with one
snapshot message in it; an answer is a list of copies, with nothing said about which ones or in
which order. So fragments of different cycles may mix, answers may be broken, and **nothing needs to
arrive at all**.
-/

set_option autoImplicit false

namespace MarketData.Handler

open MarketData.Wire MarketData.Book MarketData.Tiling

/-! ## What arrives -/

/-- A snapshot datagram; the publisher sends one fragment in each. -/
structure IsFragment (bytes : Buf) (d : Snapshot) : Prop where
  snapshot : isSnapshotDatagram bytes = true
  reads : ∃ seq, readPacket bytes = .ok [.ok (seq, .snapshot d)]

/-- A sent snapshot datagram carries its fragment. -/
theorem isFragment_packet (seq lastSequence : UInt64) (symbolId : UInt16) (flags : UInt8)
    {orders : List EncodedOrder} (hcount : orders.length < 65536) :
    IsFragment (packet packetFlagSnapshot seq [snapshotBlock lastSequence symbolId flags orders])
      ⟨lastSequence, symbolId, flags, orders.map EncodedOrder.read⟩ := by
  have hheader := isHeader_packet packetFlagSnapshot seq
    [snapshotBlock lastSequence symbolId flags orders]
  have hreads := readPacket_blocks hheader
    (.cons (decodes_snapshot lastSequence symbolId flags hcount) .nil) rfl
  obtain ⟨header, hwrap, -, -, hflags⟩ :=
    hheader.wrap [snapshotBlock lastSequence symbolId flags orders].flatten
  refine ⟨?_, seq, hreads⟩
  rw [isSnapshotDatagram, packet, hwrap]
  simp only [PacketHeader.isSnapshot, hflags]
  decide

/-- What a publisher of the stream, its snapshots and its replay service can put in front of the
handler. A snapshot is taken at a flush, so it ends where a datagram ends. -/
def Event.Of (S : Publication) (maxBytes : Nat) : Event → Prop
  | .datagram _ bytes =>
    (∃ first count, S.Copy maxBytes bytes first count) ∨
      ∃ d, IsFragment bytes d ∧ S.cut.Boundary (d.lastSequence.toNat + 1)
  | .answer datagrams => ∀ d ∈ datagrams, ∃ first count, S.Copy maxBytes d first count
  | _ => True

/-- Every datagram of the list is a copy. -/
def CopiesOf (S : Publication) (maxBytes : Nat) (ds : List Delivery) : Prop :=
  ∀ d ∈ ds, S.Copy maxBytes d.bytes d.firstSequence d.count

variable {B : Type} {S : Publication} {maxBytes : Nat}

theorem Publication.Copy.lt {d : Buf} {first count : Nat} (hd : S.Copy maxBytes d first count) :
    first + count < 2 ^ 64 :=
  S.cut.bounded hd.copy.mem

/-! ## Held and drained traffic -/

theorem seqsIn_all {first count : Nat} (h : first + count < 2 ^ 64) :
    seqsIn first count 0 maxSequence = List.range' first count := by
  refine List.filter_eq_self.mpr fun s hs => ?_
  have hlt := (List.mem_range'_1.mp hs).2
  have hmax : s ≤ maxSequence := by
    unfold maxSequence
    omega
  simp [hmax]

/-- The sequences from `lo` on that the held datagrams carry, in the order they are held. -/
def heldSeqs (lo : Nat) (held : List Delivery) : List Nat :=
  held.flatMap fun d => seqsIn d.firstSequence d.count lo maxSequence

theorem heldSeqs_cons (lo : Nat) (d : Delivery) (held : List Delivery) :
    heldSeqs lo (d :: held) =
      seqsIn d.firstSequence d.count lo maxSequence ++ heldSeqs lo held := rfl

/-- The bound from above is none. -/
theorem seqsIn_eq_onward {d : Delivery} (h : d.firstSequence + d.count < 2 ^ 64) (lo : Nat) :
    seqsIn d.firstSequence d.count lo maxSequence = d.onward lo := by
  refine List.filter_congr fun s hs => ?_
  have hlt := (List.mem_range'_1.mp hs).2
  have hmax : s ≤ maxSequence := by
    unfold maxSequence
    omega
  simp [hmax]

theorem heldSeqs_eq {held : List Delivery} (hheld : CopiesOf S maxBytes held) (lo : Nat) :
    heldSeqs lo held = (points Delivery.seg held).filter fun s => lo ≤ s := by
  induction held with
  | nil => rfl
  | cons d held ih =>
    rw [heldSeqs_cons, points_cons, List.filter_append,
      seqsIn_eq_onward (hheld d List.mem_cons_self).lt,
      ih fun x hx => hheld x (List.mem_cons_of_mem _ hx)]
    rfl

theorem mem_heldSeqs {lo s : Nat} {held : List Delivery} (hheld : CopiesOf S maxBytes held) :
    s ∈ heldSeqs lo held ↔ lo ≤ s ∧ ∃ d ∈ held, Covers Delivery.seg s d := by
  simp only [heldSeqs, List.mem_flatMap, mem_seqsIn, Covers, Delivery.seg]
  constructor
  · rintro ⟨d, hd, hin, hlo, -⟩
    exact ⟨hlo, d, hd, hin⟩
  · rintro ⟨hlo, d, hd, hin⟩
    have := (hheld d hd).lt
    exact ⟨d, hd, hin, hlo, by unfold maxSequence; omega⟩

namespace Consumer

variable [OrderBook B]

/-- Drained datagrams are consumed whole, one after the other. -/
theorem consume_drained {out : List Delivery} (hout : CopiesOf S maxBytes out) (gapped : Bool)
    (c : Consumer B) :
    out.foldl (fun c d => c.consume d.bytes gapped 0 maxSequence) c =
      c.applyAll S gapped (points Delivery.seg out) := by
  induction out generalizing c with
  | nil => rfl
  | cons d out ih =>
    have hd := hout d List.mem_cons_self
    rw [List.foldl_cons, ih (fun x hx => hout x (List.mem_cons_of_mem _ hx)), consume_copy hd,
      seqsIn_all hd.lt, points_cons, applyAll_append]

/-- **What is handed out is consumed** as the messages at its sequences. -/
theorem consumeHeld_hands {held : List Delivery} (hheld : CopiesOf S maxBytes held)
    {handed : List (Nat × Buf)} {seqs : List Nat} (h : Hands held handed seqs) (c : Consumer B) :
    c.consumeHeld handed = c.applyAll S false seqs := by
  induction h generalizing c with
  | nil => rfl
  | skipped d h ih => exact ih (fun x hx => hheld x (List.mem_cons_of_mem _ hx)) c
  | out d skipBelow h ih =>
    have hd := hheld d List.mem_cons_self
    rw [consumeHeld, List.foldl_cons, ← consumeHeld,
      ih fun x hx => hheld x (List.mem_cons_of_mem _ hx), consume_copy hd, seqsIn_eq_onward hd.lt,
      applyAll_append]

/-- **`replay`**: the held traffic from `lo` on. -/
theorem consumeHeld_replayFrom {held : List Delivery} (hheld : CopiesOf S maxBytes held)
    (lo : Nat) (c : Consumer B) :
    c.consumeHeld (RecoveryBuffer.replayFrom lo held) =
      c.applyAll S false (heldSeqs lo held) := by
  rw [heldSeqs_eq hheld]
  exact consumeHeld_hands hheld (RecoveryBuffer.replayFrom_hands held lo) c

end Consumer

namespace RecoveryBuffer

open Consumer

/-- What `drain_contiguous` does with copies: it applies `expected .. stop` without a break and
keeps a tail of the buffer, empty or beginning past `stop`. -/
structure Drained (S : Publication) (expected : Nat) (held : List Delivery) (drain : Drain)
    (stop : Nat) : Prop where
  le : expected ≤ stop
  rest : drain.rest <:+ held
  past : ∀ d ∈ drain.rest.head?, stop < d.firstSequence
  hole : discontinuity expected held = drain.rest.head?.map fun d => (stop, d.firstSequence - 1)
  gone : ∀ d ∈ held, d ∈ drain.rest ∨ d.firstSequence + d.count ≤ stop
  reached : ∀ s, expected ≤ s → s < stop → ∃ d ∈ held, Covers Delivery.seg s d
  applied : ∀ {B : Type} [OrderBook B] (c : Consumer B), c.consumeHeld drain.applied =
    c.applyAll S false (List.range' expected (stop - expected))

/-- **`drain_contiguous`**, and with it the scan of `held_discontinuity`. -/
theorem drainFrom_spec (coveredFrom : Nat) {held : List Delivery}
    (hheld : CopiesOf S maxBytes held) (expected : Nat) :
    ∃ stop, Drained S expected held (drainFrom coveredFrom expected held) stop := by
  have hswept := drainFrom_swept coveredFrom expected held
  refine ⟨_, hswept.le, hswept.rest, hswept.past, hswept.hole, fun d hd => ?_, hswept.reached,
    consumeHeld_hands hheld hswept.hands⟩
  obtain ⟨swept, heq, hgone⟩ := hswept.gone
  rw [heq] at hd
  rcases List.mem_append.mp hd with hd | hd
  · exact .inr (hgone d hd).2
  · exact .inl hd

end RecoveryBuffer

/-! ## Replayed ranges -/

/-- The sequences a datagram's header names, first and one past the last. -/
def span (d : Buf) : Nat × Nat :=
  match PacketHeader.wrap d with
  | .ok h => (h.firstSequence.toNat, h.firstSequence.toNat + h.messageCount.toNat)
  | .error _ => (0, 0)

theorem Publication.Copy.span_eq {d : Buf} {first count : Nat} (hd : S.Copy maxBytes d first count) :
    span d = (first, first + count) := by
  obtain ⟨h, hwrap, hfirst, hcount⟩ := hd.copy.carries
  simp [span, hwrap, hfirst, hcount]

/-- Every datagram of an answer is a copy. -/
def AnswerOf (S : Publication) (maxBytes : Nat) (ds : List Buf) : Prop :=
  ∀ d ∈ ds, ∃ first count, S.Copy maxBytes d first count

/-- The sequences of the range asked for that an answer carries, in the order it carries them. -/
def answerSeqs (r : RangeRequest) (ds : List Buf) : List Nat :=
  ds.flatMap fun d => seqsIn (span d).1 ((span d).2 - (span d).1) r.fromSeq r.through

theorem mem_answerSeqs {r : RangeRequest} {ds : List Buf} {s : Nat} :
    s ∈ answerSeqs r ds ↔ (r.fromSeq ≤ s ∧ s ≤ r.through) ∧ ∃ d ∈ ds, Covers span s d := by
  simp only [answerSeqs, List.mem_flatMap, mem_seqsIn, Covers]
  constructor
  · rintro ⟨d, hd, hin, hbounds⟩
    exact ⟨hbounds, d, hd, by omega⟩
  · rintro ⟨hbounds, d, hd, hin⟩
    exact ⟨d, hd, by omega, hbounds⟩

theorem answerSeqs_cons (r : RangeRequest) (d : Buf) (ds : List Buf) :
    answerSeqs r (d :: ds) =
      seqsIn (span d).1 ((span d).2 - (span d).1) r.fromSeq r.through ++ answerSeqs r ds := rfl

theorem applyAnswer_copies [OrderBook B] {ds : List Buf} (hds : AnswerOf S maxBytes ds)
    (r : RangeRequest) (c : Consumer B) :
    FeedHandler.applyAnswer c r ds = c.applyAll S false (answerSeqs r ds) := by
  induction ds generalizing c with
  | nil => rfl
  | cons d ds ih =>
    obtain ⟨first, count, hd⟩ := hds d List.mem_cons_self
    have hhead : seqsIn (span d).1 ((span d).2 - (span d).1) r.fromSeq r.through =
        seqsIn first count r.fromSeq r.through := by
      rw [hd.span_eq, Nat.add_sub_cancel_left]
    rw [FeedHandler.applyAnswer, List.foldl_cons, ← FeedHandler.applyAnswer,
      ih (fun x hx => hds x (List.mem_cons_of_mem _ hx)), Consumer.consume_copy hd,
      answerSeqs_cons, hhead, Consumer.applyAll_append]

open FeedHandler (coverage Coverage)

theorem coverage_extend_copy {d : Buf} {first count : Nat} (hd : S.Copy maxBytes d first count)
    (r : RangeRequest) (c : Coverage) :
    Coverage.extend r c d = if c.contiguous && decide (first ≤ c.through + 1) then
      { c with through := min (max c.through (first + count - 1)) r.through }
    else { c with contiguous := false } := by
  obtain ⟨h, hwrap, hfirst, hcount⟩ := hd.copy.carries
  simp [Coverage.extend, hwrap, hfirst, hcount]

/-- What reading the rest of an answer adds to the coverage is in the answer. -/
theorem mem_of_coverage {ds : List Buf} (hds : AnswerOf S maxBytes ds) (r : RangeRequest)
    (c : Coverage) {s : Nat} (hfrom : r.fromSeq ≤ s) (hlt : c.through < s)
    (hle : s ≤ (ds.foldl (Coverage.extend r) c).through) : s ∈ answerSeqs r ds := by
  induction ds generalizing c with
  | nil => exact absurd hle (Nat.not_le.mpr hlt)
  | cons d ds ih =>
    obtain ⟨first, count, hd⟩ := hds d List.mem_cons_self
    have hrest := ih (fun x hx => hds x (List.mem_cons_of_mem _ hx)) (Coverage.extend r c d)
    rw [List.foldl_cons] at hle
    rw [answerSeqs_cons, List.mem_append]
    by_cases hthrough : (Coverage.extend r c d).through < s
    · exact .inr (hrest hthrough hle)
    · -- The step across `s` is this datagram's.
      left
      rw [coverage_extend_copy hd] at hthrough
      rw [mem_seqsIn, hd.span_eq]
      split at hthrough
      · rename_i hcond
        have hfirst : first ≤ c.through + 1 := by
          simpa using (Bool.and_eq_true_iff.mp hcond).2
        dsimp only at hthrough ⊢
        omega
      · exact absurd hlt hthrough

/-- **Coverage is honest**: every sequence up to the coverage is in the answer. -/
theorem mem_answerSeqs_of_covered {ds : List Buf} (hds : AnswerOf S maxBytes ds)
    {r : RangeRequest} {s : Nat} (hfrom : r.fromSeq ≤ s) (hpos : 1 ≤ s)
    (hle : s ≤ (coverage r ds).through) : s ∈ answerSeqs r ds :=
  mem_of_coverage hds r _ hfrom (show r.fromSeq - 1 < s by omega) hle

end MarketData.Handler
