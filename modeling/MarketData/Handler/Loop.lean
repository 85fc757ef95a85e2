import MarketData.Book.Rebuild
import MarketData.Wire.Packet
import MarketData.Handler.Recovery

/-!
# `Handler/Loop.lean` — the consumer behind the arbitrator

`crates/feed-handler/src/main.rs` and the counters of `stats.rs`. The handler takes datagrams
off two arms, applies what the arbitrator releases to its books, and repairs the books after a
gap from a snapshot cycle or from a replayed range.

The loop is cut at the points where something outside it decides what happens next: a datagram
arrives on an arm, the outstanding replay request is answered or refused, a request is sent, a
pass finds both sockets empty. `Event` names these, and `FeedHandler.step` runs the code of the
loop body that belongs to each. A pass of the loop is a sequence of such events: datagrams
first, then an answer, then a request, then, if there was no datagram, the quiet branch; the
steps themselves do not insist on that order. The clock is an input (`Event.quiet`), a digest
log is not kept, and a loop that returns an error stays where it stopped (`ended`).

`Consumer.history` is not in the source. It records what has been done to the books, in order,
and no function reads it.

## Two owners of the counters

The arbitrator counts what it sees on the arms, and the loop counts what becomes of it afterwards. A
run's verdict (`isClean`) reads the second. The loop's functions are therefore cut along what they
may touch: those of `Consumer` have the books, the counters and the history, and cannot see the
window or the recovery; those of `FeedHandler` have all of it. That split is the source's own, where
the books and the statistics are passed by reference to the functions that consume.

An input the loop does not act on leaves it as it is: an answer without a request outstanding, a
snapshot outside of a recovery, anything after the end.
-/

set_option autoImplicit false

namespace MarketData.Handler

open MarketData.Wire MarketData.Book

/-- Counters the arbitrator does not own. -/
structure HandlerStats where
  messages : Nat := 0
  trades : Nat := 0
  sharesTraded : Nat := 0
  firstSequence : Nat := 0
  lastSequence : Nat := 0
  badDatagrams : Nat := 0
  /-- Messages that did not apply while the stream was supposed to be complete. -/
  applyErrors : Nat := 0
  unverifiedDrops : Nat := 0
  /-- Messages that did not apply after a gap or a mid-stream join. -/
  applyErrorsAfterGap : Nat := 0
  joinedMidStream : Bool := false
  recoveries : Nat := 0
  recoveryFailures : Nat := 0
  recoveriesAbandoned : Nat := 0
  snapshotsDiscarded : Nat := 0
  appliedHigh : Nat := 0
  sequenceJumps : Nat := 0
  firstJump : Option (Nat × Nat) := none
  duplicateApplies : Nat := 0
  firstDuplicate : Option (Nat × Nat) := none
  deriving DecidableEq, Repr

namespace HandlerStats

/-! The increments of the loop, one for each counter it moves by itself. -/

def badDatagram (s : HandlerStats) : HandlerStats := { s with badDatagrams := s.badDatagrams + 1 }

def applyError (s : HandlerStats) : HandlerStats := { s with applyErrors := s.applyErrors + 1 }

def unverified (n : Nat) (s : HandlerStats) : HandlerStats :=
  { s with unverifiedDrops := s.unverifiedDrops + n }

def recovered (s : HandlerStats) : HandlerStats := { s with recoveries := s.recoveries + 1 }

def recoveryFailed (s : HandlerStats) : HandlerStats :=
  { s with recoveryFailures := s.recoveryFailures + 1 }

def abandoned (s : HandlerStats) : HandlerStats :=
  { s with recoveriesAbandoned := s.recoveriesAbandoned + 1 }

def discarded (s : HandlerStats) : HandlerStats :=
  { s with snapshotsDiscarded := s.snapshotsDiscarded + 1 }

/-- A snapshot moves the books forward without applying the messages in between. -/
def adopted (lastSequence : Nat) (s : HandlerStats) : HandlerStats :=
  { s with appliedHigh := max s.appliedHigh lastSequence }

/-- The first datagram: its sequence, and whether it makes the run a mid-stream join. -/
def joined (firstSequence : Nat) (s : HandlerStats) : HandlerStats :=
  { s with firstSequence, joinedMidStream := s.joinedMidStream || firstSequence ≠ 1 }

end HandlerStats

/-- `HandlerStats::is_clean`: the run ended holding a book that can be trusted. -/
def HandlerStats.isClean (s : HandlerStats) (arb : Arbitrator) (recovering : Bool) : Bool :=
  arb.state ≠ .gapped && !recovering && s.recoveriesAbandoned = 0 && s.badDatagrams = 0 &&
    s.applyErrors = 0 && (arb.arms 0).droppedWindowFull = 0 &&
    (arb.arms 1).droppedWindowFull = 0 && s.unverifiedDrops = 0 && s.sequenceJumps = 0 &&
    s.duplicateApplies = 0

/-- Something done to the books, or said about them. -/
inductive Touch where
  | cleared
  | fragment (d : Snapshot)
  /-- A cycle end was taken for the books as of this sequence. -/
  | adopted (lastSequence : Nat)
  /-- A message of the stream, whether a gap was outstanding and whether it failed to apply. -/
  | message (sequence : Nat) (gapped failed : Bool)
  | completed
  /-- A recovery was given up and not retried. -/
  | forsaken
  deriving DecidableEq, Repr

/-- What `consume` works on. -/
structure Consumer (B : Type) where
  books : BookSet B
  stats : HandlerStats := {}
  history : List Touch := []

/-- `u64::MAX`, the `skip_above` of everything but a replay. -/
def maxSequence : Nat := 2 ^ 64 - 1

namespace Consumer

variable {B : Type}

def touch (c : Consumer B) (t : Touch) : Consumer B := { c with history := c.history ++ [t] }

def count (c : Consumer B) (f : HandlerStats → HandlerStats) : Consumer B :=
  { c with stats := f c.stats }

/-- The counters before a message is applied: the two contiguity checks and the totals. -/
def noteSequence (s : HandlerStats) (gapped : Bool) (seq : Nat) : HandlerStats :=
  let s := if !gapped && s.appliedHigh ≠ 0 && decide (s.appliedHigh + 1 < seq) then
      { s with sequenceJumps := s.sequenceJumps + 1
               firstJump := s.firstJump.or (some (s.appliedHigh, seq)) }
    else s
  let s := if s.appliedHigh ≠ 0 && decide (seq ≤ s.appliedHigh) then
      { s with duplicateApplies := s.duplicateApplies + 1
               firstDuplicate := s.firstDuplicate.or (some (seq, s.appliedHigh)) }
    else s
  { s with appliedHigh := max s.appliedHigh seq, messages := s.messages + 1, lastSequence := seq }

/-- Where an apply failure is counted. -/
def noteResult (s : HandlerStats) (gapped : Bool) (result : Except ApplyError Unit) :
    HandlerStats :=
  match result with
  | .ok _ => s
  | .error _ =>
    if gapped || s.joinedMidStream then
      { s with applyErrorsAfterGap := s.applyErrorsAfterGap + 1 }
    else { s with applyErrors := s.applyErrors + 1 }

def noteTrade (s : HandlerStats) : Message → HandlerStats
  | .trade t => { s with trades := s.trades + 1, sharesTraded := s.sharesTraded + t.quantity.toNat }
  | _ => s

def failed : Except ApplyError Unit → Bool
  | .ok _ => false
  | .error _ => true

variable [OrderBook B]

/-- The body of the loop of `consume`, for a message that is not skipped. -/
def applyNext (c : Consumer B) (gapped : Bool) (seq : Nat) (m : Message) : Consumer B :=
  let applied := applyMessage c.books m
  { books := applied.2
    stats := noteTrade (noteResult (noteSequence c.stats gapped seq) gapped applied.1) m
    history := c.history ++ [.message seq gapped (failed applied.1)] }

/-- The loop of `consume`. -/
def consumeMessages (gapped : Bool) (skipBelow skipAbove : Nat) :
    Consumer B → List (Except WireError (UInt64 × Message)) → Consumer B
  | c, [] => c
  | c, .error _ :: _ => c.count HandlerStats.badDatagram
  | c, .ok (seq, m) :: rest =>
    if seq.toNat < skipBelow ∨ skipAbove < seq.toNat then
      consumeMessages gapped skipBelow skipAbove c rest
    else consumeMessages gapped skipBelow skipAbove (c.applyNext gapped seq.toNat m) rest

/-- Decodes one datagram and applies every message in it that lies between the two bounds. -/
def consume (c : Consumer B) (datagram : Buf) (gapped : Bool) (skipBelow skipAbove : Nat) :
    Consumer B :=
  match readPacket datagram with
  | .error _ => c.count HandlerStats.badDatagram
  | .ok messages => consumeMessages gapped skipBelow skipAbove c messages

/-- The closure `replay` and `drain_contiguous` are given. -/
def consumeHeld (c : Consumer B) (handed : List (Nat × Buf)) : Consumer B :=
  handed.foldl (fun c d => c.consume d.2 false d.1 maxSequence) c

end Consumer

/-- `RangeRequest`, both ends inclusive. -/
structure RangeRequest where
  fromSeq : Nat
  through : Nat
  deriving DecidableEq, Repr

structure FeedHandler (B : Type) where
  consumer : Consumer B
  arb : Arbitrator
  recovery : RecoveryBuffer
  startedStream : Bool := false
  inCycle : Bool := false
  initialJoinRetries : Nat := 0
  pendingReplay : Option RangeRequest := none
  lastReplayFrom : Option Nat := none
  ended : Bool := false

/-- What the loop meets next. -/
inductive Event where
  | datagram (channel : Nat) (bytes : Buf)
  /-- The outstanding request came back with `Status::Ok` and these datagrams. -/
  | answer (datagrams : List Buf)
  /-- The outstanding request was refused, failed or lost its sender. -/
  | refused
  /-- A pass with a replay service configured reaches the request. -/
  | request
  /-- Both sockets were empty: has the gap timeout passed, has the recovery deadline? -/
  | quiet (gapTimeout deadline : Bool)

namespace FeedHandler

variable {B : Type}

def new (books : BookSet B) (windowDatagrams recoveryDatagrams maxDatagramBytes : Nat) :
    FeedHandler B :=
  { consumer := { books }
    arb := .new windowDatagrams maxDatagramBytes
    recovery := .new recoveryDatagrams maxDatagramBytes }

def count (h : FeedHandler B) (f : HandlerStats → HandlerStats) : FeedHandler B :=
  { h with consumer := h.consumer.count f }

def touch (h : FeedHandler B) (t : Touch) : FeedHandler B := { h with consumer := h.consumer.touch t }

def gapped (h : FeedHandler B) : Bool := h.arb.state = .gapped

variable [OrderBook B]

/-! ## Snapshots -/

/-- The adoption at a cycle end, when the held traffic behind the snapshot has no hole. -/
def adoptSnapshot (h : FeedHandler B) (lastSequence : Nat) : FeedHandler B :=
  let recovery := h.recovery.adoptSnapshot lastSequence
  let consumer := (h.consumer.touch (.adopted lastSequence)).count (.adopted lastSequence)
  let consumer := (consumer.consumeHeld recovery.replay).count HandlerStats.recovered
  { h with
    consumer := consumer.touch .completed
    arb := h.arb.resyncTo (lastSequence + 1)
    recovery := recovery.complete
    inCycle := false }

/-- The adoption at a cycle end, when a gap opened while the cycle was arriving. -/
def adoptAndReopen (h : FeedHandler B) (lastSequence reopenFrom : Nat) : FeedHandler B :=
  let (drain, recovery) := h.recovery.drainContiguous 0 lastSequence
  { h with
    consumer := (h.consumer.touch (.adopted lastSequence)).consumeHeld drain.applied
    recovery := recovery.reopen reopenFrom
    inCycle := false }

/-- A fragment goes to the books, which the start of a cycle empties first. -/
def applyFragment (h : FeedHandler B) (d : Snapshot) : FeedHandler B :=
  let c := if d.cycleStart then h.consumer.touch .cleared else h.consumer
  { h with
    consumer := { c.touch (.fragment d) with books := (Book.applyFragment c.books d).2 }
    inCycle := h.inCycle || d.cycleStart }

/-- A fragment of a cycle being followed; the flag says whether the loop goes on. -/
def takeFragment (h : FeedHandler B) (d : Snapshot) : Bool × FeedHandler B :=
  let applied := h.applyFragment d
  match (Book.applyFragment h.consumer.books d).1 with
  | .error _ =>
    (false, { applied.count HandlerStats.applyError with inCycle := false })
  | .ok _ =>
    if d.cycleEnd then
      match h.recovery.heldDiscontinuity (d.lastSequence.toNat + 1) with
      | some (reopenFrom, _) => (false, applied.adoptAndReopen d.lastSequence.toNat reopenFrom)
      | none => (true, applied.adoptSnapshot d.lastSequence.toNat)
    else (true, applied)

/-- The body of the loop of `handle_snapshot`. -/
def snapshotMessage (h : FeedHandler B) : Message → Bool × FeedHandler B
  | .snapshot d =>
    if !h.recovery.snapshotIsUsable d.lastSequence.toNat || (!d.cycleStart && !h.inCycle) then
      (true, h.count HandlerStats.discarded)
    else h.takeFragment d
  | _ => (true, h)

def snapshotMessages : FeedHandler B → List (Except WireError (UInt64 × Message)) → FeedHandler B
  | h, [] => h
  | h, .error _ :: _ => h.count HandlerStats.badDatagram
  | h, .ok (_, m) :: rest =>
    match h.snapshotMessage m with
    | (true, h) => snapshotMessages h rest
    | (false, h) => h

/-- Adopts a snapshot if it can close the outstanding gap. -/
def handleSnapshot (h : FeedHandler B) (datagram : Buf) : FeedHandler B :=
  if h.recovery.isRecovering then
    match readPacket datagram with
    | .error _ => h.count HandlerStats.badDatagram
    | .ok messages => snapshotMessages h messages
  else h

/-! ## Replayed ranges -/

/-- How far an answer reaches without a break, while its datagrams are read. -/
structure Coverage where
  through : Nat
  contiguous : Bool := true
  deriving DecidableEq, Repr

def Coverage.extend (request : RangeRequest) (c : Coverage) (datagram : Buf) : Coverage :=
  match PacketHeader.wrap datagram with
  | .error _ => c
  | .ok h =>
    let first := h.firstSequence.toNat
    if c.contiguous && decide (first ≤ c.through + 1) then
      { c with through := min (max c.through (first + h.messageCount.toNat - 1)) request.through }
    else { c with contiguous := false }

/-- `covered_through` once the whole answer has been read. -/
def coverage (request : RangeRequest) (datagrams : List Buf) : Coverage :=
  datagrams.foldl (Coverage.extend request) { through := request.fromSeq - 1 }

/-- Every datagram of an answer goes to the books, between the ends of the request. -/
def applyAnswer (c : Consumer B) (request : RangeRequest) (datagrams : List Buf) : Consumer B :=
  datagrams.foldl (fun c d => c.consume d false request.fromSeq request.through) c

/-- The end of `apply_replay` when the held traffic behind the answer has a hole. -/
def replayAndReopen (h : FeedHandler B) (request : RangeRequest) (covered reopenFrom : Nat) :
    FeedHandler B :=
  let (drain, recovery) := h.recovery.drainContiguous request.fromSeq covered
  { h with
    consumer := (h.consumer.consumeHeld drain.applied).count (.unverified drain.unverified)
    recovery := recovery.reopen reopenFrom }

/-- The end of `apply_replay` when it does not. -/
def replayAndComplete (h : FeedHandler B) (covered : Nat) : Bool × FeedHandler B :=
  match h.recovery.adoptReplay covered with
  | none => (false, h)
  | some recovery =>
    let consumer := (h.consumer.consumeHeld recovery.replay).count HandlerStats.recovered
    (true, { h with
      consumer := consumer.touch .completed
      arb := h.arb.clearGapped
      recovery := recovery.complete })

/-- Applies a served replay, then the traffic held while waiting. The answer is `false` when the
recovery was not completed. -/
def applyReplay (h : FeedHandler B) (request : RangeRequest) (datagrams : List Buf) :
    Bool × FeedHandler B :=
  if h.recovery.isRecovering then
    let h := { h with consumer := applyAnswer h.consumer request datagrams }
    let covered := (coverage request datagrams).through
    if covered < request.fromSeq then (false, h)
    else
      match h.recovery.heldDiscontinuity (covered + 1) with
      | some (reopenFrom, _) => (false, h.replayAndReopen request covered reopenFrom)
      | none => h.replayAndComplete covered
  else (false, h)

/-! ## Live traffic -/

def maxInitialJoinRetries : Nat := 8

/-- A full recovery buffer: the initial join re-arms a bounded number of times, any other
recovery is abandoned. -/
def recoveryOverflowed (h : FeedHandler B) : FeedHandler B :=
  let h := { h.count HandlerStats.recoveryFailed with recovery := h.recovery.fail }
  if h.consumer.stats.joinedMidStream && h.recovery.completed = 0 then
    if h.initialJoinRetries < maxInitialJoinRetries then
      { h with initialJoinRetries := h.initialJoinRetries + 1, recovery := h.recovery.begin 1 }
    else { h with ended := true }
  else (h.count HandlerStats.abandoned).touch .forsaken

/-- Live traffic during a recovery is held, not applied. -/
def holdLive (h : FeedHandler B) (d : Delivery) : FeedHandler B :=
  match h.recovery.hold d with
  | some recovery => { h with recovery }
  | none => h.recoveryOverflowed

/-- The first datagram ever released: anything but sequence 1 is a mid-stream join. -/
def joinStream (h : FeedHandler B) (firstSequence : Nat) : FeedHandler B :=
  if h.startedStream then h
  else
    { h.count (.joined firstSequence) with
      startedStream := true
      recovery := if firstSequence ≠ 1 then h.recovery.begin 1 else h.recovery }

/-- What the loop does with the arbitrator's answer. -/
def onAccepted (h : FeedHandler B) (bytes : Buf) : Accepted → FeedHandler B
  | .ready firstSequence count =>
    let h := h.joinStream firstSequence
    if h.recovery.isRecovering then h.holdLive ⟨firstSequence, count, bytes⟩
    else { h with consumer := h.consumer.consume bytes h.gapped 0 maxSequence }
  | .forcedGap gap => { h with recovery := h.recovery.begin gap.fromSeq }
  | .buffered => h
  | .duplicate => h
  | .malformed _ => h.count HandlerStats.badDatagram

/-- `drain_into_books`. -/
def drainIntoBooks (h : FeedHandler B) : FeedHandler B :=
  let gapped := h.gapped
  let (out, arb) := h.arb.drainReady
  { h with
    arb
    consumer := out.foldl (fun c d => c.consume d.bytes gapped 0 maxSequence) h.consumer }

/-- Holds datagrams until one does not fit; everything from that one on is lost and counted. -/
def holdAll : RecoveryBuffer → List Delivery → Nat × RecoveryBuffer
  | r, [] => (0, r)
  | r, d :: out =>
    match r.hold d with
    | some r => holdAll r out
    | none => (((d :: out).map (·.count)).sum, r)

/-- The drain of the arbitrator while a recovery is open. The source keeps the overflow and the
count of what it lost apart; a datagram holds at least one message, so one is set exactly when
the other is positive. -/
def drainIntoRecovery (h : FeedHandler B) : FeedHandler B :=
  let (out, arb) := h.arb.drainReady
  let (lost, recovery) := holdAll h.recovery out
  let h := { h with arb, recovery }
  if 0 < lost then
    (h.count (.unverified lost)).recoveryOverflowed
  else h

def drain (h : FeedHandler B) : FeedHandler B :=
  if h.recovery.isRecovering then h.drainIntoRecovery else h.drainIntoBooks

/-- One datagram off an arm. -/
def receive (h : FeedHandler B) (channel : Nat) (bytes : Buf) : FeedHandler B :=
  if isSnapshotDatagram bytes then h.handleSnapshot bytes
  else
    let (outcome, arb) := h.arb.accept channel bytes
    let h := { h with arb }.onAccepted bytes outcome
    if h.ended then h else h.drain

/-! ## The rest of a pass -/

/-- The outstanding request comes back with datagrams; without a request there is no answer. -/
def answered (h : FeedHandler B) (datagrams : List Buf) : FeedHandler B :=
  match h.pendingReplay with
  | none => h
  | some request => { (h.applyReplay request datagrams).2 with pendingReplay := none }

/-- Asks for the outstanding hole, once. -/
def request (h : FeedHandler B) : FeedHandler B :=
  match h.pendingReplay, h.recovery.gapFrom with
  | none, some gapFrom =>
    let through := h.arb.nextExpected - 1
    if gapFrom ≤ through ∧ h.lastReplayFrom ≠ some gapFrom then
      { h with lastReplayFrom := some gapFrom, pendingReplay := some ⟨gapFrom, through⟩ }
    else h
  | _, _ => h

/-- Drain first: traffic still buffered is usually waiting to be applied. -/
def drainQuiet (h : FeedHandler B) : FeedHandler B :=
  if h.recovery.isRecovering then h else h.drainIntoBooks

/-- A hole that has stayed open through a quiet period is declared lost. -/
def declareStalled (h : FeedHandler B) (gapTimeout : Bool) : FeedHandler B :=
  if gapTimeout then
    match h.arb.declareGapIfStalled with
    | (some gap, arb) => { h with arb, recovery := h.recovery.begin gap.fromSeq }
    | (none, arb) => { h with arb }
  else h

/-- A recovery that has run out of time is given up, not retried. -/
def checkDeadline (h : FeedHandler B) (deadline : Bool) : FeedHandler B :=
  if h.recovery.isRecovering && deadline then
    ({ h with recovery := h.recovery.fail }.count fun s => s.recoveryFailed.abandoned).touch
      .forsaken
  else h

/-- The branch of a pass that received nothing. -/
def onQuiet (h : FeedHandler B) (gapTimeout deadline : Bool) : FeedHandler B :=
  (h.drainQuiet.declareStalled gapTimeout).checkDeadline deadline

def step (h : FeedHandler B) (e : Event) : FeedHandler B :=
  if h.ended then h
  else
    match e with
    | .datagram channel bytes => h.receive channel bytes
    | .answer datagrams => h.answered datagrams
    | .refused => { h with pendingReplay := none }
    | .request => h.request
    | .quiet gapTimeout deadline => h.onQuiet gapTimeout deadline

def run (h : FeedHandler B) (es : List Event) : FeedHandler B := es.foldl step h

end FeedHandler

end MarketData.Handler
