import MarketData.Book.Apply
import MarketData.Wire.SnapshotCodec

/-!
# `Matching/Feed.lean` — the feed publisher

`crates/matching-engine/src/feed.rs`: messages are encoded into a datagram buffer and flushed
when the batch is full, when the next message does not fit, or when the caller says so. A flush
writes the header once, sends the datagram on both arms with only the channel byte changed, and
offers it to the replay service.

What the publisher asks of the outside is a parameter: the clock, the loss injector's coin flips
and whether a socket takes a datagram. What it hands to the outside is recorded, arm by arm, in
the order it was handed over. A call that fails answers the error alone; nothing here reads a
publisher after it has failed. `FeedStats` is left out but for the two counts that number the
datagrams.

## Two sequences of sends

The `n`-th send, on either arm, asks the outside the `n`-th question, so one function answers for a
whole run, and a statement for every `Env` is one for every pattern of loss and failure. A datagram
that the injector drops is not sent and counts as sent; it is offered to the replay service either
way, since that is what the service is for.

The buffer is real: a message is encoded at its position, and what was there before is behind it.
What a datagram consists of is therefore a theorem (`Matching/Publishing.lean`), not how the buffer
is modelled.

The shadow books of the self-check belong to the publisher, are applied to at a flush, and can make
one fail. They are of the reference kind.
-/

set_option autoImplicit false

namespace MarketData.Matching

open MarketData.Wire MarketData.Book

/-- What `io::Error` can stand for on the publish path. -/
inductive IoError where
  | wire (e : WireError)
  /-- A single message does not fit in `feed.max_datagram_bytes`. -/
  | messageTooLarge (maxDatagramBytes : Nat)
  /-- Not one snapshot order fits in `feed.max_datagram_bytes`. -/
  | snapshotOrderTooLarge
  | send
  | selfCheckDecode (e : WireError)
  | selfCheckApply (sequence : UInt64) (e : ApplyError)
  | book (e : BookError)
  /-- `front()` named an order that is not on the book: an `expect` of the source. -/
  | frontNotOnBook (orderId : UInt64)
  deriving DecidableEq, Repr

/-- The outside of a publisher: the clock reading for the `n`-th datagram, the arms the loss
injector drops the `n`-th incremental datagram on, and whether the `n`-th send succeeds. -/
structure Env where
  clock : Nat → UInt64
  drops : Nat → Bool × Bool
  sendOk : Nat → Bool

structure FeedPublisher where
  /-- What was sent on each arm. -/
  a : List Buf := []
  b : List Buf := []
  /-- The number of sends so far, on either arm. -/
  sends : Nat := 0
  buf : Buf
  pos : Nat := packetHeaderLen
  count : UInt16 := 0
  firstSeq : UInt64 := 1
  nextSeq : UInt64 := 1
  batchSize : UInt16
  datagrams : Nat := 0
  snapshotDatagrams : Nat := 0
  snapshotBuf : Buf
  snapshotSeq : UInt64 := 1
  /-- What was offered to the replay service. -/
  uplink : List Buf := []
  shadow : Option Books := none

namespace FeedPublisher

def new (batchSize : UInt16) (maxDatagramBytes : Nat) : FeedPublisher :=
  { buf := List.replicate maxDatagramBytes 0
    batchSize := if batchSize < 1 then 1 else batchSize
    snapshotBuf := List.replicate maxDatagramBytes 0 }

def enableSelfCheck (p : FeedPublisher) : FeedPublisher := { p with shadow := some Books.new }

/-- The highest sequence handed out so far, or 0 before anything was published. -/
def lastSequence (p : FeedPublisher) : UInt64 := if p.nextSeq = 0 then 0 else p.nextSeq - 1

section Publish

variable (env : Env)

/-- `publisher.send` on the arm of `channel`. -/
def send (p : FeedPublisher) (channel : UInt8) (bytes : Buf) : Except IoError FeedPublisher :=
  if env.sendOk p.sends then
    .ok (if channel = 0 then { p with sends := p.sends + 1, a := p.a ++ [bytes] }
         else { p with sends := p.sends + 1, b := p.b ++ [bytes] })
  else .error .send

/-- The self-check: every message of the datagram decodes and applies to the shadow book. -/
def replayShadow : Books → List (Except WireError (UInt64 × Message)) → Except IoError Books
  | books, [] => .ok books
  | _, .error e :: _ => .error (.selfCheckDecode e)
  | books, .ok (seq, msg) :: rest =>
    match applyMessage books msg with
    | (.ok _, books) => replayShadow books rest
    | (.error e, _) => .error (.selfCheckApply seq e)

def selfCheck (shadow : Option Books) (datagram : Buf) : Except IoError (Option Books) :=
  match shadow with
  | none => .ok none
  | some books =>
    match readPacket datagram with
    | .error e => .error (.wire e)
    | .ok messages => (replayShadow books messages).map some

/-- `wire_to_io`. -/
def wireToIo {α : Type} : Except WireError α → Except IoError α
  | .ok x => .ok x
  | .error e => .error (.wire e)

/-- One arm of the send loop: the channel byte is patched and the datagram sent, unless the
injector drops it. -/
def sendArm (p : FeedPublisher) (channel : UInt8) (drop : Bool) (len : Nat) :
    Except IoError FeedPublisher :=
  if drop then .ok p
  else do
    let buf ← wireToIo (patchPacketChannel p.buf channel)
    send env { p with buf := buf } channel (buf.take len)

/-- Sends the current datagram on both arms and starts a new one. -/
def flush (p : FeedPublisher) : Except IoError FeedPublisher :=
  if p.count = 0 then .ok p
  else do
    let len := p.pos
    let drop := env.drops p.datagrams
    let now := env.clock (p.datagrams + p.snapshotDatagrams)
    let buf ← wireToIo (encodePacketHeader p.buf 0 0 p.firstSeq now)
    let buf ← wireToIo (patchMessageCount buf p.count)
    let p ← sendArm env { p with buf := buf } 0 drop.1 len
    let p ← sendArm env p 1 drop.2 len
    let shadow ← selfCheck p.shadow (p.buf.take len)
    .ok { p with
      shadow := shadow
      uplink := p.uplink ++ [p.buf.take len]
      datagrams := p.datagrams + 1
      pos := packetHeaderLen
      count := 0
      firstSeq := p.nextSeq }

/-- Records the message just written to the tail of the buffer. -/
def commit (p : FeedPublisher) (tail : Buf) (written : Nat) : UInt64 × FeedPublisher :=
  (p.nextSeq, { p with
    buf := p.buf.take p.pos ++ tail
    pos := p.pos + written
    count := p.count + 1
    nextSeq := p.nextSeq + 1 })

/-- The head of `emit`: a full batch is flushed, and a datagram without a message starts at the
next sequence. -/
def startDatagram (p : FeedPublisher) : Except IoError FeedPublisher := do
  let p ← (if p.batchSize ≤ p.count then flush env p else .ok p)
  .ok (if p.count = 0 then { p with firstSeq := p.nextSeq } else p)

/-- Encodes one message into the current datagram, flushing first if it does not fit or the
batch is full. Answers the sequence the message was given. -/
def emit (p : FeedPublisher) (encode : Buf → Except WireError (Buf × Nat)) :
    Except IoError (UInt64 × FeedPublisher) := do
  let p ← startDatagram env p
  match encode (p.buf.drop p.pos) with
  | .ok (tail, written) => .ok (p.commit tail written)
  | .error (.shortBuffer _ _) =>
    if p.count = 0 then .error (.messageTooLarge p.buf.length)
    else do
      let p ← flush env p
      let p := { p with firstSeq := p.nextSeq }
      let (tail, written) ← wireToIo (encode (p.buf.drop p.pos))
      .ok (p.commit tail written)
  | .error e => .error (.wire e)

/-- Flushes a partly filled datagram because the flush interval expired. -/
def flushOnTimer (p : FeedPublisher) : Except IoError FeedPublisher := flush env p

def addOrder (p : FeedPublisher) (orderId : UInt64) (price : Int64) (quantity : UInt32)
    (symbolId : UInt16) (side : Side) : Except IoError (UInt64 × FeedPublisher) :=
  emit env p fun buf => encodeAddOrder buf orderId price quantity symbolId side

def modifyOrder (p : FeedPublisher) (orderId : UInt64) (newPrice : Int64) (newQuantity : UInt32)
    (symbolId : UInt16) (side : Side) (reason : ModifyReason) :
    Except IoError (UInt64 × FeedPublisher) :=
  emit env p fun buf => encodeModifyOrder buf orderId newPrice newQuantity symbolId side reason

def deleteOrder (p : FeedPublisher) (orderId : UInt64) (symbolId : UInt16) (side : Side) :
    Except IoError (UInt64 × FeedPublisher) :=
  emit env p fun buf => encodeDeleteOrder buf orderId symbolId side

def trade (p : FeedPublisher) (tradeId aggressorOrderId restingOrderId : UInt64) (price : Int64)
    (quantity : UInt32) (symbolId : UInt16) (aggressorSide : Side) :
    Except IoError (UInt64 × FeedPublisher) :=
  emit env p fun buf => encodeTrade buf tradeId aggressorOrderId restingOrderId price quantity
    symbolId aggressorSide

def heartbeat (p : FeedPublisher) (lastSequence : UInt64) :
    Except IoError (UInt64 × FeedPublisher) :=
  emit env p fun buf => encodeHeartbeat buf lastSequence

end Publish

end FeedPublisher

end MarketData.Matching
