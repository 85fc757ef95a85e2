import Mathlib.Logic.Function.Basic
import MarketData.Lib.Words
import MarketData.Wire.Header

/-!
# `Handler/Arbitrator.lean` — A/B arbitration

`crates/feed-handler/src/arbitration.rs`. Two arms carry the same datagrams with the same
sequence numbers; the arbitrator takes whichever copy arrives first, holds what arrives ahead
of a hole in a bounded window, and declares the hole lost when the window is full or the feed
has gone quiet.

The Rust type mutates in place. Each method is here a function from the arbitrator to the
arbitrator after the call, paired with what the method returns; `drain_ready`, which hands
datagrams to a closure, answers the list of what the closure was given. Counters and sequence
numbers are `Nat`, with the wrapping and saturating additions of the source spelled out where
the source has them. The log of the first `GAP_LOG` gaps is kept as the list `gaps()` returns.

## What is kept of the source's data

The window is a list of slots of fixed length, free or occupied, because the code searches it from
the front and its answers depend on where it finds something first. A slot has its own buffer, and
what is stored is cut to it, as in the source; only `bytes` is ever handed on. The counters are all
there, although no decision reads them, since a run's verdict and several promises about runs do.

A sequence number here is a `Nat` and the wire's is 64 bits wide. Headers are decoded at their own
width and only then taken over, and `Partition` (`Handler/Arbitration.lean`) leaves out a datagram
that runs past the last sequence of all.
-/

set_option autoImplicit false

namespace MarketData.Handler

open MarketData.Words
open MarketData.Wire (Buf PacketHeader WireError)

inductive FeedState where
  | syncing
  | live
  | gapped
  deriving DecidableEq, Repr

/-- Per-arm counters. -/
structure ArmCounters where
  datagrams : Nat := 0
  datagramsFirst : Nat := 0
  datagramsDuplicate : Nat := 0
  datagramsBuffered : Nat := 0
  messagesFirst : Nat := 0
  malformed : Nat := 0
  droppedWindowFull : Nat := 0
  bytes : Nat := 0
  deriving DecidableEq, Repr

/-- A range the arbitrator gave up on: `Gap { from, through }`, both ends inclusive. -/
structure Gap where
  fromSeq : Nat
  through : Nat
  deriving DecidableEq, Repr

/-- `Gap::messages`. -/
def Gap.messages (g : Gap) : Nat := g.through + 1 - g.fromSeq

/-- The sequence `s` lies in the gap. -/
def Gap.Contains (g : Gap) (s : Nat) : Prop := g.fromSeq ≤ s ∧ s ≤ g.through

instance (g : Gap) (s : Nat) : Decidable (g.Contains s) :=
  inferInstanceAs (Decidable (_ ∧ _))

/-- What accepting a datagram did. -/
inductive Accepted where
  | ready (firstSequence count : Nat)
  | buffered
  | duplicate
  | forcedGap (gap : Gap)
  | malformed (e : WireError)
  deriving DecidableEq, Repr

structure Slot where
  firstSequence : Nat
  count : Nat
  len : Nat
  occupied : Bool
  arm : Nat
  buf : Buf
  deriving DecidableEq, Repr

/-- `&slot.buf[..slot.len]`, what a drain hands over. -/
def Slot.bytes (s : Slot) : Buf := s.buf.take s.len

/-- How many individual gap ranges the end-of-run report keeps. -/
def gapLog : Nat := 256

structure Arbitrator where
  state : FeedState
  nextExpected : Nat
  window : List Slot
  capacity : Nat
  occupied : Nat
  arms : Nat → ArmCounters
  firstSequence : Nat
  lastDelivered : Nat
  messagesDelivered : Nat
  gaps : List Gap
  gapsRecorded : Nat
  messagesMissed : Nat
  highestSeen : Nat
  maxWindowUsed : Nat
  started : Bool
  resyncs : Nat

/-- One datagram handed to the consumer: its first sequence, its count and its bytes. -/
structure Delivery where
  firstSequence : Nat
  count : Nat
  bytes : Buf
  deriving DecidableEq, Repr

namespace Arbitrator

/-- `Arbitrator::new`: one slot more than the advertised capacity. -/
def new (windowDatagrams maxDatagramBytes : Nat) : Arbitrator :=
  let windowDatagrams := max windowDatagrams 1
  { state := .syncing
    nextExpected := 0
    window := List.replicate (windowDatagrams + 1)
      { firstSequence := 0, count := 0, len := 0, occupied := false, arm := 0,
        buf := List.replicate maxDatagramBytes 0 }
    capacity := windowDatagrams
    occupied := 0
    arms := fun _ => {}
    firstSequence := 0
    lastDelivered := 0
    messagesDelivered := 0
    gaps := []
    gapsRecorded := 0
    messagesMissed := 0
    highestSeen := 0
    maxWindowUsed := 0
    started := false
    resyncs := 0 }

/-- `window_capacity`: how many out-of-order datagrams the window is meant to hold. -/
def windowCapacity (a : Arbitrator) : Nat := a.capacity

/-- A counter update on one arm; nothing else reads or writes `arms`. -/
def tally (a : Arbitrator) (idx : Nat) (f : ArmCounters → ArmCounters) : Arbitrator :=
  { a with arms := Function.update a.arms idx (f (a.arms idx)) }

def freeSlot (a : Arbitrator) : Option Nat := a.window.findIdx? fun s => !s.occupied

def findSlot (a : Arbitrator) (firstSequence : Nat) : Option Nat :=
  a.window.findIdx? fun s => s.occupied && s.firstSequence == firstSequence

/-- The buffered datagram that would deliver `sequence`, if any. -/
def findSlotCovering (a : Arbitrator) (sequence : Nat) : Option Nat :=
  a.window.findIdx? fun s => s.occupied && decide (s.firstSequence ≤ sequence) &&
    decide (sequence < wrapAdd s.firstSequence s.count)

def deliver (a : Arbitrator) (first count : Nat) : Arbitrator :=
  let stop := wrapAdd first count
  { a with
    messagesDelivered := a.messagesDelivered + (stop - a.nextExpected)
    nextExpected := stop
    lastDelivered := stop - 1
    state := if a.state ≠ .gapped then .live else a.state }

/-- The slot `store` leaves behind: the datagram, cut to the slot's buffer. -/
def fill (old : Slot) (arm first count : Nat) (datagram : Buf) : Slot :=
  let len := min datagram.length old.buf.length
  { firstSequence := first, count := count, len := len, occupied := true, arm := arm
    buf := datagram.take len ++ old.buf.drop len }

def store (a : Arbitrator) (i arm first count : Nat) (datagram : Buf) : Arbitrator :=
  { a with
    window := a.window.modify i fun old => fill old arm first count datagram
    occupied := a.occupied + 1
    maxWindowUsed := max a.maxWindowUsed (a.occupied + 1) }

/-- The occupied slots of the window. -/
def held (a : Arbitrator) : List Slot := a.window.filter (·.occupied)

/-- Where `declare_gap` moves the frontier: the lowest buffered datagram. -/
def gapTarget (a : Arbitrator) : Nat :=
  (a.held.map (·.firstSequence)).min?.getD (a.nextExpected + 1)

/-- Advances past the hole to the lowest buffered datagram. The source's `debug_assert` that
the target lies beyond the frontier is absent from a release build, and from here. -/
def declareGap (a : Arbitrator) : Gap × Arbitrator :=
  let target := a.gapTarget
  let gap : Gap := { fromSeq := a.nextExpected, through := max (target - 1) a.nextExpected }
  (gap, { a with
    messagesMissed := a.messagesMissed + gap.messages
    gapsRecorded := a.gapsRecorded + 1
    gaps := if a.gaps.length < gapLog then a.gaps ++ [gap] else a.gaps
    state := .gapped
    nextExpected := target })

/-- Declares the current hole lost on a quiet feed. -/
def declareGapIfStalled (a : Arbitrator) : Option Gap × Arbitrator :=
  if a.occupied = 0 then (none, a)
  else if (a.findSlotCovering a.nextExpected).isSome then (none, a)
  else (some a.declareGap.1, a.declareGap.2)

/-- Files the datagram that forced a gap, now that the frontier has moved. -/
def keepAfterGap (a : Arbitrator) (idx first count : Nat) (datagram : Buf) : Arbitrator :=
  if satAdd first count ≤ a.nextExpected then
    a.tally idx fun c => { c with datagramsDuplicate := c.datagramsDuplicate + 1 }
  else if first ≤ a.nextExpected then
    (a.tally idx fun c => { c with datagramsFirst := c.datagramsFirst + 1,
                                   messagesFirst := c.messagesFirst + count }).deliver first count
  else
    match a.freeSlot with
    | some i => (a.store i idx first count datagram).tally idx fun c =>
        { c with datagramsBuffered := c.datagramsBuffered + 1 }
    | none => a.tally idx fun c => { c with droppedWindowFull := c.droppedWindowFull + 1 }

/-- `accept` from the frontier comparison on: the header is decoded and the stream started. -/
def place (a : Arbitrator) (idx first count : Nat) (datagram : Buf) : Accepted × Arbitrator :=
  if satAdd first count ≤ a.nextExpected then
    -- Entirely behind the frontier: the other arm already delivered it.
    (.duplicate, a.tally idx fun c => { c with datagramsDuplicate := c.datagramsDuplicate + 1 })
  else if first ≤ a.nextExpected then
    (.ready first count,
      (a.tally idx fun c => { c with datagramsFirst := c.datagramsFirst + 1,
                                     messagesFirst := c.messagesFirst + count }).deliver
        first count)
  else if (a.findSlot first).isSome then
    -- Already held from the other arm.
    (.duplicate, a.tally idx fun c => { c with datagramsDuplicate := c.datagramsDuplicate + 1 })
  else if a.occupied < a.capacity then
    match a.freeSlot with
    | some i => (.buffered, (a.store i idx first count datagram).tally idx fun c =>
        { c with datagramsBuffered := c.datagramsBuffered + 1 })
    -- The source's `expect`; `Wf.freeSlot_isSome` is why it cannot fire.
    | none => (.buffered, a)
  else
    (.forcedGap a.declareGap.1, a.declareGap.2.keepAfterGap idx first count datagram)

/-- The first datagram ever accepted starts the stream at its own first sequence. -/
def start (a : Arbitrator) (first : Nat) : Arbitrator :=
  if a.started then a
  else { a with started := true, firstSequence := first, nextExpected := first, state := .live }

/-- Offers a datagram from `arm` (0 = A, 1 = B). -/
def accept (a : Arbitrator) (arm : Nat) (datagram : Buf) : Accepted × Arbitrator :=
  let idx := arm % 2
  let a := a.tally idx fun c =>
    { c with datagrams := c.datagrams + 1, bytes := c.bytes + datagram.length }
  match PacketHeader.wrap datagram with
  | .error e => (.malformed e, a.tally idx fun c => { c with malformed := c.malformed + 1 })
  | .ok header =>
    let first := header.firstSequence.toNat
    let count := header.messageCount.toNat
    if count = 0 then
      (.duplicate, a.tally idx fun c => { c with datagramsDuplicate := c.datagramsDuplicate + 1 })
    else
      let a := { a with highestSeen := max a.highestSeen (satAdd first count) }
      (a.start first).place idx first count datagram

/-- Frees slot `i` and delivers what it held. -/
def release (a : Arbitrator) (i : Nat) : Delivery × Arbitrator :=
  let s := a.window.getD i ⟨0, 0, 0, false, 0, []⟩
  let freed := { a with
    window := a.window.modify i fun s => { s with occupied := false }
    occupied := a.occupied - 1 }
  (⟨s.firstSequence, s.count, s.bytes⟩,
    (freed.tally s.arm fun c => { c with datagramsFirst := c.datagramsFirst + 1,
                                         messagesFirst := c.messagesFirst + s.count }).deliver
      s.firstSequence s.count)

/-- The `while let` of `drain_ready`. Every turn empties a slot, so as many turns as there are
slots always run it to the end (`drainReady_spec`). -/
def drainLoop : Nat → Arbitrator → List Delivery × Arbitrator
  | 0, a => ([], a)
  | fuel + 1, a =>
    match a.findSlotCovering a.nextExpected with
    | none => ([], a)
    | some i =>
      let (d, a) := a.release i
      let (ds, a) := drainLoop fuel a
      (d :: ds, a)

/-- Releases every buffered datagram that is now contiguous. -/
def drainReady (a : Arbitrator) : List Delivery × Arbitrator := drainLoop a.window.length a

/-- Restarts the stream at `sequence` after recovering from a snapshot. -/
def resyncTo (a : Arbitrator) (sequence : Nat) : Arbitrator :=
  { a with
    window := a.window.map fun s => { s with occupied := false }
    occupied := 0
    nextExpected := sequence
    state := .live
    started := true
    resyncs := a.resyncs + 1 }

/-- Clears `Gapped` after the named range was filled by other means. -/
def clearGapped (a : Arbitrator) : Arbitrator :=
  if a.state = .gapped then { a with state := .live } else a

end Arbitrator

end MarketData.Handler
