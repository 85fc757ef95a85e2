import MarketData.Handler.Arbitrator

/-!
# `Handler/Recovery.lean` — the buffer that bridges a recovery

`crates/feed-handler/src/recovery.rs`. While a recovery is open the live traffic is held, and
once a snapshot or a replay has been adopted it is handed out again from the point the adopted
state reaches.

The Rust buffer preallocates its slots and counts the occupied ones; here `held` is the list of
the occupied ones, in the order they were filled. `replay` and `drain_contiguous` hand
`(skip_below, bytes)` pairs to a closure; here they answer the list of those pairs. The clock is
not modelled: whether the deadline has passed is an input of the loop. Of the counters only
`completed` is kept, the one the loop reads.

## A list for a preallocated array

`drain_contiguous` rotates the slots it hands out behind those it keeps and lowers the count. With
the occupied slots as a list that is the list after the drain: what was handed out is gone, what is
kept is in its old order. The rotation itself cannot be seen from outside, since a slot past the
count is never read before it is filled.

The scan of `held_discontinuity` and the loop of `drain_contiguous` follow the same datagrams with
the same bound, and are separate functions in the source; they are separate here as well
(`discontinuity`, `drainFrom`), and that they stop at the same place is a lemma about the two
(`Handler/Handing.lean`), not a definition.

Whether held datagrams are in order is nowhere checked in this type. It is a property of what the
loop holds (`Handler/Once.lean`).
-/

set_option autoImplicit false

namespace MarketData.Handler

open MarketData.Wire (Buf)

/-- Where recovery is. -/
inductive Recovery where
  | idle
  | awaitingSnapshot (gapFrom : Nat)
  | reconciling (fromSequence : Nat)
  deriving DecidableEq, Repr

structure RecoveryBuffer where
  state : Recovery
  held : List Delivery
  capacity : Nat
  /-- The size of a slot's buffer. -/
  maxDatagramBytes : Nat
  completed : Nat
  deriving Repr

namespace RecoveryBuffer

def new (capacity maxDatagramBytes : Nat) : RecoveryBuffer :=
  { state := .idle, held := [], capacity := max capacity 1, maxDatagramBytes, completed := 0 }

def isRecovering (r : RecoveryBuffer) : Bool := r.state ≠ .idle

/-- A second gap inside a recovery does not restart it. -/
def begin (r : RecoveryBuffer) (gapFrom : Nat) : RecoveryBuffer :=
  if r.isRecovering then r else { r with state := .awaitingSnapshot gapFrom, held := [] }

/-- Holds one live datagram, cut to the slot's buffer; `none` is `BufferFull`. -/
def hold (r : RecoveryBuffer) (d : Delivery) : Option RecoveryBuffer :=
  if r.held.length = r.capacity then none
  else some { r with held := r.held ++ [{ d with bytes := d.bytes.take r.maxDatagramBytes }] }

def snapshotIsUsable (r : RecoveryBuffer) (lastSequence : Nat) : Bool :=
  match r.state with
  | .awaitingSnapshot gapFrom => decide (gapFrom ≤ lastSequence + 1)
  | _ => false

def adoptSnapshot (r : RecoveryBuffer) (lastSequence : Nat) : RecoveryBuffer :=
  { r with state := .reconciling (lastSequence + 1) }

def gapFrom (r : RecoveryBuffer) : Option Nat :=
  match r.state with
  | .awaitingSnapshot gapFrom => some gapFrom
  | _ => none

/-- `none` when this recovery is no longer outstanding. -/
def adoptReplay (r : RecoveryBuffer) (through : Nat) : Option RecoveryBuffer :=
  match r.state with
  | .awaitingSnapshot _ => some { r with state := .reconciling (through + 1) }
  | _ => none

/-- The held datagrams that reach past `fromSequence`, each with where to start in it. -/
def replayFrom (fromSequence : Nat) (held : List Delivery) : List (Nat × Buf) :=
  (held.filter fun d => decide (fromSequence < d.firstSequence + d.count)).map
    fun d => (fromSequence, d.bytes)

/-- What `replay` hands to its closure. -/
def replay (r : RecoveryBuffer) : List (Nat × Buf) :=
  match r.state with
  | .reconciling fromSequence => replayFrom fromSequence r.held
  | _ => []

def reset (r : RecoveryBuffer) : RecoveryBuffer := { r with state := .idle, held := [] }

def complete (r : RecoveryBuffer) : RecoveryBuffer := { r with completed := r.completed + 1 }.reset

def fail (r : RecoveryBuffer) : RecoveryBuffer := r.reset

/-- The scan of `held_discontinuity`: the first datagram that starts past `expected`. -/
def discontinuity : Nat → List Delivery → Option (Nat × Nat)
  | _, [] => none
  | expected, d :: held =>
    if expected < d.firstSequence then some (expected, d.firstSequence - 1)
    else discontinuity (max expected (d.firstSequence + d.count)) held

/-- The first hole in the held traffic, scanning from `fromSequence`. -/
def heldDiscontinuity (r : RecoveryBuffer) (fromSequence : Nat) : Option (Nat × Nat) :=
  discontinuity fromSequence r.held

/-- Keeps the recovery open with a new starting point. -/
def reopen (r : RecoveryBuffer) (gapFrom : Nat) : RecoveryBuffer :=
  { r with state := .awaitingSnapshot gapFrom }

/-- What a pass over the held traffic did: the sequence it is complete through, exclusive, what went
to the closure, the messages dropped without evidence, what stays held. -/
structure Drain where
  completeThrough : Nat
  applied : List (Nat × Buf) := []
  unverified : Nat := 0
  rest : List Delivery := []
  deriving DecidableEq, Repr

/-- The loop of `drain_contiguous`. -/
def drainFrom (coveredFrom : Nat) : Nat → List Delivery → Drain
  | expected, [] => { completeThrough := expected }
  | expected, d :: held =>
    let stop := d.firstSequence + d.count
    if expected < d.firstSequence then { completeThrough := expected, rest := d :: held }
    else if expected < stop then
      let more := drainFrom coveredFrom stop held
      { more with applied := (expected, d.bytes) :: more.applied }
    else if coveredFrom ≤ d.firstSequence then drainFrom coveredFrom expected held
    else
      -- Below the frontier and outside what was recovered: dropped, and counted.
      let more := drainFrom coveredFrom expected held
      { more with unverified := d.count + more.unverified }

/-- Hands out the held traffic that is contiguous from `coveredThrough + 1` and discards it. -/
def drainContiguous (r : RecoveryBuffer) (coveredFrom coveredThrough : Nat) :
    Drain × RecoveryBuffer :=
  let drain := drainFrom coveredFrom (coveredThrough + 1) r.held
  (drain, { r with held := drain.rest })

end RecoveryBuffer

end MarketData.Handler
