import Mathlib.Data.List.Basic
import MarketData.Lib.Window
import MarketData.Wire.Header

/-!
# `Ring/Spsc.lean` — the shared-memory ring, one atomic step at a time

`Producer` and `Consumer` of `crates/ring/src/lib.rs` and of `cpp/ring/include/ring/spsc.hpp`, two
implementations of one agreement about the same pages. The producer owns `writeIndex`, the
consumer owns `readIndex`; each keeps a copy of the other's index and reads the real one only when
the copy says that it cannot go on.

The two sides run at the same time, so a call is not one transition here. A push is a load of
`writeIndex`, perhaps a load of `readIndex`, any number of writes into the slot, the write of its
length and the store that publishes it; a pop is a load of `readIndex`, perhaps a load of
`writeIndex`, the read of the length, a read for each byte and the store that gives the slot back.
Where each side stands in its call is its *phase*, and a run is any list of acts of the two. An act
that its side is in no position to take does nothing.

`published` and `seen` are what the two sides did, in order: they are written and never read.
-/

set_option autoImplicit false

namespace MarketData.Ring

open MarketData.Wire

/-! ## Geometry -/

/-- `RingError`, as far as a geometry can be refused. -/
inductive RingError where
  | capacityZero
  | capacityNotPowerOfTwo
  | badSlotSize
  deriving DecidableEq, Repr

/-- `SLOT_ALIGN`. -/
def slotAlign : Nat := 64

/-- `ring_slot::LEN`: the length prefix and its padding. -/
def slotPrefixLen : Nat := 8

/-- `check_geometry`. -/
def checkGeometry (capacity slotSize : UInt32) : Except RingError Unit :=
  if capacity = 0 then .error .capacityZero
  else if capacity &&& (capacity - 1) ≠ 0 then .error .capacityNotPowerOfTwo
  else if slotSize.toNat % slotAlign ≠ 0 ∨ slotSize.toNat ≤ slotPrefixLen then .error .badSlotSize
  else .ok ()

/-- A geometry `create` and `open` accept. -/
structure Geometry where
  capacity : UInt32
  slotSize : UInt32
  checked : checkGeometry capacity slotSize = .ok ()

namespace Geometry

variable (g : Geometry)

/-- The largest message a slot can hold. -/
def maxMessageLen : Nat := g.slotSize.toNat - slotPrefixLen

/-- The number of the slot a free-running index maps to, `slot_ptr`. -/
def slotOf (index : UInt64) : Nat := (index &&& (g.capacity.toUInt64 - 1)).toNat

end Geometry

/-! ## The two sides -/

/-- Which of the two implementations holds a role. -/
inductive Impl where
  | rust
  | cpp
  deriving DecidableEq, Repr

inductive PushError where
  | full
  | tooLarge (len capacity : Nat)
  /-- The fill closure declined to write; only the Rust one can. -/
  | abandoned
  deriving DecidableEq, Repr

/-- Where a producer stands in `push_with`. -/
inductive PushPhase where
  | idle
  /-- `w` is loaded, and the cached `readIndex` says that the ring is full. -/
  | full (w : UInt64)
  /-- The fill closure is running; `view` is the slot as it has written it so far. -/
  | filling (w : UInt64) (view : Buf)
  /-- The length prefix is written. -/
  | measured (w : UInt64) (n : Nat) (view : Buf)
  deriving DecidableEq, Repr

structure Producer where
  impl : Impl
  /-- The last `readIndex` this side saw. -/
  cachedRead : UInt64
  phase : PushPhase
  deriving DecidableEq, Repr

/-- Where a consumer stands in `pop_with`. -/
inductive PopPhase where
  | idle
  /-- `r` is loaded, and the cached `writeIndex` says that the ring is empty. -/
  | empty (r : UInt64)
  /-- The slot of `r` may be read. -/
  | ready (r : UInt64)
  /-- `visit` is running over `n` bytes, of which it has read `got`. -/
  | visiting (r : UInt64) (n : Nat) (got : Buf)
  /-- `visit` has returned. -/
  | visited (r : UInt64)
  deriving DecidableEq, Repr

structure Consumer where
  impl : Impl
  /-- The last `writeIndex` this side saw. -/
  cachedWrite : UInt64
  phase : PopPhase
  deriving DecidableEq, Repr

/-- A slot: its length prefix and the bytes behind it. -/
structure Slot where
  length : UInt32
  body : Buf
  deriving DecidableEq, Repr, Inhabited

/-- The shared pages and whoever is attached to them. -/
structure Shared where
  slots : List Slot
  writeIndex : UInt64
  readIndex : UInt64
  producer : Option Producer
  consumer : Option Consumer
  /-- The messages whose push succeeded. -/
  published : List Buf
  /-- The messages handed to `visit`. -/
  seen : List Buf
  deriving DecidableEq, Repr

/-- Pages of this geometry, with whatever the file held in its slots. -/
structure Geometry.Pages (g : Geometry) (slots : List Slot) : Prop where
  length : slots.length = g.capacity.toNat
  body : ∀ slot ∈ slots, slot.body.length = g.maxMessageLen

/-- `Ring::create`: the indices are zeroed, the slots are not. -/
def create (slots : List Slot) : Shared :=
  { slots := slots, writeIndex := 0, readIndex := 0, producer := none, consumer := none
    published := [], seen := [] }

/-! ## Acts -/

inductive PushAct where
  /-- Loads `writeIndex` and looks at the cached `readIndex`. -/
  | start
  /-- `push` of that many bytes, refused before anything is loaded. -/
  | tooLong (len : Nat)
  /-- Loads `readIndex` and looks again. -/
  | reload
  /-- The fill closure writes a byte of the slot. -/
  | fill (i : Nat) (b : UInt8)
  /-- The fill closure returns; the length prefix is written if that fits. -/
  | filled (n : Option Nat)
  /-- Stores `writeIndex`. -/
  | publish
  deriving DecidableEq, Repr

inductive PopAct where
  /-- Loads `readIndex` and looks at the cached `writeIndex`. -/
  | start
  /-- Loads `writeIndex` and looks again. -/
  | reload
  /-- Reads the length prefix. -/
  | measure
  /-- `visit` reads the next byte. -/
  | read
  /-- `visit` returns. -/
  | visited
  /-- Stores `readIndex`. -/
  | giveBack
  deriving DecidableEq, Repr

inductive Act where
  | attachProducer (impl : Impl)
  | detachProducer
  | attachConsumer (impl : Impl)
  | detachConsumer
  | push (a : PushAct)
  | pop (a : PopAct)
  deriving DecidableEq, Repr

/-- What an act tells the caller of `push_with` or `pop_with`. -/
inductive Answer where
  | pushed (n : Nat)
  | refused (e : PushError)
  | popped
  | empty
  deriving DecidableEq, Repr

section Steps

variable (g : Geometry)

/-- The slot of an index. -/
def Shared.slot (s : Shared) (index : UInt64) : Slot := s.slots.getD (g.slotOf index) default

def Shared.setSlot (s : Shared) (index : UInt64) (slot : Slot) : Shared :=
  { s with slots := s.slots.set (g.slotOf index) slot }

def Shared.setProducer (s : Shared) (p : Producer) (phase : PushPhase) : Shared :=
  { s with producer := some { p with phase := phase } }

def Shared.setConsumer (s : Shared) (c : Consumer) (phase : PopPhase) : Shared :=
  { s with consumer := some { c with phase := phase } }

/-- The producer's next act in `push_with`. -/
def pushStep (s : Shared) (p : Producer) : PushAct → Shared × Option Answer
  | .start =>
    match p.phase with
    | .idle =>
      let w := s.writeIndex
      if g.capacity.toUInt64 ≤ w - p.cachedRead then (s.setProducer p (.full w), none)
      else (s.setProducer p (.filling w (s.slot g w).body), none)
    | _ => (s, none)
  | .tooLong len =>
    match p.phase with
    | .idle =>
      if g.maxMessageLen < len then (s, some (.refused (.tooLarge len g.maxMessageLen)))
      else (s, none)
    | _ => (s, none)
  | .reload =>
    match p.phase with
    | .full w =>
      let p := { p with cachedRead := s.readIndex }
      if g.capacity.toUInt64 ≤ w - p.cachedRead then
        (s.setProducer p .idle, some (.refused .full))
      else (s.setProducer p (.filling w (s.slot g w).body), none)
    | _ => (s, none)
  | .fill i b =>
    match p.phase with
    | .filling w view =>
      let slot := s.slot g w
      ((s.setSlot g w { slot with body := slot.body.set i b }).setProducer p
        (.filling w (view.set i b)), none)
    | _ => (s, none)
  | .filled none =>
    match p.phase, p.impl with
    | .filling _ _, .rust => (s.setProducer p .idle, some (.refused .abandoned))
    | _, _ => (s, none)
  | .filled (some n) =>
    match p.phase with
    | .filling w view =>
      if g.maxMessageLen < n then
        (s.setProducer p .idle, some (.refused (.tooLarge n g.maxMessageLen)))
      else
        ((s.setSlot g w { s.slot g w with length := UInt32.ofNat n }).setProducer p
          (.measured w n view), none)
    | _ => (s, none)
  | .publish =>
    match p.phase with
    | .measured w n view =>
      ({ s.setProducer p .idle with
          writeIndex := w + 1, published := s.published ++ [view.take n] }, some (.pushed n))
    | _ => (s, none)

/-- The consumer's next act in `pop_with`. -/
def popStep (s : Shared) (c : Consumer) : PopAct → Shared × Option Answer
  | .start =>
    match c.phase with
    | .idle =>
      let r := s.readIndex
      if c.cachedWrite ≤ r then (s.setConsumer c (.empty r), none)
      else (s.setConsumer c (.ready r), none)
    | _ => (s, none)
  | .reload =>
    match c.phase with
    | .empty r =>
      let c := { c with cachedWrite := s.writeIndex }
      if c.cachedWrite ≤ r then (s.setConsumer c .idle, some .empty)
      else (s.setConsumer c (.ready r), none)
    | _ => (s, none)
  | .measure =>
    match c.phase with
    | .ready r =>
      -- The clamp is a bounds guarantee, for pages that some other program wrote.
      let n := min (s.slot g r).length.toNat g.maxMessageLen
      (s.setConsumer c (.visiting r n []), none)
    | _ => (s, none)
  | .read =>
    match c.phase with
    | .visiting r n got =>
      if got.length < n then
        (s.setConsumer c (.visiting r n (got ++ [(s.slot g r).body.getD got.length 0])), none)
      else (s, none)
    | _ => (s, none)
  | .visited =>
    match c.phase with
    | .visiting r n got =>
      if got.length = n then
        ({ s.setConsumer c (.visited r) with seen := s.seen ++ [got] }, none)
      else (s, none)
    | _ => (s, none)
  | .giveBack =>
    match c.phase with
    | .visited r => ({ s.setConsumer c .idle with readIndex := r + 1 }, some .popped)
    | _ => (s, none)

/-- One act of either side. A role is taken only while nobody holds it. A producer may go at any
point, a consumer at any point but one: `pop_with` borrows the consumer until the store that
follows `visit`, so what `visit` has seen is given back before the consumer can go. -/
def step (s : Shared) : Act → Shared × Option Answer
  | .attachProducer impl =>
    match s.producer with
    | none => ({ s with producer := some ⟨impl, s.readIndex, .idle⟩ }, none)
    | some _ => (s, none)
  | .detachProducer => ({ s with producer := none }, none)
  | .attachConsumer impl =>
    match s.consumer with
    | none => ({ s with consumer := some ⟨impl, s.writeIndex, .idle⟩ }, none)
    | some _ => (s, none)
  | .detachConsumer =>
    match s.consumer with
    | some { phase := .visited _, .. } => (s, none)
    | _ => ({ s with consumer := none }, none)
  | .push a =>
    match s.producer with
    | none => (s, none)
    | some p => pushStep g s p a
  | .pop a =>
    match s.consumer with
    | none => (s, none)
    | some c => popStep g s c a

/-- The pages after an act. -/
def after (s : Shared) (a : Act) : Shared := (step g s a).1

/-- What the act's caller is told. -/
def answer (s : Shared) (a : Act) : Option Answer := (step g s a).2

end Steps

end MarketData.Ring
