import Mathlib.Data.List.Forall2
import MarketData.Lib.Run
import MarketData.Ring.Spsc

/-!
# `Ring/Order.lean` — the ring delivers in order, under every interleaving

What holds between any two acts is `Invariant`. Five numbers carry it: the two indices, the two
copies of them and the capacity. A copy is never ahead of the index it copies, the indices are
never more than a capacity apart, and so the slot the producer writes is never one the consumer
may read. The slots between the indices hold the messages that were published and not yet given
back, in order, whatever either side is in the middle of.

Each act keeps the invariant (`invariant_push`, `invariant_pop`), and that it is `Honest` (a push is
refused just where the ring is full, a refused push changes nothing, a pop takes the oldest message)
follows from the invariant before it. The atomic accesses are the acts of `step`, so an interleaving
is a list of them; weaker orderings than the ones the source names are not modelled, and neither is
a reader that looks at a slot it was not given.

## Where the two sides stand

An invariant of the indices alone would not survive an act in the middle of a push: between the
write of a slot's length and the store that publishes it, the slot is neither free nor published.
`Agrees` says for each phase of either side what it knows, the value it loaded, the bytes it has
written so far, and that what it knows is still true. **It stays true because the other side can
only help**: the consumer moves `readIndex` forward, which makes no slot scarcer, and the producer
moves `writeIndex` forward, which takes nothing away.

The indices are 64 bits wide and run freely; a run is followed for fewer than `2^64` pushes.
-/

set_option autoImplicit false

namespace MarketData.Ring

open MarketData.Wire MarketData.Window MarketData.Run

/-! ## The mask -/

namespace Geometry

variable (g : Geometry)

theorem capacity_ne_zero : g.capacity ≠ 0 := by
  intro h
  have hc := g.checked
  rw [checkGeometry, if_pos h] at hc
  cases hc

theorem capacity_pos : 0 < g.capacity.toNat := by
  rw [Nat.pos_iff_ne_zero]
  exact fun h => g.capacity_ne_zero (UInt32.toNat.inj h)

theorem capacity_pow : ∃ k, g.capacity.toNat = 2 ^ k := by
  have hpos := g.capacity_pos
  have hmask : g.capacity &&& (g.capacity - 1) = 0 := by
    by_contra hne
    have hc := g.checked
    rw [checkGeometry, if_neg g.capacity_ne_zero, if_pos hne] at hc
    cases hc
  have hle : (1 : UInt32) ≤ g.capacity := UInt32.le_iff_toNat_le.mpr hpos
  have hnat : g.capacity.toNat &&& (g.capacity.toNat - 1) = 0 := by
    have h := congrArg UInt32.toNat hmask
    rwa [UInt32.toNat_and, UInt32.toNat_sub_of_le _ _ hle] at h
  exact (Nat.and_sub_one_eq_zero_iff_isPowerOfTwo (by omega)).mp hnat

theorem toNat_capacity : g.capacity.toUInt64.toNat = g.capacity.toNat := UInt32.toNat_toUInt64 _

/-- The mask is a remainder. -/
theorem slotOf_eq (index : UInt64) : g.slotOf index = index.toNat % g.capacity.toNat := by
  obtain ⟨k, hk⟩ := g.capacity_pow
  have hpos := g.capacity_pos
  have hle : (1 : UInt64) ≤ g.capacity.toUInt64 := by
    rw [UInt64.le_iff_toNat_le, toNat_capacity]
    exact hpos
  rw [slotOf, UInt64.toNat_and, UInt64.toNat_sub_of_le _ _ hle, toNat_capacity, hk]
  exact Nat.and_two_pow_sub_one_eq_mod _ _

theorem maxMessageLen_lt : g.maxMessageLen < 2 ^ 32 :=
  Nat.lt_of_le_of_lt (Nat.sub_le _ _) g.slotSize.toNat_lt

end Geometry

/-! ## What holds between two acts -/

/-- A slot that holds a message. -/
structure Slot.Holds (slot : Slot) (m : Buf) : Prop where
  length : slot.length.toNat = m.length
  body : slot.body.take m.length = m

/-- The slots between the indices `r` and `w` hold the messages not yet given back. -/
structure Memory (g : Geometry) (slots : List Slot) (w r : UInt64) (published : List Buf) :
    Prop where
  pages : g.Pages slots
  written : w.toNat = published.length
  read_le : r.toNat ≤ w.toNat
  depth_le : w.toNat ≤ r.toNat + g.capacity.toNat
  holds : List.Forall₂ Slot.Holds (window slots r.toNat (w.toNat - r.toNat))
    (published.drop r.toNat)

/-- Where a producer stands agrees with the pages. -/
def PushPhase.Agrees (g : Geometry) (slots : List Slot) (w r : UInt64) : PushPhase → Prop
  | .idle => True
  | .full w' => w' = w
  | .filling w' view =>
    w' = w ∧ w.toNat < r.toNat + g.capacity.toNat ∧ (entry slots w.toNat).body = view
  | .measured w' n view =>
    w' = w ∧ w.toNat < r.toNat + g.capacity.toNat ∧ (entry slots w.toNat).body = view ∧
      n ≤ g.maxMessageLen ∧ (entry slots w.toNat).length.toNat = n

/-- Where a consumer stands agrees with the pages. -/
def PopPhase.Agrees (w r : UInt64) (published : List Buf) : PopPhase → Prop
  | .idle => True
  | .empty r' => r' = r
  | .ready r' => r' = r ∧ r.toNat < w.toNat
  | .visiting r' n got =>
    r' = r ∧ r.toNat < w.toNat ∧ ∃ m, published[r.toNat]? = some m ∧ n = m.length ∧ got <+: m
  | .visited r' => r' = r ∧ r.toNat < w.toNat

/-- How many messages `visit` is ahead of `readIndex`. -/
def ahead : Option Consumer → Nat
  | some { phase := .visited _, .. } => 1
  | _ => 0

/-- A producer's copy of `readIndex` is not ahead of it. -/
structure Producer.Agrees (g : Geometry) (slots : List Slot) (w r : UInt64) (p : Producer) :
    Prop where
  cached : p.cachedRead.toNat ≤ r.toNat
  phase : p.phase.Agrees g slots w r

/-- A consumer's copy of `writeIndex` is not ahead of it. -/
structure Consumer.Agrees (w r : UInt64) (published : List Buf) (c : Consumer) : Prop where
  cached : c.cachedWrite.toNat ≤ w.toNat
  phase : c.phase.Agrees w r published

/-- **What holds between any two acts.** -/
structure Invariant (g : Geometry) (s : Shared) : Prop where
  memory : Memory g s.slots s.writeIndex s.readIndex s.published
  seen : s.seen = s.published.take (s.readIndex.toNat + ahead s.consumer)
  producer : ∀ p, s.producer = some p → p.Agrees g s.slots s.writeIndex s.readIndex
  consumer : ∀ c, s.consumer = some c → c.Agrees s.writeIndex s.readIndex s.published

section Rules

variable {g : Geometry} {s : Shared} {slots : List Slot} {w r : UInt64} {published : List Buf}
  {p : Producer} {c : Consumer}

theorem invariant_create (hslots : g.Pages slots) : Invariant g (create slots) where
  memory := ⟨hslots, rfl, Nat.le_refl _, Nat.zero_le _, List.Forall₂.nil⟩
  seen := rfl
  producer := by
    intro p hp
    cases hp
  consumer := by
    intro c hc
    cases hc

theorem slot_eq (hs : Invariant g s) (index : UInt64) :
    s.slot g index = entry s.slots index.toNat := by
  rw [Shared.slot, g.slotOf_eq, ← hs.memory.pages.length]
  rfl

theorem setSlot_eq (hs : Invariant g s) (index : UInt64) (slot : Slot) :
    s.setSlot g index slot
      = { s with slots := s.slots.set (index.toNat % s.slots.length) slot } := by
  rw [Shared.setSlot, g.slotOf_eq, hs.memory.pages.length]

theorem Memory.slots_pos (hm : Memory g slots w r published) : 0 < slots.length := by
  rw [hm.pages.length]
  exact g.capacity_pos

theorem Memory.body_length (hm : Memory g slots w r published) (i : Nat) :
    (entry slots i).body.length = g.maxMessageLen :=
  hm.pages.body _ (entry_mem hm.slots_pos i)

/-- Where there is room the slot of `writeIndex` may be written. -/
theorem Memory.write (hm : Memory g slots w r published)
    (hroom : w.toNat < r.toNat + g.capacity.toNat) {slot : Slot}
    (hbody : slot.body.length = g.maxMessageLen) :
    Memory g (slots.set (w.toNat % slots.length) slot) w r published where
  pages := by
    refine ⟨?_, fun x hx => ?_⟩
    · rw [List.length_set]
      exact hm.pages.length
    · rcases List.mem_or_eq_of_mem_set hx with hold | rfl
      · exact hm.pages.body x hold
      · exact hbody
  written := hm.written
  read_le := hm.read_le
  depth_le := hm.depth_le
  holds := by
    have hle := hm.read_le
    have hlen := hm.pages.length
    rw [window_set_behind (by omega) (by omega)]
    exact hm.holds

/-- The oldest message not given back is in the slot of `readIndex`. -/
theorem Memory.oldest (hm : Memory g slots w r published) (hlt : r.toNat < w.toNat) :
    ∃ m, published[r.toNat]? = some m ∧ (entry slots r.toNat).Holds m := by
  have hr : r.toNat < published.length := by
    rw [← hm.written]
    exact hlt
  obtain ⟨n, hn⟩ : ∃ n, w.toNat - r.toNat = n + 1 := ⟨w.toNat - r.toNat - 1, by omega⟩
  have hholds := hm.holds
  rw [hn, window_cons, List.drop_eq_getElem_cons hr] at hholds
  cases hholds with
  | cons hfirst _ => exact ⟨published[r.toNat], List.getElem?_eq_getElem hr, hfirst⟩

theorem Slot.Holds.length_le {slot : Slot} {m : Buf} (h : slot.Holds m) :
    m.length ≤ slot.body.length := by
  have hlen := congrArg List.length h.body
  rw [List.length_take] at hlen
  omega

/-! ### The producer's acts -/

/-- The producer moves on, and nothing else does. -/
theorem Invariant.setProducer (hs : Invariant g s) {phase : PushPhase}
    (hcached : p.cachedRead.toNat ≤ s.readIndex.toNat)
    (hphase : phase.Agrees g s.slots s.writeIndex s.readIndex) :
    Invariant g (s.setProducer p phase) where
  memory := hs.memory
  seen := hs.seen
  producer := by
    intro q hq
    cases hq
    exact ⟨hcached, hphase⟩
  consumer := hs.consumer

/-- A copy of `readIndex` that leaves room says so of `readIndex` itself. -/
theorem Invariant.room (hs : Invariant g s) {cached : UInt64}
    (hcached : cached.toNat ≤ s.readIndex.toNat)
    (hroom : ¬ g.capacity.toUInt64 ≤ s.writeIndex - cached) :
    s.writeIndex.toNat < s.readIndex.toNat + g.capacity.toNat := by
  have hle := hs.memory.read_le
  have hsub : cached ≤ s.writeIndex := UInt64.le_iff_toNat_le.mpr (by omega)
  rw [UInt64.le_iff_toNat_le, UInt64.toNat_sub_of_le _ _ hsub, g.toNat_capacity] at hroom
  omega

/-- A push that may go on starts with the slot as it is. -/
theorem Invariant.startFill (hs : Invariant g s)
    (hcached : p.cachedRead.toNat ≤ s.readIndex.toNat)
    (hroom : ¬ g.capacity.toUInt64 ≤ s.writeIndex - p.cachedRead) :
    Invariant g (s.setProducer p (.filling s.writeIndex (s.slot g s.writeIndex).body)) :=
  hs.setProducer hcached ⟨rfl, hs.room hcached hroom, by rw [slot_eq hs]⟩

/-- The producer writes its slot and moves on. -/
theorem Invariant.write (hs : Invariant g s)
    (hcached : p.cachedRead.toNat ≤ s.readIndex.toNat)
    (hroom : s.writeIndex.toNat < s.readIndex.toNat + g.capacity.toNat) {slot : Slot}
    (hbody : slot.body.length = g.maxMessageLen) {phase : PushPhase}
    (hphase : phase.Agrees g (s.slots.set (s.writeIndex.toNat % s.slots.length) slot)
      s.writeIndex s.readIndex) :
    Invariant g ((s.setSlot g s.writeIndex slot).setProducer p phase) := by
  have hmem := hs.memory.write hroom hbody
  rw [setSlot_eq hs]
  refine ⟨hmem, hs.seen, ?_, hs.consumer⟩
  intro q hq
  cases hq
  exact ⟨hcached, hphase⟩

/-- Publishing puts the message behind the others. -/
theorem Memory.publish (hm : Memory g slots w r published)
    (hroom : w.toNat < r.toNat + g.capacity.toNat) {m : Buf}
    (hslot : (entry slots w.toNat).Holds m) (hcount : published.length + 1 < 2 ^ 64) :
    Memory g slots (w + 1) r (published ++ [m]) := by
  have hle := hm.read_le
  have hw : (w + 1).toNat = w.toNat + 1 := by
    rw [UInt64.toNat_add, UInt64.toNat_one, hm.written]
    exact Nat.mod_eq_of_lt hcount
  refine ⟨hm.pages, ?_, ?_, ?_, ?_⟩
  · rw [hw, hm.written, List.length_append, List.length_singleton]
  · omega
  · omega
  · have hdrop : (published ++ [m]).drop r.toNat = published.drop r.toNat ++ [m] :=
      List.drop_append_of_le_length (by rw [← hm.written]; exact hle)
    have hend : r.toNat + (w.toNat - r.toNat) = w.toNat := by omega
    rw [hdrop, hw, show w.toNat + 1 - r.toNat = (w.toNat - r.toNat) + 1 by omega, window_succ, hend]
    exact List.rel_append hm.holds (List.Forall₂.cons hslot List.Forall₂.nil)

/-- What a consumer is doing is not disturbed by one more message. -/
theorem Consumer.Agrees.publish (hm : Memory g slots w r published)
    (hc : c.Agrees w r published) {m : Buf} (hcount : published.length + 1 < 2 ^ 64) :
    c.Agrees (w + 1) r (published ++ [m]) := by
  have hw : (w + 1).toNat = w.toNat + 1 := by
    rw [UInt64.toNat_add, UInt64.toNat_one, hm.written]
    exact Nat.mod_eq_of_lt hcount
  have hcached := hc.cached
  refine ⟨by omega, ?_⟩
  have hphase := hc.phase
  cases hp : c.phase with
  | idle => trivial
  | empty r' =>
    rw [hp] at hphase
    exact hphase
  | ready r' =>
    rw [hp] at hphase
    exact ⟨hphase.1, by have := hphase.2; omega⟩
  | visiting r' n got =>
    rw [hp] at hphase
    obtain ⟨hr, hlt, m', hm', hrest⟩ := hphase
    refine ⟨hr, by omega, m', ?_, hrest⟩
    rw [List.getElem?_append_left (by rw [← hm.written]; exact hlt)]
    exact hm'
  | visited r' =>
    rw [hp] at hphase
    exact ⟨hphase.1, by have := hphase.2; omega⟩

/-- A consumer ahead of `readIndex` is not ahead of `writeIndex`. -/
theorem Invariant.ahead_le (hs : Invariant g s) :
    s.readIndex.toNat + ahead s.consumer ≤ s.published.length := by
  have hle := hs.memory.read_le
  rw [← hs.memory.written]
  cases hc : s.consumer with
  | none => exact hle
  | some c =>
    have hphase := (hs.consumer c hc).phase
    obtain ⟨impl, cached, phase⟩ := c
    cases phase with
    | visited r => exact hphase.2
    | _ => exact hle

/-- The store of `writeIndex` keeps the invariant. -/
theorem Invariant.publish (hs : Invariant g s) (hp : s.producer = some p) {w : UInt64} {n : Nat}
    {view : Buf} (hphase : p.phase = .measured w n view)
    (hcount : s.published.length + 1 < 2 ^ 64) :
    Invariant g { s.setProducer p .idle with
      writeIndex := w + 1, published := s.published ++ [view.take n] } := by
  obtain ⟨hcached, hagrees⟩ := hs.producer p hp
  rw [hphase] at hagrees
  obtain ⟨rfl, hroom, hview, hn, hlen⟩ := hagrees
  have hbody := hs.memory.body_length s.writeIndex.toNat
  rw [hview] at hbody
  have htake : (view.take n).length = n := by
    rw [List.length_take]
    omega
  have hslot : (entry s.slots s.writeIndex.toNat).Holds (view.take n) := by
    refine ⟨?_, ?_⟩
    · rw [hlen, htake]
    · rw [hview, htake]
  refine ⟨hs.memory.publish hroom hslot hcount, ?_, ?_, ?_⟩
  · show s.seen = (s.published ++ [view.take n]).take (s.readIndex.toNat + ahead s.consumer)
    rw [List.take_append_of_le_length hs.ahead_le]
    exact hs.seen
  · intro q hq
    cases hq
    exact ⟨hcached, trivial⟩
  · intro c hc
    exact (hs.consumer c hc).publish hs.memory hcount

/-- **Every act of the producer keeps the invariant.** -/
theorem invariant_push (hs : Invariant g s) (hp : s.producer = some p) (a : PushAct)
    (hcount : (pushStep g s p a).1.published.length < 2 ^ 64) :
    Invariant g (pushStep g s p a).1 := by
  obtain ⟨hcached, hagrees⟩ := hs.producer p hp
  cases a with
  | start =>
    cases hphase : p.phase with
    | idle =>
      simp only [pushStep, hphase]
      split
      · exact hs.setProducer hcached rfl
      · rename_i hroom
        exact hs.startFill hcached hroom
    | _ =>
      simp only [pushStep, hphase]
      exact hs
  | tooLong len =>
    cases hphase : p.phase with
    | idle =>
      simp only [pushStep, hphase]
      split <;> exact hs
    | _ =>
      simp only [pushStep, hphase]
      exact hs
  | reload =>
    cases hphase : p.phase with
    | full w =>
      rw [hphase] at hagrees
      cases hagrees
      simp only [pushStep, hphase]
      split
      · exact hs.setProducer (Nat.le_refl _) trivial
      · rename_i hroom
        exact hs.startFill (Nat.le_refl _) hroom
    | _ =>
      simp only [pushStep, hphase]
      exact hs
  | fill i b =>
    cases hphase : p.phase with
    | filling w view =>
      rw [hphase] at hagrees
      obtain ⟨rfl, hroom, hview⟩ := hagrees
      simp only [pushStep, hphase, slot_eq hs]
      refine hs.write hcached hroom ?_ ⟨rfl, hroom, ?_⟩
      · rw [List.length_set]
        exact hs.memory.body_length _
      · rw [entry_set_self hs.memory.slots_pos, hview]
    | _ =>
      simp only [pushStep, hphase]
      exact hs
  | filled n =>
    cases n with
    | none =>
      cases hphase : p.phase with
      | filling w view =>
        cases himpl : p.impl with
        | rust =>
          simp only [pushStep, hphase, himpl]
          exact hs.setProducer hcached trivial
        | cpp =>
          simp only [pushStep, hphase, himpl]
          exact hs
      | _ =>
        simp only [pushStep, hphase]
        exact hs
    | some n =>
      cases hphase : p.phase with
      | filling w view =>
        rw [hphase] at hagrees
        obtain ⟨rfl, hroom, hview⟩ := hagrees
        simp only [pushStep, hphase, slot_eq hs]
        split
        · exact hs.setProducer hcached trivial
        · rename_i hfits
          have hlen : (UInt32.ofNat n).toNat = n := by
            have hlt := g.maxMessageLen_lt
            rw [UInt32.toNat_ofNat']
            exact Nat.mod_eq_of_lt (by omega)
          refine hs.write hcached hroom ?_ ?_
          · exact hs.memory.body_length _
          · refine ⟨rfl, hroom, ?_, Nat.not_lt.mp hfits, ?_⟩
            · rw [entry_set_self hs.memory.slots_pos]
              exact hview
            · rw [entry_set_self hs.memory.slots_pos]
              exact hlen
      | _ =>
        simp only [pushStep, hphase]
        exact hs
  | publish =>
    cases hphase : p.phase with
    | measured w n view =>
      simp only [pushStep, hphase] at hcount ⊢
      refine hs.publish hp hphase ?_
      simpa using hcount
    | _ =>
      simp only [pushStep, hphase]
      exact hs

/-! ### The consumer's acts -/

/-- The consumer moves on without giving anything back, and nothing else does. -/
theorem Invariant.setConsumer (hs : Invariant g s) {phase : PopPhase}
    (hcached : c.cachedWrite.toNat ≤ s.writeIndex.toNat)
    (hphase : phase.Agrees s.writeIndex s.readIndex s.published)
    (hahead : ahead s.consumer = ahead (some { c with phase := phase })) :
    Invariant g (s.setConsumer c phase) where
  memory := hs.memory
  seen := by
    show s.seen = s.published.take (s.readIndex.toNat + ahead (some { c with phase := phase }))
    rw [← hahead]
    exact hs.seen
  producer := hs.producer
  consumer := by
    intro d hd
    cases hd
    exact ⟨hcached, hphase⟩

/-- A byte of the message in a slot. -/
theorem Slot.Holds.getElem? {slot : Slot} {m : Buf} (h : slot.Holds m) {i : Nat}
    (hi : i < m.length) : m[i]? = some (slot.body.getD i 0) := by
  have hle := h.length_le
  rw [← h.body, List.getElem?_take_of_lt hi, List.getD_eq_getElem?_getD,
    List.getElem?_eq_getElem (Nat.lt_of_lt_of_le hi hle)]
  rfl

/-- One more byte of a message. -/
theorem isPrefix_concat {α : Type*} {l m : List α} {x : α} (h : l <+: m)
    (hx : m[l.length]? = some x) : l ++ [x] <+: m := by
  obtain ⟨rest, rfl⟩ := h
  cases rest with
  | nil => simp at hx
  | cons y rest =>
    have hy : y = x := by simpa using hx
    exact ⟨rest, by rw [hy, List.append_assoc, List.singleton_append]⟩

/-- Giving a slot back makes the next one the oldest. -/
theorem Memory.giveBack (hm : Memory g slots w r published) (hlt : r.toNat < w.toNat) :
    Memory g slots w (r + 1) published ∧ (r + 1).toNat = r.toNat + 1 := by
  have hw := w.toNat_lt
  have hdepth := hm.depth_le
  have hr : (r + 1).toNat = r.toNat + 1 := by
    rw [UInt64.toNat_add, UInt64.toNat_one]
    exact Nat.mod_eq_of_lt (by omega)
  obtain ⟨n, hn⟩ : ∃ n, w.toNat - r.toNat = n + 1 := ⟨w.toNat - r.toNat - 1, by omega⟩
  have hlen : r.toNat < published.length := by
    rw [← hm.written]
    exact hlt
  have hholds := hm.holds
  rw [hn, window_cons, List.drop_eq_getElem_cons hlen] at hholds
  refine ⟨⟨hm.pages, hm.written, by omega, by omega, ?_⟩, hr⟩
  rw [hr, show w.toNat - (r.toNat + 1) = n by omega]
  cases hholds with
  | cons _ hrest => exact hrest

/-- The store of `readIndex` keeps the invariant. -/
theorem Invariant.giveBack (hs : Invariant g s) (hc : s.consumer = some c) {r : UInt64}
    (hphase : c.phase = .visited r) :
    Invariant g { s.setConsumer c .idle with readIndex := r + 1 } := by
  obtain ⟨hcached, hagrees⟩ := hs.consumer c hc
  rw [hphase] at hagrees
  obtain ⟨rfl, hlt⟩ := hagrees
  obtain ⟨hmem, hr⟩ := hs.memory.giveBack hlt
  have hahead : ahead s.consumer = 1 := by
    rw [hc]
    obtain ⟨impl, cached, phase⟩ := c
    cases hphase
    rfl
  refine ⟨hmem, ?_, ?_, ?_⟩
  · show s.seen = s.published.take ((s.readIndex + 1).toNat + 0)
    rw [hs.seen, hahead, hr]
  · intro q hq
    obtain ⟨hqc, hqp⟩ := hs.producer q hq
    refine ⟨?_, ?_⟩
    · show q.cachedRead.toNat ≤ (s.readIndex + 1).toNat
      omega
    · show q.phase.Agrees g s.slots s.writeIndex (s.readIndex + 1)
      cases hq' : q.phase with
      | idle => trivial
      | full w =>
        rw [hq'] at hqp
        exact hqp
      | filling w view =>
        rw [hq'] at hqp
        exact ⟨hqp.1, by have := hqp.2.1; omega, hqp.2.2⟩
      | measured w n view =>
        rw [hq'] at hqp
        exact ⟨hqp.1, by have := hqp.2.1; omega, hqp.2.2⟩
  · intro d hd
    cases hd
    exact ⟨hcached, trivial⟩

/-- What `visit` read is the oldest message not given back. -/
theorem Invariant.visited (hs : Invariant g s) (hc : s.consumer = some c) {r : UInt64} {n : Nat}
    {got : Buf} (hphase : c.phase = .visiting r n got) (hall : got.length = n) :
    Invariant g { s.setConsumer c (.visited r) with seen := s.seen ++ [got] } := by
  obtain ⟨hcached, hagrees⟩ := hs.consumer c hc
  rw [hphase] at hagrees
  obtain ⟨rfl, hlt, m, hm, hn, hgot⟩ := hagrees
  have hwhole : got = m := hgot.eq_of_length (hall.trans hn)
  have hahead : ahead s.consumer = 0 := by
    rw [hc]
    obtain ⟨impl, cached, phase⟩ := c
    cases hphase
    rfl
  refine ⟨hs.memory, ?_, hs.producer, ?_⟩
  · show s.seen ++ [got] = s.published.take (s.readIndex.toNat + 1)
    rw [hs.seen, hahead, Nat.add_zero, List.take_add_one, hm, hwhole]
    rfl
  · intro d hd
    cases hd
    exact ⟨hcached, rfl, hlt⟩

/-- **Every act of the consumer keeps the invariant.** -/
theorem invariant_pop (hs : Invariant g s) (hc : s.consumer = some c) (a : PopAct) :
    Invariant g (popStep g s c a).1 := by
  obtain ⟨hcached, hagrees⟩ := hs.consumer c hc
  have hahead : ∀ phase, ahead (some c) = ahead (some { c with phase := phase }) →
      ahead s.consumer = ahead (some { c with phase := phase }) := by
    intro phase h
    rw [hc]
    exact h
  obtain ⟨impl, cached, phase⟩ := c
  cases a with
  | start =>
    cases phase with
    | idle =>
      simp only [popStep]
      split
      · exact hs.setConsumer hcached rfl (hahead _ rfl)
      · rename_i hmore
        refine hs.setConsumer hcached ⟨rfl, ?_⟩ (hahead _ rfl)
        rw [UInt64.le_iff_toNat_le] at hmore
        exact Nat.lt_of_lt_of_le (Nat.not_le.mp hmore) hcached
    | _ => exact hs
  | reload =>
    cases phase with
    | empty r =>
      cases hagrees
      simp only [popStep]
      split
      · exact hs.setConsumer (Nat.le_refl _) trivial (hahead _ rfl)
      · rename_i hmore
        refine hs.setConsumer (Nat.le_refl _) ⟨rfl, ?_⟩ (hahead _ rfl)
        rw [UInt64.le_iff_toNat_le] at hmore
        exact Nat.not_le.mp hmore
    | _ => exact hs
  | measure =>
    cases phase with
    | ready r =>
      obtain ⟨rfl, hlt⟩ := hagrees
      obtain ⟨m, hm, hslot⟩ := hs.memory.oldest hlt
      have hle := hslot.length_le
      rw [hs.memory.body_length] at hle
      refine hs.setConsumer hcached ⟨rfl, hlt, m, hm, ?_, List.nil_prefix⟩ (hahead _ rfl)
      rw [slot_eq hs, hslot.length]
      exact Nat.min_eq_left hle
    | _ => exact hs
  | read =>
    cases phase with
    | visiting r n got =>
      obtain ⟨rfl, hlt, m, hm, hn, hgot⟩ := hagrees
      simp only [popStep]
      split
      · rename_i hmore
        obtain ⟨m', hm', hslot⟩ := hs.memory.oldest hlt
        rw [hm] at hm'
        cases hm'
        refine hs.setConsumer hcached ⟨rfl, hlt, m, hm, hn, ?_⟩ (hahead _ rfl)
        refine isPrefix_concat hgot ?_
        rw [slot_eq hs]
        exact hslot.getElem? (by omega)
      · exact hs
    | _ => exact hs
  | visited =>
    cases phase with
    | visiting r n got =>
      simp only [popStep]
      split
      · rename_i hall
        exact hs.visited hc rfl hall
      · exact hs
    | _ => exact hs
  | giveBack =>
    cases phase with
    | visited r => exact hs.giveBack hc rfl
    | _ => exact hs

/-! ### A run -/

/-- **Every act keeps the invariant**, as long as the index does not wrap. -/
theorem invariant_after (hs : Invariant g s) (a : Act)
    (hcount : (after g s a).published.length < 2 ^ 64) : Invariant g (after g s a) := by
  cases a with
  | attachProducer impl =>
    cases hp : s.producer with
    | none =>
      simp only [after, step, hp]
      refine ⟨hs.memory, hs.seen, ?_, hs.consumer⟩
      intro q hq
      cases hq
      exact ⟨Nat.le_refl _, trivial⟩
    | some p =>
      simp only [after, step, hp]
      exact hs
  | detachProducer =>
    refine ⟨hs.memory, hs.seen, ?_, hs.consumer⟩
    intro q hq
    cases hq
  | attachConsumer impl =>
    cases hc : s.consumer with
    | none =>
      simp only [after, step, hc]
      refine ⟨hs.memory, ?_, hs.producer, ?_⟩
      · have hseen := hs.seen
        rw [hc] at hseen
        exact hseen
      · intro d hd
        cases hd
        exact ⟨Nat.le_refl _, trivial⟩
    | some c =>
      simp only [after, step, hc]
      exact hs
  | detachConsumer =>
    have hgone : ahead s.consumer = 0 → Invariant g { s with consumer := none } := by
      intro hahead
      refine ⟨hs.memory, ?_, hs.producer, ?_⟩
      · show s.seen = s.published.take (s.readIndex.toNat + 0)
        rw [← hahead]
        exact hs.seen
      · intro d hd
        cases hd
    cases hc : s.consumer with
    | none =>
      simp only [after, step, hc]
      exact hgone (by rw [hc]; rfl)
    | some c =>
      obtain ⟨impl, cached, phase⟩ := c
      cases phase with
      | visited r =>
        simp only [after, step, hc]
        exact hs
      | _ =>
        simp only [after, step, hc]
        exact hgone (by rw [hc]; rfl)
  | push a =>
    cases hp : s.producer with
    | none =>
      simp only [after, step, hp]
      exact hs
    | some p =>
      simp only [after, step, hp] at hcount ⊢
      exact invariant_push hs hp a hcount
  | pop a =>
    cases hc : s.consumer with
    | none =>
      simp only [after, step, hc]
      exact hs
    | some c =>
      simp only [after, step, hc]
      exact invariant_pop hs hc a

end Rules

/-! ## What a run shows -/

/-- The slot a consumer is reading. -/
def Shared.reading (s : Shared) : Option UInt64 :=
  match s.consumer with
  | some { phase := .ready r, .. } => some r
  | some { phase := .visiting r _ _, .. } => some r
  | _ => none

/-- The slot a producer is writing. -/
def Shared.writing (s : Shared) : Option UInt64 :=
  match s.producer with
  | some { phase := .filling w _, .. } => some w
  | some { phase := .measured w _ _, .. } => some w
  | _ => none

/-- Between two acts: what was seen is what was published first, in order and once each, what was
not given back is in the ring as it was pushed, and no slot is read that is not published or that
is being written. -/
structure Delivers (g : Geometry) (s : Shared) : Prop where
  seen : s.seen = s.published.take s.seen.length
  count : s.seen.length = s.readIndex.toNat + ahead s.consumer
  waiting : List.Forall₂ Slot.Holds
    (window s.slots s.readIndex.toNat (s.writeIndex.toNat - s.readIndex.toNat))
    (s.published.drop s.readIndex.toNat)
  published : ∀ r, s.reading = some r → s.readIndex ≤ r ∧ r < s.writeIndex
  apart : ∀ r w, s.reading = some r → s.writing = some w → g.slotOf r ≠ g.slotOf w

/-- Both indices, what was published and seen, and every published slot are as they were. -/
structure Untouched (s s' : Shared) : Prop where
  writeIndex : s'.writeIndex = s.writeIndex
  readIndex : s'.readIndex = s.readIndex
  published : s'.published = s.published
  seen : s'.seen = s.seen
  slots : ∀ i, s.readIndex.toNat ≤ i → i < s.writeIndex.toNat →
    entry s'.slots i = entry s.slots i

/-- One act: `Full` is the truth, *empty* means that everything was seen, a push that succeeds
publishes one message of the length it reports, and no other act of a push touches anything the
consumer can see. -/
structure Honest (g : Geometry) (s : Shared) (a : Act) : Prop where
  full : answer g s a = some (.refused .full) →
    s.writeIndex.toNat - s.readIndex.toNat = g.capacity.toNat
  empty : answer g s a = some .empty → s.seen = s.published
  pushed : ∀ n, answer g s a = some (.pushed n) →
    ∃ m, m.length = n ∧ (after g s a).published = s.published ++ [m]
  refused : ∀ b, a = .push b → (∀ n, answer g s a ≠ some (.pushed n)) → Untouched s (after g s a)

section Shows

variable {g : Geometry} {s : Shared} {p : Producer} {c : Consumer}

theorem Untouched.refl (s : Shared) : Untouched s s :=
  ⟨rfl, rfl, rfl, rfl, fun _ _ _ => rfl⟩

theorem Untouched.setProducer (s : Shared) (p : Producer) (phase : PushPhase) :
    Untouched s (s.setProducer p phase) :=
  ⟨rfl, rfl, rfl, rfl, fun _ _ _ => rfl⟩

/-- Writing the slot of `writeIndex` touches no published slot. -/
theorem Invariant.untouched (hs : Invariant g s)
    (hroom : s.writeIndex.toNat < s.readIndex.toNat + g.capacity.toNat) (slot : Slot)
    (phase : PushPhase) :
    Untouched s ((s.setSlot g s.writeIndex slot).setProducer p phase) := by
  rw [setSlot_eq hs]
  refine ⟨rfl, rfl, rfl, rfl, fun i hlo hhi => entry_set_ne ?_⟩
  have hle := hs.memory.read_le
  rw [hs.memory.pages.length]
  exact Ne.symm (mod_ne hhi (by omega))

theorem reading_ready (hs : Invariant g s) {r : UInt64} (hr : s.reading = some r) :
    r = s.readIndex ∧ s.readIndex.toNat < s.writeIndex.toNat := by
  cases hc : s.consumer with
  | none =>
    rw [Shared.reading, hc] at hr
    cases hr
  | some c =>
    have hagrees := (hs.consumer c hc).phase
    obtain ⟨impl, cached, phase⟩ := c
    rw [Shared.reading, hc] at hr
    cases phase with
    | ready r' =>
      cases hr
      exact hagrees
    | visiting r' n got =>
      cases hr
      exact ⟨hagrees.1, hagrees.2.1⟩
    | _ => cases hr

theorem writing_room (hs : Invariant g s) {w : UInt64} (hw : s.writing = some w) :
    w = s.writeIndex ∧ s.writeIndex.toNat < s.readIndex.toNat + g.capacity.toNat := by
  cases hp : s.producer with
  | none =>
    rw [Shared.writing, hp] at hw
    cases hw
  | some p =>
    have hagrees := (hs.producer p hp).phase
    obtain ⟨impl, cached, phase⟩ := p
    rw [Shared.writing, hp] at hw
    cases phase with
    | filling w' view =>
      cases hw
      exact ⟨hagrees.1, hagrees.2.1⟩
    | measured w' n view =>
      cases hw
      exact ⟨hagrees.1, hagrees.2.1⟩
    | _ => cases hw

theorem Invariant.delivers (hs : Invariant g s) : Delivers g s := by
  have hcount : s.seen.length = s.readIndex.toNat + ahead s.consumer := by
    rw [hs.seen, List.length_take, Nat.min_eq_left hs.ahead_le]
  refine ⟨?_, hcount, hs.memory.holds, ?_, ?_⟩
  · rw [hcount]
    exact hs.seen
  · intro r hr
    obtain ⟨rfl, hlt⟩ := reading_ready hs hr
    exact ⟨UInt64.le_refl _, UInt64.lt_iff_toNat_lt.mpr hlt⟩
  · intro r w hr hw
    obtain ⟨rfl, hlt⟩ := reading_ready hs hr
    obtain ⟨rfl, hroom⟩ := writing_room hs hw
    rw [g.slotOf_eq, g.slotOf_eq]
    exact mod_ne hlt hroom

/-- What an act of a push answers and touches. -/
theorem honest_push (hs : Invariant g s) (hp : s.producer = some p) (a : PushAct) :
    ((pushStep g s p a).2 = some (.refused .full) →
      s.writeIndex.toNat - s.readIndex.toNat = g.capacity.toNat) ∧
    (∀ n, (pushStep g s p a).2 = some (.pushed n) →
      ∃ m, m.length = n ∧ (pushStep g s p a).1.published = s.published ++ [m]) ∧
    (pushStep g s p a).2 ≠ some .empty ∧
    ((∀ n, (pushStep g s p a).2 ≠ some (.pushed n)) → Untouched s (pushStep g s p a).1) := by
  obtain ⟨hcached, hagrees⟩ := hs.producer p hp
  cases a with
  | start =>
    cases hphase : p.phase with
    | idle =>
      simp only [pushStep, hphase]
      split <;> exact ⟨by simp, by simp, by simp, fun _ => Untouched.setProducer s p _⟩
    | _ =>
      simp only [pushStep, hphase]
      exact ⟨by simp, by simp, by simp, fun _ => Untouched.refl s⟩
  | tooLong len =>
    cases hphase : p.phase with
    | idle =>
      simp only [pushStep, hphase]
      split <;> exact ⟨by simp, by simp, by simp, fun _ => Untouched.refl s⟩
    | _ =>
      simp only [pushStep, hphase]
      exact ⟨by simp, by simp, by simp, fun _ => Untouched.refl s⟩
  | reload =>
    cases hphase : p.phase with
    | full w =>
      rw [hphase] at hagrees
      cases hagrees
      simp only [pushStep, hphase]
      split
      · rename_i hfull
        refine ⟨fun _ => ?_, by simp, by simp, fun _ => Untouched.setProducer s _ _⟩
        have hle := hs.memory.read_le
        have hdepth := hs.memory.depth_le
        have hsub : s.readIndex ≤ s.writeIndex := UInt64.le_iff_toNat_le.mpr hle
        rw [UInt64.le_iff_toNat_le, UInt64.toNat_sub_of_le _ _ hsub, g.toNat_capacity] at hfull
        omega
      · exact ⟨by simp, by simp, by simp, fun _ => Untouched.setProducer s _ _⟩
    | _ =>
      simp only [pushStep, hphase]
      exact ⟨by simp, by simp, by simp, fun _ => Untouched.refl s⟩
  | fill i b =>
    cases hphase : p.phase with
    | filling w view =>
      rw [hphase] at hagrees
      obtain ⟨rfl, hroom, hview⟩ := hagrees
      simp only [pushStep, hphase]
      exact ⟨by simp, by simp, by simp, fun _ => hs.untouched hroom _ _⟩
    | _ =>
      simp only [pushStep, hphase]
      exact ⟨by simp, by simp, by simp, fun _ => Untouched.refl s⟩
  | filled n =>
    cases n with
    | none =>
      cases hphase : p.phase with
      | filling w view =>
        cases himpl : p.impl with
        | rust =>
          simp only [pushStep, hphase, himpl]
          exact ⟨by simp, by simp, by simp, fun _ => Untouched.setProducer s p _⟩
        | cpp =>
          simp only [pushStep, hphase, himpl]
          exact ⟨by simp, by simp, by simp, fun _ => Untouched.refl s⟩
      | _ =>
        simp only [pushStep, hphase]
        exact ⟨by simp, by simp, by simp, fun _ => Untouched.refl s⟩
    | some n =>
      cases hphase : p.phase with
      | filling w view =>
        rw [hphase] at hagrees
        obtain ⟨rfl, hroom, hview⟩ := hagrees
        simp only [pushStep, hphase]
        split
        · exact ⟨by simp, by simp, by simp, fun _ => Untouched.setProducer s p _⟩
        · exact ⟨by simp, by simp, by simp, fun _ => hs.untouched hroom _ _⟩
      | _ =>
        simp only [pushStep, hphase]
        exact ⟨by simp, by simp, by simp, fun _ => Untouched.refl s⟩
  | publish =>
    cases hphase : p.phase with
    | measured w n view =>
      rw [hphase] at hagrees
      obtain ⟨rfl, hroom, hview, hn, hlen⟩ := hagrees
      have hbody := hs.memory.body_length s.writeIndex.toNat
      simp only [pushStep, hphase]
      refine ⟨by simp, ?_, by simp, fun hno => absurd rfl (hno n)⟩
      intro k hk
      cases hk
      refine ⟨view.take n, ?_, rfl⟩
      rw [List.length_take]
      rw [hview] at hbody
      omega
    | _ =>
      simp only [pushStep, hphase]
      exact ⟨by simp, by simp, by simp, fun _ => Untouched.refl s⟩

/-- A pop that finds the ring empty has seen everything, and no pop answers for a push. -/
theorem honest_pop (hs : Invariant g s) (hc : s.consumer = some c) (a : PopAct) :
    ((popStep g s c a).2 = some .empty → s.seen = s.published) ∧
    (∀ n, (popStep g s c a).2 ≠ some (.pushed n)) ∧
    (∀ e, (popStep g s c a).2 ≠ some (.refused e)) := by
  have hagrees := (hs.consumer c hc).phase
  have hseen := hs.seen
  rw [hc] at hseen
  obtain ⟨impl, cached, phase⟩ := c
  cases a with
  | start =>
    cases phase with
    | idle =>
      simp only [popStep]
      split <;> simp
    | _ => simp [popStep]
  | reload =>
    cases phase with
    | empty r =>
      cases hagrees
      simp only [popStep]
      split
      · rename_i hempty
        rw [UInt64.le_iff_toNat_le] at hempty
        refine ⟨fun _ => ?_, by simp, by simp⟩
        have hall : s.published.length ≤ s.readIndex.toNat := by
          rw [← hs.memory.written]
          exact hempty
        rw [hseen]
        exact List.take_of_length_le hall
      · simp
    | _ => simp [popStep]
  | measure => cases phase <;> simp [popStep]
  | read =>
    cases phase with
    | visiting r n got =>
      simp only [popStep]
      split <;> simp
    | _ => simp [popStep]
  | visited =>
    cases phase with
    | visiting r n got =>
      simp only [popStep]
      split <;> simp
    | _ => simp [popStep]
  | giveBack => cases phase <;> simp [popStep]

/-- An act that answers nothing keeps its word. -/
theorem honest_silent {a : Act} (ha : answer g s a = none) (hpush : ∀ b, a = .push b →
    Untouched s (after g s a)) : Honest g s a := by
  refine ⟨?_, ?_, ?_, fun b hb _ => hpush b hb⟩
  · rw [ha]
    simp
  · rw [ha]
    simp
  · rw [ha]
    simp

theorem Invariant.honest (hs : Invariant g s) (a : Act) : Honest g s a := by
  cases a with
  | attachProducer impl =>
    refine honest_silent ?_ (by simp)
    cases hp : s.producer <;> simp [answer, step, hp]
  | detachProducer => exact honest_silent rfl (by simp)
  | attachConsumer impl =>
    refine honest_silent ?_ (by simp)
    cases hc : s.consumer <;> simp [answer, step, hc]
  | detachConsumer =>
    refine honest_silent ?_ (by simp)
    rw [answer, step]
    split <;> rfl
  | push a =>
    cases hp : s.producer with
    | none =>
      refine honest_silent (by simp [answer, step, hp]) ?_
      intro b hb
      simp only [after, step, hp]
      exact Untouched.refl s
    | some p =>
      obtain ⟨hfull, hpushed, hempty, hrefused⟩ := honest_push hs hp a
      refine ⟨?_, ?_, ?_, ?_⟩
      · simpa only [answer, step, hp] using hfull
      · intro h
        simp only [answer, step, hp] at h
        exact absurd h hempty
      · simpa only [answer, after, step, hp] using hpushed
      · intro b hb
        simpa only [answer, after, step, hp] using hrefused
  | pop a =>
    cases hc : s.consumer with
    | none => exact honest_silent (by simp [answer, step, hc]) (by simp)
    | some c =>
      obtain ⟨hempty, hpushed, hrefused⟩ := honest_pop hs hc a
      refine ⟨?_, ?_, ?_, ?_⟩
      · intro h
        simp only [answer, step, hc] at h
        exact absurd h (hrefused _)
      · simpa only [answer, step, hc] using hempty
      · intro n h
        simp only [answer, step, hc] at h
        exact absurd h (hpushed n)
      · intro b hb
        cases hb

end Shows

/-! ## Runs -/

section Runs

variable {g : Geometry} {s : Shared}

/-- Nothing that was published is taken back. -/
theorem published_le (a : Act) : s.published.length ≤ (after g s a).published.length := by
  cases a with
  | push a =>
    cases hp : s.producer with
    | none => simp [after, step, hp]
    | some p =>
      simp only [after, step, hp]
      cases a with
      | filled n =>
        cases n <;> cases hphase : p.phase <;> cases himpl : p.impl <;>
          simp only [pushStep, hphase, himpl] <;> (try split) <;> exact Nat.le_refl _
      | publish =>
        cases hphase : p.phase <;> simp only [pushStep, hphase]
        all_goals simp
      | _ =>
        cases hphase : p.phase <;> simp only [pushStep, hphase] <;> (try split) <;>
          exact Nat.le_refl _
  | pop a =>
    cases hc : s.consumer with
    | none => simp [after, step, hc]
    | some c =>
      simp only [after, step, hc]
      cases a <;> cases hphase : c.phase <;> simp only [popStep, hphase] <;> (try split) <;>
        exact Nat.le_refl _
  | attachProducer impl => cases hp : s.producer <;> simp [after, step, hp]
  | detachProducer => exact Nat.le_refl _
  | attachConsumer impl => cases hc : s.consumer <;> simp [after, step, hc]
  | detachConsumer =>
    rw [after, step]
    split <;> exact Nat.le_refl _

theorem published_run_le (acts : List Act) :
    s.published.length ≤ (acts.foldl (after g) s).published.length := by
  induction acts generalizing s with
  | nil => exact Nat.le_refl _
  | cons a acts ih => exact Nat.le_trans (published_le a) ih

/-- In a run of fewer than `2^64` pushes every push is one of fewer than `2^64`. -/
theorem along_count (acts : List Act)
    (hcount : (acts.foldl (after g) s).published.length < 2 ^ 64) :
    Along (after g) (fun s a => (after g s a).published.length < 2 ^ 64) s acts := by
  induction acts generalizing s with
  | nil => trivial
  | cons a acts ih => exact ⟨Nat.lt_of_le_of_lt (published_run_le acts) hcount, ih hcount⟩

end Runs

/-- **The ring is a queue.** In every run of fewer than `2^64` pushes, whichever implementation
holds which role and however the acts of the two sides fall, everything the consumer sees was
published, in order and once each, and every answer is the truth. -/
theorem ring_delivers (g : Geometry) {slots : List Slot} (hslots : g.Pages slots)
    (acts : List Act)
    (hcount : (acts.foldl (after g) (create slots)).published.length < 2 ^ 64) :
    Along (after g) (fun s a => Delivers g s ∧ Honest g s a) (create slots) acts ∧
      Delivers g (acts.foldl (after g) (create slots)) := by
  have hstart := invariant_create hslots
  have hruns := along_count acts hcount
  refine ⟨?_, ?_⟩
  · exact hruns.of_invariant (Invariant g) (fun s a hs hc => invariant_after hs a hc)
      (fun s a hs _ => ⟨hs.delivers, hs.honest a⟩) hstart
  · exact (hruns.invariant (Invariant g) (fun s a hs hc => invariant_after hs a hc)
      hstart).delivers

/-- A ring of two slots, as `create` finds a new file. -/
def twoSlots : Geometry := ⟨2, 64, by decide⟩

def emptyPages : List Slot := List.replicate 2 ⟨0, List.replicate 56 0⟩

/-- A push from Rust and a pop in C++, with the fill closure's two writes around the consumer's
first look. -/
def onePushOnePop : List Act :=
  [.attachProducer .rust, .attachConsumer .cpp, .push .start, .push (.fill 0 7), .pop .start,
    .pop .reload, .push (.fill 1 9), .push (.filled (some 2)), .push .publish, .pop .start,
    .pop .reload, .pop .measure, .pop .read, .pop .read, .pop .visited, .pop .giveBack]

theorem ring_delivers_one_push :
    Delivers twoSlots (onePushOnePop.foldl (after twoSlots) (create emptyPages)) ∧
      (onePushOnePop.foldl (after twoSlots) (create emptyPages)).seen = [[7, 9]] := by
  refine ⟨(ring_delivers twoSlots ⟨rfl, ?_⟩ onePushOnePop ?_).2, ?_⟩
  · intro slot hslot
    rw [List.eq_of_mem_replicate hslot]
    rfl
  · decide +kernel
  · decide +kernel

end MarketData.Ring
