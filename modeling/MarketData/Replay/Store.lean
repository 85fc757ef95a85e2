import MarketData.Lib.Window
import MarketData.Lib.Run
import MarketData.Lib.Tiling
import MarketData.Wire.Packet

/-!
# `Replay/Store.lean` — the bounded history of published datagrams

`DatagramStore` (`crates/replay-service/src/store.rs`). The store is a ring of slots and two
counters: `firstSequence` is the oldest message held, `nextSequence` one past the newest. Whether
a range can be served is a comparison of the request with the two, so everything depends on the
counters and the slots saying the same. `Kept` is that agreement: the slots in use, read from
`head` on, tile `[firstSequence, nextSequence)`.

The counters are 64 bits wide and `first + count` wraps in a release build. A datagram that
carries the last number there is leaves a store whose `nextSequence` is below what it holds;
short of that the store is exact (`exact_iff`).

## What exact means

`Exact` is about what was pushed, a list of byte strings, and about nothing in the store: a range is
answered with datagrams that were pushed, contiguous and covering it, or with a status that is true
of what is held. It is stated for every request at once. The slots and counters occur in `Kept`
alone, which is the invariant, and the connection between the two is one lemma (`Kept.exact`).

Pushes are arbitrary bytes. What a push does with those it does not file, too short, of a snapshot,
empty, or older than what is held, and with one that leaves a gap, after which the store starts
over, is part of the model; so are the counters of what was ignored, which no answer depends on.

A slot has room for a datagram of a fixed size, and a longer one is refused. Whether the publisher's
fit is a configuration, and is not asked here.
-/

set_option autoImplicit false

namespace MarketData.Replay

open MarketData.Wire MarketData.Tiling MarketData.Window MarketData.Run

/-! ## The store -/

structure Slot where
  firstSequence : UInt64
  messageCount : UInt16
  len : Nat
  buf : Buf
  deriving DecidableEq, Repr, Inhabited

structure StoreStats where
  datagramsStored : UInt64 := 0
  messagesStored : UInt64 := 0
  datagramsEvicted : UInt64 := 0
  /-- Times a discontinuity forced the store to restart. -/
  discontinuities : UInt64 := 0
  /-- Datagrams ignored because they were older than what is already held. -/
  duplicates : UInt64 := 0
  deriving DecidableEq, Repr

/-- `Status` (`protocol.rs`). -/
inductive Status where
  | ok
  | tooOld
  | notYet
  | incomplete
  | badRequest
  deriving DecidableEq, Repr

/-- What a range lookup found: indices `[start, stop)` covering the request, when `status` is `ok`. -/
structure Located where
  status : Status
  start : Nat
  stop : Nat
  deriving DecidableEq, Repr

structure DatagramStore where
  slots : List Slot
  /-- Ring index of the oldest datagram held. -/
  head : Nat
  /-- How many slots are occupied. -/
  len : Nat
  firstSequence : UInt64
  /-- One past the last message held. -/
  nextSequence : UInt64
  stats : StoreStats
  deriving DecidableEq, Repr

namespace DatagramStore

def new (capacity maxDatagramBytes : Nat) : DatagramStore :=
  { slots := List.replicate (max capacity 1)
      { firstSequence := 0, messageCount := 0, len := 0, buf := List.replicate maxDatagramBytes 0 }
    head := 0, len := 0, firstSequence := 0, nextSequence := 0, stats := {} }

/-- An empty store starts at `first`, and one with a hole in front of `first` starts over. -/
def startAt (s : DatagramStore) (first : UInt64) : DatagramStore :=
  if s.len = 0 then { s with firstSequence := first, nextSequence := first }
  else if s.nextSequence < first then
    { s with
      head := 0, len := 0, firstSequence := first, nextSequence := first
      stats := { s.stats with
        discontinuities := s.stats.discontinuities + 1
        datagramsEvicted := s.stats.datagramsEvicted + UInt64.ofNat s.len } }
  else s

/-- Full: evict the oldest. -/
def makeRoom (s : DatagramStore) : DatagramStore :=
  if s.len = s.slots.length then
    let evicted := entry s.slots s.head
    { s with
      firstSequence := evicted.firstSequence + evicted.messageCount.toUInt64
      head := (s.head + 1) % s.slots.length
      len := s.len - 1
      stats := { s.stats with datagramsEvicted := s.stats.datagramsEvicted + 1 } }
  else s

/-- Writes the datagram into the first free slot. -/
def file (s : DatagramStore) (header : PacketHeader) (datagram : Buf) :
    Except String Unit × DatagramStore :=
  let index := (s.head + s.len) % s.slots.length
  let slot := entry s.slots (s.head + s.len)
  if slot.buf.length < datagram.length then
    (.error "datagram larger than the store's datagram size", s)
  else
    (.ok (), { s with
      slots := s.slots.set index
        { firstSequence := header.firstSequence, messageCount := header.messageCount,
          len := datagram.length, buf := datagram ++ slot.buf.drop datagram.length }
      len := s.len + 1
      nextSequence := header.firstSequence + header.messageCount.toUInt64
      stats := { s.stats with
        datagramsStored := s.stats.datagramsStored + 1
        messagesStored := s.stats.messagesStored + header.messageCount.toUInt64 } })

/-- Files one published datagram. -/
def push (s : DatagramStore) (datagram : Buf) : Except String Unit × DatagramStore :=
  match PacketHeader.wrap datagram with
  | .error _ => (.error "datagram does not decode", s)
  | .ok header =>
    if header.isSnapshot then (.error "snapshot datagrams have their own sequence space", s)
    else if header.messageCount = 0 then (.ok (), s)
    else if s.len ≠ 0 ∧ header.firstSequence < s.nextSequence then
      (.ok (), { s with stats := { s.stats with duplicates := s.stats.duplicates + 1 } })
    else (s.startAt header.firstSequence).makeRoom.file header datagram

/-- The loop of `locate`: `remaining` slots from the `i`th on. -/
def scan (s : DatagramStore) (fromSeq through : UInt64) :
    (remaining i : Nat) → (start : Option Nat) → (stop : Nat) → Option Nat × Nat
  | 0, _, start, stop => (start, stop)
  | remaining + 1, i, start, stop =>
    let slot := entry s.slots (s.head + i)
    let slotEnd := slot.firstSequence + slot.messageCount.toUInt64
    if slotEnd ≤ fromSeq then scan s fromSeq through remaining (i + 1) start stop
    else
      let start := start.or (some i)
      if through < slotEnd then (start, i + 1)
      else scan s fromSeq through remaining (i + 1) start (i + 1)

/-- Finds the datagrams covering `[fromSeq, through]`. -/
def locate (s : DatagramStore) (fromSeq through : UInt64) : Located :=
  let miss := fun status => { status := status, start := 0, stop := 0 }
  if through < fromSeq then miss .badRequest
  else if s.len = 0 then miss .tooOld
  else if fromSeq < s.firstSequence then miss .tooOld
  else if s.nextSequence ≤ through then miss .notYet
  else
    match s.scan fromSeq through s.len 0 none 0 with
    | (some start, stop) => { status := .ok, start := start, stop := stop }
    | (none, _) => miss .incomplete

/-- The `i`th datagram held, oldest first. -/
def datagramAt (s : DatagramStore) (i : Nat) : Option Buf :=
  if s.len ≤ i then none
  else
    let slot := entry s.slots (s.head + i)
    some (slot.buf.take slot.len)

/-- The payload `serve_request` copies out for `[start, stop)`. -/
def payload (s : DatagramStore) (start stop : Nat) : List Buf :=
  (List.range' start (stop - start)).filterMap s.datagramAt

/-- Everything the store holds. -/
def datagrams (s : DatagramStore) : List Buf := s.payload 0 s.len

/-- The store after one push. -/
def after (s : DatagramStore) (datagram : Buf) : DatagramStore := (s.push datagram).2

end DatagramStore

/-! ## What the store promises -/

/-- The sequences a datagram's header names, first and one past the last. -/
def extent (d : Buf) : Nat × Nat :=
  match PacketHeader.wrap d with
  | .ok h => (h.firstSequence.toNat, h.firstSequence.toNat + h.messageCount.toNat)
  | .error _ => (0, 0)

/-- The datagrams that answer a request: contiguous, from one that contains the first sequence
asked for to one that contains the last. -/
structure Answers (s : DatagramStore) (fromSeq through : UInt64) (found : Located) : Prop where
  inside : found.start < found.stop ∧ found.stop ≤ s.len
  contiguous : ∃ a b, Tiles extent a (s.payload found.start found.stop) b
  first : ∃ d, s.datagramAt found.start = some d ∧ Covers extent fromSeq.toNat d
  last : ∃ d, s.datagramAt (found.stop - 1) = some d ∧ Covers extent through.toNat d

/-- **An exact store**, after the datagrams `pushed`. -/
structure Exact (s : DatagramStore) (pushed : List Buf) : Prop where
  covers : Tiles extent s.firstSequence.toNat s.datagrams s.nextSequence.toNat
  pushed : s.datagrams.Sublist pushed
  locate : ∀ fromSeq through : UInt64, (s.locate fromSeq through).status = .ok ↔
    s.len ≠ 0 ∧ fromSeq ≤ through ∧ s.firstSequence ≤ fromSeq ∧ through < s.nextSequence
  answers : ∀ fromSeq through : UInt64, (s.locate fromSeq through).status = .ok →
    Answers s fromSeq through (s.locate fromSeq through)

/-- The header of a datagram that this push files: of the incremental space, not empty, and not
below what is held. -/
def DatagramStore.files (s : DatagramStore) (d : Buf) : Option PacketHeader :=
  match PacketHeader.wrap d with
  | .error _ => none
  | .ok header =>
    if header.isSnapshot ∨ header.messageCount = 0 ∨
      (s.len ≠ 0 ∧ header.firstSequence < s.nextSequence) then none
    else some header

/-- A datagram that is filed ends below `2^64`. -/
def EndFits (s : DatagramStore) (d : Buf) : Prop :=
  ∀ h, s.files d = some h → h.firstSequence.toNat + h.messageCount.toNat < 2 ^ 64

instance (s : DatagramStore) (d : Buf) : Decidable (EndFits s d) :=
  decidable_of_iff
    ((s.files d).all (fun h => decide (h.firstSequence.toNat + h.messageCount.toNat < 2 ^ 64)) = true)
    (by unfold EndFits; cases s.files d <;> simp)

/-! ## Slots and counters -/

/-- The datagram a slot holds. -/
def Slot.datagram (slot : Slot) : Buf := slot.buf.take slot.len

/-- The sequences a slot says it holds. -/
def Slot.span (slot : Slot) : Nat × Nat :=
  (slot.firstSequence.toNat, slot.firstSequence.toNat + slot.messageCount.toNat)

namespace DatagramStore

/-- The slots in use, oldest first. -/
def held (s : DatagramStore) : List Slot := window s.slots s.head s.len

/-- The slots and the counters say the same, and what the slots hold was pushed. -/
structure Kept (maxBytes : Nat) (pushed : List Buf) (s : DatagramStore) : Prop where
  room : 0 < s.slots.length
  size : ∀ slot ∈ s.slots, slot.buf.length = maxBytes
  len_le : s.len ≤ s.slots.length
  tiles : Tiles Slot.span s.firstSequence.toNat s.held s.nextSequence.toNat
  headers : ∀ slot ∈ s.held, extent slot.datagram = slot.span
  pushed : (s.held.map Slot.datagram).Sublist pushed

variable {maxBytes : Nat} {pushed : List Buf} {s : DatagramStore} {d : Buf} {h : PacketHeader}

theorem kept_new (capacity maxBytes : Nat) : Kept maxBytes [] (new capacity maxBytes) where
  room := by simp [new]
  size := by
    intro slot hslot
    rw [List.eq_of_mem_replicate hslot, List.length_replicate]
  len_le := Nat.zero_le _
  tiles := rfl
  headers := by simp [held, new]
  pushed := by simp [held, new]

/-- What the store holds is what its slots hold. -/
theorem payload_eq {start stop : Nat} (hstop : stop ≤ s.len) :
    s.payload start stop
      = (window s.slots (s.head + start) (stop - start)).map Slot.datagram := by
  have hsome : ∀ i ∈ List.range' start (stop - start),
      s.datagramAt i = some (entry s.slots (s.head + i)).datagram := by
    intro i hi
    have hlt := List.mem_range'_1.mp hi
    rw [datagramAt, if_neg (by omega)]
    rfl
  rw [payload, List.filterMap_congr hsome, List.filterMap_eq_map', window, List.map_map,
    List.range'_eq_map_range, List.map_map]
  refine List.map_congr_left fun i _ => ?_
  show (entry s.slots (s.head + (start + i))).datagram = _
  rw [← Nat.add_assoc]
  rfl

theorem datagrams_eq : s.datagrams = s.held.map Slot.datagram :=
  payload_eq (Nat.le_refl _)

theorem datagramAt_eq {i : Nat} (hi : i < s.len) :
    s.datagramAt i = some (entry s.slots (s.head + i)).datagram := by
  rw [datagramAt, if_neg (by omega)]
  rfl

/-! ### What one push does -/

/-- A push that files nothing leaves slots and counters alone. -/
theorem after_of_not_files (hd : s.files d = none) :
    ∃ stats, s.after d = { s with stats := stats } := by
  rw [files] at hd
  rw [after, push]
  cases hwrap : PacketHeader.wrap d with
  | error e => exact ⟨s.stats, rfl⟩
  | ok header =>
    rw [hwrap] at hd
    dsimp only at hd ⊢
    by_cases hsnap : header.isSnapshot = true
    · rw [if_pos hsnap]
      exact ⟨s.stats, rfl⟩
    by_cases hcount : header.messageCount = 0
    · rw [if_neg hsnap, if_pos hcount]
      exact ⟨s.stats, rfl⟩
    by_cases hdup : s.len ≠ 0 ∧ header.firstSequence < s.nextSequence
    · rw [if_neg hsnap, if_neg hcount, if_pos hdup]
      exact ⟨_, rfl⟩
    · rw [if_neg (by simp [hsnap, hcount, hdup])] at hd
      cases hd

/-- What a filed datagram's header says, and what is done with it. -/
structure Filing (s : DatagramStore) (d : Buf) (h : PacketHeader) : Prop where
  header : PacketHeader.wrap d = .ok h
  count : h.messageCount ≠ 0
  above : s.len = 0 ∨ s.nextSequence ≤ h.firstSequence
  after : s.after d = ((s.startAt h.firstSequence).makeRoom.file h d).2

theorem filing_of_files (hd : s.files d = some h) : Filing s d h := by
  rw [files] at hd
  cases hwrap : PacketHeader.wrap d with
  | error e =>
    rw [hwrap] at hd
    cases hd
  | ok header =>
    rw [hwrap] at hd
    dsimp only at hd
    split at hd
    · cases hd
    rename_i hno
    cases hd
    rw [not_or, not_or] at hno
    obtain ⟨hsnap, hcount, hdup⟩ := hno
    refine ⟨hwrap, hcount, ?_, ?_⟩
    · by_cases hlen : s.len = 0
      · exact Or.inl hlen
      · exact Or.inr (UInt64.not_lt.mp fun hlt => hdup ⟨hlen, hlt⟩)
    · rw [DatagramStore.after, push, hwrap]
      dsimp only
      rw [if_neg hsnap, if_neg hcount, if_neg hdup]

/-- Starting at a datagram's first sequence leaves a store that ends right below it. -/
theorem Kept.startAt (hs : Kept maxBytes pushed s) {first : UInt64}
    (habove : s.len = 0 ∨ s.nextSequence ≤ first) :
    Kept maxBytes pushed (s.startAt first) ∧ (s.startAt first).nextSequence = first := by
  rw [DatagramStore.startAt]
  split
  · rename_i hlen
    have hheld : held { s with firstSequence := first, nextSequence := first } = [] := by
      simp [held, hlen]
    refine ⟨⟨hs.room, hs.size, hs.len_le, ?_, ?_, ?_⟩, rfl⟩
    · rw [hheld]
      rfl
    · rw [hheld]
      simp
    · rw [hheld]
      simp
  rename_i hlen
  split
  · exact ⟨⟨hs.room, hs.size, Nat.zero_le _, rfl, by simp [held], by simp [held]⟩, rfl⟩
  · rename_i hhole
    rcases habove with h0 | hle
    · exact absurd h0 hlen
    · exact ⟨hs, UInt64.le_antisymm hle (UInt64.not_lt.mp hhole)⟩

/-- The slot in front ends where the rest of the store starts. -/
theorem Kept.evicted (hs : Kept maxBytes pushed s) {rest : Nat} (hlen : s.len = rest + 1) :
    Tiles Slot.span
      ((entry s.slots s.head).firstSequence + (entry s.slots s.head).messageCount.toUInt64).toNat
      (window s.slots (s.head + 1) rest) s.nextSequence.toNat := by
  have ht := hs.tiles
  rw [held, hlen, window_cons] at ht
  obtain ⟨-, -, hrest⟩ := ht
  have hle := hrest.le
  have hlt := s.nextSequence.toNat_lt
  have hsum : ((entry s.slots s.head).firstSequence
      + (entry s.slots s.head).messageCount.toUInt64).toNat = (entry s.slots s.head).span.2 := by
    rw [UInt64.toNat_add, UInt16.toNat_toUInt64]
    exact Nat.mod_eq_of_lt (Nat.lt_of_le_of_lt hle hlt)
  rwa [hsum]

/-- Making room keeps the agreement, and there is room. -/
theorem Kept.makeRoom (hs : Kept maxBytes pushed s) :
    Kept maxBytes pushed s.makeRoom ∧ s.makeRoom.len < s.makeRoom.slots.length ∧
      s.makeRoom.nextSequence = s.nextSequence := by
  have hroom := hs.room
  have hle := hs.len_le
  rw [DatagramStore.makeRoom]
  split
  · rename_i hfull
    obtain ⟨rest, hlen⟩ : ∃ rest, s.len = rest + 1 := ⟨s.len - 1, by omega⟩
    have hcons : s.held = entry s.slots s.head :: window s.slots (s.head + 1) rest := by
      rw [held, hlen, window_cons]
    have hheaders := hs.headers
    have hsub := hs.pushed
    rw [hcons] at hheaders hsub
    refine ⟨⟨hroom, hs.size, ?_, ?_, ?_, ?_⟩, ?_, rfl⟩
    · show s.len - 1 ≤ s.slots.length
      omega
    · simp only [held, window_mod, hlen, Nat.add_sub_cancel]
      exact hs.evicted hlen
    · simp only [held, window_mod, hlen, Nat.add_sub_cancel]
      intro slot hslot
      exact hheaders slot (List.mem_cons_of_mem _ hslot)
    · simp only [held, window_mod, hlen, Nat.add_sub_cancel]
      exact (List.sublist_cons_self _ _).trans hsub
    · show s.len - 1 < s.slots.length
      omega
  · rename_i hfull
    exact ⟨hs, by omega, rfl⟩

/-- What a filed datagram becomes. -/
def newest (s : DatagramStore) (h : PacketHeader) (d : Buf) : Slot :=
  { firstSequence := h.firstSequence, messageCount := h.messageCount, len := d.length
    buf := d ++ (entry s.slots (s.head + s.len)).buf.drop d.length }

theorem newest_datagram : (s.newest h d).datagram = d := by
  simp [newest, Slot.datagram]

section File

variable (hs : Kept maxBytes pushed s) (hroom : s.len < s.slots.length)
  (hfit : d.length ≤ maxBytes)
include hs hroom hfit

omit hroom in
theorem Kept.file_eq : (s.file h d).2 =
    { s with
      slots := s.slots.set ((s.head + s.len) % s.slots.length) (s.newest h d)
      len := s.len + 1
      nextSequence := h.firstSequence + h.messageCount.toUInt64
      stats := { s.stats with
        datagramsStored := s.stats.datagramsStored + 1
        messagesStored := s.stats.messagesStored + h.messageCount.toUInt64 } } := by
  have hsize := hs.size _ (entry_mem hs.room (s.head + s.len))
  rw [DatagramStore.file]
  dsimp only
  rw [if_neg (by omega)]
  rfl

/-- A filed datagram is behind the others. -/
theorem Kept.held_file : (s.file h d).2.held = s.held ++ [s.newest h d] := by
  rw [hs.file_eq hfit]
  exact window_set_end hroom

/-- Filing keeps the agreement where the datagram's end does not wrap. -/
theorem Kept.file (hwrap : PacketHeader.wrap d = .ok h) (hcount : h.messageCount ≠ 0)
    (hnext : s.nextSequence = h.firstSequence)
    (hend : h.firstSequence.toNat + h.messageCount.toNat < 2 ^ 64) :
    Kept maxBytes (pushed ++ [d]) (s.file h d).2 := by
  have hpos : 0 < h.messageCount.toNat := by
    rw [Nat.pos_iff_ne_zero]
    exact fun h0 => hcount (UInt16.toNat.inj h0)
  have hsum : (h.firstSequence + h.messageCount.toUInt64).toNat
      = h.firstSequence.toNat + h.messageCount.toNat := by
    rw [UInt64.toNat_add, UInt16.toNat_toUInt64]
    exact Nat.mod_eq_of_lt hend
  have hheld := hs.held_file (h := h) hroom hfit
  have heq := hs.file_eq (h := h) hfit
  have hsize := hs.size _ (entry_mem hs.room (s.head + s.len))
  refine ⟨?_, ?_, ?_, ?_, ?_, ?_⟩
  · rw [heq]
    simpa using hs.room
  · rw [heq]
    intro slot hslot
    rcases List.mem_or_eq_of_mem_set hslot with hold | rfl
    · exact hs.size slot hold
    · simp only [newest, List.length_append, List.length_drop]
      omega
  · rw [heq]
    simpa using Nat.succ_le_of_lt hroom
  · have hlast : Tiles Slot.span s.nextSequence.toNat [s.newest h d]
        (h.firstSequence + h.messageCount.toUInt64).toNat := by
      rw [hsum, hnext]
      exact tiles_singleton rfl rfl (by omega)
    rw [hheld, heq]
    exact hs.tiles.append hlast
  · rw [hheld]
    intro slot hslot
    rcases List.mem_append.mp hslot with hold | hnew
    · exact hs.headers slot hold
    · rw [List.mem_singleton.mp hnew, newest_datagram, extent, hwrap]
      rfl
  · rw [hheld, List.map_append, List.map_singleton, newest_datagram]
    exact hs.pushed.append (List.Sublist.refl _)

end File

theorem Kept.more (hs : Kept maxBytes pushed s) : Kept maxBytes (pushed ++ [d]) s :=
  { hs with pushed := hs.pushed.trans (List.sublist_append_left _ _) }

/-- **One push keeps the agreement**, unless it files a datagram that reaches `2^64`. -/
theorem Kept.after (hs : Kept maxBytes pushed s) (hfit : d.length ≤ maxBytes)
    (hend : EndFits s d) : Kept maxBytes (pushed ++ [d]) (s.after d) := by
  cases hd : s.files d with
  | none =>
    obtain ⟨stats, heq⟩ := after_of_not_files hd
    rw [heq]
    have hmore := hs.more (d := d)
    exact ⟨hmore.room, hmore.size, hmore.len_le, hmore.tiles, hmore.headers, hmore.pushed⟩
  | some h =>
    obtain ⟨hwrap, hcount, habove, heq⟩ := filing_of_files hd
    obtain ⟨hstart, hnext⟩ := hs.startAt habove
    obtain ⟨hkept, hroom, hsame⟩ := hstart.makeRoom
    rw [heq]
    exact hkept.file hroom hfit hwrap hcount (hsame.trans hnext) (hend h hd)

/-! ### Finding a range -/

theorem slotEnd_toNat {slot : Slot} (hlt : slot.span.2 < 2 ^ 64) :
    (slot.firstSequence + slot.messageCount.toUInt64).toNat = slot.span.2 := by
  rw [UInt64.toNat_add, UInt16.toNat_toUInt64]
  exact Nat.mod_eq_of_lt hlt

section Scan

variable {fromSeq through : UInt64}

/-- Once the first datagram is found the scan goes on to the one that contains `through`. -/
theorem scan_some {remaining i a b start stop : Nat}
    (ht : Tiles Slot.span a (window s.slots (s.head + i) remaining) b) (hb : b < 2 ^ 64)
    (hfrom : fromSeq.toNat ≤ a) (hlo : a ≤ through.toNat) (hhi : through.toNat < b) :
    ∃ stop', s.scan fromSeq through remaining i (some start) stop = (some start, stop' + 1) ∧
      i ≤ stop' ∧ stop' < i + remaining ∧
      Covers Slot.span through.toNat (entry s.slots (s.head + stop')) := by
  induction remaining generalizing a i stop with
  | zero =>
    cases ht
    omega
  | succ remaining ih =>
    rw [window_cons, Nat.add_assoc] at ht
    obtain ⟨h1, h2, h3⟩ := ht
    have hend := slotEnd_toNat (Nat.lt_of_le_of_lt h3.le hb)
    have hskip : ¬ (entry s.slots (s.head + i)).firstSequence
        + (entry s.slots (s.head + i)).messageCount.toUInt64 ≤ fromSeq := by
      rw [UInt64.le_iff_toNat_le, hend]
      omega
    rw [scan]
    dsimp only
    rw [if_neg hskip]
    split
    · rename_i hstop
      rw [UInt64.lt_iff_toNat_lt, hend] at hstop
      exact ⟨i, rfl, Nat.le_refl i, by omega, by rw [h1]; exact hlo, hstop⟩
    · rename_i hstop
      rw [UInt64.lt_iff_toNat_lt, hend] at hstop
      obtain ⟨stop', hscan, hle, hlt, hcov⟩ := ih h3 (by omega) (by omega)
      exact ⟨stop', hscan, by omega, by omega, hcov⟩

/-- The scan finds the datagrams that contain the two ends of the range. -/
theorem scan_none {remaining i a b : Nat}
    (ht : Tiles Slot.span a (window s.slots (s.head + i) remaining) b) (hb : b < 2 ^ 64)
    (hfrom : a ≤ fromSeq.toNat) (hle : fromSeq.toNat ≤ through.toNat) (hhi : through.toNat < b) :
    ∃ start stop', s.scan fromSeq through remaining i none 0 = (some start, stop' + 1) ∧
      start ≤ stop' ∧ stop' < i + remaining ∧
      Covers Slot.span fromSeq.toNat (entry s.slots (s.head + start)) ∧
      Covers Slot.span through.toNat (entry s.slots (s.head + stop')) := by
  induction remaining generalizing a i with
  | zero =>
    cases ht
    omega
  | succ remaining ih =>
    rw [window_cons, Nat.add_assoc] at ht
    obtain ⟨h1, h2, h3⟩ := ht
    have hend := slotEnd_toNat (Nat.lt_of_le_of_lt h3.le hb)
    rw [scan]
    dsimp only
    by_cases hskip : (entry s.slots (s.head + i)).firstSequence
        + (entry s.slots (s.head + i)).messageCount.toUInt64 ≤ fromSeq
    · rw [if_pos hskip]
      rw [UInt64.le_iff_toNat_le, hend] at hskip
      obtain ⟨start, stop', hscan, hord, hlt, hfst, hlst⟩ := ih h3 hskip
      exact ⟨start, stop', hscan, hord, by omega, hfst, hlst⟩
    rw [if_neg hskip]
    rw [UInt64.le_iff_toNat_le, hend] at hskip
    have hfst : Covers Slot.span fromSeq.toNat (entry s.slots (s.head + i)) :=
      ⟨by rw [h1]; exact hfrom, by omega⟩
    split
    · rename_i hstop
      rw [UInt64.lt_iff_toNat_lt, hend] at hstop
      exact ⟨i, i, rfl, Nat.le_refl i, by omega, hfst, by rw [h1]; omega, hstop⟩
    · rename_i hstop
      rw [UInt64.lt_iff_toNat_lt, hend] at hstop
      have hgo : (none : Option Nat).or (some i) = some i := rfl
      rw [hgo]
      obtain ⟨stop', hscan, hle', hlt, hlst⟩ :
          ∃ stop', s.scan fromSeq through remaining (i + 1) (some i) (i + 1)
              = (some i, stop' + 1) ∧
            i + 1 ≤ stop' ∧ stop' < i + 1 + remaining ∧
            Covers Slot.span through.toNat (entry s.slots (s.head + stop')) :=
        scan_some h3 hb (by omega) (by omega) hhi
      exact ⟨i, stop', hscan, by omega, by omega, hfst, hlst⟩

end Scan

variable {fromSeq through : UInt64}

/-- A range between the counters is found. -/
theorem Kept.locate_ok (hs : Kept maxBytes pushed s) (hlen : s.len ≠ 0) (hle : fromSeq ≤ through)
    (hlo : s.firstSequence ≤ fromSeq) (hhi : through < s.nextSequence) :
    ∃ start last, s.locate fromSeq through = ⟨.ok, start, last + 1⟩ ∧
      start ≤ last ∧ last < s.len ∧
      Covers Slot.span fromSeq.toNat (entry s.slots (s.head + start)) ∧
      Covers Slot.span through.toNat (entry s.slots (s.head + last)) := by
  have ht : Tiles Slot.span s.firstSequence.toNat (window s.slots (s.head + 0) s.len)
      s.nextSequence.toNat := hs.tiles
  obtain ⟨start, last, hscan, hord, hlt, hfst, hlst⟩ := scan_none ht s.nextSequence.toNat_lt
    (UInt64.le_iff_toNat_le.mp hlo) (UInt64.le_iff_toNat_le.mp hle)
    (UInt64.lt_iff_toNat_lt.mp hhi)
  refine ⟨start, last, ?_, hord, by omega, hfst, hlst⟩
  rw [locate]
  dsimp only
  rw [if_neg (UInt64.not_lt.mpr hle), if_neg hlen, if_neg (UInt64.not_lt.mpr hlo),
    if_neg (UInt64.not_le.mpr hhi), hscan]

theorem status_ok (hok : (s.locate fromSeq through).status = .ok) :
    s.len ≠ 0 ∧ fromSeq ≤ through ∧ s.firstSequence ≤ fromSeq ∧ through < s.nextSequence := by
  rw [locate] at hok
  dsimp only at hok
  by_cases hle : through < fromSeq
  · rw [if_pos hle] at hok
    cases hok
  by_cases hlen : s.len = 0
  · rw [if_neg hle, if_pos hlen] at hok
    cases hok
  by_cases hlo : fromSeq < s.firstSequence
  · rw [if_neg hle, if_neg hlen, if_pos hlo] at hok
    cases hok
  by_cases hhi : s.nextSequence ≤ through
  · rw [if_neg hle, if_neg hlen, if_neg hlo, if_pos hhi] at hok
    cases hok
  exact ⟨hlen, UInt64.not_lt.mp hle, UInt64.not_lt.mp hlo, UInt64.not_le.mp hhi⟩

theorem Kept.header_mem (hs : Kept maxBytes pushed s) {i : Nat} (hi : i < s.len) :
    extent (entry s.slots (s.head + i)).datagram = (entry s.slots (s.head + i)).span := by
  refine hs.headers _ ?_
  exact List.mem_map.mpr ⟨i, List.mem_range.mpr hi, rfl⟩

theorem Kept.covers (hs : Kept maxBytes pushed s) {i n : Nat} (hi : i < s.len)
    (hcov : Covers Slot.span n (entry s.slots (s.head + i))) :
    ∃ d, s.datagramAt i = some d ∧ Covers extent n d := by
  refine ⟨_, datagramAt_eq hi, ?_⟩
  rw [Covers, hs.header_mem hi]
  exact hcov

/-- Any part of what is held is contiguous. -/
theorem Kept.payload_tiles (hs : Kept maxBytes pushed s) {start stop : Nat} (hle : start ≤ stop)
    (hstop : stop ≤ s.len) : ∃ a b, Tiles extent a (s.payload start stop) b := by
  obtain ⟨n, rfl⟩ := Nat.exists_eq_add_of_le hle
  obtain ⟨m, hm⟩ := Nat.exists_eq_add_of_le hstop
  have ht := hs.tiles
  have hmem := hs.headers
  rw [held, hm, window_add, window_add] at ht hmem
  obtain ⟨b, hfront, -⟩ := ht.split
  obtain ⟨a, -, hpart⟩ := hfront.split
  refine ⟨a, b, ?_⟩
  rw [payload_eq hstop, Nat.add_sub_cancel_left]
  exact hpart.map fun slot hslot =>
    hmem slot (List.mem_append_left _ (List.mem_append_right _ hslot))

/-- **A store whose slots and counters agree is exact.** -/
theorem Kept.exact (hs : Kept maxBytes pushed s) : Exact s pushed where
  covers := by
    rw [datagrams_eq]
    exact hs.tiles.map hs.headers
  pushed := by
    rw [datagrams_eq]
    exact hs.pushed
  locate := by
    intro fromSeq through
    constructor
    · exact status_ok
    · rintro ⟨hlen, hle, hlo, hhi⟩
      obtain ⟨start, last, hfound, -⟩ := hs.locate_ok hlen hle hlo hhi
      rw [hfound]
  answers := by
    intro fromSeq through hok
    obtain ⟨hlen, hle, hlo, hhi⟩ := status_ok hok
    obtain ⟨start, last, hfound, hord, hlt, hfst, hlst⟩ := hs.locate_ok hlen hle hlo hhi
    rw [hfound]
    refine ⟨⟨?_, ?_⟩, ?_, ?_, ?_⟩
    · exact Nat.lt_succ_of_le hord
    · exact hlt
    · exact hs.payload_tiles (Nat.le_succ_of_le hord) hlt
    · exact hs.covers (Nat.lt_of_le_of_lt hord hlt) hfst
    · exact hs.covers hlt hlst

/-- A filed datagram that reaches `2^64` leaves a store that is not exact: `nextSequence` is at
most 65535 while the datagram ends above it. -/
theorem Kept.not_exact (hs : Kept maxBytes pushed s) (hfit : d.length ≤ maxBytes)
    (hend : ¬ EndFits s d) {pushed' : List Buf} : ¬ Exact (s.after d) pushed' := by
  intro hexact
  rw [EndFits, not_forall] at hend
  obtain ⟨h, hend⟩ := hend
  rw [Classical.not_imp] at hend
  obtain ⟨hd, hover⟩ := hend
  obtain ⟨hwrap, hcount, habove, heq⟩ := filing_of_files hd
  obtain ⟨hstart, hnext⟩ := hs.startAt habove
  obtain ⟨hkept, hroom, hsame⟩ := hstart.makeRoom
  have hcov := hexact.covers
  rw [heq, datagrams_eq, hkept.held_file hroom hfit, List.map_append] at hcov
  obtain ⟨b, -, hlast⟩ := hcov.split
  obtain ⟨-, -, hstop⟩ := hlast
  have hext : extent (((s.startAt h.firstSequence).makeRoom).newest h d).datagram
      = (h.firstSequence.toNat, h.firstSequence.toNat + h.messageCount.toNat) := by
    rw [newest_datagram, extent, hwrap]
  rw [hext] at hstop
  have hlt := ((s.startAt h.firstSequence).makeRoom.file h d).2.nextSequence.toNat_lt
  have hsum : h.firstSequence.toNat + h.messageCount.toNat
      = ((s.startAt h.firstSequence).makeRoom.file h d).2.nextSequence.toNat := hstop
  omega

end DatagramStore

open DatagramStore

/-- The run of a store that starts out in agreement. -/
theorem exact_run_iff {maxBytes : Nat} {pushed : List Buf} {s : DatagramStore}
    (hs : s.Kept maxBytes pushed) {ds : List Buf} (hfit : ∀ d ∈ ds, d.length ≤ maxBytes) :
    (∀ k, Exact ((ds.take k).foldl after s) (pushed ++ ds.take k)) ↔ Along after EndFits s ds := by
  induction ds generalizing s pushed with
  | nil =>
    constructor
    · intro
      trivial
    · intro _ k
      simpa using hs.exact
  | cons d ds ih =>
    have hd := hfit d (by simp)
    have hrest : ∀ d' ∈ ds, d'.length ≤ maxBytes := fun d' hd' =>
      hfit d' (List.mem_cons_of_mem d hd')
    constructor
    · intro hall
      have hfirst : Exact (s.after d) (pushed ++ [d]) := by simpa using hall 1
      have hend : EndFits s d := by
        by_contra hover
        exact hs.not_exact hd hover hfirst
      refine ⟨hend, (ih (hs.after hd hend) hrest).mp fun k => ?_⟩
      simpa using hall (k + 1)
    · rintro ⟨hend, hgo⟩ k
      cases k with
      | zero => simpa using hs.exact
      | succ k => simpa using (ih (hs.after hd hend) hrest).mpr hgo k

/-- **The store serves exact ranges**, whatever is pushed, precisely when no datagram it files
carries the last number of the 64 bits. -/
theorem exact_iff (capacity maxDatagramBytes : Nat) (ds : List Buf)
    (hfit : ∀ d ∈ ds, d.length ≤ maxDatagramBytes) :
    (∀ k, Exact ((ds.take k).foldl after (new capacity maxDatagramBytes)) (ds.take k)) ↔
      Along after EndFits (new capacity maxDatagramBytes) ds := by
  simpa using exact_run_iff (kept_new capacity maxDatagramBytes) hfit

/-- A datagram of two messages, a copy of it and one after a hole. -/
def threePushed : List Buf :=
  [packet 0 1 [heartbeatBlock 0, heartbeatBlock 0], packet 0 1 [heartbeatBlock 0, heartbeatBlock 0],
    packet 0 7 [heartbeatBlock 0]]

theorem exact_three_pushed :
    Along after EndFits (new 2 64) threePushed ∧
      ∀ k, Exact ((threePushed.take k).foldl after (new 2 64)) (threePushed.take k) := by
  have hends : Along after EndFits (new 2 64) threePushed := by decide +kernel
  exact ⟨hends, (exact_iff 2 64 threePushed (by decide +kernel)).mpr hends⟩

/-- The last number there is: the store holds its message and says that it holds none. -/
theorem last_number_not_exact :
    ¬ ∀ ds : List Buf, (∀ d ∈ ds, d.length ≤ 64) → ∀ k,
      Exact ((ds.take k).foldl after (new 4 64)) (ds.take k) := by
  intro hall
  have hexact := hall [packet 0 (2 ^ 64 - 1) [heartbeatBlock 0]] (by decide +kernel) 1
  have hle := hexact.covers.le
  revert hle
  decide +kernel

end MarketData.Replay
