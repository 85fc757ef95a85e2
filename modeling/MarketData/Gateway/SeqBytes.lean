import MarketData.Gateway.SeqStore
import MarketData.Wire.Header

/-!
# `Gateway/SeqBytes.lean` — the sequence file, byte by byte

`cpp/gateway/src/seqstore.cpp` again, below `Gateway/SeqStore.lean`: the file is its bytes, a slot
is what forty bytes at its offset say, and a write that is interrupted leaves whatever it leaves
there. The first write of a new file goes to the slot that lies behind, so that the one in front of
it is there as well from then on, as zeros: a hole, which a read does not tell from a slot that was
written at some point but is not intact.

Until a write has reached the slot in front, a reopen counts the hole as torn, and where the first
write was the one interrupted it finds nothing but damaged slots (`reopened_right_iff`).

## What an interrupted write leaves

`part` of the forty bytes came to be written, in order from the front; the rest is what was there.
The checksum of a record is over the fields before it, so a mixture of an old record and a new one
is refused unless it happens to add up. `Told` says that it does not, which no program can rule out;
`Fits` says that generations stay within 64 bits. These two make a history `Regular`, and neither
speaks of the hole.

## Two slots and one invariant

A file is fresh, in that no write has left anything in it, or it is `Held`: both slots are there,
one of them has the numbers that are in memory, and the other is older, or damaged, or the hole.
Every event leads from one to the other, and a held file without the hole opens right. What a right
answer is, the pair of the last write that went through or of the interrupted one, and the number of
slots left damaged, is kept beside the file in `History`, so that it is **not read off the bytes it
is compared with**.
-/

set_option autoImplicit false

namespace MarketData.Gateway.SeqBytes

open MarketData.Wire MarketData.Run

/-! ## Records -/

/-- `MAGIC`, "FIXSEQ" and the version -/
def magic : UInt64 := 0x4649585345510001

structure Record where
  magic : UInt64
  generation : UInt64
  outbound : UInt64
  inbound : UInt64
  checksum : UInt64
  deriving DecidableEq, Repr

/-- The eight bytes of a word. -/
def wordBytes (v : UInt64) : Buf := putU64 (List.replicate 8 0) 0 v

/-- FNV-1a over the first four fields. -/
def computeChecksum (r : Record) : UInt64 :=
  ([r.magic, r.generation, r.outbound, r.inbound].flatMap wordBytes).foldl
    (fun h b => (h ^^^ b.toUInt64) * 0x100000001b3) 0xcbf29ce484222325

def Record.bytes (r : Record) : Buf :=
  [r.magic, r.generation, r.outbound, r.inbound, r.checksum].flatMap wordBytes

/-- `sizeof(Record)` -/
def recordSize : Nat := 40

def Record.read (b : Buf) : Record :=
  { magic := leU64 b 0, generation := leU64 b 8, outbound := leU64 b 16, inbound := leU64 b 24
    checksum := leU64 b 32 }

/-- What forty bytes of a slot say. Fewer of them are a short read. -/
def slotOf (b : Buf) : Slot :=
  if b.length ≠ recordSize then .unwritten
  else
    let r := Record.read b
    if r.magic ≠ magic ∨ r.checksum ≠ computeChecksum r then .damaged
    else .intact ⟨r.generation.toNat, ⟨r.outbound, r.inbound⟩⟩

/-! ## The file -/

/-- `SLOT_OFFSET` -/
def slotOffset (slot : Nat) : Nat := if slot = 0 then 0 else 512

def pread (file : Buf) (slot : Nat) : Buf := (file.drop (slotOffset slot)).take recordSize

/-- Bytes behind the end of the file leave a hole, which reads as zeros. -/
def pwrite (file : Buf) (slot : Nat) (data : Buf) : Buf :=
  if data = [] then file
  else
    let front := file.take (slotOffset slot)
    front ++ List.replicate (slotOffset slot - front.length) 0 ++ data
      ++ file.drop (slotOffset slot + data.length)

/-- An open store. -/
structure Store where
  file : Buf := []
  seq : SeqPair := {}
  generation : UInt64 := 0
  tornRecovered : Nat := 0
  deriving DecidableEq, Repr

/-- `SeqStore::open` -/
def openPath (file : Buf) : Except StoreError Store :=
  let a := [slotOf (pread file 0), slotOf (pread file 1)].foldl SeqStore.Scan.next {}
  match a.best with
  | some r =>
    .ok { file, seq := r.seq, generation := UInt64.ofNat r.generation, tornRecovered := a.torn }
  | none =>
    if 0 < a.seen ∧ a.torn = a.seen then .error .corrupt
    else .ok { file, tornRecovered := a.torn }

namespace Store

/-- The slot of the next write. -/
def nextSlot (s : Store) : Nat := ((s.generation + 1) % 2).toNat

/-- The record of the next write. -/
def record (s : Store) (next : SeqPair) : Record :=
  let r : Record :=
    { magic, generation := s.generation + 1, outbound := next.outbound, inbound := next.inbound
      checksum := 0 }
  { r with checksum := computeChecksum r }

/-- A `store` that was not interrupted. -/
def store (s : Store) (next : SeqPair) : Store :=
  { s with
    file := pwrite s.file s.nextSlot (s.record next).bytes
    seq := next
    generation := s.generation + 1 }

end Store

/-! ## Histories -/

/-- What a file goes through. The process ends and the file is opened again after `stop` and after
`crash`, which interrupts a `store`: of the forty bytes of the slot `part` came to be written. -/
inductive Event where
  | store (next : SeqPair)
  | stop
  | crash (next : SeqPair) (part : Buf)
  deriving DecidableEq, Repr

/-- A file with what has happened to it: the slots an interrupted write has left damaged, and
whether any write has changed the slot in front. -/
structure History where
  store : Store := {}
  damaged0 : Bool := false
  damaged1 : Bool := false
  reached : Bool := false
  deriving DecidableEq, Repr

namespace History

def damaged (h : History) (slot : Nat) : Bool := if slot = 0 then h.damaged0 else h.damaged1

/-- The slots left damaged. -/
def damagedSlots (h : History) : Nat := h.damaged0.toNat + h.damaged1.toNat

/-- A slot was changed, and left damaged or not. -/
def change (h : History) (slot : Nat) (left : Bool) : History :=
  if slot = 0 then { h with damaged0 := left, reached := true } else { h with damaged1 := left }

/-- A write that went through. -/
def stored (h : History) (next : SeqPair) : History :=
  { h.change h.store.nextSlot false with store := h.store.store next }

/-- The bytes an interrupted write leaves. -/
def leftFile (h : History) (part : Buf) : Buf :=
  pwrite h.store.file h.store.nextSlot (part.take recordSize)

def interrupted (h : History) (part : Buf) : History :=
  let slot := h.store.nextSlot
  let left := pread (h.leftFile part) slot
  let h' := { h with store := { h.store with file := h.leftFile part } }
  if left = pread h.store.file slot then h'
  else
    h'.change slot (match slotOf left with
      | .intact _ => false
      | .unwritten | .damaged => true)

/-- The process ends and the file is opened again. -/
def reopen (h : History) : Except StoreError History :=
  match openPath h.store.file with
  | .ok store => .ok { h with store }
  | .error e => .error e

def step (h : History) : Event → Except StoreError History
  | .store next => .ok (h.stored next)
  | .stop => h.reopen
  | .crash _ part => (h.interrupted part).reopen

/-- A reopen gives one of the pairs, and counts the slots left damaged. -/
def Recovers (h : History) (pairs : List SeqPair) : Prop :=
  match openPath h.store.file with
  | .ok store => store.seq ∈ pairs ∧ store.tornRecovered = h.damagedSlots
  | .error _ => False

/-- **What the store promises**: the pair of the last write that went through, or of the one that
was interrupted. -/
def Right (h : History) : Event → Prop
  | .store _ => True
  | .stop => h.Recovers [h.store.seq]
  | .crash next part => (h.interrupted part).Recovers [h.store.seq, next]

/-- The file is still empty, or a write has changed the slot in front. -/
def NoHole (h : History) : Prop := h.store.file = [] ∨ h.reached = true

/-- Whenever the file is opened again there is no hole in it. -/
def Reached (h : History) : Event → Prop
  | .store _ => True
  | .stop => h.NoHole
  | .crash _ part => (h.interrupted part).NoHole

/-- What an interrupted write leaves is no record but the one that was there or the one it was to
write: no half of a record has the checksum of a whole one. -/
def Told (h : History) (next : SeqPair) (part : Buf) : Prop :=
  match slotOf (pread (h.leftFile part) h.store.nextSlot) with
  | .intact r => slotOf (pread h.store.file h.store.nextSlot) = .intact r ∨
      r = ⟨h.store.generation.toNat + 1, next⟩
  | .unwritten | .damaged => True

/-- Generations are 64 bits wide. -/
def Fits (h : History) : Prop := h.store.generation.toNat + 1 < 2 ^ 64

def Regular (h : History) : Event → Prop
  | .store _ => h.Fits
  | .stop => True
  | .crash next part => h.Fits ∧ h.Told next part

instance (h : History) (pairs : List SeqPair) : Decidable (h.Recovers pairs) := by
  unfold Recovers
  split <;> infer_instance

instance (h : History) : Decidable h.NoHole := inferInstanceAs (Decidable (_ ∨ _))

instance (h : History) (next : SeqPair) (part : Buf) : Decidable (h.Told next part) := by
  unfold Told
  split <;> infer_instance

instance (h : History) : Decidable h.Fits := inferInstanceAs (Decidable (_ < _))

instance (h : History) (e : Event) : Decidable (h.Right e) := by
  cases e <;> unfold Right <;> infer_instance

instance (h : History) (e : Event) : Decidable (h.Reached e) := by
  cases e <;> unfold Reached <;> infer_instance

instance (h : History) (e : Event) : Decidable (h.Regular e) := by
  cases e <;> unfold Regular <;> infer_instance

end History

/-! ## Reading and writing slots -/

theorem length_wordBytes (v : UInt64) : (wordBytes v).length = 8 := by simp [wordBytes]

theorem length_bytes (r : Record) : r.bytes.length = recordSize := by
  simp [Record.bytes, length_wordBytes, recordSize]

theorem leU64_wordBytes {front rest : Buf} {o : Nat} (ho : front.length = o) (v : UInt64) :
    leU64 (front ++ (wordBytes v ++ rest)) o = v := by
  rw [leU64, Bytes.leNat_append_right _ _ (Nat.le_of_eq ho), ho, Nat.sub_self,
    Bytes.leNat_append_left _ _ (by rw [length_wordBytes])]
  exact leU64_putU64 v (by simp)

theorem read_bytes (r : Record) : Record.read r.bytes = r := by
  obtain ⟨magic, generation, outbound, inbound, checksum⟩ := r
  have hbytes : Record.bytes ⟨magic, generation, outbound, inbound, checksum⟩ =
      wordBytes magic ++ (wordBytes generation ++ (wordBytes outbound ++ (wordBytes inbound ++
        (wordBytes checksum ++ [])))) := by
    simp only [Record.bytes, List.flatMap_cons, List.flatMap_nil]
  have hmagic : leU64 (Record.bytes ⟨magic, generation, outbound, inbound, checksum⟩) 0 = magic := by
    rw [hbytes, ← List.nil_append (wordBytes magic ++ _)]
    exact leU64_wordBytes List.length_nil magic
  have hgeneration : leU64 (Record.bytes ⟨magic, generation, outbound, inbound, checksum⟩) 8 =
      generation := by
    rw [hbytes]
    exact leU64_wordBytes (length_wordBytes magic) generation
  have houtbound : leU64 (Record.bytes ⟨magic, generation, outbound, inbound, checksum⟩) 16 =
      outbound := by
    rw [hbytes, ← List.append_assoc]
    exact leU64_wordBytes (by simp only [List.length_append, length_wordBytes]) outbound
  have hinbound : leU64 (Record.bytes ⟨magic, generation, outbound, inbound, checksum⟩) 24 =
      inbound := by
    rw [hbytes, ← List.append_assoc, ← List.append_assoc]
    exact leU64_wordBytes (by simp only [List.length_append, length_wordBytes]) inbound
  have hchecksum : leU64 (Record.bytes ⟨magic, generation, outbound, inbound, checksum⟩) 32 =
      checksum := by
    rw [hbytes, ← List.append_assoc, ← List.append_assoc, ← List.append_assoc]
    exact leU64_wordBytes (by simp only [List.length_append, length_wordBytes]) checksum
  rw [Record.read, hmagic, hgeneration, houtbound, hinbound, hchecksum]

theorem computeChecksum_checksum (r : Record) (checksum : UInt64) :
    computeChecksum { r with checksum } = computeChecksum r := by
  unfold computeChecksum
  dsimp only

/-- A record that was written verifies. -/
theorem record_verifies (s : Store) (next : SeqPair) :
    ¬ ((s.record next).magic ≠ magic ∨
      (s.record next).checksum ≠ computeChecksum (s.record next)) := by
  rw [not_or, not_not, not_not]
  unfold Store.record
  dsimp only
  refine ⟨rfl, ?_⟩
  exact (computeChecksum_checksum
    ⟨magic, s.generation + 1, next.outbound, next.inbound, 0⟩ _).symm

/-- **A record that was written reads as itself.** -/
theorem slotOf_record (s : Store) (next : SeqPair) :
    slotOf (s.record next).bytes = .intact ⟨(s.generation + 1).toNat, next⟩ := by
  unfold slotOf
  rw [if_neg (not_not.mpr (length_bytes _)), read_bytes]
  dsimp only
  rw [if_neg (record_verifies s next)]
  unfold Store.record
  dsimp only

/-- Both slots are there. -/
def Full (file : Buf) : Prop := file.length = 552

theorem slotOf_unwritten {b : Buf} (h : b.length ≠ recordSize) : slotOf b = .unwritten := if_pos h

section Full

variable {file part : Buf} {slot : Nat} (hfile : Full file) (hpart : part.length ≤ recordSize)
include hfile

theorem length_pread_full (slot : Nat) : (pread file slot).length = recordSize := by
  have hlen : file.length = 552 := hfile
  unfold pread slotOffset recordSize
  split <;> simp [hlen]

theorem slotOf_full (slot : Nat) : slotOf (pread file slot) ≠ .unwritten := by
  unfold slotOf
  rw [if_neg (not_not.mpr (length_pread_full hfile slot))]
  dsimp only
  split <;> exact fun h => nomatch h

include hpart

theorem pwrite_full (slot : Nat) :
    pwrite file slot part = file.take (slotOffset slot) ++ part
      ++ file.drop (slotOffset slot + part.length) := by
  have hlen : file.length = 552 := hfile
  unfold pwrite
  by_cases hnil : part = []
  · subst hnil
    simp
  · have hfront : slotOffset slot - (file.take (slotOffset slot)).length = 0 := by
      unfold slotOffset
      split <;> simp [hlen]
    rw [if_neg hnil]
    dsimp only
    rw [hfront]
    simp

theorem full_pwrite (slot : Nat) : Full (pwrite file slot part) := by
  have hlen : file.length = 552 := hfile
  unfold recordSize at hpart
  unfold Full
  rw [pwrite_full hfile hpart, slotOffset]
  split <;> simp [hlen] <;> omega

/-- A write leaves the other slot alone. -/
theorem pread_pwrite_other {other : Nat} (hother : (slot = 0) ↔ (other ≠ 0)) :
    pread (pwrite file slot part) other = pread file other := by
  have hlen : file.length = 552 := hfile
  unfold recordSize at hpart
  rw [pwrite_full hfile hpart]
  unfold pread slotOffset recordSize
  by_cases h0 : slot = 0
  · have hne := hother.mp h0
    rw [if_pos h0, if_neg hne, List.take_zero, List.nil_append, Nat.zero_add,
      List.drop_append, List.drop_drop]
    congr 1
    rw [List.drop_eq_nil_of_le (by omega), List.nil_append]
    congr 1
    omega
  · have he : other = 0 := by
      by_contra hne
      exact h0 (hother.mpr hne)
    rw [if_neg h0, if_pos he, List.drop_zero, List.drop_zero, List.append_assoc,
      List.take_append_of_le_length (by simp [hlen]), List.take_take]
    rfl

end Full

/-- A whole record is what its slot holds then. -/
theorem pread_pwrite_self {file data : Buf} (hdata : data.length = recordSize) (slot : Nat) :
    pread (pwrite file slot data) slot = data := by
  have hnil : data ≠ [] := by
    rintro rfl
    cases hdata
  have hfront : (file.take (slotOffset slot) ++
      List.replicate (slotOffset slot - (file.take (slotOffset slot)).length) 0).length
      = slotOffset slot := by
    simp only [List.length_append, List.length_take, List.length_replicate]
    omega
  unfold pwrite pread
  rw [if_neg hnil]
  dsimp only
  rw [List.append_assoc, List.drop_append_of_le_length (Nat.le_of_eq hfront.symm),
    List.drop_eq_nil_of_le (Nat.le_of_eq hfront), List.nil_append,
    List.take_append_of_le_length (Nat.le_of_eq hdata.symm), ← hdata, List.take_length]

/-- The first write of a file leaves a hole in front. -/
theorem pwrite_hole {data : Buf} (hdata : data ≠ []) :
    pwrite [] 1 data = List.replicate 512 0 ++ data := by
  have hoffset : slotOffset 1 = 512 := rfl
  unfold pwrite
  rw [if_neg hdata, hoffset]
  dsimp only
  rw [List.take_nil, List.drop_nil, List.length_nil, Nat.sub_zero, List.nil_append, List.append_nil]

theorem pread_hole {data : Buf} (hdata : data ≠ []) :
    pread (pwrite [] 1 data) 0 = List.replicate recordSize 0 := by
  have hoffset : slotOffset 0 = 0 := rfl
  have hle : recordSize ≤ (List.replicate 512 (0 : UInt8)).length := by
    rw [List.length_replicate]
    decide
  rw [pwrite_hole hdata, pread, hoffset, List.drop_zero, List.take_append_of_le_length hle,
    List.take_replicate]
  rfl

theorem pread_behind {data : Buf} (hdata : data ≠ []) (hle : data.length ≤ recordSize) :
    pread (pwrite [] 1 data) 1 = data := by
  have hoffset : slotOffset 1 = 512 := rfl
  rw [pwrite_hole hdata, pread, hoffset, List.drop_left' (List.length_replicate),
    List.take_of_length_le hle]

theorem slotOf_hole : slotOf (List.replicate recordSize 0) = .damaged := by decide +kernel

/-! ## What a reopen finds -/

/-- The intact slot is what the file opens as, where the other one is damaged or older. -/
theorem openPath_current {file : Buf} {slot : Nat} {r : SeqRecord} (hslot : slot < 2)
    (hr : slotOf (pread file (1 - slot)) = .intact r)
    (hother : slotOf (pread file slot) = .damaged ∨
      ∃ r', slotOf (pread file slot) = .intact r' ∧ r'.generation < r.generation) :
    openPath file = .ok { file, seq := r.seq, generation := UInt64.ofNat r.generation
                          tornRecovered := if slotOf (pread file slot) = .damaged then 1 else 0 } := by
  rcases Nat.lt_succ_iff_lt_or_eq.mp hslot with h0 | h1
  · obtain rfl : slot = 0 := Nat.lt_one_iff.mp h0
    rcases hother with hd | ⟨r', hr', hlt⟩
    · simp [openPath, SeqStore.Scan.next, hr, hd]
    · simp [openPath, SeqStore.Scan.next, hr, hr', hlt]
  · subst h1
    rcases hother with hd | ⟨r', hr', hlt⟩
    · simp [openPath, SeqStore.Scan.next, hr, hd]
    · simp [openPath, SeqStore.Scan.next, hr, hr', Nat.not_lt_of_gt hlt]

/-- Without an intact slot, and with a hole in front, a file is not opened. -/
theorem openPath_corrupt {file : Buf} (h0 : slotOf (pread file 0) = .damaged)
    (h1 : ∀ r, slotOf (pread file 1) ≠ .intact r) : openPath file = .error .corrupt := by
  cases hslot : slotOf (pread file 1) with
  | intact r => exact absurd hslot (h1 r)
  | unwritten | damaged => simp [openPath, SeqStore.Scan.next, h0, hslot]

theorem openPath_nil : openPath [] = .ok {} := rfl

namespace Store

variable (s : Store)

theorem nextSlot_lt : s.nextSlot < 2 := by
  have hmod := Nat.mod_lt (s.generation + 1).toNat (by decide : 0 < 2)
  rw [nextSlot, UInt64.toNat_mod]
  exact hmod

/-- The slots take turns. -/
theorem nextSlot_succ {s s' : Store} (h : s'.generation = s.generation + 1) :
    s'.nextSlot = 1 - s.nextSlot := by
  have htwo : (2 : UInt64).toNat = 2 := rfl
  have hone : (1 : UInt64).toNat = 1 := rfl
  have hlt := (s.generation + 1).toNat_lt
  rw [nextSlot, nextSlot, h, UInt64.toNat_mod, UInt64.toNat_mod, UInt64.toNat_add (s.generation + 1),
    htwo, hone]
  omega

end Store

namespace History

variable {h : History}

theorem damagedSlots_eq {slot : Nat} (hslot : slot < 2) :
    h.damagedSlots = (h.damaged slot).toNat + (h.damaged (1 - slot)).toNat := by
  rcases Nat.lt_succ_iff_lt_or_eq.mp hslot with h0 | h1
  · obtain rfl : slot = 0 := Nat.lt_one_iff.mp h0
    rfl
  · subst h1
    exact Nat.add_comm ..

@[simp] theorem store_change (slot : Nat) (left : Bool) : (h.change slot left).store = h.store := by
  unfold change
  split <;> rfl

theorem damaged_change (slot : Nat) (left : Bool) : (h.change slot left).damaged slot = left := by
  unfold change damaged
  split
  · rfl
  · rfl

theorem damaged_change_other {slot : Nat} (hslot : slot < 2) (left : Bool) :
    (h.change slot left).damaged (1 - slot) = h.damaged (1 - slot) := by
  rcases Nat.lt_succ_iff_lt_or_eq.mp hslot with h0 | h1
  · obtain rfl : slot = 0 := Nat.lt_one_iff.mp h0
    rfl
  · subst h1
    rfl

/-- Only a change of the slot in front reaches it. -/
theorem reached_change {slot : Nat} {left : Bool} (hr : (h.change slot left).reached = false) :
    slot ≠ 0 ∧ h.reached = false := by
  unfold change at hr
  split at hr
  · cases hr
  · exact ⟨by assumption, hr⟩

/-- No write has left anything in the file. -/
structure Fresh (h : History) : Prop where
  file : h.store.file = []
  seq : h.store.seq = {}
  generation : h.store.generation = 0
  sound : h.damaged0 = false ∧ h.damaged1 = false
  reached : h.reached = false

/-- The numbers in memory are those of one slot, which is intact. The other one is older, or
damaged: left so by a write, or the hole. -/
structure Held (h : History) : Prop where
  full : Full h.store.file
  current : slotOf (pread h.store.file (1 - h.store.nextSlot)) =
    .intact ⟨h.store.generation.toNat, h.store.seq⟩
  sound : h.damaged (1 - h.store.nextSlot) = false
  other : slotOf (pread h.store.file h.store.nextSlot) = .damaged ∨
    ∃ r, slotOf (pread h.store.file h.store.nextSlot) = .intact r ∧
      r.generation < h.store.generation.toNat
  counted : slotOf (pread h.store.file h.store.nextSlot) = .damaged ↔
    h.damaged h.store.nextSlot = true ∨ h.reached = false
  hole : h.reached = false → h.damaged0 = false ∧ h.store.nextSlot = 0

inductive Inv (h : History) : Prop where
  | fresh (hf : h.Fresh)
  | held (hh : h.Held)

theorem inv_new : Inv {} := .fresh ⟨rfl, rfl, rfl, ⟨rfl, rfl⟩, rfl⟩

theorem Held.not_nil (hh : h.Held) : h.store.file ≠ [] := by
  intro hnil
  have hlen : h.store.file.length = 552 := hh.full
  rw [hnil] at hlen
  cases hlen

theorem Held.open_eq (hh : h.Held) : openPath h.store.file =
    .ok { h.store with
      tornRecovered := if slotOf (pread h.store.file h.store.nextSlot) = .damaged then 1 else 0 } := by
  rw [openPath_current h.store.nextSlot_lt hh.current hh.other, UInt64.ofNat_toNat]

/-- **A reopen counts the hole.** -/
theorem Held.recovers_iff (hh : h.Held) {pairs : List SeqPair} (hseq : h.store.seq ∈ pairs) :
    h.Recovers pairs ↔ h.NoHole := by
  have hcount := damagedSlots_eq (h := h) h.store.nextSlot_lt
  rw [hh.sound, Bool.toNat_false, Nat.add_zero] at hcount
  unfold Recovers NoHole
  rw [hh.open_eq]
  dsimp only
  rw [and_iff_right hseq, or_iff_right hh.not_nil, hcount]
  cases hr : h.reached with
  | false =>
    obtain ⟨hsound, hslot⟩ := hh.hole hr
    have hdamaged : h.damaged h.store.nextSlot = false := by
      rw [hslot]
      exact hsound
    rw [if_pos (hh.counted.mpr (.inr hr)), hdamaged]
    exact iff_of_false (by decide) (by decide)
  | true =>
    refine iff_of_true ?_ rfl
    by_cases hd : slotOf (pread h.store.file h.store.nextSlot) = .damaged
    · have hdamaged : h.damaged h.store.nextSlot = true := by
        rcases hh.counted.mp hd with hdamaged | hfalse
        · exact hdamaged
        · rw [hr] at hfalse
          cases hfalse
      rw [if_pos hd, hdamaged]
      rfl
    · have hdamaged : h.damaged h.store.nextSlot = false := by
        rw [← Bool.not_eq_true]
        exact fun hd' => hd (hh.counted.mpr (.inl hd'))
      rw [if_neg hd, hdamaged]
      rfl

theorem Held.reopen (hh : h.Held) {h' : History} (hopen : h.reopen = .ok h') : h'.Held := by
  unfold History.reopen at hopen
  rw [hh.open_eq] at hopen
  cases hopen
  exact ⟨hh.full, hh.current, hh.sound, hh.other, hh.counted, hh.hole⟩

/-! ### What a write does -/

variable {next : SeqPair} {part : Buf}

theorem Fits.toNat_succ (hfits : h.Fits) :
    (h.store.generation + 1).toNat = h.store.generation.toNat + 1 := by
  rw [UInt64.toNat_add]
  exact Nat.mod_eq_of_lt hfits

/-- The history in which the write of `next` has come to its end, with the file as it is then. -/
def written (h : History) (next : SeqPair) : History :=
  { h with store := { h.store with seq := next, generation := h.store.generation + 1 } }

/-- A whole record in the slot of the older generation. -/
theorem Held.written (hh : h.Held) (hfits : h.Fits) {h' : History}
    (hfull : Full h'.store.file)
    (hgeneration : h'.store.generation = h.store.generation + 1)
    (hself : slotOf (pread h'.store.file h.store.nextSlot) =
      .intact ⟨h.store.generation.toNat + 1, h'.store.seq⟩)
    (hother : pread h'.store.file (1 - h.store.nextSlot)
      = pread h.store.file (1 - h.store.nextSlot))
    (hchange : ∃ store, h' = { h.change h.store.nextSlot false with store }) : h'.Held := by
  have hlt := h.store.nextSlot_lt
  have hslot : h'.store.nextSlot = 1 - h.store.nextSlot := Store.nextSlot_succ hgeneration
  have hback : 1 - h'.store.nextSlot = h.store.nextSlot := by omega
  obtain ⟨store, hstore⟩ := hchange
  have hdamaged : ∀ slot, h'.damaged slot = (h.change h.store.nextSlot false).damaged slot := by
    intro slot
    rw [hstore]
    rfl
  have hreached : h'.reached = true := by
    rw [hstore]
    cases hr : (h.change h.store.nextSlot false).reached with
    | true => rfl
    | false =>
      obtain ⟨hne, hr'⟩ := reached_change hr
      exact absurd (hh.hole hr').2 hne
  have hnat : h'.store.generation.toNat = h.store.generation.toNat + 1 := by
    rw [hgeneration, hfits.toNat_succ]
  have hprev : slotOf (pread h'.store.file h'.store.nextSlot) =
      .intact ⟨h.store.generation.toNat, h.store.seq⟩ := by
    rw [hslot, hother]
    exact hh.current
  refine ⟨hfull, ?_, ?_, .inr ⟨_, hprev, ?_⟩, ?_, ?_⟩
  · rw [hback, hself, hnat]
  · rw [hback, hdamaged, damaged_change]
  · rw [hnat]
    exact Nat.lt_succ_self _
  · rw [hprev, hdamaged, hslot, damaged_change_other hlt, hh.sound, hreached]
    exact iff_of_false (fun h => nomatch h) (by decide)
  · rw [hreached]
    exact fun h => nomatch h

theorem Fresh.nextSlot (hf : h.Fresh) : h.store.nextSlot = 1 := by
  rw [Store.nextSlot, hf.generation]
  rfl

/-- The first record of a file, behind the hole. -/
theorem Fresh.written (hf : h.Fresh) {data : Buf} (hdata : data.length = recordSize) {h' : History}
    (hfile : h'.store.file = pwrite [] 1 data)
    (hgeneration : h'.store.generation = 1)
    (hself : slotOf data = .intact ⟨1, h'.store.seq⟩)
    (hchange : ∃ store, h' = { h.change 1 false with store }) : h'.Held := by
  have hnil : data ≠ [] := by
    rintro rfl
    cases hdata
  have hslot : h'.store.nextSlot = 0 := by
    rw [Store.nextSlot, hgeneration]
    rfl
  have hhole : slotOf (pread h'.store.file h'.store.nextSlot) = .damaged := by
    rw [hslot, hfile, pread_hole hnil, slotOf_hole]
  obtain ⟨store, hstore⟩ := hchange
  have hreached : h'.reached = false := by
    rw [hstore]
    exact hf.reached
  have hsound : h'.damaged0 = false ∧ h'.damaged1 = false := by
    rw [hstore]
    exact ⟨hf.sound.1, rfl⟩
  refine ⟨?_, ?_, ?_, .inl hhole, ?_, fun _ => ⟨hsound.1, hslot⟩⟩
  · rw [hfile, pwrite_hole hnil, Full, List.length_append, List.length_replicate, hdata]
    rfl
  · rw [hslot, hfile, hgeneration, pread_behind hnil (Nat.le_of_eq hdata)]
    exact hself
  · rw [hslot]
    exact hsound.2
  · exact iff_of_true hhole (.inr hreached)

theorem stored_file : (h.stored next).store.file =
    pwrite h.store.file h.store.nextSlot (h.store.record next).bytes := rfl

theorem Inv.stored (hi : h.Inv) (hfits : h.Fits) : (h.stored next).Held := by
  have hlen := length_bytes (h.store.record next)
  have hrecord := slotOf_record h.store next
  rw [hfits.toNat_succ] at hrecord
  cases hi with
  | fresh hf =>
    rw [hf.generation] at hrecord
    refine hf.written hlen ?_ ?_ hrecord ⟨h.store.store next, ?_⟩
    · rw [stored_file, hf.file, hf.nextSlot]
    · show h.store.generation + 1 = 1
      rw [hf.generation]
      rfl
    · rw [History.stored, hf.nextSlot]
  | held hh =>
    have hslot := h.store.nextSlot_lt
    refine hh.written hfits ?_ rfl ?_ ?_ ⟨h.store.store next, rfl⟩
    · exact full_pwrite hh.full (Nat.le_of_eq hlen) h.store.nextSlot
    · rw [stored_file, pread_pwrite_self hlen, hrecord]
      rfl
    · exact pread_pwrite_other hh.full (Nat.le_of_eq hlen) (by omega)

/-! ### What an interrupted write leaves -/

theorem length_take_part (part : Buf) : (part.take recordSize).length ≤ recordSize :=
  List.length_take_le ..

/-- A slot that reads as it did before was not changed. -/
theorem interrupted_of_same (hsame : pread (h.leftFile part) h.store.nextSlot
    = pread h.store.file h.store.nextSlot) :
    h.interrupted part = { h with store := { h.store with file := h.leftFile part } } :=
  if_pos hsame

theorem interrupted_of_intact (hchanged : pread (h.leftFile part) h.store.nextSlot
    ≠ pread h.store.file h.store.nextSlot) {r : SeqRecord}
    (hr : slotOf (pread (h.leftFile part) h.store.nextSlot) = .intact r) :
    h.interrupted part =
      { h.change h.store.nextSlot false with store := { h.store with file := h.leftFile part } } := by
  unfold History.interrupted
  dsimp only
  rw [if_neg hchanged, hr]
  unfold change
  split <;> rfl

theorem interrupted_of_damaged (hchanged : pread (h.leftFile part) h.store.nextSlot
    ≠ pread h.store.file h.store.nextSlot)
    (hr : ∀ r, slotOf (pread (h.leftFile part) h.store.nextSlot) ≠ .intact r) :
    h.interrupted part =
      { h.change h.store.nextSlot true with store := { h.store with file := h.leftFile part } } := by
  unfold History.interrupted
  dsimp only
  rw [if_neg hchanged]
  cases hslot : slotOf (pread (h.leftFile part) h.store.nextSlot) with
  | intact r => exact absurd hslot (hr r)
  | unwritten | damaged =>
    unfold change
    split <;> rfl

theorem interrupted_file : (h.interrupted part).store.file = h.leftFile part := by
  unfold History.interrupted
  dsimp only
  split
  · rfl
  · rw [store_change]

/-- The numbers in memory are as they were, and so is their slot. -/
theorem Held.unwritten (hh : h.Held) {h' : History} {left : Bool}
    (hfull : Full h'.store.file) (hstore : h'.store = { h.store with file := h'.store.file })
    (hother : pread h'.store.file (1 - h.store.nextSlot)
      = pread h.store.file (1 - h.store.nextSlot))
    (hslot : slotOf (pread h'.store.file h.store.nextSlot) = .damaged ∧ left = true ∨
      ∃ r, slotOf (pread h'.store.file h.store.nextSlot) = .intact r ∧ left = false ∧
        r.generation < h.store.generation.toNat)
    (hchange : ∃ store, h' = { h.change h.store.nextSlot left with store }) : h'.Held := by
  have hlt := h.store.nextSlot_lt
  have hnext : h'.store.nextSlot = h.store.nextSlot := by
    rw [hstore]
    rfl
  have hgeneration : h'.store.generation = h.store.generation := by rw [hstore]
  have hseq : h'.store.seq = h.store.seq := by rw [hstore]
  obtain ⟨store, hh'⟩ := hchange
  have hdamaged : ∀ slot, h'.damaged slot = (h.change h.store.nextSlot left).damaged slot := by
    intro slot
    rw [hh']
    rfl
  have hreached : h'.reached = true := by
    rw [hh']
    cases hr : (h.change h.store.nextSlot left).reached with
    | true => rfl
    | false =>
      obtain ⟨hne, hr'⟩ := reached_change hr
      exact absurd (hh.hole hr').2 hne
  refine ⟨hfull, ?_, ?_, ?_, ?_, ?_⟩
  · rw [hnext, hother, hgeneration, hseq]
    exact hh.current
  · rw [hnext, hdamaged, damaged_change_other hlt, hh.sound]
  · rw [hnext, hgeneration]
    rcases hslot with ⟨hd, -⟩ | ⟨r, hr, -, hlt'⟩
    · exact .inl hd
    · exact .inr ⟨r, hr, hlt'⟩
  · rw [hnext, hdamaged, damaged_change, hreached]
    rcases hslot with ⟨hd, rfl⟩ | ⟨r, hr, rfl, -⟩
    · exact iff_of_true hd (.inl rfl)
    · rw [hr]
      exact iff_of_false (fun h => nomatch h) (by decide)
  · rw [hreached]
    exact fun h => nomatch h

/-- Either the write has come to its end or the numbers are the ones before. -/
theorem Held.interrupted (hh : h.Held) (hfits : h.Fits) (htold : h.Told next part) :
    (h.interrupted part).Held ∨ ((h.interrupted part).written next).Held := by
  have hlt := h.store.nextSlot_lt
  have hfull : Full (h.leftFile part) := full_pwrite hh.full (length_take_part part) _
  have hother : pread (h.leftFile part) (1 - h.store.nextSlot)
      = pread h.store.file (1 - h.store.nextSlot) :=
    pread_pwrite_other hh.full (length_take_part part) (by omega)
  by_cases hsame : pread (h.leftFile part) h.store.nextSlot = pread h.store.file h.store.nextSlot
  · rw [interrupted_of_same hsame]
    refine .inl ⟨hfull, ?_, hh.sound, ?_, ?_, hh.hole⟩
    · exact hother ▸ hh.current
    · exact hsame ▸ hh.other
    · exact hsame ▸ hh.counted
  cases hslot : slotOf (pread (h.leftFile part) h.store.nextSlot) with
  | unwritten => exact absurd hslot (slotOf_full hfull _)
  | damaged =>
    have hno : ∀ r, slotOf (pread (h.leftFile part) h.store.nextSlot) ≠ .intact r := by
      intro r hr
      rw [hr] at hslot
      cases hslot
    rw [interrupted_of_damaged hsame hno]
    exact .inl (hh.unwritten hfull rfl hother (.inl ⟨hslot, rfl⟩) ⟨_, rfl⟩)
  | intact r =>
    have hrecord := htold
    unfold Told at hrecord
    rw [hslot] at hrecord
    dsimp only at hrecord
    rw [interrupted_of_intact hsame hslot]
    rcases hrecord with hold | rfl
    · -- the record that was there, in bytes that are read alike
      have holder : r.generation < h.store.generation.toNat := by
        rcases hh.other with hd | ⟨r', hr', hlt'⟩
        · rw [hold] at hd
          cases hd
        · rw [hold] at hr'
          cases hr'
          exact hlt'
      exact .inl (hh.unwritten hfull rfl hother (.inr ⟨r, hslot, rfl, holder⟩) ⟨_, rfl⟩)
    · exact .inr (hh.written hfits hfull rfl hslot hother ⟨_, rfl⟩)

theorem Fresh.leftFile (hf : h.Fresh) (part : Buf) :
    h.leftFile part = pwrite [] 1 (part.take recordSize) := by
  rw [History.leftFile, hf.file, hf.nextSlot]

/-- A first write leaves nothing, its record behind the hole, or no slot that can be read. -/
theorem Fresh.interrupted (hf : h.Fresh) (htold : h.Told next part) :
    (h.interrupted part).Fresh ∨ ((h.interrupted part).written next).Held ∨
      (openPath (h.interrupted part).store.file = .error .corrupt ∧
        ¬ (h.interrupted part).NoHole) := by
  have hfile := hf.leftFile part
  have hempty : pread h.store.file h.store.nextSlot = [] := by
    rw [hf.file, hf.nextSlot]
    rfl
  by_cases hnil : part.take recordSize = []
  · have hleft : h.leftFile part = [] := by
      rw [hfile, hnil]
      rfl
    have hsame : pread (h.leftFile part) h.store.nextSlot
        = pread h.store.file h.store.nextSlot := by rw [hleft, hf.file]
    rw [interrupted_of_same hsame]
    exact .inl ⟨hleft, hf.seq, hf.generation, hf.sound, hf.reached⟩
  have hself : pread (h.leftFile part) h.store.nextSlot = part.take recordSize := by
    rw [hfile, hf.nextSlot, pread_behind hnil (length_take_part part)]
  have hchanged : pread (h.leftFile part) h.store.nextSlot
      ≠ pread h.store.file h.store.nextSlot := by
    rw [hself, hempty]
    exact hnil
  by_cases hintact : ∃ r, slotOf (pread (h.leftFile part) h.store.nextSlot) = .intact r
  · obtain ⟨r, hr⟩ := hintact
    have hnew : r = ⟨h.store.generation.toNat + 1, next⟩ := by
      have hrecord := htold
      unfold Told at hrecord
      rw [hr] at hrecord
      rcases hrecord with hold | hnew
      · rw [hempty] at hold
        cases hold
      · exact hnew
    have hlen : (part.take recordSize).length = recordSize := by
      by_contra hshort
      rw [hself, slotOf_unwritten hshort] at hr
      cases hr
    have hzero : h.store.generation.toNat = 0 := by
      rw [hf.generation]
      rfl
    rw [hself, hnew, hzero] at hr
    rw [interrupted_of_intact hchanged (hself ▸ hr)]
    have hgeneration : h.store.generation + 1 = 1 := by
      rw [hf.generation]
      rfl
    refine .inr (.inl (hf.written hlen hfile hgeneration hr
      ⟨{ file := h.leftFile part, seq := next, generation := h.store.generation + 1,
         tornRecovered := h.store.tornRecovered }, ?_⟩))
    rw [hf.nextSlot]
    rfl
  · have hno : ∀ r, slotOf (pread (h.leftFile part) h.store.nextSlot) ≠ .intact r :=
      fun r hr => hintact ⟨r, hr⟩
    refine .inr (.inr ⟨?_, ?_⟩)
    · have hfront : slotOf (pread (h.interrupted part).store.file 0) = .damaged := by
        rw [interrupted_file, hfile, pread_hole hnil, slotOf_hole]
      have hbehind : ∀ r, slotOf (pread (h.interrupted part).store.file 1) ≠ .intact r := by
        rw [interrupted_file, ← hf.nextSlot]
        exact hno
      exact openPath_corrupt hfront hbehind
    · unfold NoHole
      rw [interrupted_file, hfile, pwrite_hole hnil, interrupted_of_damaged hchanged hno,
        hf.nextSlot]
      rintro (hbytes | hreached)
      · exact hnil (List.append_eq_nil_iff.mp hbytes).2
      · have hfalse : h.reached = true := hreached
        rw [hf.reached] at hfalse
        cases hfalse

/-! ### Steps -/

theorem Fresh.open_eq (hf : h.Fresh) : openPath h.store.file = .ok {} := by
  rw [hf.file]
  exact openPath_nil

theorem Fresh.recovers (hf : h.Fresh) {pairs : List SeqPair} (hseq : h.store.seq ∈ pairs) :
    h.Recovers pairs := by
  rw [hf.seq] at hseq
  unfold Recovers damagedSlots
  rw [hf.open_eq, hf.sound.1, hf.sound.2]
  exact ⟨hseq, rfl⟩

theorem Fresh.reopen (hf : h.Fresh) {h' : History} (hopen : h.reopen = .ok h') : h'.Fresh := by
  unfold History.reopen at hopen
  rw [hf.open_eq] at hopen
  cases hopen
  exact ⟨rfl, rfl, rfl, hf.sound, hf.reached⟩

theorem Inv.reopen (hi : h.Inv) {h' : History} (hopen : h.reopen = .ok h') : h'.Inv := by
  cases hi with
  | fresh hf => exact .fresh (hf.reopen hopen)
  | held hh => exact .held (hh.reopen hopen)

theorem Inv.recovers_iff (hi : h.Inv) {pairs : List SeqPair} (hseq : h.store.seq ∈ pairs) :
    h.Recovers pairs ↔ h.NoHole := by
  cases hi with
  | fresh hf => exact iff_of_true (hf.recovers hseq) (.inl hf.file)
  | held hh => exact hh.recovers_iff hseq

/-- The three ways a crash can end. -/
theorem Inv.interrupted (hi : h.Inv) (hfits : h.Fits) (htold : h.Told next part) :
    (h.interrupted part).Inv ∨ ((h.interrupted part).written next).Held ∨
      (openPath (h.interrupted part).store.file = .error .corrupt ∧
        ¬ (h.interrupted part).NoHole) := by
  cases hi with
  | fresh hf => exact (hf.interrupted htold).imp_left .fresh
  | held hh =>
    rcases hh.interrupted hfits htold with hh' | hh'
    · exact .inl (.held hh')
    · exact .inr (.inl hh')

theorem interrupted_seq : (h.interrupted part).store.seq = h.store.seq := by
  unfold interrupted
  dsimp only
  split
  · rfl
  · rw [store_change]

/-- **One step keeps the invariant.** -/
theorem inv_step {e : Event} {h' : History} (hi : h.Inv) (hr : h.Regular e)
    (hstep : h.step e = .ok h') : h'.Inv := by
  cases e with
  | store next =>
    cases hstep
    exact .held (hi.stored hr)
  | stop => exact hi.reopen hstep
  | crash next part =>
    have hopen : (h.interrupted part).reopen = .ok h' := hstep
    rcases hi.interrupted hr.1 hr.2 with hi' | hh' | ⟨hcorrupt, -⟩
    · exact hi'.reopen hopen
    · exact .held (hh'.reopen hopen)
    · rw [History.reopen, hcorrupt] at hopen
      cases hopen

/-- **One reopen is right** just if there is no hole in the file. -/
theorem right_iff {e : Event} (hi : h.Inv) (hr : h.Regular e) : h.Right e ↔ h.Reached e := by
  cases e with
  | store next => exact Iff.rfl
  | stop => exact hi.recovers_iff (List.mem_singleton_self _)
  | crash next part =>
    show (h.interrupted part).Recovers [h.store.seq, next] ↔ (h.interrupted part).NoHole
    rcases hi.interrupted hr.1 hr.2 with hi' | hh' | ⟨hcorrupt, hhole⟩
    · refine hi'.recovers_iff ?_
      rw [interrupted_seq]
      exact List.mem_cons_self ..
    · exact hh'.recovers_iff (List.mem_cons_of_mem _ (List.mem_singleton_self _))
    · refine iff_of_false ?_ hhole
      unfold Recovers
      rw [hcorrupt]
      exact id

end History

open History

/-- **When every reopen is right**: in any history of a file, with any number of crashes, just where
the file is not opened again before a write has changed the slot in front (or while it is empty). -/
theorem reopened_right_iff (es : List Event) (hregular : AlongRuns step Regular {} es) :
    AlongRuns step Right {} es ↔ AlongRuns step Reached {} es :=
  alongRuns_congr_of_invariant Inv (fun _ _ _ hi hr hstep => inv_step hi hr hstep)
    (fun _ _ hi hr => right_iff hi hr) inv_new hregular

/-- Two writes, a crash in the third and one in the write after it. -/
def twoCrashes : List Event :=
  [.store ⟨10, 10⟩, .store ⟨11, 10⟩, .crash ⟨12, 10⟩ (List.replicate 40 0), .crash ⟨12, 10⟩ [1, 2, 3],
    .store ⟨12, 11⟩, .stop]

theorem reopened_right_two_crashes :
    AlongRuns step Regular {} twoCrashes ∧ AlongRuns step Right {} twoCrashes := by
  have hregular : AlongRuns step Regular {} twoCrashes := by decide +kernel
  exact ⟨hregular, (reopened_right_iff twoCrashes hregular).mpr (by decide +kernel)⟩

/-- A single write and no crash: the hole is counted as torn. And the first write of all, which
left nothing but zeros: the file is not opened any more. -/
theorem hole_counted : ¬ (∀ es, AlongRuns step Right {} es) ∧
    ¬ AlongRuns step Right {} [.store ⟨10, 10⟩, .stop] ∧
    runs step {} [.crash ⟨10, 10⟩ (List.replicate 40 0)] = .error .corrupt := by
  have hcounted : ¬ AlongRuns step Right {} [.store ⟨10, 10⟩, .stop] := by decide +kernel
  exact ⟨fun hall => hcounted (hall _), hcounted, by decide +kernel⟩

end MarketData.Gateway.SeqBytes
