import MarketData.Gateway.OrderStore
import MarketData.Gateway.SeqStore

/-!
# `Gateway/OrderLog.lean` — the bytes of the order log

`cpp/gateway/src/orderstore.cpp`, byte for byte: records of 64 bytes under a magic, a checksum and
a number that counts from 1, appended and synced one at a time, replayed and compacted when the
file is opened. A process can be killed in the middle of an append, which leaves a part of the
record or 64 bytes that do not verify; or in the middle of a compaction, which leaves the old file
or the new one. The reads and writes of `open` themselves succeed.

A record whose side or state is none of the enumeration's is nobody's: it is refused here, where
the cast of the source would let it through.

## What a checksum can promise

Nothing about a record's bytes says that they were never written, so a kill that leaves 64 bytes
which happen to verify would be a record nobody made. `Garbled` is the assumption that this does not
happen: whatever a kill leaves of a full length does not verify. It is an assumption about a hash,
not about the code, and it is the only one.

## From bytes to records and back

`Sound` is the invariant over all processes: the file is a row of numbered records, with a torn tail
at most, and the records come to what was recorded. What they *come to* is `working`, a fold; a
compaction replaces the row by a shorter one that comes to the same. Between the two levels stands
`replay_encodeAll`: a row of encoded records, and a tail that a kill can leave, is replayed as these
records, and the tail is counted. `Gateway/OrderStore.lean` is the same store without the bytes.
-/

set_option autoImplicit false

namespace MarketData.Gateway

open MarketData.Wire MarketData.Bytes

/-! ## One record -/

def OrderState.toU8 : OrderState → UInt8
  | .pending => 0
  | .live => 1
  | .filled => 2
  | .canceled => 3
  | .rejected => 4

def OrderState.fromU8 (v : UInt8) : Option OrderState :=
  if v = 0 then some .pending
  else if v = 1 then some .live
  else if v = 2 then some .filled
  else if v = 3 then some .canceled
  else if v = 4 then some .rejected
  else none

@[simp] theorem OrderState.fromU8_toU8 (s : OrderState) : OrderState.fromU8 s.toU8 = some s := by
  cases s <;> rfl

/-- `kMagic` -/
def orderMagic : UInt32 := 0x21445241

/-- `kOrderRecordSize` -/
def orderRecordSize : Nat := 64

/-- FNV-1a over everything except the checksum field itself. -/
def checksum (rec : Buf) : UInt32 :=
  (List.range orderRecordSize).foldl
    (fun h i => if 4 ≤ i ∧ i < 8 then h else (h ^^^ (rec.getD i 0).toUInt32) * 0x01000193)
    0x811c9dc5

namespace OrderRecord

/-- The record but for its checksum. -/
def unsealed (r : OrderRecord) (sequence : UInt64) : Buf :=
  let b := List.replicate orderRecordSize 0
  let b := putU32 b 0 orderMagic
  let b := putU64 b 8 r.clientOrderId
  let b := putU64 b 16 r.exchangeOrderId
  let b := putI64 b 24 r.price
  let b := putU32 b 32 r.quantity
  let b := putU32 b 36 r.leavesQuantity
  let b := putU16 b 40 r.symbolId
  let b := putU8 b 42 r.side.toU8
  let b := putU8 b 43 r.state.toU8
  putU64 b 48 sequence

def encode (r : OrderRecord) (sequence : UInt64) : Buf :=
  putU32 (r.unsealed sequence) 4 (checksum (r.unsealed sequence))

/-- The fields of a record. -/
def decode (rec : Buf) : Option OrderRecord := do
  let side ← (Side.fromU8 (leU8 rec 42)).toOption
  let state ← OrderState.fromU8 (leU8 rec 43)
  some
    { clientOrderId := leU64 rec 8
      exchangeOrderId := leU64 rec 16
      price := leI64 rec 24
      quantity := leU32 rec 32
      leavesQuantity := leU32 rec 36
      symbolId := leU16 rec 40
      side, state }

end OrderRecord

/-- The magic and the checksum are right. -/
def verifies (rec : Buf) : Bool := leU32 rec 0 = orderMagic && leU32 rec 4 = checksum rec

/-! ## A record reads back -/

namespace OrderRecord

variable (r : OrderRecord) (sequence : UInt64)

@[simp] theorem length_unsealed : (r.unsealed sequence).length = orderRecordSize := by
  simp [unsealed]

@[simp] theorem length_encode : (r.encode sequence).length = orderRecordSize := by
  simp [encode]

/-- The checksum does not see its own field. -/
theorem checksum_putU32 (b : Buf) (v : UInt32) : checksum (putU32 b 4 v) = checksum b := by
  have hstep : ∀ (is : List Nat) (h : UInt32),
      is.foldl (fun h i => if 4 ≤ i ∧ i < 8 then h
        else (h ^^^ ((putU32 b 4 v).getD i 0).toUInt32) * 0x01000193) h =
      is.foldl (fun h i => if 4 ≤ i ∧ i < 8 then h
        else (h ^^^ (b.getD i 0).toUInt32) * 0x01000193) h := by
    intro is
    induction is with
    | nil =>
      intro h
      rw [List.foldl_nil, List.foldl_nil]
    | cons i is ih =>
      intro h
      rw [List.foldl_cons, List.foldl_cons, ih]
      split
      · rfl
      · rename_i hi
        rw [putU32, getD_putNat_of_outside _ _ _ _ (by omega)]
  exact hstep _ _

theorem leU32_magic : leU32 (r.encode sequence) 0 = orderMagic := by
  simp (disch := first | decide | simp [orderRecordSize]) only [encode, unsealed, leU32, putU64,
    putU32, putU16, putU8, putI64, leNat_putNat_of_disjoint, leNat_putNat_self, ofNat_toNat_mod_u32]

theorem verifies_encode : verifies (r.encode sequence) = true := by
  have hsum : leU32 (r.encode sequence) 4 = checksum (r.encode sequence) := by
    rw [encode, checksum_putU32]
    exact leU32_putU32 _ (by simp [orderRecordSize])
  rw [verifies, leU32_magic, hsum]
  simp

theorem leU64_sequence : leU64 (r.encode sequence) 48 = sequence := by
  simp (disch := first | decide | simp [orderRecordSize]) only [encode, unsealed, leU64, putU64,
    putU32, putU16, putU8, putI64, leNat_putNat_of_disjoint, leNat_putNat_self, ofNat_toNat_mod_u64]

theorem decode_encode : decode (r.encode sequence) = some r := by
  have hside : leU8 (r.encode sequence) 42 = r.side.toU8 := by
    simp (disch := first | decide | simp [orderRecordSize]) only [encode, unsealed, leU8, putU64,
      putU32, putU16, putU8, putI64, leNat_putNat_of_disjoint, leNat_putNat_self,
      ofNat_toNat_mod_u8]
  have hstate : leU8 (r.encode sequence) 43 = r.state.toU8 := by
    simp (disch := first | decide | simp [orderRecordSize]) only [encode, unsealed, leU8, putU64,
      putU32, putU16, putU8, putI64, leNat_putNat_of_disjoint, leNat_putNat_self,
      ofNat_toNat_mod_u8]
  unfold decode
  rw [hside, hstate, Side.fromU8_toU8, OrderState.fromU8_toU8]
  simp (disch := first | decide | simp [orderRecordSize]) only [encode, unsealed, leU64, leI64,
    leU32, leU16, putU64, putU32, putU16, putU8, putI64, leNat_putNat_of_disjoint,
    leNat_putNat_self, ofNat_toNat_mod_u64, ofNat_toNat_mod_u32, ofNat_toNat_mod_u16]
  rfl

end OrderRecord

/-! ## Opening -/

/-- What `replay` has read. -/
structure Replay where
  store : OrderStore := {}
  replayed : Nat := 0
  /-- Bytes discarded from the end of the file. -/
  tornTail : Nat := 0

/-- `OrderStore::replay`, from the record on that is to carry `expected`. A record that does not
verify ends the file, or the file is refused. -/
def replay (expected : UInt64) (a : Replay) (file : Buf) : Except StoreError Replay :=
  if file.length = 0 then .ok a
  else if _hshort : file.length < orderRecordSize then
    .ok { a with tornTail := a.tornTail + file.length }
  else
    let head := file.take orderRecordSize
    let rest := file.drop orderRecordSize
    if ¬ verifies head then
      if rest ≠ [] then .error .corrupt
      else .ok { a with tornTail := a.tornTail + orderRecordSize }
    else if leU64 head 48 ≠ expected then .error .corrupt
    else
      match OrderRecord.decode head with
      | none => .error .corrupt
      | some r =>
        replay (expected + 1) { a with store := a.store.apply r, replayed := a.replayed + 1 } rest
termination_by file.length
decreasing_by
  unfold orderRecordSize at *
  rw [List.length_drop]
  omega

/-- The records, numbered from `sequence` on. -/
def encodeAll (sequence : UInt64) : List OrderRecord → Buf
  | [] => []
  | r :: rs => r.encode sequence ++ encodeAll (sequence + 1) rs

/-- `OrderStore` with the bytes of its file. -/
structure OrderLog where
  file : Buf := []
  live : List OrderRecord := []
  replayed : Nat := 0
  written : Nat := 0

namespace OrderLog

/-- Rewrites the file to hold exactly the live orders, one record each, unless it does already. -/
def compact (file : Buf) (a : Replay) : OrderLog :=
  if a.replayed = a.store.live.length ∧ a.tornTail = 0 then
    { file, live := a.store.live, replayed := a.replayed }
  else
    { file := encodeAll 1 a.store.live
      live := a.store.live
      replayed := a.store.live.length }

/-- `OrderStore::open` -/
def openFile (file : Buf) : Except StoreError OrderLog :=
  match replay 1 {} file with
  | .ok a => .ok (compact file a)
  | .error e => .error e

/-! ## Appending -/

inductive Append where
  | synced
  /-- The write or its sync failed, after so many bytes; they were cut off again. -/
  | failed (e : StoreError) (bytes : Nat)

/-- The bytes of the next record. -/
def next (l : OrderLog) (r : OrderRecord) : Buf :=
  r.encode (UInt64.ofNat (l.replayed + l.written + 1))

/-- `OrderStore::record` -/
def record (l : OrderLog) (r : OrderRecord) : Append → Option StoreError × OrderLog
  | .synced =>
    (none,
      { l with
        file := l.file ++ l.next r
        live := (({ live := l.live } : OrderStore).apply r).live
        written := l.written + 1 })
  | .failed e bytes =>
    (some e, { l with file := (l.file ++ (l.next r).take bytes).take l.file.length })

end OrderLog

/-! ## Kills -/

/-- A record's length of bytes that do not verify. -/
structure Garbled where
  bytes : Buf
  length : bytes.length = orderRecordSize
  fails : verifies bytes = false

/-- What a kill leaves of the record in flight. -/
inductive InFlight where
  | cut (bytes : Nat)
  | garbled (g : Garbled)

/-- The bytes it leaves in the file. -/
def InFlight.left (rec : Buf) : InFlight → Buf
  | .cut bytes => rec.take bytes
  | .garbled g => g.bytes

/-- All of the record is there. -/
def InFlight.whole : InFlight → Bool
  | .cut bytes => orderRecordSize ≤ bytes
  | .garbled _ => false

inductive LogEvent where
  | record (r : OrderRecord) (outcome : OrderLog.Append)
  /-- The process is killed while it appends `r`. -/
  | killed (r : OrderRecord) (left : InFlight)
  | reopen
  /-- The process is killed while it opens the file, before or after the rename. -/
  | killedOpening (renamed : Bool)

/-- The log, in a process that may be down, and what was recorded: each record that `record`
returned success for, and each that was in flight at a kill and found whole. -/
structure Recorder where
  log : OrderLog := {}
  up : Bool := true
  recorded : List OrderRecord := []

namespace Recorder

def step (p : Recorder) : LogEvent → Recorder
  | .record r outcome =>
    if p.up then
      let (failed, log) := p.log.record r outcome
      { p with log, recorded := if failed.isNone then p.recorded ++ [r] else p.recorded }
    else p
  | .killed r left =>
    if p.up then
      { log := { p.log with file := p.log.file ++ left.left (p.log.next r) }
        up := false
        recorded := if left.whole then p.recorded ++ [r] else p.recorded }
    else p
  | .reopen =>
    match OrderLog.openFile p.log.file with
    | .ok log => { p with log, up := true }
    | .error _ => { p with up := false }
  | .killedOpening renamed =>
    match OrderLog.openFile p.log.file with
    | .ok log =>
      { p with
        log := { p.log with file := if renamed then log.file else p.log.file }
        up := false }
    | .error _ => { p with up := false }

def run (p : Recorder) (events : List LogEvent) : Recorder := events.foldl step p

end Recorder

/-! ## What an opened file holds -/

/-- The end of a file that a kill can leave. -/
def Torn (tail : Buf) : Prop :=
  tail.length < orderRecordSize ∨ (tail.length = orderRecordSize ∧ verifies tail = false)

/-- A record that is whole is read, and the next one is expected. -/
theorem replay_encode (r : OrderRecord) (expected : UInt64) (a : Replay) (rest : Buf) :
    replay expected a (r.encode expected ++ rest) =
      replay (expected + 1) { a with store := a.store.apply r, replayed := a.replayed + 1 } rest := by
  have hlen : (r.encode expected).length = orderRecordSize := r.length_encode expected
  have hsize : orderRecordSize = 64 := rfl
  have htake : (r.encode expected ++ rest).take orderRecordSize = r.encode expected := by
    rw [← hlen, List.take_left]
  have hdrop : (r.encode expected ++ rest).drop orderRecordSize = rest := by
    rw [← hlen, List.drop_left]
  rw [replay, if_neg (by rw [List.length_append]; omega),
    dif_neg (by rw [List.length_append]; omega)]
  dsimp only
  rw [htake, hdrop, if_neg (by simp [r.verifies_encode]), if_neg (by simp [r.leU64_sequence]),
    r.decode_encode]

theorem replay_torn {tail : Buf} (h : Torn tail) (expected : UInt64) (a : Replay) :
    replay expected a tail = .ok { a with tornTail := a.tornTail + tail.length } := by
  rw [replay]
  split
  · rename_i hzero
    rw [hzero, Nat.add_zero]
  split
  · rfl
  · rename_i hshort
    rcases h with hlt | ⟨hlen, hfails⟩
    · exact absurd hlt hshort
    · have htake : tail.take orderRecordSize = tail := by rw [← hlen, List.take_length]
      have hdrop : tail.drop orderRecordSize = [] := by rw [← hlen, List.drop_length]
      dsimp only
      rw [htake, hdrop, hfails, if_pos (by decide), if_neg (by simp), hlen]

/-- **The records are applied in order**, and what follows them is counted. -/
theorem replay_encodeAll (recs : List OrderRecord) {tail : Buf} (h : Torn tail) (expected : UInt64)
    (a : Replay) :
    replay expected a (encodeAll expected recs ++ tail) =
      .ok ⟨recs.foldl OrderStore.apply a.store, a.replayed + recs.length,
        a.tornTail + tail.length⟩ := by
  induction recs generalizing expected a with
  | nil => exact replay_torn h expected a
  | cons r recs ih =>
    rw [encodeAll, List.append_assoc, replay_encode, ih, List.foldl_cons, List.length_cons]
    congr 2
    dsimp only
    omega

theorem encodeAll_append (sequence : UInt64) (recs : List OrderRecord) (r : OrderRecord) :
    encodeAll sequence (recs ++ [r]) =
      encodeAll sequence recs ++ r.encode (sequence + UInt64.ofNat recs.length) := by
  induction recs generalizing sequence with
  | nil =>
    rw [List.nil_append, encodeAll, encodeAll, encodeAll, List.append_nil, List.nil_append]
    congr 1
    exact (UInt64.add_zero sequence).symm
  | cons x recs ih =>
    have hnext : sequence + 1 + UInt64.ofNat recs.length =
        sequence + UInt64.ofNat (recs.length + 1) := by
      rw [UInt64.ofNat_add, UInt64.add_assoc, UInt64.add_comm 1]
      rfl
    rw [List.cons_append, encodeAll, ih, encodeAll, List.append_assoc, List.length_cons, hnext]

/-- What is left when the records are applied in order. -/
def working (recs : List OrderRecord) : List OrderRecord :=
  (recs.foldl OrderStore.apply {}).live

theorem working_append (recs : List OrderRecord) (r : OrderRecord) :
    working (recs ++ [r]) = (({ live := working recs } : OrderStore).apply r).live := by
  have hlive : (recs.foldl OrderStore.apply {}).live =
      ({ live := working recs } : OrderStore).live := rfl
  unfold working
  rw [List.foldl_append]
  exact OrderStore.apply_live_congr hlive r

/-- Orders at work, one record each, come back as they are. -/
theorem working_working (recs : List OrderRecord) : working (working recs) = working recs := by
  have hwork : OrderStore.Working (working recs) :=
    OrderStore.working_replay recs (s := {}) ⟨List.Pairwise.nil, fun _ h => (nomatch h)⟩
  exact OrderStore.replay_working hwork (s := {}) fun _ h => (nomatch h)

/-- **Opening** a file that ends in what a kill can leave. -/
theorem OrderLog.openFile_encodeAll (recs : List OrderRecord) {tail : Buf} (h : Torn tail) :
    ∃ log recs', OrderLog.openFile (encodeAll 1 recs ++ tail) = .ok log ∧
      log.file = encodeAll 1 recs' ∧ log.live = working recs ∧ working recs' = working recs ∧
      log.replayed + log.written = recs'.length := by
  unfold OrderLog.openFile
  rw [replay_encodeAll recs h]
  dsimp only
  unfold OrderLog.compact
  split
  · rename_i hsame
    have htail : tail = [] := List.eq_nil_of_length_eq_zero (by simpa using hsame.2)
    refine ⟨_, recs, rfl, ?_, rfl, rfl, by simp⟩
    rw [htail]
    exact List.append_nil _
  · exact ⟨_, working recs, rfl, rfl, rfl, working_working recs, rfl⟩

namespace Recorder

/-- What every process has to show: its file is a row of numbered records with a torn tail at
most, which come to the same as all that was recorded; and while it is up, the tail is empty and
the memory holds what the records come to. -/
structure Sound (p : Recorder) (recs : List OrderRecord) (tail : Buf) : Prop where
  file : p.log.file = encodeAll 1 recs ++ tail
  torn : Torn tail
  same : working recs = working p.recorded
  whole : p.up = true → tail = []
  live : p.up = true → p.log.live = working recs
  count : p.up = true → p.log.replayed + p.log.written = recs.length

theorem torn_nil : Torn [] := .inl (by decide)

theorem sound_start : Sound {} [] [] :=
  ⟨rfl, torn_nil, rfl, fun _ => rfl, fun _ => rfl, fun _ => rfl⟩

variable {p : Recorder} {recs : List OrderRecord} {tail : Buf}

/-- The next record is numbered as the one that follows the file's. -/
theorem Sound.next (h : p.Sound recs tail) (hup : p.up = true) (r : OrderRecord) :
    encodeAll 1 (recs ++ [r]) = p.log.file ++ p.log.next r := by
  have hsequence : 1 + UInt64.ofNat recs.length = UInt64.ofNat (recs.length + 1) := by
    rw [UInt64.ofNat_add, UInt64.add_comm]
    rfl
  rw [encodeAll_append, hsequence, h.file, h.whole hup, List.append_nil, OrderLog.next,
    h.count hup]

/-- A file that was opened, or is about to be, in a process that is down or comes up. -/
theorem Sound.opened (h : p.Sound recs tail) :
    ∃ log recs', OrderLog.openFile p.log.file = .ok log ∧ log.live = working p.recorded ∧
      log.file = encodeAll 1 recs' ∧ working recs' = working p.recorded ∧
      log.replayed + log.written = recs'.length := by
  obtain ⟨log, recs', hopen, hfile, hlive, hsame, hcount⟩ :=
    OrderLog.openFile_encodeAll recs h.torn
  rw [h.same] at hlive hsame
  exact ⟨log, recs', by rw [h.file]; exact hopen, hlive, hfile, hsame, hcount⟩

/-- **One event.** -/
theorem Sound.step (h : p.Sound recs tail) (e : LogEvent) :
    ∃ recs' tail', (p.step e).Sound recs' tail' := by
  cases e with
  | record r outcome =>
    unfold Recorder.step
    dsimp only
    split
    · rename_i hup
      cases outcome with
      | synced =>
        refine ⟨recs ++ [r], [], ?_, torn_nil, ?_, fun _ => rfl, fun _ => ?_, fun _ => ?_⟩
        · rw [List.append_nil]
          exact (h.next hup r).symm
        · rw [working_append, h.same]
          exact (working_append p.recorded r).symm
        · rw [working_append]
          show (({ live := p.log.live } : OrderStore).apply r).live = _
          rw [h.live hup]
        · show p.log.replayed + (p.log.written + 1) = _
          rw [← Nat.add_assoc, h.count hup, List.length_append]
          rfl
      | failed e bytes =>
        refine ⟨recs, tail, ?_, h.torn, h.same, h.whole, h.live, h.count⟩
        exact (List.take_left ..).trans h.file
    · exact ⟨recs, tail, h⟩
  | killed r left =>
    unfold Recorder.step
    dsimp only
    split
    · rename_i hup
      have hlen : (p.log.next r).length = orderRecordSize := OrderRecord.length_encode ..
      have hfile : p.log.file = encodeAll 1 recs := by
        rw [h.file, h.whole hup, List.append_nil]
      cases hwhole : left.whole with
      | true =>
        -- the record is on the disk, though nobody was told
        have hleft : left.left (p.log.next r) = p.log.next r := by
          cases left with
          | cut bytes =>
            have hle : orderRecordSize ≤ bytes := of_decide_eq_true hwhole
            exact List.take_of_length_le (by rw [hlen]; exact hle)
          | garbled g => cases hwhole
        refine ⟨recs ++ [r], [], ?_, torn_nil, ?_, fun h => (nomatch h), fun h => (nomatch h),
          fun h => (nomatch h)⟩
        · rw [List.append_nil, h.next hup r, hleft]
        · rw [working_append, h.same]
          exact (working_append p.recorded r).symm
      | false =>
        refine ⟨recs, left.left (p.log.next r), ?_, ?_, h.same, fun h => (nomatch h),
          fun h => (nomatch h), fun h => (nomatch h)⟩
        · rw [hfile]
        · cases left with
          | cut bytes =>
            have hlt : ¬orderRecordSize ≤ bytes := of_decide_eq_false hwhole
            refine .inl ?_
            show ((p.log.next r).take bytes).length < orderRecordSize
            rw [List.length_take]
            omega
          | garbled g => exact .inr ⟨g.length, g.fails⟩
    · exact ⟨recs, tail, h⟩
  | reopen =>
    obtain ⟨log, recs', hopen, hlive, hfile, hsame, hcount⟩ := h.opened
    unfold Recorder.step
    dsimp only
    rw [hopen]
    refine ⟨recs', [], ?_, torn_nil, hsame, fun _ => rfl, fun _ => ?_, fun _ => hcount⟩
    · rw [List.append_nil]
      exact hfile
    · rw [hsame]
      exact hlive
  | killedOpening renamed =>
    obtain ⟨log, recs', hopen, hlive, hfile, hsame, hcount⟩ := h.opened
    unfold Recorder.step
    dsimp only
    rw [hopen]
    cases renamed with
    | true =>
      refine ⟨recs', [], ?_, torn_nil, hsame, fun h => (nomatch h), fun h => (nomatch h),
        fun h => (nomatch h)⟩
      rw [List.append_nil]
      exact hfile
    | false => exact ⟨recs, tail, h.file, h.torn, h.same, fun h => (nomatch h),
        fun h => (nomatch h), fun h => (nomatch h)⟩

theorem sound_run (events : List LogEvent) : ∃ recs tail, (run {} events).Sound recs tail := by
  have hrun : ∀ (events : List LogEvent) (p : Recorder), (∃ recs tail, p.Sound recs tail) →
      ∃ recs tail, (p.run events).Sound recs tail := by
    intro events
    induction events with
    | nil => exact fun _ h => h
    | cons e events ih =>
      rintro p ⟨recs, tail, h⟩
      exact ih (p.step e) (h.step e)
  exact hrun events {} ⟨[], [], sound_start⟩

/-- **The log recovers.** Whatever was recorded, refused, killed and opened again: the file opens,
and what it opens as, like the memory of a process that is up, is what the records recorded so far
come to. Opening and compacting it again and again changes nothing, and neither does an append
that failed and was cut off. -/
theorem log_recovers (events : List LogEvent) :
    let p := run {} events
    (∃ log, OrderLog.openFile p.log.file = .ok log ∧ log.live = working p.recorded ∧
      ∃ log', OrderLog.openFile log.file = .ok log' ∧ log'.live = log.live) ∧
      (p.up = true → p.log.live = working p.recorded) ∧
      ∀ r e bytes, p.log.record r (.failed e bytes) = (some e, p.log) := by
  obtain ⟨recs, tail, h⟩ := sound_run events
  obtain ⟨log, recs', hopen, hlive, hfile, hsame, -⟩ := h.opened
  refine ⟨⟨log, hopen, hlive, ?_⟩, fun hup => (h.live hup).trans h.same, ?_⟩
  · obtain ⟨log', -, hopen', -, hlive', -⟩ := OrderLog.openFile_encodeAll recs' torn_nil
    refine ⟨log', ?_, ?_⟩
    · rw [hfile, ← List.append_nil (encodeAll 1 recs')]
      exact hopen'
    · rw [hlive', hsame, hlive]
  · intro r e bytes
    rw [OrderLog.record, List.take_left]

end Recorder

end MarketData.Gateway
