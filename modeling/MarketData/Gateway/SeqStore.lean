import MarketData.Lib.Run

/-!
# `Gateway/SeqStore.lean` — the two numbers a session cannot rebuild

`cpp/gateway/src/seqstore.cpp`. The pair lives in two slots of a file, written in turn, each under
a generation and a checksum; `open` takes the intact slot of the higher generation. What a write
comes to is up to the disk: it may be refused, and may then have left the slot as it was, half
written or written after all.

The generation counts the writes of the file from its creation, so it is a `Nat` here. A slot is
what a read of it says: nothing there, something that does not verify, or a record.

## A disk that answers the `n`-th write

The disk is a function from the number of the write to what becomes of it, and the store counts its
writes. That makes a run deterministic once the disk is given, while **every statement quantifies
over all disks**: a disk that fails once, one that fails from some write on
(`Gateway/Delivery.lean`), and one that lands every second write it reports as failed are all of
this type. A failed write says separately what it reports and what it left, because the two are
independent: an `fsync` can fail after the slot was written.

What memory holds moves only with a write that was synced. `store` therefore answers an error *and*
a store, whose file may have changed although its numbers have not.

## What the slots leave open

Whether forty bytes are a record is decided by a checksum, and that is one level down
(`Gateway/SeqBytes.lean`), where the very first write of a file is also seen to leave a hole in the
slot before it. Here a slot that was never written reads as a short read. Which is why nothing about
counting torn slots is proved on this level: `openFile` counts them because the source does, and to
decide that all slots there are is damaged.

`OnDisk` is the form in which the other modules use the file: it holds the numbers in memory, and
whatever else it holds is known to be some record or no record of the next generation.
-/

set_option autoImplicit false

namespace MarketData.Gateway

/-- The numbers the next message of each direction carries. -/
structure SeqPair where
  outbound : UInt64 := 1
  inbound : UInt64 := 1
  deriving DecidableEq, Repr

structure SeqRecord where
  generation : Nat
  seq : SeqPair
  deriving DecidableEq, Repr

inductive Slot where
  /-- A short read: never written. -/
  | unwritten
  /-- Written at some point but not intact. -/
  | damaged
  | intact (r : SeqRecord)
  deriving DecidableEq, Repr

inductive StoreError where
  | cannotWrite
  | cannotSync
  | corrupt
  deriving DecidableEq, Repr

/-- What a write that failed left in its slot. -/
inductive Left where
  | kept
  | torn
  | landed
  deriving DecidableEq, Repr

inductive Outcome where
  | synced
  | failed (e : StoreError) (left : Left)
  deriving DecidableEq, Repr

/-- What becomes of the `n`-th write. -/
abbrev Disk := Nat → Outcome

/-- The file as the disk has it. -/
structure SeqFile where
  slot0 : Slot := .unwritten
  slot1 : Slot := .unwritten
  deriving DecidableEq, Repr

namespace SeqFile

def slot (f : SeqFile) (n : Nat) : Slot := if n % 2 = 0 then f.slot0 else f.slot1

def set (f : SeqFile) (n : Nat) (s : Slot) : SeqFile :=
  if n % 2 = 0 then { f with slot0 := s } else { f with slot1 := s }

@[simp] theorem slot_set (f : SeqFile) (n : Nat) (s : Slot) : (f.set n s).slot n = s := by
  unfold set slot
  split <;> rfl

theorem slot_set_succ (f : SeqFile) (n : Nat) (s : Slot) : (f.set (n + 1) s).slot n = f.slot n := by
  unfold set slot
  split
  · rw [if_neg (by omega)]
  · rw [if_pos (by omega)]

theorem slot_add_two (f : SeqFile) (n : Nat) : f.slot (n + 2) = f.slot n := by
  simp [slot]

end SeqFile

structure SeqStore where
  file : SeqFile := {}
  seq : SeqPair := {}
  generation : Nat := 0
  /-- Writes tried so far. -/
  writes : Nat := 0
  deriving DecidableEq, Repr

namespace SeqStore

/-! ## Opening -/

/-- What the loop over the slots has found: the best record, the slots seen and the torn ones. -/
structure Scan where
  best : Option SeqRecord := none
  seen : Nat := 0
  torn : Nat := 0

def Scan.next (a : Scan) : Slot → Scan
  | .unwritten => a
  | .damaged => { a with seen := a.seen + 1, torn := a.torn + 1 }
  | .intact r =>
    let newer := match a.best with
      | none => true
      | some best => best.generation < r.generation
    { a with seen := a.seen + 1, best := if newer then some r else a.best }

/-- `SeqStore::open`. Where every slot that exists is damaged the numbers are unknown. -/
def openFile (file : SeqFile) (writes : Nat) : Except StoreError SeqStore :=
  let a := [file.slot0, file.slot1].foldl Scan.next {}
  match a.best with
  | some r => .ok { file, writes, seq := r.seq, generation := r.generation }
  | none =>
    if 0 < a.seen ∧ a.torn = a.seen then .error .corrupt
    else .ok { file, writes }

/-! ## Storing -/

/-- Records `next`, in the slot of the older generation. Only what is synced counts. -/
def store (disk : Disk) (s : SeqStore) (next : SeqPair) : Option StoreError × SeqStore :=
  let record : SeqRecord := ⟨s.generation + 1, next⟩
  let tried := { s with writes := s.writes + 1 }
  let written := { tried with file := s.file.set (s.generation + 1) (.intact record) }
  match disk s.writes with
  | .synced => (none, { written with seq := next, generation := s.generation + 1 })
  | .failed e .kept => (some e, tried)
  | .failed e .torn => (some e, { tried with file := s.file.set (s.generation + 1) .damaged })
  | .failed e .landed => (some e, written)

/-- The number the next outbound message carries, claimed before it is sent. -/
def claimOutbound (disk : Disk) (s : SeqStore) : Option UInt64 × SeqStore :=
  match s.store disk { s.seq with outbound := s.seq.outbound + 1 } with
  | (some _, s') => (none, s')
  | (none, s') => (some s.seq.outbound, s')

/-- The inbound message with `seq` was accepted. -/
def acceptInbound (disk : Disk) (s : SeqStore) (seq : UInt64) : Option StoreError × SeqStore :=
  s.store disk { s.seq with inbound := seq + 1 }

def reset (disk : Disk) (s : SeqStore) : Option StoreError × SeqStore := s.store disk ⟨1, 1⟩

section

variable {disk : Disk} {s s' : SeqStore} {next : SeqPair}

/-- A write that failed is not in memory. -/
theorem store_failed_seq {e : StoreError} (h : s.store disk next = (some e, s')) :
    s'.seq = s.seq := by
  unfold store at h
  dsimp only at h
  split at h <;> cases h <;> rfl

theorem store_synced_seq (h : s.store disk next = (none, s')) : s'.seq = next := by
  unfold store at h
  dsimp only at h
  split at h <;> cases h
  rfl

theorem synced_of_store (h : s.store disk next = (none, s')) : disk s.writes = .synced := by
  unfold store at h
  dsimp only at h
  split at h
  · assumption
  all_goals cases h

end

/-! ## What a reopen finds -/

/-- An intact slot newer than the other one is what the file opens as. -/
theorem openFile_current {file : SeqFile} {n : Nat} {r : SeqRecord} (writes : Nat)
    (hr : file.slot n = .intact r)
    (hother : ∀ r', file.slot (n + 1) = .intact r' → r'.generation < r.generation) :
    openFile file writes = .ok { file, writes, seq := r.seq, generation := r.generation } := by
  obtain ⟨slot0, slot1⟩ := file
  unfold SeqFile.slot at hr hother
  by_cases hn : n % 2 = 0
  · rw [if_pos hn] at hr
    rw [if_neg (by omega)] at hother
    subst hr
    cases slot1 with
    | unwritten => simp [openFile, Scan.next]
    | damaged => simp [openFile, Scan.next]
    | intact r' =>
      have hlt := hother r' rfl
      simp [openFile, Scan.next, Nat.not_lt_of_gt hlt]
  · rw [if_neg hn] at hr
    rw [if_pos (by omega)] at hother
    subst hr
    cases slot0 with
    | unwritten => simp [openFile, Scan.next]
    | damaged => simp [openFile, Scan.next]
    | intact r' =>
      have hlt := hother r' rfl
      simp [openFile, Scan.next, hlt]

/-- A file without an intact slot opens as a new one, or not at all. -/
theorem openFile_fresh {file : SeqFile} {n writes : Nat} {s : SeqStore}
    (h0 : ∀ r, file.slot n ≠ .intact r) (h1 : ∀ r, file.slot (n + 1) ≠ .intact r)
    (h : openFile file writes = .ok s) : s = { file, writes } := by
  have hnone : ([file.slot0, file.slot1].foldl Scan.next {}).best = none := by
    obtain ⟨slot0, slot1⟩ := file
    have hslots : (∀ r, slot0 ≠ .intact r) ∧ ∀ r, slot1 ≠ .intact r := by
      unfold SeqFile.slot at h0 h1
      by_cases hn : n % 2 = 0
      · rw [if_pos hn] at h0
        rw [if_neg (by omega)] at h1
        exact ⟨h0, h1⟩
      · rw [if_neg hn] at h0
        rw [if_pos (by omega)] at h1
        exact ⟨h1, h0⟩
    cases slot0 with
    | intact r => exact absurd rfl (hslots.1 r)
    | unwritten | damaged =>
      cases slot1 with
      | intact r => exact absurd rfl (hslots.2 r)
      | unwritten | damaged => simp [Scan.next]
  unfold openFile at h
  dsimp only at h
  rw [hnone] at h
  dsimp only at h
  split at h
  · cases h
  · exact (Except.ok.inj h).symm

/-- The numbers in memory are on the disk, and the other slot is older, or holds what the next
generation was to be, of which `R` is known. -/
structure OnDisk (R : SeqPair → Prop) (s : SeqStore) : Prop where
  current : s.file.slot s.generation = .intact ⟨s.generation, s.seq⟩ ∨
    (s.file.slot s.generation = .unwritten ∧ s.generation = 0 ∧ s.seq = {})
  other : ∀ r, s.file.slot (s.generation + 1) = .intact r → r.generation < s.generation ∨
    (r.generation = s.generation + 1 ∧ R r.seq)

theorem onDisk_new (R : SeqPair → Prop) : OnDisk R {} :=
  ⟨.inr ⟨rfl, rfl, rfl⟩, fun _ hr => (nomatch hr)⟩

variable {s s' : SeqStore} {R : SeqPair → Prop}

theorem OnDisk.mono (h : OnDisk R s) {R' : SeqPair → Prop} (hR : ∀ p, R p → R' p) : OnDisk R' s :=
  ⟨h.current, fun r hr => (h.other r hr).imp_right fun ⟨hgen, hr⟩ => ⟨hgen, hR _ hr⟩⟩

/-- Whatever the current slot holds is older than the next generation. -/
theorem OnDisk.current_lt (h : OnDisk R s) {r : SeqRecord}
    (hr : s.file.slot s.generation = .intact r) : r.generation < s.generation + 1 := by
  rcases h.current with hc | ⟨hc, -, -⟩
  · rw [hc] at hr
    cases hr
    exact Nat.lt_succ_self _
  · rw [hc] at hr
    cases hr

/-- **What a reopen finds**: the numbers that were in memory, or those of the next generation. The
other slot is then older. -/
theorem OnDisk.reopen (hd : OnDisk R s) {writes : Nat} (h : openFile s.file writes = .ok s') :
    (s'.seq = s.seq ∨ R s'.seq) ∧ ∀ R', OnDisk R' s' := by
  by_cases hnext : ∃ r, s.file.slot (s.generation + 1) = .intact r ∧
      r.generation = s.generation + 1
  · -- the write that was reported lost had landed
    obtain ⟨r, hr, hgen⟩ := hnext
    have hR : R r.seq := by
      rcases hd.other r hr with hlt | ⟨-, hR⟩
      · omega
      · exact hR
    have hprev : ∀ r', s.file.slot (s.generation + 1 + 1) = .intact r' →
        r'.generation < r.generation := by
      intro r' hr'
      rw [s.file.slot_add_two] at hr'
      rw [hgen]
      exact hd.current_lt hr'
    rw [openFile_current writes hr hprev] at h
    obtain rfl := Except.ok.inj h
    refine ⟨.inr hR, fun R' => ⟨.inl ?_, ?_⟩⟩
    · show s.file.slot r.generation = .intact ⟨r.generation, r.seq⟩
      rw [hgen, hr, ← hgen]
    · intro r' hr'
      refine .inl (hprev r' ?_)
      rw [← hgen]
      exact hr'
  · have holder : ∀ r, s.file.slot (s.generation + 1) = .intact r → r.generation < s.generation := by
      intro r hr
      rcases hd.other r hr with hlt | ⟨hgen, -⟩
      · exact hlt
      · exact absurd ⟨r, hr, hgen⟩ hnext
    rcases hd.current with hc | ⟨hc, hzero, hseq⟩
    · rw [openFile_current writes hc holder] at h
      obtain rfl := Except.ok.inj h
      exact ⟨.inl rfl, fun R' => ⟨.inl hc, fun r hr => .inl (holder r hr)⟩⟩
    · have hnone : ∀ r, s.file.slot (s.generation + 1) ≠ .intact r := by
        intro r hr
        have hlt := holder r hr
        omega
      have hunwritten : ∀ r, s.file.slot s.generation ≠ .intact r := by
        intro r hr
        rw [hc] at hr
        cases hr
      obtain rfl := openFile_fresh hunwritten hnone h
      rw [hzero] at hc hnone
      exact ⟨.inl hseq.symm, fun R' => ⟨.inr ⟨hc, rfl, rfl⟩, fun r hr => absurd hr (hnone r)⟩⟩

/-- A write that failed leaves the numbers as they were. What is known of the other slot is what
was known, or nothing, or that it holds what was to be written. -/
theorem OnDisk.store_failed (hd : OnDisk R s) (disk : Disk) (next : SeqPair) {e : StoreError} {left : Left}
    (hdisk : disk s.writes = .failed e left) {R' : SeqPair → Prop}
    (hkept : left = .kept → ∀ p, R p → R' p) (hlanded : left = .landed → R' next) :
    (s.store disk next).1 = some e ∧ OnDisk R' (s.store disk next).2 ∧
      (s.store disk next).2.seq = s.seq := by
  unfold store
  dsimp only
  rw [hdisk]
  cases left with
  | kept =>
    have hd' := hd.mono (hkept rfl)
    exact ⟨rfl, ⟨hd'.current, hd'.other⟩, rfl⟩
  | torn =>
    refine ⟨rfl, ⟨?_, ?_⟩, rfl⟩
    · rw [SeqFile.slot_set_succ]
      exact hd.current
    · intro r hr
      rw [SeqFile.slot_set] at hr
      cases hr
  | landed =>
    refine ⟨rfl, ⟨?_, ?_⟩, rfl⟩
    · rw [SeqFile.slot_set_succ]
      exact hd.current
    · intro r hr
      rw [SeqFile.slot_set] at hr
      cases hr
      exact .inr ⟨rfl, hlanded rfl⟩

/-- A write that was synced leaves the new numbers, on a disk that opens as them. -/
theorem OnDisk.store_synced (hd : OnDisk R s) (disk : Disk) (next : SeqPair)
    (hdisk : disk s.writes = .synced) :
    (s.store disk next).1 = none ∧ (∀ R', OnDisk R' (s.store disk next).2) ∧
      (s.store disk next).2.seq = next ∧
      ∀ writes, openFile (s.store disk next).2.file writes =
        .ok { (s.store disk next).2 with writes } := by
  unfold store
  dsimp only
  rw [hdisk]
  have hcurrent : (s.file.set (s.generation + 1) (.intact ⟨s.generation + 1, next⟩)).slot
      (s.generation + 1) = .intact ⟨s.generation + 1, next⟩ := SeqFile.slot_set ..
  have holder : ∀ r, (s.file.set (s.generation + 1) (.intact ⟨s.generation + 1, next⟩)).slot
      (s.generation + 1 + 1) = .intact r → r.generation < s.generation + 1 := by
    intro r hr
    rw [SeqFile.slot_add_two, SeqFile.slot_set_succ] at hr
    exact hd.current_lt hr
  exact ⟨rfl, fun R' => ⟨.inl hcurrent, fun r hr => .inl (holder r hr)⟩, rfl,
    fun writes => openFile_current writes hcurrent holder⟩

/-! ## The number expected -/

/-- The numbers in memory are on the disk. The other slot is older, or holds what the next
generation was to be, which is no lower a number to expect. -/
structure Backed (s : SeqStore) : Prop where
  current : s.file.slot s.generation = .intact ⟨s.generation, s.seq⟩ ∨
    (s.file.slot s.generation = .unwritten ∧ s.generation = 0 ∧ s.seq = {})
  other : ∀ r, s.file.slot (s.generation + 1) = .intact r → r.generation < s.generation ∨
    (r.generation = s.generation + 1 ∧ s.seq.inbound ≤ r.seq.inbound)

theorem Backed.onDisk (hb : s.Backed) : OnDisk (fun p => s.seq.inbound ≤ p.inbound) s :=
  ⟨hb.current, hb.other⟩

theorem OnDisk.backed (hd : OnDisk (fun p => s.seq.inbound ≤ p.inbound) s) : s.Backed :=
  ⟨hd.current, hd.other⟩

theorem backed_new : Backed {} := (onDisk_new _).backed

variable {disk : Disk} {next : SeqPair}

/-- **A restart never goes back**: what the disk has is at least what was in memory. -/
theorem Backed.reopen (hb : s.Backed) {writes : Nat} (h : openFile s.file writes = .ok s') :
    s'.Backed ∧ s.seq.inbound ≤ s'.seq.inbound := by
  obtain ⟨hseq, hd⟩ := hb.onDisk.reopen h
  refine ⟨(hd _).backed, ?_⟩
  rcases hseq with hseq | hle
  · rw [hseq]
    exact UInt64.le_refl _
  · exact hle

/-- What a write that failed leaves: the numbers as they were, still backed. -/
theorem Backed.store_failed (hb : s.Backed) (hle : s.seq.inbound ≤ next.inbound) {e : StoreError}
    (h : s.store disk next = (some e, s')) : s'.Backed ∧ s'.seq = s.seq := by
  cases hdisk : disk s.writes with
  | synced =>
    obtain ⟨hnone, -⟩ := hb.onDisk.store_synced disk next hdisk
    rw [h] at hnone
    cases hnone
  | failed e' left =>
    obtain ⟨-, hd, hseq⟩ := hb.onDisk.store_failed disk next hdisk (fun _ _ hp => hp)
      (fun _ => hle)
    rw [h] at hd hseq
    dsimp only at hd hseq
    rw [← hseq] at hd
    exact ⟨hd.backed, hseq⟩

/-- What a write that was synced leaves: the new numbers, on a disk that opens as them. -/
theorem Backed.store_synced (hb : s.Backed) (h : s.store disk next = (none, s')) :
    s'.Backed ∧ s'.seq = next ∧
      ∀ writes, openFile s'.file writes = .ok { s' with writes } := by
  obtain ⟨-, hd, hseq, hopen⟩ := hb.onDisk.store_synced disk next (synced_of_store h)
  rw [h] at hd hseq hopen
  exact ⟨(hd _).backed, hseq, hopen⟩

end SeqStore

end MarketData.Gateway
