import MarketData.Gateway.Opening
import MarketData.Gateway.Remembered
import MarketData.Gateway.Resend

/-!
# `Gateway/Overrun.lean` — how far a resend request reaches

`handle_resend_request` takes the last number asked for as it comes, as an unsigned 64-bit number.
Nothing compares it with the numbers that were used. A request up to a number that was not is
answered with a gap fill up to there, and the counterparty that follows it then expects a number the
session comes to only much later: the next message is below it, and ends the session.

## What is promised, and of whom

`Bounded` is about one answer. The first part is about the loop, the second about the gap fills in
the answer, the third about the counterparty, which is a session too: whatever it is in the middle
of and whatever its disk does, it **expects no more after the answer than the number that comes
next**, if it did not before. That every number asked for is in the answer is another matter
(`Gateway/Coverage.lean`).

## The three ways to stay within

The request ends before the next number; or it is empty. The third (`FromBefore`) is there because a
reset of the numbers leaves the ring alone: a request for numbers not yet used may find the records
of the messages that carried them before, and is then answered with copies and no gap fill. It does
no harm as long as the counterparty does not take one of them for the next message.

The counterparty is asked about the numbers only, so two lemmas about it are enough, one for a copy
and one for a gap fill (`heard_copy`, `heard_fill`); that its number stays, goes up, or is moved is
read off the cases of `Gateway/Handled.lean`.
-/

set_option autoImplicit false

namespace MarketData.Gateway

open MarketData.Batch

namespace Session

/-- What is sent in a call. -/
def answer (disk : Disk) (s : Session) (c : Call) : List FixMessage :=
  (s.call disk c).out.drop s.out.length

/-- The session has heard `ms`, one after the other. -/
def hears (disk : Disk) (now : Now) (t : Session) (ms : List FixMessage) : Session :=
  ms.foldl (fun t m => t.onMessage disk m now) t

/-- How often the loop from `start` to `last` turns, if it ends. -/
def turns (start last : UInt64) : Option Nat := (range start last).map List.length

/-- **An answer that stays within the numbers used**, the next one being `outbound`. -/
structure Bounded (outbound : UInt64) (turns : Option Nat) (answer : List FixMessage) : Prop where
  turns : turns.any (· ≤ outbound.toNat) = true
  fills : ∀ m ∈ answer, m.msgType = MsgType.sequenceReset → ∀ n,
    m.findInt Tag.newSeqNo = some n → n.toUInt64 ≤ outbound
  accepts : ∀ (disk : Disk) (now : Now) (t : Session), t.store.seq.inbound ≤ outbound →
    (t.hears disk now answer).store.seq.inbound ≤ outbound

/-- A request that reaches numbers not yet used, each of which the ring has a record for, from
before the numbers were reset. The next number's is too long to be sent again. -/
structure FromBefore (s : Session) (start last : UInt64) : Prop where
  ends : last.toNat + 1 < 2 ^ 64
  turns : last.toNat + 1 - start.toNat ≤ s.store.seq.outbound.toNat
  kept : ∀ n, start.toNat ≤ n → n ≤ last.toNat → s.store.seq.outbound.toNat ≤ n →
    s.keeps n = true
  unsaid : start.toNat ≤ s.store.seq.outbound.toNat →
    s.store.seq.outbound.toNat ≤ last.toNat →
    (s.resendable s.store.seq.outbound.toNat).bind again = none

/-- The request stays within what was used. -/
def Within (s : Session) (start last : UInt64) : Prop :=
  last < start ∨ last < s.store.seq.outbound ∨ s.FromBefore start last

variable {disk : Disk} {s t u : Session} {now : Now} {m : FixMessage} {k : UInt64}

/-! ## The handler within the call -/

/-- **A resend request that is due** comes to its handler, with the numbers sent and the ring as
they were. -/
theorem call_resendRequest (hup : s.hung = false) (hstate : s.state ≠ .disconnected)
    (htype : m.msgType = MsgType.resendRequest) (htakes : s.Takes disk m) (now : Now) :
    ∃ u : Session, s.call disk (.message m now) = u.handleResendRequest disk m now ∧
      u.hung = false ∧ u.out = s.out ∧ u.ring = s.ring ∧ u.ringNext = s.ringNext ∧
      u.cfg = s.cfg ∧ u.store.seq.outbound = s.store.seq.outbound := by
  have hchecked := checkSequence_checked disk { s with lastReceived := now.steady } m now
  generalize hr : { s with lastReceived := now.steady }.checkSequence disk m now = r at hchecked
  obtain ⟨ok, t⟩ := r
  cases ok with
  | false => exact absurd htakes hchecked.not_takes
  | true =>
    refine ⟨t, ?_, ?_⟩
    · unfold call
      rw [if_neg (by rw [hup]; decide)]
      dsimp only
      unfold onMessage handle
      rw [if_neg (by rw [htype]; decide), if_neg hstate, if_neg (by rw [htype]; decide), hr]
      dsimp only
      unfold dispatch
      dsimp only
      rw [if_neg (by rw [htype]; decide), if_neg (by rw [htype]; decide), if_pos htype]
    · cases hchecked with
      | accepted hseq hnext hstore =>
        refine ⟨hup, rfl, rfl, rfl, rfl, ?_⟩
        dsimp only
        rw [SeqStore.store_synced_seq hstore]

/-! ## What is in an answer -/

/-- A copy of the message that was sent under `k`. -/
structure Copy (k : UInt64) (m : FixMessage) : Prop where
  application : Application m.msgType
  seqNum : m.seqNum = some k.toInt64

/-- A gap fill up to `k`. -/
structure Fill (k : UInt64) (m : FixMessage) : Prop where
  msgType : m.msgType = MsgType.sequenceReset
  newSeqNo : m.findInt Tag.newSeqNo = some k.toInt64

theorem gapFill_fill (s : Session) (start stop : UInt64) (now : Now) :
    Fill stop (s.gapFill start stop now) :=
  ⟨rfl, FixMessage.findInt_of_find rfl⟩

theorem gapFill_fits (hb : s.Brief) (hutc : now.utc.length = 21) (start stop : UInt64) :
    (s.gapFill start stop now).fits maxMessage = true := by
  refine stamp_fits hb hutc rfl ?_ start
  have hnew := length_intText_le stop.toInt64
  have htags : (intText (Tag.possDupFlag : Nat)).length = 2 ∧
      (intText (Tag.origSendingTime : Nat)).length = 3 ∧
      (intText (Tag.gapFillFlag : Nat)).length = 3 ∧
      (intText (Tag.newSeqNo : Nat)).length = 2 := by decide +kernel
  simp only [List.map_cons, List.map_nil, List.sum_cons, List.sum_nil, htags, List.length_cons,
    List.length_nil]
  omega

theorem recall_seq {seq : UInt64} {sent : Sent} (h : s.recall seq = some sent) :
    sent.seq = seq := by
  unfold Session.recall at h
  obtain ⟨slot, -, hsent⟩ := List.exists_of_findSome?_eq_some h
  rw [Option.filter_eq_some_iff] at hsent
  exact of_decide_eq_true hsent.2

theorem resendable_eq_some {n : Nat} {sent : Sent} (h : s.resendable n = some sent) :
    some sent ∈ s.ring ∧ sent.seq = UInt64.ofNat n ∧ sent.administrative = false := by
  unfold resendable at h
  rw [Option.filter_eq_some_iff] at h
  exact ⟨recall_mem h.1, recall_seq h.1, by simpa using h.2⟩

theorem again_eq_some {sent : Sent} (h : again sent = some m) : m = possDup sent sent.message := by
  unfold again FixMessage.reparse at h
  split at h
  · dsimp only [Option.bind_some] at h
    split at h
    · exact (Option.some.inj h).symm
    · cases h
  · cases h

theorem Posted.copy {sent : Sent} (h : Posted sent) (hadm : sent.administrative = false)
    (hagain : again sent = some m) : Copy sent.seq m := by
  rw [again_eq_some hagain]
  constructor
  · rw [possDup_msgType]
    exact h.application hadm
  · unfold FixMessage.seqNum FixMessage.findInt
    rw [possDup_find sent.message sent (by decide)]
    exact h.seqNum

/-- **What is said for a piece**: a copy of the one message, or the gap fill. -/
theorem said_cases (hs : s.Remembered) {p : Piece} (h : m ∈ s.said now p) :
    (∃ n, p = .one n ∧ Copy (UInt64.ofNat n) m) ∨
      ∃ start stop, p = .run start stop ∧ Fill (UInt64.ofNat stop) m := by
  cases p with
  | one n =>
    left
    obtain ⟨sent, hsent, hagain⟩ := Option.bind_eq_some_iff.mp (Option.mem_toList.mp h)
    obtain ⟨hring, hseq, hadm⟩ := resendable_eq_some hsent
    refine ⟨n, rfl, ?_⟩
    rw [← hseq]
    exact (hs sent hring).copy hadm hagain
  | run start stop =>
    right
    refine ⟨start, stop, rfl, ?_⟩
    unfold said at h
    dsimp only at h
    split at h
    · rw [List.mem_singleton.mp h]
      exact gapFill_fill ..
    · cases h

/-! ## The walk -/

theorem walkStart_ge (s : Session) (start : UInt64) : start.toNat ≤ s.walkStart start := by
  unfold walkStart
  split
  · rename_i h
    rw [h.1]
    exact Nat.zero_le 1
  · exact Nat.le_refl _

/-- All of the range is walked, but for a zero that is declined. -/
theorem walkStart_le {start : UInt64} {n : Nat} (h : start.toNat ≤ n) (hn : 0 < n) :
    s.walkStart start ≤ n := by
  unfold walkStart
  split
  · exact hn
  · exact h

theorem one_mem_walk {start last : UInt64} {n : Nat} (h : .one n ∈ s.walk start last) :
    start.toNat ≤ n ∧ n ≤ last.toNat ∧ s.keeps n = true := by
  obtain ⟨hlo, hhi, hkeep⟩ := one_mem_pieces.mp h
  have hstart := s.walkStart_ge start
  exact ⟨by omega, by omega, hkeep⟩

theorem run_mem_walk {start last : UInt64} {a b : Nat} (h : .run a b ∈ s.walk start last) :
    start.toNat ≤ a ∧ a < b ∧ b ≤ last.toNat + 1 ∧ ∀ n, a ≤ n → n < b → s.keeps n = false := by
  have hmax := (run_mem_pieces (fun g hg => by cases hg) (fun n hlo hhi => by
    simp only [Option.getD_none] at hlo
    omega)).mp h
  have hlo := hmax.low_le
  have hlt := hmax.lt
  have hhi := hmax.le_high
  have hstart := s.walkStart_ge start
  simp only [Option.getD_none] at hlo
  exact ⟨by omega, hlt, by omega, hmax.passed⟩

/-- A number of the range is in a piece. -/
theorem exists_piece {start last : UInt64} {n : Nat} (hlo : start.toNat ≤ n) (hn : 0 < n)
    (hhi : n ≤ last.toNat) : ∃ p ∈ s.walk start last, n ∈ p.numbers := by
  have hgap : ∀ g, (none : Option Nat) = some g → g ≤ s.walkStart start := fun g hg => by cases hg
  have hnumbers : (s.walk start last).flatMap Piece.numbers = _ :=
    @numbers_pieces s.keeps none _ (last.toNat + 1 - s.walkStart start) hgap
  have hmem : n ∈ (s.walk start last).flatMap Piece.numbers := by
    rw [hnumbers, List.mem_range'_1, Option.getD_none]
    have hstart := s.walkStart_le hlo hn
    omega
  exact List.mem_flatMap.mp hmem

/-! ## The counterparty -/

/-- A copy leaves the number that is expected, or is what was expected. -/
theorem heard_copy (disk : Disk) (t : Session) (now : Now) (hm : Copy k m) :
    (t.onMessage disk m now).store.seq.inbound = t.store.seq.inbound ∨
      k = t.store.seq.inbound ∧
        (t.onMessage disk m now).store.seq.inbound = t.store.seq.inbound + 1 := by
  have hnot := hm.application
  simp only [Application, List.mem_cons, List.not_mem_nil, or_false, not_or] at hnot
  have h := onMessage_handled disk t m now
  generalize t.onMessage disk m now = t' at h ⊢
  cases h with
  | logon htype => exact absurd htype hnot.2.2.2.2.2
  | ignored hstate hs => exact .inl hs.inbound
  | sequenceReset htype => exact absurd htype hnot.2.2.2.1
  | turnedAway htype htype' hstate hs => exact .inl hs.inbound_of_false.1
  | taken htype htype' hstate ht hs =>
    right
    cases ht with
    | accepted hseq hnext hstore =>
      rename_i n store
      rw [hm.seqNum] at hseq
      obtain rfl := Option.some.inj hseq
      rw [UInt64.toUInt64_toInt64] at hnext hstore
      have hin : store.seq.inbound = t.store.seq.inbound + 1 := by
        rw [SeqStore.store_synced_seq hstore, hnext]
      refine ⟨hnext, ?_⟩
      cases hs with
      | answered htype'' hs => exact hs.inbound.trans hin
      | ended htype'' hs => exact hs.inbound.trans hin
      | delivered => exact hin

/-- A gap fill leaves the number that is expected, or moves it to where it ends. -/
theorem heard_fill (disk : Disk) (t : Session) (now : Now) (hm : Fill k m) :
    (t.onMessage disk m now).store.seq.inbound = t.store.seq.inbound ∨
      t.store.seq.inbound ≤ k ∧ (t.onMessage disk m now).store.seq.inbound = k := by
  have h := onMessage_handled disk t m now
  generalize t.onMessage disk m now = t' at h ⊢
  cases h with
  | logon htype =>
    rw [hm.msgType] at htype
    exact absurd htype (by decide)
  | ignored hstate hs => exact .inl hs.inbound
  | turnedAway htype htype' => exact absurd hm.msgType htype'
  | taken htype htype' => exact absurd hm.msgType htype'
  | sequenceReset htype hstate hs =>
    cases hs with
    | refused hback hs => exact .inl hs.inbound
    | notStored hnew hle hstore hs =>
      left
      rw [hs.inbound]
      exact congrArg SeqPair.inbound (SeqStore.store_failed_seq hstore)
    | moved hnew hle hstore =>
      rename_i n store
      right
      rw [hm.newSeqNo] at hnew
      obtain rfl := Option.some.inj hnew
      rw [UInt64.toUInt64_toInt64] at hle hstore
      have hin : store.seq.inbound = k := by rw [SeqStore.store_synced_seq hstore]
      refine ⟨hle, ?_⟩
      split
      · exact hin
      · exact hin

/-- A copy of a number below, or a gap fill that does not go beyond. -/
def Short (n : UInt64) (m : FixMessage) : Prop :=
  (∃ k, Copy k m ∧ k ≠ n) ∨ ∃ k, Fill k m ∧ k ≤ n

/-- A copy, but not of the last number of all, or a gap fill. -/
def Onward (m : FixMessage) : Prop :=
  (∃ k, Copy k m ∧ k.toNat + 1 < 2 ^ 64) ∨ ∃ k, Fill k m

theorem toNat_succ {n : UInt64} (h : n.toNat + 1 < 2 ^ 64) : (n + 1).toNat = n.toNat + 1 := by
  have hone : (1 : UInt64).toNat = 1 := rfl
  rw [UInt64.toNat_add, hone, Nat.mod_eq_of_lt h]

theorem hears_le (disk : Disk) (now : Now) {n : UInt64} {ms : List FixMessage}
    (hms : ∀ m ∈ ms, Short n m) (ht : t.store.seq.inbound ≤ n) :
    (t.hears disk now ms).store.seq.inbound ≤ n := by
  induction ms generalizing t with
  | nil => exact ht
  | cons m ms ih =>
    refine ih (fun m' hm' => hms m' (List.mem_cons_of_mem _ hm')) ?_
    rcases hms m List.mem_cons_self with ⟨k, hm, hne⟩ | ⟨k, hm, hle⟩
    · rcases heard_copy disk t now hm with h | ⟨rfl, h⟩
      · rw [h]
        exact ht
      · rw [h, UInt64.le_iff_toNat_le]
        have hlt : t.store.seq.inbound < n := UInt64.lt_of_le_of_ne ht hne
        rw [UInt64.lt_iff_toNat_lt] at hlt
        have hn := n.toNat_lt
        rw [toNat_succ (by omega)]
        exact hlt
    · rcases heard_fill disk t now hm with h | ⟨-, h⟩
      · rw [h]
        exact ht
      · rw [h]
        exact hle

theorem hears_ge (disk : Disk) (now : Now) {n : UInt64} {ms : List FixMessage}
    (hms : ∀ m ∈ ms, Onward m) (ht : n ≤ t.store.seq.inbound) :
    n ≤ (t.hears disk now ms).store.seq.inbound := by
  induction ms generalizing t with
  | nil => exact ht
  | cons m ms ih =>
    refine ih (fun m' hm' => hms m' (List.mem_cons_of_mem _ hm')) ?_
    rcases hms m List.mem_cons_self with ⟨k, hm, hk⟩ | ⟨k, hm⟩
    · rcases heard_copy disk t now hm with h | ⟨rfl, h⟩
      · rw [h]
        exact ht
      · rw [h, UInt64.le_iff_toNat_le, toNat_succ hk]
        rw [UInt64.le_iff_toNat_le] at ht
        omega
    · rcases heard_fill disk t now hm with h | ⟨hle, h⟩
      · rw [h]
        exact ht
      · rw [h]
        exact UInt64.le_trans ht hle

/-- Sending does not close the connection. -/
theorem emit_up (disk : Disk) (t : Session) (msgType : Text) (body : List (Nat × Text)) (now : Now)
    (adm : Bool) (h : t.state ≠ .disconnected) :
    (t.emit disk msgType body now adm).2.state ≠ .disconnected := by
  unfold emit
  split
  · exact fun h => (nomatch h)
  · dsimp only
    split
    · unfold remember
      split
      · exact h
      · exact h
    · exact h

/-- A session that fails has said goodbye, and waits for the other side to close. -/
theorem fail_up (disk : Disk) (t : Session) (error : SessionError) (text : String) (now : Now) :
    (t.fail disk error text now).state ≠ .disconnected := by
  unfold fail
  simp

theorem checkSequence_up (disk : Disk) (t : Session) (m : FixMessage) (now : Now)
    (h : t.state ≠ .disconnected) : (t.checkSequence disk m now).2.state ≠ .disconnected := by
  unfold checkSequence
  split
  · exact emit_up _ _ _ _ _ _ h
  dsimp only
  split
  · split
    · exact fail_up _ _ _ _ _
    · exact h
  split
  · split
    · exact h
    · exact fail_up _ _ _ _ _
  · split
    · exact emit_up _ _ _ _ _ _ fun h => (nomatch h)
    · exact h

/-- Nor does anything that is in an answer. -/
theorem heard_up (disk : Disk) (now : Now) (hm : (∃ k, Copy k m) ∨ ∃ k, Fill k m)
    (h : t.state ≠ .disconnected) : (t.onMessage disk m now).state ≠ .disconnected := by
  unfold onMessage handle
  rcases hm with ⟨k, hm⟩ | ⟨k, hm⟩
  · have hnot := hm.application
    simp only [Application, List.mem_cons, List.not_mem_nil, or_false, not_or] at hnot
    rw [if_neg hnot.2.2.2.2.2, if_neg h, if_neg hnot.2.2.2.1]
    have hcheck := checkSequence_up disk { t with lastReceived := now.steady } m now h
    split
    · rename_i heq
      rw [heq] at hcheck
      exact hcheck
    · rename_i heq
      rw [heq] at hcheck
      unfold dispatch
      dsimp only
      rw [if_neg hnot.1, if_neg hnot.2.1, if_neg hnot.2.2.1, if_neg hnot.2.2.2.2.1]
      exact hcheck
  · rw [if_neg (by rw [hm.msgType]; decide), if_neg h, if_pos hm.msgType]
    unfold handleSequenceReset
    split
    · exact emit_up _ _ _ _ _ _ h
    dsimp only
    split
    · exact fail_up _ _ _ _ _
    split
    · exact fail_up _ _ _ _ _
    · split
      · simp
      · exact h

theorem hears_up (disk : Disk) (now : Now) {ms : List FixMessage}
    (hms : ∀ m ∈ ms, Onward m) (ht : t.state ≠ .disconnected) :
    (t.hears disk now ms).state ≠ .disconnected := by
  induction ms generalizing t with
  | nil => exact ht
  | cons m ms ih =>
    refine ih (fun m' hm' => hms m' (List.mem_cons_of_mem _ hm')) (heard_up disk now ?_ ht)
    rcases hms m List.mem_cons_self with ⟨k, hm, -⟩ | hm
    · exact .inl ⟨k, hm⟩
    · exact .inr hm

/-- The copy of the number that is expected is taken. -/
theorem heard_due (now : Now) (hm : Copy k m) (hk : k = t.store.seq.inbound)
    (ht : t.state ≠ .disconnected) :
    (t.onMessage durable m now).store.seq.inbound = t.store.seq.inbound + 1 := by
  have hnot := hm.application
  simp only [Application, List.mem_cons, List.not_mem_nil, or_false, not_or] at hnot
  have htakes : t.Takes durable m := by
    refine ⟨?_, rfl⟩
    rw [hm.seqNum]
    simp [hk]
  have hmoved := (onMessage_taken durable t now hnot.2.2.2.2.2 ht hnot.2.2.2.1).2
  rcases heard_copy durable t now hm with h | ⟨-, h⟩
  · exact absurd htakes (hmoved.mp h)
  · exact h

/-! ## The answer as a whole -/

theorem turns_of_lt {start last : UInt64} (h : last < start) : turns start last = some 0 := by
  unfold turns range
  rw [if_neg fun hle => UInt64.not_le.mpr h hle.1]
  rw [UInt64.lt_iff_toNat_lt] at h
  simp only [Option.map_some, List.length_map, List.length_range']
  congr 1
  omega

theorem turns_of_ends {start last : UInt64} (h : last.toNat + 1 < 2 ^ 64) :
    turns start last = some (last.toNat + 1 - start.toNat) := by
  unfold turns range
  have hne : last ≠ UInt64.ofNat (UInt64.size - 1) := by
    rintro rfl
    exact absurd h (by decide)
  rw [if_neg fun hle => hne hle.2]
  simp only [Option.map_some, List.length_map, List.length_range']

theorem ends_of_turns {start last : UInt64} {k : Nat} (hle : start ≤ last)
    (h : turns start last = some k) : last.toNat + 1 < 2 ^ 64 ∧ k = last.toNat + 1 - start.toNat := by
  obtain ⟨seqs, hseqs, rfl⟩ := Option.map_eq_some_iff.mp h
  obtain ⟨rfl, hends⟩ := range_eq_some hseqs
  exact ⟨hends hle, by rw [List.length_map, List.length_range']⟩

/-- A request that stays within and asks for something. -/
theorem Within.fromBefore {start last : UInt64} (h : s.Within start last) (hle : start ≤ last) :
    s.FromBefore start last := by
  rcases h with hlt | hlt | hbefore
  · exact absurd hle (UInt64.not_le.mpr hlt)
  · rw [UInt64.lt_iff_toNat_lt] at hlt
    have hsmall := s.store.seq.outbound.toNat_lt
    refine ⟨by omega, by omega, fun n hlo hhi hbeyond => ?_, fun hlo hhi => ?_⟩
    · omega
    · omega
  · exact hbefore

section Walked

variable {start last : UInt64} (hs : s.Remembered) (hends : last.toNat + 1 < 2 ^ 64)

include hs hends

theorem walk_forward : ∀ m ∈ (s.walk start last).flatMap (s.said now), Onward m := by
  intro m hm
  obtain ⟨p, hp, hsaid⟩ := List.mem_flatMap.mp hm
  rcases said_cases hs hsaid with ⟨n, rfl, hcopy⟩ | ⟨a, b, rfl, hfill⟩
  · obtain ⟨-, hhi, -⟩ := one_mem_walk hp
    refine .inl ⟨_, hcopy, ?_⟩
    rw [UInt64.toNat_ofNat_of_lt' (by show n < 2 ^ 64; omega)]
    omega
  · exact .inr ⟨_, hfill⟩

/-- Nothing of a piece is the next message, or goes beyond it, unless a copy of it is. -/
theorem short_of_said {p : Piece} (hp : p ∈ s.walk start last) {outbound : UInt64}
    (hone : p = .one outbound.toNat → s.said now p = [])
    (hrun : ∀ a b, p = .run a b → b ≤ outbound.toNat) (hm : m ∈ s.said now p) :
    Short outbound m := by
  rcases said_cases hs hm with ⟨n, rfl, hcopy⟩ | ⟨a, b, rfl, hfill⟩
  · obtain ⟨-, hhi, -⟩ := one_mem_walk hp
    refine .inl ⟨_, hcopy, ?_⟩
    intro heq
    have hn : n = outbound.toNat := by
      rw [← heq, UInt64.toNat_ofNat_of_lt' (by show n < 2 ^ 64; omega)]
    rw [hone (by rw [hn])] at hm
    cases hm
  · refine .inr ⟨_, hfill, ?_⟩
    obtain ⟨-, -, hhi, -⟩ := run_mem_walk hp
    rw [UInt64.le_iff_toNat_le, UInt64.toNat_ofNat_of_lt' (by show b < 2 ^ 64; omega)]
    exact hrun a b rfl

end Walked

/-- **Within is enough.** -/
theorem bounded_of_within {start last : UInt64} {answer : List FixMessage} (hs : s.Remembered)
    (hanswer : (range start last).isSome → answer = (s.walk start last).flatMap (s.said now))
    (h : s.Within start last) : Bounded s.store.seq.outbound (turns start last) answer := by
  by_cases hlt : last < start
  · have hturns := turns_of_lt hlt
    have hsome : (range start last).isSome := by
      rw [← Option.isSome_map (f := List.length)]
      show (turns start last).isSome = true
      rw [hturns]
      rfl
    rw [hanswer hsome, walk_of_lt hlt, hturns]
    exact ⟨by simp, fun m hm => (nomatch hm), fun disk now t ht => ht⟩
  have hbefore := h.fromBefore (UInt64.not_lt.mp hlt)
  have hturns : turns start last = some (last.toNat + 1 - start.toNat) :=
    turns_of_ends hbefore.ends
  have hsome : (range start last).isSome := by
    rw [← Option.isSome_map (f := List.length)]
    show (turns start last).isSome = true
    rw [hturns]
    rfl
  have hshort : ∀ m ∈ (s.walk start last).flatMap (s.said now), Short s.store.seq.outbound m := by
    intro m hm
    obtain ⟨p, hp, hsaid⟩ := List.mem_flatMap.mp hm
    refine short_of_said hs hbefore.ends hp ?_ ?_ hsaid
    · rintro rfl
      obtain ⟨hlo, hhi, -⟩ := one_mem_walk hp
      show ((s.resendable _).bind again).toList = []
      rw [hbefore.unsaid hlo hhi]
      rfl
    · rintro a b rfl
      obtain ⟨hlo, hab, hhi, hpassed⟩ := run_mem_walk hp
      by_contra hbeyond
      have hkeep := hbefore.kept (b - 1) (by omega) (by omega) (by omega)
      rw [hpassed (b - 1) (by omega) (by omega)] at hkeep
      cases hkeep
  rw [hanswer hsome, hturns]
  refine ⟨decide_eq_true hbefore.turns, ?_, fun disk now t ht => hears_le disk now hshort ht⟩
  intro m hm htype n hn
  rcases hshort m hm with ⟨k, hcopy, -⟩ | ⟨k, hfill, hle⟩
  · have hnot := hcopy.application
    rw [htype] at hnot
    exact absurd hnot (by decide)
  · rw [hfill.newSeqNo] at hn
    obtain rfl := Option.some.inj hn
    rw [UInt64.toUInt64_toInt64]
    exact hle

/-- A gap fill beyond the next number, where one of the range is passed over. -/
theorem keeps_of_fills {start last : UInt64} (hb : s.Brief) (hutc : now.utc.length = 21)
    (hends : last.toNat + 1 < 2 ^ 64) {outbound : UInt64}
    (hfills : ∀ m ∈ (s.walk start last).flatMap (s.said now), m.msgType = MsgType.sequenceReset →
      ∀ n, m.findInt Tag.newSeqNo = some n → n.toUInt64 ≤ outbound)
    {a b : Nat} (hp : .run a b ∈ s.walk start last) : b ≤ outbound.toNat := by
  have hm : s.gapFill (UInt64.ofNat a) (UInt64.ofNat b) now ∈
      (s.walk start last).flatMap (s.said now) := by
    refine List.mem_flatMap.mpr ⟨_, hp, ?_⟩
    unfold said
    dsimp only
    rw [if_pos (gapFill_fits hb hutc _ _)]
    exact List.mem_singleton_self _
  have hfill := gapFill_fill s (UInt64.ofNat a) (UInt64.ofNat b) now
  have hle := hfills _ hm hfill.msgType _ hfill.newSeqNo
  obtain ⟨-, -, hhi, -⟩ := run_mem_walk hp
  rwa [UInt64.toUInt64_toInt64, UInt64.le_iff_toNat_le,
    UInt64.toNat_ofNat_of_lt' (by show b < 2 ^ 64; omega)] at hle

/-- **And nothing else is.** -/
theorem within_of_bounded {start last : UInt64} {answer : List FixMessage} (hs : s.Remembered)
    (hb : s.Brief) (hutc : now.utc.length = 21)
    (hanswer : (range start last).isSome → answer = (s.walk start last).flatMap (s.said now))
    (h : Bounded s.store.seq.outbound (turns start last) answer) : s.Within start last := by
  by_cases hlt : last < start
  · exact .inl hlt
  have hle := UInt64.not_lt.mp hlt
  refine .inr (.inr ?_)
  obtain ⟨k, hk, hshort⟩ : ∃ k, turns start last = some k ∧ k ≤ s.store.seq.outbound.toNat := by
    obtain ⟨k, hk, hle⟩ := Option.any_eq_true _ _ |>.mp h.turns
    exact ⟨k, hk, of_decide_eq_true hle⟩
  obtain ⟨hends, rfl⟩ := ends_of_turns hle hk
  have hsome : (range start last).isSome := by
    rw [← Option.isSome_map (f := List.length)]
    show (turns start last).isSome = true
    rw [hk]
    rfl
  obtain rfl := hanswer hsome
  rw [UInt64.le_iff_toNat_le] at hle
  have hruns : ∀ a b, .run a b ∈ s.walk start last → b ≤ s.store.seq.outbound.toNat :=
    fun a b hp => keeps_of_fills hb hutc hends h.fills hp
  have hkept : ∀ n, start.toNat ≤ n → n ≤ last.toNat → s.store.seq.outbound.toNat ≤ n →
      s.keeps n = true := by
    intro n hlo hhi hbeyond
    obtain ⟨p, hp, hn⟩ := exists_piece (s := s) hlo (by omega) hhi
    cases p with
    | one n' =>
      obtain rfl := List.mem_singleton.mp hn
      exact (one_mem_walk hp).2.2
    | run a b =>
      have hstop := hruns a b hp
      have hab := List.mem_range'_1.mp hn
      omega
  refine ⟨hends, hshort, hkept, fun hlo hhi => ?_⟩
  by_contra hsaid
  obtain ⟨c, hc⟩ := Option.ne_none_iff_exists'.mp hsaid
  -- the copy of the next number, and what comes before and after it
  have hone : .one s.store.seq.outbound.toNat ∈ s.walk start last := by
    obtain ⟨p, hp, hn⟩ := exists_piece (s := s) hlo (by omega) hhi
    cases p with
    | one n' =>
      rw [List.mem_singleton.mp hn]
      exact hp
    | run a b =>
      have hstop := hruns a b hp
      have hab := List.mem_range'_1.mp hn
      omega
  have hforward : ∀ m ∈ (s.walk start last).flatMap (s.said now), Onward m :=
    walk_forward hs hends
  obtain ⟨before, after, hwalk, hfirst⟩ := List.eq_append_cons_of_mem hone
  have hcopy : s.said now (.one s.store.seq.outbound.toNat) = [c] := by
    show ((s.resendable _).bind again).toList = _
    rw [hc]
    rfl
  have hsplit : (s.walk start last).flatMap (s.said now) =
      before.flatMap (s.said now) ++ c :: after.flatMap (s.said now) := by
    rw [hwalk, List.flatMap_append, List.flatMap_cons, hcopy]
    rfl
  have hbefore : ∀ m ∈ before.flatMap (s.said now), Short s.store.seq.outbound m := by
    intro m hm
    obtain ⟨p, hp, hsaid⟩ := List.mem_flatMap.mp hm
    have hp' : p ∈ s.walk start last := by
      rw [hwalk]
      exact List.mem_append_left _ hp
    refine short_of_said hs hends hp' (fun heq => ?_) (fun a b heq => ?_) hsaid
    · rw [heq] at hp
      exact absurd hp hfirst
    · rw [heq] at hp'
      exact hruns a b hp'
  rw [hsplit] at hforward
  -- a counterparty that expects the next number takes the copy for it
  let t : Session := { s with
    state := .active
    store := { s.store with seq := ⟨s.store.seq.outbound, s.store.seq.outbound⟩ } }
  have hup : t.state ≠ .disconnected := fun h => (nomatch h)
  have hexpects : (t.hears durable now (before.flatMap (s.said now))).store.seq.inbound =
      s.store.seq.outbound := by
    refine UInt64.le_antisymm (hears_le durable now hbefore (UInt64.le_refl _)) ?_
    refine hears_ge durable now (fun m hm => ?_) (UInt64.le_refl _)
    exact hforward m (List.mem_append_left _ hm)
  have hup' : (t.hears durable now (before.flatMap (s.said now))).state ≠ .disconnected :=
    hears_up durable now (fun m hm => hforward m (List.mem_append_left _ hm)) hup
  have haccepts := h.accepts durable now t (UInt64.le_refl _)
  rw [hsplit] at haccepts
  unfold hears at haccepts hexpects hup'
  rw [List.foldl_append, List.foldl_cons] at haccepts
  generalize (before.flatMap (s.said now)).foldl (fun t m => t.onMessage durable m now) t = t'
    at haccepts hexpects hup'
  have hc' : Copy s.store.seq.outbound c := by
    rcases said_cases hs (by rw [hcopy]; exact List.mem_singleton_self c) with
      ⟨n, hn, hcopy'⟩ | ⟨a, b, hp, -⟩
    · obtain rfl := Piece.one.inj hn
      rwa [UInt64.ofNat_toNat] at hcopy'
    · cases hp
  have hdue := heard_due now hc' hexpects.symm hup'
  have hpast : s.store.seq.outbound + 1 ≤
      ((t'.onMessage durable c now).hears durable now (after.flatMap (s.said now))).store.seq.inbound := by
    refine hears_ge durable now (fun m hm => ?_) ?_
    · exact hforward m (List.mem_append_right _ (List.mem_cons_of_mem _ hm))
    · rw [hdue, hexpects]
      exact UInt64.le_refl _
  have hover := UInt64.le_trans hpast haccepts
  rw [UInt64.le_iff_toNat_le, toNat_succ (by omega)] at hover
  omega

/-- **What a resend request that is due is answered with**: what is said for the pieces of its walk,
if the walk ends. -/
theorem answer_resendRequest (hup : s.hung = false) (hstate : s.state ≠ .disconnected)
    (htype : m.msgType = MsgType.resendRequest) (htakes : s.Takes disk m) {begin last : Int64}
    (hbegin : m.findInt Tag.beginSeqNo = some begin) (hlast : m.findInt Tag.endSeqNo = some last)
    (now : Now) (hends : (range begin.toUInt64 (s.lastAsked last)).isSome) :
    (s.call disk (.message m now)).hung = false ∧ s.answer disk (.message m now) =
      (s.walk begin.toUInt64 (s.lastAsked last)).flatMap (s.said now) := by
  obtain ⟨u, hcall, hhung, hout, hring, -, hcfg, houtbound⟩ :=
    call_resendRequest hup hstate htype htakes now
  have hasked : u.lastAsked last = s.lastAsked last := by
    unfold lastAsked
    rw [houtbound]
  have hresendable : u.resendable = s.resendable := by
    funext n
    unfold resendable Session.recall
    rw [hring]
  have hsaid : u.said now = s.said now := by
    funext p
    cases p with
    | one n =>
      show ((u.resendable n).bind again).toList = _
      rw [hresendable]
      rfl
    | run start stop =>
      unfold said gapFill stamp
      rw [hcfg]
  have hwalk : ∀ start last, u.walk start last = s.walk start last := by
    intro start last
    unfold walk walkStart keeps
    rw [hresendable]
  obtain ⟨seqs, hseqs⟩ := Option.isSome_iff_exists.mp hends
  rw [← hasked] at hseqs
  obtain ⟨hanswered, hsame⟩ := handleResendRequest_walk disk u hbegin hlast hseqs now
  refine ⟨by rw [hcall, hsame.hung, hhung], ?_⟩
  unfold answer
  rw [hcall, hanswered, hout, List.drop_left, hsaid, hwalk, hasked]

/-- A session that has answered a Logon and sent an order, under 1 and 2. -/
def afterOrder : Session :=
  [inbound MsgType.logon 1 [], .send ['D'] [(Tag.clOrdId, ['a'])] ⟨0, []⟩].foldl
    (call fun _ => .synced) (.new acceptor {})

/-- A request for the numbers from `begin` to `last`, the next that is due. -/
def asksFor (begin last : Int64) : FixMessage :=
  ⟨[(Tag.msgType, MsgType.resendRequest), (Tag.msgSeqNum, ['2']),
    (Tag.beginSeqNo, intText begin.toInt), (Tag.endSeqNo, intText last.toInt)]⟩

/-- A time of the clock's length. -/
def midnight : Now := ⟨0, "20260101-00:00:00.000".toList⟩

end Session

end MarketData.Gateway
