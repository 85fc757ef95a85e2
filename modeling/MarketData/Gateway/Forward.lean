import MarketData.Gateway.Delivery
import MarketData.Gateway.Failure

/-!
# `Gateway/Forward.lean` — the expected number only moves forward

`MsgSeqNum` and `NewSeqNo` are read as 64-bit integers and then taken for unsigned ones, so a
negative number is one far beyond all others. A message moves the expected number in one of two
ways: it carries it and is accepted, which makes it the next one, or it is a `SequenceReset` to
something beyond it. A positive number moves it forward either way, and a positive number of its
own has a successor.

## Two promises in one

`Forward` says that no call takes the number back, and that no number that is not positive moves it.
The first alone would be met by a session that jumps to `2 ^ 64 - 1` on a negative `NewSeqNo` and
never moves again; the second is what a counterparty's numbers are *for*. With a positive number
both hold, since the one number without a successor is negative; so the condition is about the
message alone, and about whether it gets to move anything (`MovesNumber`, which reads the disk too:
an acceptor answers a Logon before it takes it, and the write that counts is then the second).

`handle_inbound` is the step lemma, and other modules use it: it says for one message what the
expected number becomes, whatever the message is. Resets are kept out of the runs here. They take
both numbers back to one, which is what a reset is.
-/

set_option autoImplicit false

namespace MarketData.Gateway

/-- No number of the message is zero or below. -/
def FixMessage.positive (m : FixMessage) : Bool :=
  m.seqNum.all (fun n => 0 < n) && (m.findInt Tag.newSeqNo).all fun n => 0 < n

/-- Both numbers of the session start over. -/
def Call.Resets : Call → Prop
  | .message m _ => m.flag Tag.resetSeqNumFlag = true
  | .connect _ resetSequences => resetSequences = true
  | _ => False

instance : (c : Call) → Decidable c.Resets
  | .message .. | .connect .. => inferInstanceAs (Decidable (_ = _))
  | .send .. | .logout .. | .timer .. | .newConnection => inferInstanceAs (Decidable False)

namespace Session

variable (disk : Disk)

/-- `m` carries the expected number. -/
def due (s : Session) (m : FixMessage) : Bool :=
  m.seqNum.map Int64.toUInt64 = some s.store.seq.inbound

/-- The message gets to move the expected number, and the disk takes the write: past an acceptor's
answer to it, if it is the Logon that opens the connection. -/
def MovesNumber (s : Session) (m : FixMessage) : Prop :=
  if m.msgType = MsgType.logon then
    s.due m = true ∧ disk (s.store.writes + if s.answers then 1 else 0) = .synced
  else
    s.state ≠ .disconnected ∧ disk s.store.writes = .synced ∧
      if m.msgType = MsgType.sequenceReset then
        (m.findInt Tag.newSeqNo).any (fun n => s.store.seq.inbound < n.toUInt64) = true
      else s.due m = true

instance (s : Session) (m : FixMessage) : Decidable (s.MovesNumber disk m) :=
  inferInstanceAs (Decidable (ite ..))

/-- What no call may do: take the expected number back, or move it for a message with a number
that is not positive. -/
structure Forward (s : Session) (c : Call) : Prop where
  le : s.store.seq.inbound ≤ (s.call disk c).store.seq.inbound
  kept : ∀ m now, c = .message m now → m.positive = false →
    (s.call disk c).store.seq.inbound = s.store.seq.inbound

/-- Nothing but positive numbers moves the expected number. -/
def MovedByPositive (s : Session) : Call → Prop
  | .message m _ => s.hung = false → s.MovesNumber disk m → m.positive = true
  | _ => True

instance (s : Session) : (c : Call) → Decidable (s.MovedByPositive disk c)
  | .message .. => inferInstanceAs (Decidable (_ → _ → _))
  | .send .. | .logout .. | .timer .. | .connect .. | .newConnection =>
    inferInstanceAs (Decidable True)

/-! ## What a message makes of the expected number -/

section

variable {disk : Disk} {s s' : Session} {m : FixMessage}

theorem due_of_seqNum {n : Int64} (hseq : m.seqNum = some n) :
    s.due m = true ↔ n.toUInt64 = s.store.seq.inbound := by
  simp [due, hseq]

/-- A store that failed did not take the write. -/
theorem not_synced_of_store {store store' : SeqStore} {next : SeqPair} {e : StoreError}
    (h : store.store disk next = (some e, store')) : disk store.writes ≠ .synced := by
  intro hsynced
  rw [← store_isNone disk store next, h] at hsynced
  cases hsynced

/-- The check moves the number by one, for a message that is due and a disk that takes it. -/
theorem Checked.inbound {ok : Bool} (h : Checked disk s m (ok, s')) :
    s'.store.seq.inbound =
      if s.due m = true ∧ disk s.store.writes = .synced then s.store.seq.inbound + 1
      else s.store.seq.inbound := by
  cases h with
  | accepted hseq hnext hstore =>
    rw [if_pos ⟨(due_of_seqNum hseq).mpr hnext, SeqStore.synced_of_store hstore⟩]
    show SeqPair.inbound (SeqStore.seq _) = _
    rw [SeqStore.store_synced_seq hstore, hnext]
  | notStored hseq hnext hstore hs hstate =>
    rw [if_neg fun h => not_synced_of_store hstore h.2, hs.inbound]
    show SeqPair.inbound (SeqStore.seq _) = _
    rw [SeqStore.store_failed_seq hstore]
  | refused hnext hs =>
    rw [if_neg, hs.inbound]
    rintro ⟨hdue, -⟩
    obtain ⟨n, hseq, hn⟩ := Option.map_eq_some_iff.mp (of_decide_eq_true hdue)
    have hlt := hnext n hseq
    rw [hn] at hlt
    exact UInt64.lt_irrefl _ hlt
  | gap hseq hbeyond hs =>
    rw [if_neg]
    · exact hs.inbound
    · rintro ⟨hdue, -⟩
      rw [due_of_seqNum hseq] at hdue
      rw [hdue] at hbeyond
      exact UInt64.lt_irrefl _ hbeyond

/-- A reset moves the number to what it says, if that is beyond it and the disk takes it. -/
theorem ResetTo.inbound (h : ResetTo disk s m s') :
    s'.store.seq.inbound =
      match m.findInt Tag.newSeqNo with
      | some n =>
        if s.store.seq.inbound < n.toUInt64 ∧ disk s.store.writes = .synced then n.toUInt64
        else s.store.seq.inbound
      | none => s.store.seq.inbound := by
  cases h with
  | refused hback hs =>
    rw [hs.inbound]
    split
    · rename_i n hnew
      rw [if_neg fun h => UInt64.lt_asymm (hback n hnew) h.1]
    · rfl
  | notStored hnew hle hstore hs hstate =>
    rw [hs.inbound, hnew]
    show SeqPair.inbound (SeqStore.seq _) = _
    dsimp only
    rw [SeqStore.store_failed_seq hstore, if_neg fun h => not_synced_of_store hstore h.2]
  | moved hnew hle hstore =>
    rename_i n store
    have hmoved : store.seq.inbound = n.toUInt64 := by rw [SeqStore.store_synced_seq hstore]
    rw [hnew]
    dsimp only
    have hif : (if s.state = .awaitingResend then { s with store, state := .active, queued := [] }
        else { s with store } : Session).store.seq.inbound = n.toUInt64 := by
      split
      · exact hmoved
      · exact hmoved
    rw [hif]
    split
    · rfl
    · rename_i hstill
      -- it was there already
      rcases UInt64.lt_or_eq_of_le hle with hlt | heq
      · exact absurd ⟨hlt, SeqStore.synced_of_store hstore⟩ hstill
      · exact heq.symm

variable (disk) in
/-- What the acceptor's answer leaves for the check of the Logon. -/
theorem answered_inbound (s : Session) (m : FixMessage) (now : Now) :
    ((s.greeted m s.store).answerLogon disk m now).store.seq.inbound = s.store.seq.inbound ∧
      ((s.greeted m s.store).answerLogon disk m now).store.writes =
        s.store.writes + if s.answers then 1 else 0 := by
  have hstore : (s.greeted m s.store).store = s.store := takeInterval_store ..
  have hanswers : (s.greeted m s.store).answers = s.answers := by simp [answers, greeted]
  cases hanswer : s.answers with
  | true =>
    obtain ⟨hwrites, hin⟩ := answerLogon_store disk (s.greeted m s.store) now
      (hanswers.trans hanswer) (m := m)
    rw [hstore] at hwrites hin
    exact ⟨hin, hwrites⟩
  | false =>
    have hsilent : (s.greeted m s.store).answerLogon disk m now = s.greeted m s.store := by
      rw [hanswer] at hanswers
      unfold answerLogon
      rw [if_neg (by simpa [answers] using hanswers)]
    rw [hsilent, hstore]
    exact ⟨rfl, rfl⟩

/-- A Logon that asks for no reset is checked like any other message, after the answer to it. -/
theorem handleLogon_inbound (now : Now) (hflag : m.flag Tag.resetSeqNumFlag = false) :
    (s.handleLogon disk m now).store.seq.inbound =
      if s.due m = true ∧ disk (s.store.writes + if s.answers then 1 else 0) = .synced then
        s.store.seq.inbound + 1
      else s.store.seq.inbound := by
  have hwants : s.wantsReset m = false := by simp [wantsReset, hflag]
  rw [handleLogon_eq, hwants]
  simp only [Bool.false_eq_true, if_false]
  obtain ⟨hin, hwrites⟩ := answered_inbound disk s m now
  have hchecked := checkSequence_checked disk ((s.greeted m s.store).answerLogon disk m now) m now
  generalize (s.greeted m s.store).answerLogon disk m now = t at hin hwrites hchecked ⊢
  generalize t.checkSequence disk m now = r at hchecked ⊢
  obtain ⟨ok, s'⟩ := r
  have hinbound := hchecked.inbound
  rw [due, hin, hwrites, ← due] at hinbound
  cases ok with
  | false => exact hinbound
  | true => exact hinbound

/-- A dispatch leaves the number alone. -/
theorem Dispatched.inbound (h : Dispatched s m s') :
    s'.store.seq.inbound = s.store.seq.inbound := by
  cases h with
  | answered htype hs => exact hs.inbound
  | ended htype hs hstate => exact hs.inbound
  | delivered htype => rfl

/-- The check of a message that is neither a Logon nor a reset. -/
theorem Checked.moves {ok : Bool} (h : Checked disk s m (ok, s')) (htype : m.msgType ≠ MsgType.logon)
    (htype' : m.msgType ≠ MsgType.sequenceReset) (hstate : s.state ≠ .disconnected) :
    (¬s.MovesNumber disk m → s'.store.seq.inbound = s.store.seq.inbound) ∧
      (s.MovesNumber disk m → s.due m = true ∧ s'.store.seq.inbound = s.store.seq.inbound + 1) := by
  have hin := h.inbound
  unfold MovesNumber
  rw [if_neg htype, if_neg htype']
  constructor
  · intro hnot
    rw [hin, if_neg fun h => hnot ⟨hstate, h.2, h.1⟩]
  · rintro ⟨-, hsynced, hdue⟩
    rw [hin, if_pos ⟨hdue, hsynced⟩]
    exact ⟨hdue, rfl⟩

/-- A reset to a number beyond the expected one. -/
theorem ResetTo.moves_on (h : ResetTo disk s m s') (htype : m.msgType = MsgType.sequenceReset)
    (hstate : s.state ≠ .disconnected) :
    (¬s.MovesNumber disk m → s'.store.seq.inbound = s.store.seq.inbound) ∧
      (s.MovesNumber disk m → s.store.seq.inbound < s'.store.seq.inbound) := by
  have hin := h.inbound
  unfold MovesNumber
  rw [if_neg (by rw [htype]; decide), if_pos htype]
  cases hnew : m.findInt Tag.newSeqNo with
  | none =>
    rw [hnew] at hin
    exact ⟨fun _ => hin, fun h => (nomatch h.2.2)⟩
  | some n =>
    rw [hnew] at hin
    dsimp only at hin
    constructor
    · intro hnot
      rw [hin, if_neg fun h => hnot ⟨hstate, h.2, by simpa using h.1⟩]
    · rintro ⟨-, hsynced, hlt⟩
      have hlt : s.store.seq.inbound < n.toUInt64 := by simpa using hlt
      rw [hin, if_pos ⟨hlt, hsynced⟩]
      exact hlt

variable (disk) in
/-- **One message**: unless it gets to move the number, the number stays; and otherwise it becomes
the next one, the message being due, or goes beyond what it was. -/
theorem handle_inbound (now : Now) (hflag : m.flag Tag.resetSeqNumFlag = false) :
    (¬s.MovesNumber disk m → (s.handle disk m now).store.seq.inbound = s.store.seq.inbound) ∧
      (s.MovesNumber disk m →
        (s.due m = true ∧ (s.handle disk m now).store.seq.inbound = s.store.seq.inbound + 1) ∨
          s.store.seq.inbound < (s.handle disk m now).store.seq.inbound) := by
  by_cases htype : m.msgType = MsgType.logon
  · rw [handle, if_pos htype, handleLogon_inbound now hflag, MovesNumber, if_pos htype]
    constructor
    · intro hnot
      rw [if_neg hnot]
    · intro hmoved
      rw [if_pos hmoved]
      exact .inl ⟨hmoved.1, rfl⟩
  have hhandled := handle_handled disk s m now
  generalize s.handle disk m now = s' at hhandled ⊢
  cases hhandled with
  | logon htype' => exact absurd htype' htype
  | ignored hstate hs =>
    refine ⟨fun _ => hs.inbound, fun hmoved => ?_⟩
    rw [MovesNumber, if_neg htype] at hmoved
    exact absurd hstate hmoved.1
  | sequenceReset htype' hstate hs =>
    obtain ⟨hstays, hmoves⟩ := hs.moves_on htype' hstate
    exact ⟨hstays, fun h => .inr (hmoves h)⟩
  | turnedAway _ htype' hstate hs =>
    obtain ⟨hstays, hmoves⟩ := hs.moves htype htype' hstate
    exact ⟨hstays, fun h => .inl (hmoves h)⟩
  | taken _ htype' hstate ht hs =>
    obtain ⟨hstays, hmoves⟩ := ht.moves htype htype' hstate
    rw [hs.inbound]
    exact ⟨hstays, fun h => .inl (hmoves h)⟩

end

/-! ## Runs -/

/-- Only a message moves the number, a reset of our own apart. -/
theorem call_inbound (s : Session) {c : Call} (hc : ¬c.Resets)
    (hmsg : ∀ m now, c ≠ .message m now) : (s.call disk c).store.seq.inbound = s.store.seq.inbound := by
  unfold call
  split
  · rfl
  cases c with
  | message m now => exact absurd rfl (hmsg m now)
  | send msgType body now => exact (sendApplication_sends disk s now msgType body).inbound
  | logout reason now => exact (logout_sends disk s now reason).inbound
  | timer now => exact (onTimer_sends disk s now).inbound
  | newConnection => rfl
  | connect now reset =>
    obtain rfl : reset = false := by simpa [Call.Resets] using hc
    have h := connect_connected disk s now false
    dsimp only
    generalize s.connect disk now false = s' at h ⊢
    cases h with
    | notInitiator => rfl
    | notReset hreset => cases hreset
    | sent hstore hs =>
      rcases hstore with ⟨-, rfl⟩ | ⟨hreset, -⟩
      · exact hs.inbound
      · cases hreset

/-- **One call** moves the number forward alone exactly where nothing but positive numbers move
it. -/
theorem forward_iff (s : Session) {c : Call} (hc : ¬c.Resets) :
    s.Forward disk c ↔ s.MovedByPositive disk c := by
  cases c with
  | send | logout | timer | connect | newConnection =>
    have hin := call_inbound disk s hc (fun _ _ => nofun)
    refine ⟨fun _ => trivial, fun _ => ⟨?_, fun _ _ => nofun⟩⟩
    rw [hin]
    exact UInt64.le_refl _
  | message m now =>
    have hflag : m.flag Tag.resetSeqNumFlag = false := by simpa [Call.Resets] using hc
    by_cases hhung : s.hung = true
    · have hcall : s.call disk (.message m now) = s := by rw [call, if_pos hhung]
      refine ⟨fun _ h => absurd hhung (by simp [h]), fun _ => ⟨?_, fun _ _ _ _ => ?_⟩⟩
      · rw [hcall]
        exact UInt64.le_refl _
      · rw [hcall]
    have hhung : s.hung = false := by simpa using hhung
    have hcall : s.call disk (.message m now) = s.onMessage disk m now := by
      simp [call, hhung]
    obtain ⟨hstays, hmoves⟩ := handle_inbound disk
      (s := { s with lastReceived := now.steady }) now hflag
    replace hcall : s.call disk (.message m now) = handle disk { s with lastReceived := now.steady }
      m now := hcall
    constructor
    · intro hforward _ hmoved
      by_contra hpositive
      have hkept := hforward.kept m now rfl (by simpa using hpositive)
      rw [hcall] at hkept
      rcases hmoves hmoved with ⟨-, hnext⟩ | hlt
      · rw [hkept] at hnext
        exact absurd hnext (by simp)
      · rw [hkept] at hlt
        exact UInt64.lt_irrefl _ hlt
    · intro hmoved
      rw [← hcall] at hstays hmoves
      by_cases h : s.MovesNumber disk m
      · have hpositive := hmoved hhung h
        refine ⟨?_, fun m' now' heq hnot => ?_⟩
        · rcases hmoves h with ⟨hdue, hnext⟩ | hlt
          · -- a positive number has a successor
            obtain ⟨n, hseq, hn⟩ := Option.map_eq_some_iff.mp (of_decide_eq_true hdue)
            have hpos : 0 < n := by
              have hall := (Bool.and_eq_true_iff.mp hpositive).1
              rw [hseq] at hall
              simpa using hall
            rw [hnext, ← hn]
            exact UInt64.le_of_lt (lt_succ_of_pos hpos)
          · exact UInt64.le_of_lt hlt
        · cases heq
          rw [hpositive] at hnot
          cases hnot
      · have hin := hstays h
        refine ⟨?_, fun _ _ _ _ => hin⟩
        rw [hin]
        exact UInt64.le_refl _

/-- **The expected number only moves forward**, and no message with a number that is not positive
moves it, in a run without resets exactly where nothing but positive numbers move it. -/
theorem forward_iff_moved_by_positive (s : Session) (calls : List Call)
    (hcalls : ∀ c ∈ calls, ¬c.Resets) :
    Run.Along (call disk) (Forward disk) s calls ↔
      Run.Along (call disk) (MovedByPositive disk) s calls := by
  induction calls generalizing s with
  | nil => exact Iff.rfl
  | cons c calls ih =>
    exact and_congr (forward_iff disk s (hcalls c (by simp)))
      (ih _ fun c hc => hcalls c (List.mem_cons_of_mem _ hc))

/-- Two messages and a gap fill. -/
theorem forward_over_gap_fill :
    let calls := [inbound MsgType.logon 1 [], inbound ['D'] 2 [],
      inbound MsgType.sequenceReset 3 [(Tag.gapFillFlag, ['Y']), (Tag.newSeqNo, ['7'])]]
    Run.Along (call fun _ => .synced) (Forward fun _ => .synced) (.new acceptor {}) calls :=
  (forward_iff_moved_by_positive _ _ _ (by decide +kernel)).mpr (by decide +kernel)

/-- A `SequenceReset` to -1 where 2 is expected: the last 64-bit number is. The next message under
it takes the number back to 0. -/
theorem negative_reset_moves :
    let calls := [inbound MsgType.logon 1 [],
      inbound MsgType.sequenceReset 2 [(Tag.newSeqNo, intText (-1))], inbound ['D'] (-1) []]
    ((calls.take 2).foldl (call fun _ => .synced) (.new acceptor {})).store.seq.inbound =
        18446744073709551615 ∧
      (calls.foldl (call fun _ => .synced) (.new acceptor {})).store.seq.inbound = 0 ∧
      ¬Run.Along (call fun _ => .synced) (Forward fun _ => .synced) (.new acceptor {}) calls := by
  refine ⟨by decide +kernel, by decide +kernel, fun h => ?_⟩
  exact absurd h.2.2.1.le (by decide +kernel)

end Session

end MarketData.Gateway
