import MarketData.Gateway.Gaps

/-!
# `Gateway/Failure.lean` — a session that has failed

A session fails through `fail`, or because an outbound number could not be claimed; it is then
`LoggedOut`, and what it says is no longer to be trusted. `fails` tells from the state before a
call whether the call goes through either, and `Line` remembers it until the next connection.

Some callers of `emit` assign the state after it, over the failure; and `on_message`, `connect` and
`logout` do not ask whether the session has ended. Where a failure is final is said in terms of
these.

## Why `fails` is a definition of its own

The obvious definition reads the session after the call: it has failed if it is `LoggedOut` and has
an error. That is exactly what the question is about, so it cannot be the premise: **a failure that
was overwritten would not count as one**. `fails` walks the branches of the call beforehand and asks
of each only what the disk and the message decide (`refuses`, `checkFails`, `logonFails`). That it
means what it says is `call_error`: a call that fails leaves an error, and a call that does not
leaves the one there was, or one that is set somewhere else.

## What is not failure

A message the buffer does not hold is an error too, and its number is spent, but the session goes
on. A counterparty that answers no test request ends the session without `fail` and without a word,
and a `connect` whose reset is refused ends it before there is a connection. None of the three is in
`fails`; each is named in `call_error`, so that an error that nothing accounts for would show.

## Two ways back up

`AnswerLasts` is the one condition that looks at several writes. An acceptor answers a Logon before
it checks its number; when the answer's number is refused, the session has failed, and the check
that follows either fails as well, which ends it again, or assigns `Active` over it. `Guarded` is
the rest: no refused number where the caller goes on to set a state, and for a session that has
failed only calls that it ignores or that fail it again (`Stale`). `reversed` is a run that does
otherwise.
-/

set_option autoImplicit false

namespace MarketData.Gateway

namespace Session

variable (disk : Disk)

/-! ## Which calls fail -/

/-- The next outbound number cannot be claimed. -/
def refuses (s : Session) : Bool := (s.store.claimOutbound disk).1.isNone

/-- `check_sequence` fails the session, or its answer to `m` cannot be sent. -/
def checkFails (s : Session) (m : FixMessage) : Bool :=
  match m.seqNum with
  | none => s.refuses disk
  | some seq =>
    if seq.toUInt64 = s.store.seq.inbound then (s.store.acceptInbound disk seq.toUInt64).1.isSome
    else if seq.toUInt64 < s.store.seq.inbound then !m.flag Tag.possDupFlag
    else s.state ≠ .awaitingResend && s.refuses disk

/-- The counterparty asks for a reset that we did not ask for. -/
def wantsReset (s : Session) (m : FixMessage) : Bool :=
  m.flag Tag.resetSeqNumFlag && !s.resetRequested

/-- The session as a Logon finds it, once the reset it asks for is stored. -/
def greeted (s : Session) (m : FixMessage) (store : SeqStore) : Session :=
  { s with resetRequested := false, store }.takeInterval m

/-- An acceptor answers the Logon that opens its connection. -/
def answers (s : Session) : Bool := !s.cfg.initiator && s.state = .disconnected

def logonFails (s : Session) (m : FixMessage) (now : Now) : Bool :=
  match if s.wantsReset m then s.store.reset disk else (none, s.store) with
  | (some _, _) => true
  | (none, store) =>
    let t := s.greeted m store
    (t.answers && t.refuses disk) || (t.answerLogon disk m now).checkFails disk m

def sequenceResetFails (s : Session) (m : FixMessage) : Bool :=
  match m.findInt Tag.newSeqNo with
  | none => s.refuses disk
  | some newSeq =>
    newSeq.toUInt64 < s.store.seq.inbound ||
      (s.store.acceptInbound disk (newSeq.toUInt64 - 1)).1.isSome

/-- What an accepted message is answered with cannot be sent. -/
def dispatchFails (s : Session) (m : FixMessage) : Bool :=
  let type := m.msgType
  if type = MsgType.heartbeat then false
  else if type = MsgType.testRequest then s.refuses disk
  else if type = MsgType.resendRequest then
    ((m.findInt Tag.beginSeqNo).isNone || (m.findInt Tag.endSeqNo).isNone) && s.refuses disk
  else if type = MsgType.logout then s.state ≠ .awaitingLogout && s.refuses disk
  else false

def messageFails (s : Session) (m : FixMessage) (now : Now) : Bool :=
  if m.msgType = MsgType.logon then s.logonFails disk m now
  else if s.state = .disconnected then false
  else if m.msgType = MsgType.sequenceReset then s.sequenceResetFails disk m
  else
    match s.checkSequence disk m now with
    | (false, _) => s.checkFails disk m
    | (true, t) => t.dispatchFails disk m

def timerFails (s : Session) (now : Now) : Bool :=
  if s.state = .disconnected ∨ s.state = .loggedOut then false
  else if s.cfg.heartbeatIntervalSeconds ≤ 0 then false
  else
    let interval := s.cfg.heartbeatIntervalSeconds.toInt * second
    let due := interval ≤ now.steady - s.lastSent
    let t := if due then s.sendHeartbeat disk now [] else s
    (due && s.refuses disk) ||
      (!t.testRequestOutstanding &&
        interval + s.cfg.tolerance interval ≤ now.steady - t.lastReceived && t.refuses disk)

def connectFails (s : Session) (resetSequences : Bool) : Bool :=
  s.cfg.initiator &&
    match if resetSequences then s.store.reset disk else (none, s.store) with
    | (some _, _) => false
    | (none, store) => { s with store }.refuses disk

/-- **The call sets an error** through `fail`, or through a number that could not be claimed. -/
def fails (s : Session) : Call → Bool
  | .message m now => { s with lastReceived := now.steady }.messageFails disk m now
  | .send .. => s.state = .active && s.refuses disk
  | .logout .. => s.refuses disk
  | .timer now => s.timerFails disk now
  | .connect _ resetSequences => s.connectFails disk resetSequences
  | .newConnection => false

end Session

/-! ## What a failing call leaves -/

namespace Session

/-- The session has ended with an error if it failed, and otherwise has no error that `fail` or a
refused number gave it. -/
structure Reports (failed : Bool) (s s' : Session) : Prop where
  ended : failed = true → s'.state = .loggedOut
  error : failed = true → s'.error ≠ .none
  kept : failed = false → s'.error = s.error ∨ s'.error = .corrupt ∨ s'.error = .unresponsive

section

variable (disk : Disk) (s : Session) (now : Now)

theorem emit_of_refuses (msgType : Text) (body : List (Nat × Text)) (administrative : Bool)
    (h : s.refuses disk = true) :
    (s.emit disk msgType body now administrative).2.state = .loggedOut ∧
      (s.emit disk msgType body now administrative).2.error = .storeFailure := by
  unfold refuses at h
  unfold emit
  split
  · exact ⟨rfl, rfl⟩
  · rename_i heq
    rw [heq] at h
    cases h

@[simp] theorem remember_state (sent : Sent) : (s.remember sent).state = s.state := by
  unfold remember
  split <;> rfl

@[simp] theorem remember_error (sent : Sent) : (s.remember sent).error = s.error := by
  unfold remember
  split <;> rfl

theorem emit_of_not_refuses (msgType : Text) (body : List (Nat × Text)) (administrative : Bool)
    (h : s.refuses disk = false) :
    (s.emit disk msgType body now administrative).2.state = s.state ∧
      ((s.emit disk msgType body now administrative).2.error = s.error ∨
        (s.emit disk msgType body now administrative).2.error = .corrupt) := by
  unfold refuses at h
  unfold emit
  split
  · rename_i heq
    rw [heq] at h
    cases h
  · dsimp only
    split
    · exact ⟨remember_state .., .inl (remember_error ..)⟩
    · exact ⟨rfl, .inr rfl⟩

theorem emit_reports (msgType : Text) (body : List (Nat × Text)) (administrative : Bool) :
    Reports (s.refuses disk) s (s.emit disk msgType body now administrative).2 := by
  refine ⟨?_, ?_, ?_⟩
  · intro h
    exact (emit_of_refuses disk s now msgType body administrative h).1
  · intro h
    rw [(emit_of_refuses disk s now msgType body administrative h).2]
    decide
  · intro h
    rcases (emit_of_not_refuses disk s now msgType body administrative h).2 with h | h
    · exact .inl h
    · exact .inr (.inl h)

/-- Whether or not its number is refused, a send leaves an ended session ended. -/
theorem emit_ended (msgType : Text) (body : List (Nat × Text)) (administrative : Bool)
    (h : s.state = .loggedOut) :
    (s.emit disk msgType body now administrative).2.state = .loggedOut := by
  cases hrefuses : s.refuses disk with
  | true => exact (emit_of_refuses disk s now msgType body administrative hrefuses).1
  | false => exact (emit_of_not_refuses disk s now msgType body administrative hrefuses).1.trans h

/-- A send takes no error back. -/
theorem emit_error (msgType : Text) (body : List (Nat × Text)) (administrative : Bool)
    (h : s.error ≠ .none) : (s.emit disk msgType body now administrative).2.error ≠ .none := by
  cases hrefuses : s.refuses disk with
  | true => exact (emit_reports disk s now msgType body administrative).error hrefuses
  | false =>
    rcases (emit_of_not_refuses disk s now msgType body administrative hrefuses).2 with heq | heq
    · exact heq ▸ h
    · rw [heq]
      decide

theorem fail_reports {e : SessionError} (he : e ≠ .none) (text : String) :
    Reports true s (s.fail disk e text now) := by
  refine ⟨fun _ => rfl, fun _ => ?_, fun h => (nomatch h)⟩
  exact emit_error disk { s with error := e } now MsgType.logout [(Tag.text, text.toList)] true he

theorem checkSequence_reports (m : FixMessage) :
    Reports (s.checkFails disk m) s (s.checkSequence disk m now).2 := by
  unfold checkFails checkSequence
  cases hseq : m.seqNum with
  | none => exact emit_reports ..
  | some seq =>
  dsimp only
  by_cases hnext : seq.toUInt64 = s.store.seq.inbound
  · rw [if_pos hnext, if_pos hnext]
    generalize s.store.acceptInbound disk seq.toUInt64 = r
    obtain ⟨failed, store⟩ := r
    cases failed with
    | some e =>
      have h := fail_reports disk { s with store } now (e := .storeFailure) (by decide)
        "could not persist an inbound sequence"
      exact ⟨h.ended, h.error, fun hfalse => (nomatch hfalse)⟩
    | none => exact ⟨fun h => (nomatch h), fun h => (nomatch h), fun _ => .inl rfl⟩
  rw [if_neg hnext, if_neg hnext]
  by_cases hlt : seq.toUInt64 < s.store.seq.inbound
  · rw [if_pos hlt, if_pos hlt]
    cases m.flag Tag.possDupFlag with
    | true => exact ⟨fun h => (nomatch h), fun h => (nomatch h), fun _ => .inl rfl⟩
    | false => exact fail_reports disk s now (by decide) _
  rw [if_neg hlt, if_neg hlt]
  by_cases hstate : s.state = .awaitingResend
  · simp only [hstate, ne_eq, not_true_eq_false, decide_false, Bool.false_and, if_false]
    exact ⟨fun h => (nomatch h), fun h => (nomatch h), fun _ => .inl rfl⟩
  · simp only [ne_eq, hstate, not_false_eq_true, decide_true, Bool.true_and, if_true]
    have h := emit_reports disk { s with state := .awaitingResend } now MsgType.resendRequest
      [(Tag.beginSeqNo, intText s.store.seq.inbound.toInt64.toInt), (Tag.endSeqNo, ['0'])] true
    exact ⟨h.ended, h.error, h.kept⟩

theorem handleSequenceReset_reports (m : FixMessage) :
    Reports (s.sequenceResetFails disk m) s (s.handleSequenceReset disk m now) := by
  unfold sequenceResetFails handleSequenceReset
  cases hnew : m.findInt Tag.newSeqNo with
  | none => exact emit_reports ..
  | some newSeq =>
  dsimp only
  by_cases hlt : newSeq.toUInt64 < s.store.seq.inbound
  · rw [if_pos hlt, decide_eq_true hlt, Bool.true_or]
    exact fail_reports disk s now (by decide) _
  rw [if_neg hlt, decide_eq_false hlt, Bool.false_or]
  generalize s.store.acceptInbound disk (newSeq.toUInt64 - 1) = r
  obtain ⟨failed, store⟩ := r
  cases failed with
  | some e =>
    have h := fail_reports disk { s with store } now (e := .storeFailure) (by decide)
      "could not persist a sequence reset"
    exact ⟨h.ended, h.error, fun hfalse => (nomatch hfalse)⟩
  | none =>
    refine ⟨fun h => (nomatch h), fun h => (nomatch h), fun _ => .inl ?_⟩
    dsimp only
    split <;> rfl

@[simp] theorem sendGapFill_error (start newSeqNo : UInt64) :
    (s.sendGapFill start newSeqNo now).error = s.error := by
  unfold sendGapFill
  dsimp only
  split <;> rfl

@[simp] theorem resend_error (sent : Sent) : (s.resend sent now).error = s.error := by
  unfold resend
  split
  · rfl
  · split <;> rfl

theorem resendStep_error (a : UInt64 × Session) (seq : UInt64) :
    (resendStep now a seq).2.error = a.2.error := by
  unfold resendStep
  split
  · rfl
  · dsimp only
    split <;> simp

theorem resendLoop_error (seqs : List UInt64) (a : UInt64 × Session) :
    (seqs.foldl (resendStep now) a).2.error = a.2.error := by
  induction seqs generalizing a with
  | nil => rfl
  | cons seq seqs ih =>
    rw [List.foldl_cons, ih]
    exact resendStep_error now a seq

/-- A range is walked without a number being claimed. -/
theorem handleResendRequest_reports (m : FixMessage) :
    Reports (((m.findInt Tag.beginSeqNo).isNone || (m.findInt Tag.endSeqNo).isNone) &&
      s.refuses disk) s (s.handleResendRequest disk m now) := by
  unfold handleResendRequest
  cases hbegin : m.findInt Tag.beginSeqNo with
  | none => exact emit_reports ..
  | some begin =>
  cases hend : m.findInt Tag.endSeqNo with
  | none => exact emit_reports ..
  | some last =>
    refine ⟨fun h => (nomatch h), fun h => (nomatch h), fun _ => .inl ?_⟩
    dsimp only
    split
    · rfl
    · rename_i seqs _
      have hloop := resendLoop_error now seqs (0, s)
      split
      · rw [sendGapFill_error]
        exact hloop
      · exact hloop

theorem handleLogout_reports :
    Reports (s.state ≠ .awaitingLogout && s.refuses disk) s (s.handleLogout disk now) := by
  unfold handleLogout
  by_cases hstate : s.state = .awaitingLogout
  · rw [if_pos hstate, decide_eq_false (not_not_intro hstate), Bool.false_and]
    exact ⟨fun h => (nomatch h), fun h => (nomatch h), fun _ => .inl rfl⟩
  · rw [if_neg hstate, decide_eq_true hstate, Bool.true_and]
    have h := emit_reports disk s now MsgType.logout [] true
    exact ⟨fun _ => rfl, h.error, h.kept⟩

theorem dispatch_reports (m : FixMessage) :
    Reports (s.dispatchFails disk m) s (s.dispatch disk m now) := by
  unfold dispatchFails dispatch
  dsimp only
  split
  · refine ⟨fun h => (nomatch h), fun h => (nomatch h), fun _ => .inl ?_⟩
    split <;> rfl
  split
  · exact emit_reports ..
  split
  · exact handleResendRequest_reports ..
  split
  · exact handleLogout_reports ..
  · exact ⟨fun h => (nomatch h), fun h => (nomatch h), fun _ => .inl rfl⟩

/-- A message that `check_sequence` lets through changes the store alone, and nothing failed. -/
theorem accepted_keeps {m : FixMessage} {t : Session}
    (h : s.checkSequence disk m now = (true, t)) :
    t = { s with store := t.store } ∧ s.checkFails disk m = false := by
  have hchecked := checkSequence_checked disk s m now
  rw [h] at hchecked
  cases hchecked with
  | accepted hseq hnext hstore =>
    refine ⟨rfl, ?_⟩
    unfold checkFails
    rw [hseq]
    dsimp only
    rw [if_pos hnext, hstore]
    rfl

/-- **A message other than a Logon.** -/
theorem handle_reports {m : FixMessage} (htype : m.msgType ≠ MsgType.logon) :
    Reports (s.messageFails disk m now) s (s.handle disk m now) := by
  unfold messageFails handle
  rw [if_neg htype, if_neg htype]
  split
  · exact ⟨fun h => (nomatch h), fun h => (nomatch h), fun _ => .inl rfl⟩
  split
  · exact handleSequenceReset_reports ..
  have hcheck := checkSequence_reports disk s now m
  cases hresult : s.checkSequence disk m now with
  | mk ok t =>
    rw [hresult] at hcheck
    cases ok with
    | false => exact hcheck
    | true =>
      have h := dispatch_reports disk t now m
      refine ⟨h.ended, h.error, fun hfalse => ?_⟩
      have herror : t.error = s.error := by rw [(accepted_keeps disk s now hresult).1]
      rw [← herror]
      exact h.kept hfalse

/-! ## Writes -/

theorem store_writes (store : SeqStore) (next : SeqPair) :
    (store.store disk next).2.writes = store.writes + 1 := by
  unfold SeqStore.store
  dsimp only
  split <;> rfl

theorem store_isNone (store : SeqStore) (next : SeqPair) :
    (store.store disk next).1 = none ↔ disk store.writes = .synced := by
  unfold SeqStore.store
  dsimp only
  split
  · simp_all
  · simp_all
  · simp_all
  · simp_all

theorem refuses_iff : s.refuses disk = true ↔ disk s.store.writes ≠ .synced := by
  have hstore := store_isNone disk s.store { s.store.seq with outbound := s.store.seq.outbound + 1 }
  unfold refuses SeqStore.claimOutbound
  split
  · rename_i heq
    rw [heq] at hstore
    simpa using hstore
  · rename_i heq
    rw [heq] at hstore
    simpa using hstore

theorem emit_writes (msgType : Text) (body : List (Nat × Text)) (administrative : Bool) :
    (s.emit disk msgType body now administrative).2.store.writes = s.store.writes + 1 := by
  have hwrites := store_writes disk s.store
    { s.store.seq with outbound := s.store.seq.outbound + 1 }
  unfold emit SeqStore.claimOutbound
  generalize s.store.store disk { s.store.seq with outbound := s.store.seq.outbound + 1 } = r
    at hwrites ⊢
  obtain ⟨failed, store⟩ := r
  cases failed with
  | some e => exact hwrites
  | none =>
    dsimp only
    split
    · unfold remember
      split <;> exact hwrites
    · exact hwrites

/-! ## Logon -/

theorem handleLogon_eq (m : FixMessage) :
    s.handleLogon disk m now =
      match if s.wantsReset m then s.store.reset disk else (none, s.store) with
      | (some _, store) => { s with resetRequested := false, store }.fail disk .storeFailure
          "could not persist a sequence reset" now
      | (none, store) =>
        match ((s.greeted m store).answerLogon disk m now).checkSequence disk m now with
        | (false, s) => s
        | (true, s) => { s with state := .active } := by
  unfold handleLogon wantsReset greeted
  dsimp only
  generalize (if (m.flag Tag.resetSeqNumFlag && !s.resetRequested) = true
    then s.store.reset disk else (none, s.store)) = r
  obtain ⟨failed, store⟩ := r
  cases failed <;> rfl

/-- The write that claims the number of an acceptor's Logon. -/
def logonWrite (m : FixMessage) : Nat := s.store.writes + if s.wantsReset m then 1 else 0

/-- The number a Logon is to carry. -/
def logonExpects (m : FixMessage) : UInt64 := if s.wantsReset m then 1 else s.store.seq.inbound

/-- **An answer that fails is the last thing done for its Logon.** Where the acceptor's own Logon
cannot be sent, the one it answers is below the expected number, or has none, or the next write
fails too. -/
def AnswerLasts (m : FixMessage) : Prop :=
  s.answers = true → (s.wantsReset m = true → disk s.store.writes = .synced) →
    disk (s.logonWrite m) ≠ .synced →
    m.seqNum.all (fun seq => seq.toUInt64 < s.logonExpects m) = true ∨
      disk (s.logonWrite m + 1) ≠ .synced

instance (m : FixMessage) : Decidable (s.AnswerLasts disk m) := inferInstanceAs (Decidable (_ → _))

variable {s} in
/-- What the store is once the reset a Logon asks for is done. -/
theorem greeted_store {m : FixMessage} {store : SeqStore}
    (h : (if s.wantsReset m then s.store.reset disk else (none, s.store)) = (none, store)) :
    store.writes = s.logonWrite m ∧ store.seq.inbound = s.logonExpects m ∧
      (s.wantsReset m = true → disk s.store.writes = .synced) := by
  unfold logonWrite logonExpects
  cases hwants : s.wantsReset m with
  | true =>
    rw [hwants, if_pos rfl] at h
    refine ⟨?_, ?_, fun _ => SeqStore.synced_of_store h⟩
    · have hwrites := store_writes disk s.store ⟨1, 1⟩
      rw [SeqStore.reset] at h
      rw [h] at hwrites
      exact hwrites
    · rw [SeqStore.store_synced_seq h]
      rfl
  | false =>
    rw [hwants] at h
    cases h
    exact ⟨rfl, rfl, fun h => (nomatch h)⟩

@[simp] theorem takeInterval_store (m : FixMessage) : (s.takeInterval m).store = s.store := by
  unfold takeInterval
  split <;> rfl

@[simp] theorem takeInterval_state (m : FixMessage) : (s.takeInterval m).state = s.state := by
  unfold takeInterval
  split <;> rfl

@[simp] theorem takeInterval_error (m : FixMessage) : (s.takeInterval m).error = s.error := by
  unfold takeInterval
  split <;> rfl

@[simp] theorem takeInterval_initiator (m : FixMessage) :
    (s.takeInterval m).cfg.initiator = s.cfg.initiator := by
  unfold takeInterval
  split <;> rfl

/-- An ended session whose writes fail stays ended over any message. -/
theorem checkSequence_ended {m : FixMessage} (hstate : s.state = .loggedOut)
    (hlast : m.seqNum.all (fun seq => seq.toUInt64 < s.store.seq.inbound) = true ∨
      disk s.store.writes ≠ .synced) :
    (s.checkSequence disk m now).1 = false ∧
      (s.checkSequence disk m now).2.state = .loggedOut := by
  unfold checkSequence
  cases hseq : m.seqNum with
  | none => exact ⟨rfl, emit_ended disk s now _ _ _ hstate⟩
  | some seq =>
  rw [hseq] at hlast
  replace hlast : s.store.seq.inbound ≤ seq.toUInt64 → disk s.store.writes ≠ .synced := by
    intro hle
    rcases hlast with hlt | hlast
    · exact absurd (of_decide_eq_true hlt) (UInt64.not_lt.mpr hle)
    · exact hlast
  dsimp only
  by_cases hnext : seq.toUInt64 = s.store.seq.inbound
  · rw [if_pos hnext]
    have hfails : (s.store.acceptInbound disk seq.toUInt64).1 ≠ none := by
      rw [SeqStore.acceptInbound, ne_eq, store_isNone]
      exact hlast (hnext ▸ UInt64.le_refl _)
    generalize s.store.acceptInbound disk seq.toUInt64 = r at hfails ⊢
    obtain ⟨failed, store⟩ := r
    cases failed with
    | some e => exact ⟨rfl, rfl⟩
    | none => exact absurd rfl hfails
  rw [if_neg hnext]
  by_cases hlt : seq.toUInt64 < s.store.seq.inbound
  · rw [if_pos hlt]
    split
    · exact ⟨rfl, hstate⟩
    · exact ⟨rfl, rfl⟩
  · rw [if_neg hlt, if_pos (by rw [hstate]; decide)]
    refine ⟨rfl, (emit_of_refuses disk { s with state := .awaitingResend } now _ _ _ ?_).1⟩
    rw [refuses_iff]
    exact hlast (UInt64.not_lt.mp hlt)

/-- The acceptor's answer, or none. -/
theorem answerLogon_reports (m : FixMessage) :
    Reports (s.answers && s.refuses disk) s (s.answerLogon disk m now) := by
  unfold answerLogon
  cases hanswers : s.answers with
  | true =>
    rw [if_pos (by simpa [answers] using hanswers), Bool.true_and]
    exact emit_reports ..
  | false =>
    rw [if_neg (by simpa [answers] using hanswers), Bool.false_and]
    exact ⟨fun h => (nomatch h), fun h => (nomatch h), fun _ => .inl rfl⟩

theorem answerLogon_store {m : FixMessage} (h : s.answers = true) :
    (s.answerLogon disk m now).store.writes = s.store.writes + 1 ∧
      (s.answerLogon disk m now).store.seq.inbound = s.store.seq.inbound := by
  refine ⟨?_, (answerLogon_sends disk s now m).inbound⟩
  unfold answerLogon
  rw [if_pos (by simpa [answers] using h)]
  exact emit_writes ..

/-- A check takes no error back. -/
theorem checkSequence_error (m : FixMessage) (h : s.error ≠ .none) :
    (s.checkSequence disk m now).2.error ≠ .none := by
  have hreports := checkSequence_reports disk s now m
  cases hfails : s.checkFails disk m with
  | true => exact hreports.error hfails
  | false =>
    rcases hreports.kept hfails with heq | heq | heq
    · exact heq ▸ h
    · rw [heq]
      decide
    · rw [heq]
      decide

/-- **A Logon.** Whether a failure ends the session is up to what follows a failed answer. -/
theorem handleLogon_reports (m : FixMessage) :
    (s.AnswerLasts disk m → s.logonFails disk m now = true →
      (s.handleLogon disk m now).state = .loggedOut) ∧
    (s.logonFails disk m now = true → (s.handleLogon disk m now).error ≠ .none) ∧
    (s.logonFails disk m now = false → (s.handleLogon disk m now).error = s.error ∨
      (s.handleLogon disk m now).error = .corrupt ∨
      (s.handleLogon disk m now).error = .unresponsive) := by
  rw [handleLogon_eq, logonFails]
  cases hreset : (if s.wantsReset m then s.store.reset disk else (none, s.store)) with
  | mk failed store =>
  cases failed with
  | some e =>
    have h := fail_reports disk { s with resetRequested := false, store } now (e := .storeFailure)
      (by decide) "could not persist a sequence reset"
    exact ⟨fun _ => h.ended, h.error, h.kept⟩
  | none =>
  dsimp only
  obtain ⟨hwrites, hexpects, hsynced⟩ := greeted_store disk hreset
  have hstore : (s.greeted m store).store = store := takeInterval_store ..
  have hanswers : (s.greeted m store).answers = s.answers := by simp [answers, greeted]
  have herror : (s.greeted m store).error = s.error := takeInterval_error ..
  have hanswer := answerLogon_reports disk (s.greeted m store) now m
  have hcheck := checkSequence_reports disk ((s.greeted m store).answerLogon disk m now) now m
  cases hfirst : (s.greeted m store).answers && (s.greeted m store).refuses disk with
  | true =>
    -- the answer could not be sent, and what follows must not bring the session up again
    obtain ⟨hup, hrefuses⟩ := Bool.and_eq_true_iff.mp hfirst
    obtain ⟨hwrites', hinbound⟩ := answerLogon_store disk (s.greeted m store) now hup (m := m)
    rw [refuses_iff, hstore, hwrites] at hrefuses
    have hended : s.AnswerLasts disk m →
        (((s.greeted m store).answerLogon disk m now).checkSequence disk m now).1 = false ∧
        (((s.greeted m store).answerLogon disk m now).checkSequence disk m now).2.state =
          .loggedOut := by
      intro hlasts
      refine checkSequence_ended disk _ now (hanswer.ended hfirst) ?_
      rw [hwrites', hinbound, hstore, hwrites, hexpects]
      exact hlasts (hanswers ▸ hup) hsynced hrefuses
    have herror' := checkSequence_error disk ((s.greeted m store).answerLogon disk m now) now m
      (hanswer.error hfirst)
    generalize ((s.greeted m store).answerLogon disk m now).checkSequence disk m now = r
      at hended herror' ⊢
    obtain ⟨ok, s'⟩ := r
    cases ok with
    | true => exact ⟨fun hlasts => (nomatch (hended hlasts).1), fun _ => herror',
        fun h => (nomatch h)⟩
    | false => exact ⟨fun hlasts _ => (hended hlasts).2, fun _ => herror', fun h => (nomatch h)⟩
  | false =>
    rw [Bool.false_or]
    have hkept := hanswer.kept hfirst
    rw [herror] at hkept
    cases hresult : ((s.greeted m store).answerLogon disk m now).checkSequence disk m now with
    | mk ok s' =>
    rw [hresult] at hcheck
    cases ok with
    | false =>
      refine ⟨fun _ => hcheck.ended, hcheck.error, fun hfalse => ?_⟩
      rcases hcheck.kept hfalse with heq | heq
      · dsimp only at heq ⊢
        rw [heq]
        exact hkept
      · exact .inr heq
    | true =>
      obtain ⟨hstep, hnone⟩ := accepted_keeps disk _ now hresult
      rw [hnone]
      refine ⟨fun _ h => (nomatch h), fun h => (nomatch h), fun _ => ?_⟩
      dsimp only
      have heq : s'.error = ((s.greeted m store).answerLogon disk m now).error := by rw [hstep]
      rw [heq]
      exact hkept

/-! ## Timers -/

theorem sendTestRequest_reports : Reports (s.refuses disk) s (s.sendTestRequest disk now) := by
  have h := emit_reports disk { s with testRequestId := s.testRequestId + 1 } now
    MsgType.testRequest [(Tag.testReqId, testReqId (s.testRequestId + 1))] true
  exact ⟨h.ended, h.error, h.kept⟩

theorem sendTestRequest_ended (h : s.state = .loggedOut) :
    (s.sendTestRequest disk now).state = .loggedOut :=
  emit_ended disk { s with testRequestId := s.testRequestId + 1 } now _ _ _ h

theorem sendTestRequest_error (h : s.error ≠ .none) :
    (s.sendTestRequest disk now).error ≠ .none :=
  emit_error disk { s with testRequestId := s.testRequestId + 1 } now _ _ _ h

theorem onTimer_reports : Reports (s.timerFails disk now) s (s.onTimer disk now) := by
  unfold timerFails onTimer
  split
  · exact ⟨fun h => (nomatch h), fun h => (nomatch h), fun _ => .inl rfl⟩
  split
  · exact ⟨fun h => (nomatch h), fun h => (nomatch h), fun _ => .inl rfl⟩
  dsimp only
  generalize s.cfg.heartbeatIntervalSeconds.toInt * second = interval
  generalize s.cfg.tolerance interval = tolerance
  have hbeat : Reports (interval ≤ now.steady - s.lastSent && s.refuses disk) s
      (if interval ≤ now.steady - s.lastSent then s.sendHeartbeat disk now [] else s) := by
    by_cases hdue : interval ≤ now.steady - s.lastSent
    · rw [if_pos hdue, decide_eq_true hdue, Bool.true_and]
      exact emit_reports ..
    · rw [if_neg hdue, decide_eq_false hdue, Bool.false_and]
      exact ⟨fun h => (nomatch h), fun h => (nomatch h), fun _ => .inl rfl⟩
  generalize (if interval ≤ now.steady - s.lastSent then s.sendHeartbeat disk now [] else s) = t
    at hbeat ⊢
  generalize (interval ≤ now.steady - s.lastSent && s.refuses disk : Bool) = first at hbeat ⊢
  cases houtstanding : t.testRequestOutstanding with
  | true =>
    rw [if_pos rfl]
    simp only [Bool.not_true, Bool.false_and, Bool.or_false]
    split
    · exact ⟨fun _ => rfl, fun _ h => (nomatch h), fun _ => .inr (.inr rfl)⟩
    · exact hbeat
  | false =>
    rw [if_neg (by decide), Bool.not_false, Bool.true_and]
    by_cases hquiet : interval + tolerance ≤ now.steady - t.lastReceived
    · rw [if_pos hquiet, decide_eq_true hquiet, Bool.true_and]
      have hrequest := sendTestRequest_reports disk t now
      cases first with
      | true => exact ⟨fun _ => sendTestRequest_ended disk t now (hbeat.ended rfl),
          fun _ => sendTestRequest_error disk t now (hbeat.error rfl), fun h => (nomatch h)⟩
      | false =>
        rw [Bool.false_or]
        refine ⟨hrequest.ended, hrequest.error, fun hfalse => ?_⟩
        rcases hrequest.kept hfalse with heq | heq
        · rw [heq]
          exact hbeat.kept rfl
        · exact .inr heq
    · rw [if_neg hquiet, decide_eq_false hquiet, Bool.false_and, Bool.or_false]
      exact hbeat

/-! ## Every call -/

/-- A message; a Logon ends the session as far as a failed answer lasts. -/
theorem onMessage_reports (m : FixMessage) :
    ((m.msgType = MsgType.logon → s.AnswerLasts disk m) → s.fails disk (.message m now) = true →
      (s.onMessage disk m now).state = .loggedOut) ∧
    (s.fails disk (.message m now) = true → (s.onMessage disk m now).error ≠ .none) ∧
    (s.fails disk (.message m now) = false → (s.onMessage disk m now).error = s.error ∨
      (s.onMessage disk m now).error = .corrupt ∨
      (s.onMessage disk m now).error = .unresponsive) := by
  by_cases htype : m.msgType = MsgType.logon
  · obtain ⟨hended, hreported⟩ := handleLogon_reports disk { s with lastReceived := now.steady } now m
    have hfails : s.fails disk (.message m now) =
        { s with lastReceived := now.steady }.logonFails disk m now := if_pos htype
    have hhandle : s.onMessage disk m now =
        { s with lastReceived := now.steady }.handleLogon disk m now := if_pos htype
    rw [hfails, hhandle]
    exact ⟨fun hlasts => hended (hlasts htype), hreported⟩
  · have h := handle_reports disk { s with lastReceived := now.steady } now htype
    exact ⟨fun _ => h.ended, h.error, h.kept⟩

theorem sendApplication_reports (msgType : Text) (body : List (Nat × Text)) :
    Reports (s.fails disk (.send msgType body now)) s
      (s.sendApplication disk msgType body now).2 := by
  show Reports (s.state = .active && s.refuses disk) s _
  unfold sendApplication
  by_cases hstate : s.state = .active
  · rw [if_neg (not_not_intro hstate), decide_eq_true hstate, Bool.true_and]
    exact emit_reports ..
  · rw [if_pos hstate, decide_eq_false hstate, Bool.false_and]
    exact ⟨fun h => (nomatch h), fun h => (nomatch h), fun _ => .inl rfl⟩

theorem connect_error (resetSequences : Bool) :
    (s.connectFails disk resetSequences = true →
      (s.connect disk now resetSequences).error ≠ .none) ∧
    (s.connectFails disk resetSequences = false →
      (s.connect disk now resetSequences).error = s.error ∨
      (s.connect disk now resetSequences).error = .corrupt ∨
      resetSequences = true ∧ (s.store.reset disk).1 ≠ none) := by
  unfold connectFails connect
  cases hrole : s.cfg.initiator with
  | false => exact ⟨fun h => (nomatch h), fun _ => .inl rfl⟩
  | true =>
  rw [Bool.true_and, if_neg (show ¬¬true = true from fun h => h rfl)]
  dsimp only
  cases hreset : (if resetSequences then s.store.reset disk else (none, s.store)) with
  | mk failed store =>
  cases failed with
  | some e =>
    refine ⟨fun h => (nomatch h), fun _ => .inr (.inr ?_)⟩
    cases resetSequences with
    | false => cases hreset
    | true =>
      rw [if_pos rfl] at hreset
      rw [hreset]
      exact ⟨rfl, fun h => (nomatch h)⟩
  | none =>
    have h := emit_reports disk { s with store, resetRequested := resetSequences } now MsgType.logon
      ({ s with store, resetRequested := resetSequences }.logonBody resetSequences) true
    refine ⟨h.error, fun hfalse => ?_⟩
    rcases (emit_of_not_refuses disk { s with store, resetRequested := resetSequences } now
      MsgType.logon ({ s with store, resetRequested := resetSequences }.logonBody resetSequences)
      true hfalse).2 with heq | heq
    · exact .inl heq
    · exact .inr (.inl heq)

/-- **What the error says about `fails`**: a call that fails leaves one, and a call that does not
leaves the one there was, or one of the two that end no session through `fail`, or is a `connect`
whose reset was refused. -/
theorem call_error (hup : s.hung = false) {c : Call} (hnew : c ≠ .newConnection) :
    (s.fails disk c = true → (s.call disk c).error ≠ .none) ∧
    (s.fails disk c = false → (s.call disk c).error = s.error ∨ (s.call disk c).error = .corrupt ∨
      (s.call disk c).error = .unresponsive ∨
      ∃ now, c = .connect now true ∧ (s.store.reset disk).1 ≠ none) := by
  have hkept : ∀ {s' : Session}, s'.error = s.error ∨ s'.error = .corrupt ∨
      s'.error = .unresponsive → s'.error = s.error ∨ s'.error = .corrupt ∨
      s'.error = .unresponsive ∨ ∃ now, c = .connect now true ∧ (s.store.reset disk).1 ≠ none := by
    intro s' h
    rcases h with h | h | h
    · exact .inl h
    · exact .inr (.inl h)
    · exact .inr (.inr (.inl h))
  unfold call
  rw [hup, if_neg (by decide)]
  cases c with
  | message m now =>
    obtain ⟨-, herror, hsame⟩ := onMessage_reports disk s now m
    exact ⟨herror, fun h => hkept (hsame h)⟩
  | send msgType body now =>
    have h := sendApplication_reports disk s now msgType body
    exact ⟨h.error, fun hfalse => hkept (h.kept hfalse)⟩
  | logout reason now =>
    have h := emit_reports disk s now MsgType.logout
      (if reason = [] then [] else [(Tag.text, reason)]) true
    exact ⟨h.error, fun hfalse => @hkept (s.logout disk reason now) (h.kept hfalse)⟩
  | timer now =>
    have h := onTimer_reports disk s now
    exact ⟨h.error, fun hfalse => hkept (h.kept hfalse)⟩
  | connect now resetSequences =>
    obtain ⟨herror, hsame⟩ := connect_error disk s now resetSequences
    refine ⟨herror, fun hfalse => ?_⟩
    rcases hsame hfalse with h | h | ⟨rfl, hrefused⟩
    · exact .inl h
    · exact .inr (.inl h)
    · exact .inr (.inr (.inr ⟨now, rfl, hrefused⟩))
  | newConnection => exact absurd rfl hnew

end

end Session

/-! ## A line -/

/-- A session, and whether it has failed since its connection was opened. -/
structure Line where
  session : Session
  failed : Bool := false

namespace Line

variable (disk : Disk)

def step (l : Line) (c : Call) : Line :=
  { session := l.session.call disk c
    failed :=
      if l.session.hung then l.failed
      else
        match c with
        | .newConnection => false
        | c => l.failed || l.session.fails disk c }

/-- A failure ends the session, and after it nothing is sent, stored or told until the next
connection. -/
structure Final (l : Line) (c : Call) : Prop where
  ended : (l.step disk c).failed = true → (l.step disk c).session.state = .loggedOut
  apps : l.failed = true → (l.step disk c).session.apps = l.session.apps
  out : l.failed = true → (l.step disk c).session.out = l.session.out
  store : l.failed = true → (l.step disk c).session.store = l.session.store

end Line

namespace Session

/-- A duplicate that is ignored wherever it arrives: below the expected number, flagged, and
neither a `SequenceReset` nor a Logon that asks for a reset. -/
def Stale (s : Session) (m : FixMessage) : Prop :=
  m.msgType ≠ MsgType.sequenceReset ∧ (m.msgType = MsgType.logon → s.wantsReset m = false) ∧
    m.seqNum.any (fun seq => seq.toUInt64 < s.store.seq.inbound) = true ∧
    m.flag Tag.possDupFlag = true

instance (s : Session) (m : FixMessage) : Decidable (s.Stale m) :=
  inferInstanceAs (Decidable (_ ∧ _ ∧ _ ∧ _))

variable {disk : Disk} {s : Session} {m : FixMessage}

theorem checkSequence_stale (now : Now) (hflag : m.flag Tag.possDupFlag = true)
    (hbelow : m.seqNum.any (fun seq => seq.toUInt64 < s.store.seq.inbound) = true) :
    s.checkSequence disk m now = (false, s) := by
  unfold checkSequence
  cases hseq : m.seqNum with
  | none =>
    rw [hseq] at hbelow
    cases hbelow
  | some seq =>
    rw [hseq] at hbelow
    have hlt : seq.toUInt64 < s.store.seq.inbound := of_decide_eq_true hbelow
    dsimp only
    rw [if_neg (UInt64.ne_of_lt hlt), if_pos hlt, if_pos hflag]

/-- A session that has ended ignores it but for the interval a Logon proposes. -/
theorem Stale.ignored (disk : Disk) (h : s.Stale m) (hstate : s.state = .loggedOut) (now : Now) :
    ∃ cfg resetRequested, s.handle disk m now = { s with cfg, resetRequested } := by
  obtain ⟨hreset, hlogon, hbelow, hflag⟩ := h
  have hup : s.state ≠ .disconnected := by
    rw [hstate]
    decide
  unfold handle
  by_cases htype : m.msgType = MsgType.logon
  · rw [if_pos htype, handleLogon_eq, hlogon htype]
    have hanswer : (s.greeted m s.store).answerLogon disk m now = s.greeted m s.store := by
      unfold answerLogon greeted
      rw [takeInterval_state, if_neg fun h => hup h.2]
    simp only [Bool.false_eq_true, if_false]
    rw [hanswer, checkSequence_stale now hflag (by rw [greeted, takeInterval_store]; exact hbelow)]
    unfold greeted takeInterval
    dsimp only
    split
    · exact ⟨_, _, rfl⟩
    · exact ⟨_, _, rfl⟩
  · rw [if_neg htype, if_neg hup, if_neg hreset, checkSequence_stale now hflag hbelow]
    exact ⟨_, _, rfl⟩

end Session

namespace Line

/-- Nothing brings a failed session up again: no number is refused to `connect`, to `logout` or to
an acceptor that goes on to take the Logon it answers; and a session that has failed is not called
upon to connect or log out, and is handed duplicates alone. -/
def Guarded (disk : Disk) (l : Line) : Call → Prop
  | .message m _ => l.session.hung = false →
      (l.failed = true → l.session.Stale m) ∧
        (m.msgType = MsgType.logon → l.session.AnswerLasts disk m)
  | .logout .. => l.session.hung = false → l.failed = false ∧ l.session.refuses disk = false
  | .connect _ resetSequences => l.session.hung = false → l.session.cfg.initiator = true →
      l.failed = false ∧ l.session.connectFails disk resetSequences = false
  | _ => True

instance (disk : Disk) (l : Line) (c : Call) : Decidable (l.Guarded disk c) :=
  match c with
  | .message .. | .logout .. | .connect .. => inferInstanceAs (Decidable (_ → _))
  | .send .. | .timer .. | .newConnection => inferInstanceAs (Decidable True)

variable {disk : Disk} {l : Line}

/-- A call that a failed session takes no notice of. -/
theorem final_of_ignored {c : Call} (hstate : (l.session.call disk c).state = .loggedOut)
    (happs : (l.session.call disk c).apps = l.session.apps)
    (hout : (l.session.call disk c).out = l.session.out)
    (hstore : (l.session.call disk c).store = l.session.store) : l.Final disk c :=
  ⟨fun _ => hstate, fun _ => happs, fun _ => hout, fun _ => hstore⟩

/-- A call on a session that has not failed. -/
theorem final_of_reports {c : Call} (hup : l.session.hung = false) (hfailed : l.failed = false)
    (h : l.session.fails disk c = true → (l.session.call disk c).state = .loggedOut) :
    l.Final disk c := by
  have hno : l.failed = true → False := fun h => by simp [hfailed] at h
  refine ⟨?_, fun h => (hno h).elim, fun h => (hno h).elim, fun h => (hno h).elim⟩
  unfold step
  dsimp only
  rw [hup, hfailed, if_neg (by decide)]
  cases c with
  | newConnection => exact fun h => (nomatch h)
  | _ => exact h

/-- A call that does nothing at all. -/
theorem final_of_idle {c : Call} (hinv : l.failed = true → l.session.state = .loggedOut)
    (hfailed : (l.step disk c).failed = true → l.failed = true)
    (hcall : l.session.call disk c = l.session) : l.Final disk c := by
  refine ⟨fun h => ?_, fun _ => ?_, fun _ => ?_, fun _ => ?_⟩
  · show (l.session.call disk c).state = .loggedOut
    rw [hcall]
    exact hinv (hfailed h)
  · exact congrArg Session.apps hcall
  · exact congrArg Session.out hcall
  · exact congrArg Session.store hcall

/-- **One call** on a session that has not failed. -/
theorem step_final_of_up {c : Call} (hup : l.session.hung = false) (hfailed : l.failed = false)
    (hc : l.Guarded disk c) : l.Final disk c := by
  refine final_of_reports hup hfailed fun hfails => ?_
  unfold Session.call
  rw [hup, if_neg (by decide)]
  cases c with
  | message m now => exact (Session.onMessage_reports disk l.session now m).1 (hc hup).2 hfails
  | send msgType body now =>
    exact (Session.sendApplication_reports disk l.session now msgType body).ended hfails
  | logout reason now =>
    replace hfails : l.session.refuses disk = true := hfails
    rw [(hc hup).2] at hfails
    cases hfails
  | timer now => exact (Session.onTimer_reports disk l.session now).ended hfails
  | connect now resetSequences =>
    replace hfails : l.session.connectFails disk resetSequences = true := hfails
    have hrole : l.session.cfg.initiator = true := (Bool.and_eq_true_iff.mp hfails).1
    rw [(hc hup hrole).2] at hfails
    cases hfails
  | newConnection => cases hfails

/-- **One call** on a session that has failed. -/
theorem step_final_of_failed {c : Call} (hup : l.session.hung = false) (hfailed : l.failed = true)
    (hstate : l.session.state = .loggedOut) (hc : l.Guarded disk c) : l.Final disk c := by
  have hidle : l.session.call disk c = l.session → l.Final disk c :=
    final_of_idle (fun _ => hstate) (fun _ => hfailed)
  cases c with
  | message m now =>
    obtain ⟨hstale, -⟩ := hc hup
    obtain ⟨cfg, resetRequested, hhandle⟩ := Session.Stale.ignored disk
      (s := { l.session with lastReceived := now.steady }) (hstale hfailed) hstate now
    have hcall : l.session.call disk (.message m now) =
        { l.session with lastReceived := now.steady, cfg, resetRequested } := by
      rw [Session.call, hup, if_neg (by decide)]
      exact hhandle
    refine final_of_ignored ?_ ?_ ?_ ?_
    · rw [hcall]
      exact hstate
    · rw [hcall]
    · rw [hcall]
    · rw [hcall]
  | send msgType body now =>
    apply hidle
    rw [Session.call, hup, if_neg (by decide), Session.sendApplication, if_pos (by rw [hstate]; decide)]
  | logout reason now =>
    have hok := (hc hup).1
    rw [hfailed] at hok
    cases hok
  | timer now =>
    apply hidle
    rw [Session.call, hup, if_neg (by decide), Session.onTimer, if_pos (.inr hstate)]
  | connect now resetSequences =>
    cases hrole : l.session.cfg.initiator with
    | true =>
      have hok := (hc hup hrole).1
      rw [hfailed] at hok
      cases hok
    | false =>
      apply hidle
      rw [Session.call, hup, if_neg (by decide), Session.connect, if_pos (by rw [hrole]; decide)]
  | newConnection =>
    have hsession : (l.step disk .newConnection).session = l.session.resetForNewConnection := by
      show l.session.call disk .newConnection = _
      rw [Session.call, hup, if_neg (by decide)]
    refine ⟨?_, fun _ => ?_, fun _ => ?_, fun _ => ?_⟩
    · unfold step
      dsimp only
      rw [hup, if_neg (by decide)]
      intro h
      cases h
    all_goals
      rw [hsession]
      rfl

theorem step_final {c : Call} (hinv : l.failed = true → l.session.state = .loggedOut)
    (hc : l.Guarded disk c) : l.Final disk c := by
  cases hup : l.session.hung with
  | true =>
    refine final_of_idle hinv ?_ ?_
    · unfold step
      dsimp only
      rw [hup, if_pos rfl]
      exact id
    · unfold Session.call
      rw [hup, if_pos rfl]
  | false =>
    cases hfailed : l.failed with
    | false => exact step_final_of_up hup hfailed hc
    | true => exact step_final_of_failed hup hfailed (hinv hfailed) hc

/-- **A failure is final**, in every run that brings no failed session up again. -/
theorem failure_final (disk : Disk) (cfg : SessionConfig) (store : SeqStore) (calls : List Call)
    (h : Run.Along (step disk) (Guarded disk) ⟨.new cfg store, false⟩ calls) :
    Run.Along (step disk) (Final disk) ⟨.new cfg store, false⟩ calls :=
  h.of_invariant (fun l => l.failed = true → l.session.state = .loggedOut)
    (fun _ _ hinv hc => (step_final hinv hc).ended) (fun _ _ hinv hc => step_final hinv hc)
    (fun h => (nomatch h))

/-- An acceptor has logged on and is sent 1 again, which fails it; and then whatever follows. -/
def reversed (rest : List Call) : List Call :=
  [Session.inbound MsgType.logon 1 [], Session.inbound ['D'] 1 []] ++ rest

/-- A duplicate, a send and the timer leave it as it is. -/
theorem failure_final_over_duplicate :
    let l : Line := ⟨.new Session.acceptor {}, false⟩
    let calls := reversed [Session.inbound ['D'] 1 [(Tag.possDupFlag, ['Y'])], .send ['8'] [] ⟨0, []⟩,
      .timer ⟨100000000000, []⟩]
    ((calls.foldl (step fun _ => .synced) l).session.error = .sequenceReversal ∧
      (calls.foldl (step fun _ => .synced) l).session.state = .loggedOut) ∧
      Run.Along (step fun _ => .synced) (Final fun _ => .synced) l calls :=
  ⟨by decide +kernel, failure_final _ _ _ _ (by decide +kernel)⟩

/-- The message behind the fatal one in the same buffer carries the expected number: it is
accepted, and the application hears of it. -/
theorem failed_session_delivers :
    let l : Line := ⟨.new Session.acceptor {}, false⟩
    let calls := reversed [Session.inbound ['D'] 2 []]
    (calls.foldl (step fun _ => .synced) l).session.apps.map FixMessage.seqNum = [some 2] ∧
      ¬Run.Along (step fun _ => .synced) (Final fun _ => .synced) l calls := by
  refine ⟨by decide +kernel, fun h => ?_⟩
  have happs := h.2.2.1.apps (by decide +kernel)
  exact absurd (congrArg List.length happs) (by decide +kernel)

/-- An initiator whose Logon could not be numbered waits for the answer to it. -/
theorem failed_connect_awaits_logon :
    let l : Line := ⟨.new { Session.acceptor with initiator := true } {}, false⟩
    let disk : Disk := fun _ => .failed .cannotSync .kept
    let l' := l.step disk (.connect ⟨0, []⟩ false)
    l'.failed = true ∧ l'.session.error = .storeFailure ∧ l'.session.state = .awaitingLogon := by
  decide +kernel

end Line

end MarketData.Gateway
