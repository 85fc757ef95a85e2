import MarketData.Gateway.Session

/-!
# `Gateway/Handled.lean` — what one inbound message can do

Most of what a session does in answer to a message is to send: numbers are claimed, bytes go to
the sink, the session may end over it. None of that moves the inbound number, the held messages or
what the application has been told (`Sends`). The few places that do are listed here once, case by
case, for `check_sequence`, `handle_sequence_reset`, `handle_logon` and `on_message`.

## One list of cases for every invariant

The invariants of a session (its numbers go up, nothing is skipped, what it holds is still to come,
the application hears each message once) all ask of a call what it did to the same few fields. Each
of `Connected`, `Checked`, `ResetTo`, `Dispatched`, `LoggedOn` and `Handled` is an inductive with
one constructor for each way through its function, and says of that way what became of those fields,
guards included. The modules about the inbound side take a call apart with these and leave
`onMessage` folded; when a branch of the source changes, one constructor does.

What is deliberately not in the lists is **what was sent**: `Sends` forgets it. The modules that
need it (`Gateway/Talk.lean`, `Gateway/Resend.lean`, `Gateway/Numbers.lean`) have their own
accounts.

`Room` is the one fact about the session's own shape that sending needs: the next slot of the resend
ring is one of its slots.
-/

set_option autoImplicit false

namespace MarketData.Gateway

namespace Session

/-- The next slot of the resend ring is one of its slots. -/
def Room (s : Session) : Prop := s.ring ≠ [] → s.ringNext < s.ring.length

/-- What a stretch of sends leaves alone. -/
structure Sends (s s' : Session) : Prop where
  inbound : s'.store.seq.inbound = s.store.seq.inbound
  backed : s.store.Backed → s'.store.Backed
  queued : s'.queued = s.queued
  apps : s'.apps = s.apps
  room : s.Room → s'.Room
  state : s'.state = .awaitingResend → s.state = .awaitingResend

namespace Sends

variable {s s' s'' : Session}

theorem refl (s : Session) : Sends s s := ⟨rfl, id, rfl, rfl, id, id⟩

theorem trans (h : Sends s s') (h' : Sends s' s'') : Sends s s'' where
  inbound := h'.inbound.trans h.inbound
  backed := fun hb => h'.backed (h.backed hb)
  queued := h'.queued.trans h.queued
  apps := h'.apps.trans h.apps
  room := fun hr => h'.room (h.room hr)
  state := fun hs => h.state (h'.state hs)

end Sends

section

variable (disk : Disk) (s : Session) (now : Now)

/-! ## Sending -/

theorem emit_sends (msgType : Text) (body : List (Nat × Text)) (administrative : Bool) :
    Sends s (s.emit disk msgType body now administrative).2 := by
  have hclaim : ∀ r store, s.store.claimOutbound disk = (r, store) →
      store.seq.inbound = s.store.seq.inbound ∧ (s.store.Backed → store.Backed) := by
    intro r store h
    unfold SeqStore.claimOutbound at h
    split at h <;> rename_i heq <;> cases h
    · refine ⟨by rw [SeqStore.store_failed_seq heq], fun hb => (hb.store_failed ?_ heq).1⟩
      exact UInt64.le_refl _
    · exact ⟨by rw [SeqStore.store_synced_seq heq], fun hb => (hb.store_synced heq).1⟩
  unfold emit
  split
  · rename_i store heq
    obtain ⟨hin, hb⟩ := hclaim _ _ heq
    exact ⟨hin, hb, rfl, rfl, id, fun h => (nomatch h)⟩
  · rename_i seq store heq
    obtain ⟨hin, hb⟩ := hclaim _ _ heq
    dsimp only
    split
    · unfold remember
      split
      · exact ⟨hin, hb, rfl, rfl, id, id⟩
      · rename_i hring
        refine ⟨hin, hb, rfl, rfl, fun _ _ => ?_, id⟩
        dsimp only
        rw [List.length_set]
        exact Nat.mod_lt _ (List.length_pos_iff.mpr hring)
    · exact ⟨hin, hb, rfl, rfl, id, id⟩

theorem sendGapFill_sends (start newSeqNo : UInt64) : Sends s (s.sendGapFill start newSeqNo now) := by
  unfold sendGapFill
  dsimp only
  split
  · exact ⟨rfl, id, rfl, rfl, id, id⟩
  · exact .refl s

theorem resend_sends (sent : Sent) : Sends s (s.resend sent now) := by
  unfold resend
  split
  · exact .refl s
  · split
    · exact ⟨rfl, id, rfl, rfl, id, id⟩
    · exact .refl s

theorem resendStep_sends (a : UInt64 × Session) (seq : UInt64) :
    Sends a.2 (resendStep now a seq).2 := by
  unfold resendStep
  split
  · exact .refl _
  · refine Sends.trans ?_ (resend_sends _ now _)
    split
    · exact sendGapFill_sends ..
    · exact .refl _

theorem resendLoop_sends (seqs : List UInt64) (a : UInt64 × Session) :
    Sends a.2 (seqs.foldl (resendStep now) a).2 := by
  induction seqs generalizing a with
  | nil => exact .refl _
  | cons seq seqs ih => exact (resendStep_sends now a seq).trans (ih _)

theorem handleResendRequest_sends (m : FixMessage) : Sends s (s.handleResendRequest disk m now) := by
  unfold handleResendRequest
  split
  · dsimp only
    split
    · exact ⟨rfl, id, rfl, rfl, id, id⟩
    · rename_i seqs _
      refine (resendLoop_sends now seqs (0, s)).trans ?_
      split
      · exact sendGapFill_sends ..
      · exact .refl _
  · exact emit_sends ..

theorem handleLogout_sends : Sends s (s.handleLogout disk now) := by
  unfold handleLogout
  split
  · exact ⟨rfl, id, rfl, rfl, id, fun h => (nomatch h)⟩
  · have h := emit_sends disk s now MsgType.logout [] true
    exact ⟨h.inbound, h.backed, h.queued, h.apps, h.room, fun h => (nomatch h)⟩

theorem fail_sends (e : SessionError) (text : String) : Sends s (s.fail disk e text now) := by
  have h := emit_sends disk { s with error := e } now MsgType.logout [(Tag.text, text.toList)] true
  exact ⟨h.inbound, h.backed, h.queued, h.apps, h.room, fun h => (nomatch h)⟩

theorem logout_sends (reason : Text) : Sends s (s.logout disk reason now) := by
  have h := emit_sends disk s now MsgType.logout
    (if reason = [] then [] else [(Tag.text, reason)]) true
  exact ⟨h.inbound, h.backed, h.queued, h.apps, h.room, fun h => (nomatch h)⟩

theorem sendApplication_sends (msgType : Text) (body : List (Nat × Text)) :
    Sends s (s.sendApplication disk msgType body now).2 := by
  unfold sendApplication
  split
  · exact .refl s
  · exact emit_sends ..

theorem sendTestRequest_sends : Sends s (s.sendTestRequest disk now) := by
  have h := emit_sends disk { s with testRequestId := s.testRequestId + 1 } now MsgType.testRequest
    [(Tag.testReqId, testReqId (s.testRequestId + 1))] true
  exact ⟨h.inbound, h.backed, h.queued, h.apps, h.room, h.state⟩

theorem takeInterval_sends (m : FixMessage) : Sends s (s.takeInterval m) := by
  unfold takeInterval
  split
  · exact ⟨rfl, id, rfl, rfl, id, id⟩
  · exact .refl s

theorem answerLogon_sends (m : FixMessage) : Sends s (s.answerLogon disk m now) := by
  unfold answerLogon
  split
  · exact emit_sends ..
  · exact .refl s

theorem onTimer_sends : Sends s (s.onTimer disk now) := by
  unfold onTimer
  split
  · exact .refl s
  split
  · exact .refl s
  dsimp only
  have hbeat : Sends s (if s.cfg.heartbeatIntervalSeconds.toInt * second ≤ now.steady - s.lastSent
      then s.sendHeartbeat disk now [] else s) := by
    split
    · exact emit_sends ..
    · exact .refl s
  generalize (if s.cfg.heartbeatIntervalSeconds.toInt * second ≤ now.steady - s.lastSent
      then s.sendHeartbeat disk now [] else s) = t at hbeat ⊢
  refine hbeat.trans ?_
  split
  · split
    · exact ⟨rfl, id, rfl, rfl, id, fun h => (nomatch h)⟩
    · exact .refl _
  · split
    · exact sendTestRequest_sends ..
    · exact .refl _

end

/-- What `connect` does: it sends, after a reset if one is asked for. -/
inductive Connected (disk : Disk) (s : Session) (reset : Bool) : Session → Prop where
  | notInitiator (hrole : s.cfg.initiator = false) : Connected disk s reset s
  | notReset {store : SeqStore} {e : StoreError} {s' : Session} (hreset : reset = true)
      (hstore : s.store.reset disk = (some e, store)) (hs : Sends { s with store } s')
      (hstate : s'.state = .loggedOut) : Connected disk s reset s'
  | sent {store : SeqStore} {s' : Session}
      (hstore : (reset = false ∧ store = s.store) ∨
        (reset = true ∧ s.store.reset disk = (none, store)))
      (hs : Sends { s with store } s') (hstate : s'.state = .awaitingLogon) :
      Connected disk s reset s'

theorem connect_connected (disk : Disk) (s : Session) (now : Now) (reset : Bool) :
    Connected disk s reset (s.connect disk now reset) := by
  unfold connect
  split
  · rename_i hrole
    exact .notInitiator (by simpa using hrole)
  dsimp only
  have hlogon : ∀ store, Sends { s with store } ({ { s with store, resetRequested := reset }.emit disk
      MsgType.logon ({ s with store, resetRequested := reset }.logonBody reset) now true |>.2 with
      state := .awaitingLogon, lastReceived := now.steady }) := by
    intro store
    have h := emit_sends disk { s with store, resetRequested := reset } now MsgType.logon
      ({ s with store, resetRequested := reset }.logonBody reset) true
    exact ⟨h.inbound, h.backed, h.queued, h.apps, h.room, fun h => (nomatch h)⟩
  cases reset with
  | false => exact .sent (.inl ⟨rfl, rfl⟩) (hlogon s.store) rfl
  | true =>
    rw [if_pos rfl]
    split
    · rename_i e heq
      refine .notReset rfl (Prod.ext heq rfl) ?_ rfl
      exact ⟨rfl, id, rfl, rfl, id, fun h => (nomatch h)⟩
    · rename_i heq
      exact .sent (.inr ⟨rfl, Prod.ext heq rfl⟩) (hlogon _) rfl

/-! ## The sequence check -/

/-- What `check_sequence` answers. -/
inductive Checked (disk : Disk) (s : Session) (m : FixMessage) : Bool × Session → Prop where
  | accepted {n : Int64} {store : SeqStore} (hseq : m.seqNum = some n)
      (hnext : n.toUInt64 = s.store.seq.inbound)
      (hstore : s.store.acceptInbound disk n.toUInt64 = (none, store)) :
      Checked disk s m (true, { s with store })
  | notStored {n : Int64} {store : SeqStore} {e : StoreError} {s' : Session}
      (hseq : m.seqNum = some n) (hnext : n.toUInt64 = s.store.seq.inbound)
      (hstore : s.store.acceptInbound disk n.toUInt64 = (some e, store))
      (hs : Sends { s with store } s') (hstate : s'.state = .loggedOut) :
      Checked disk s m (false, s')
  | refused {s' : Session} (hnext : ∀ n, m.seqNum = some n → n.toUInt64 < s.store.seq.inbound)
      (hs : Sends s s') : Checked disk s m (false, s')
  | gap {n : Int64} {s' : Session} (hseq : m.seqNum = some n)
      (hbeyond : s.store.seq.inbound < n.toUInt64)
      (hs : Sends { s with state := .awaitingResend } s') :
      Checked disk s m (false, { s' with queued := s'.queued ++ [m] })

theorem checkSequence_checked (disk : Disk) (s : Session) (m : FixMessage) (now : Now) :
    Checked disk s m (s.checkSequence disk m now) := by
  unfold checkSequence
  split
  · rename_i hseq
    refine .refused ?_ (emit_sends ..)
    intro n hn
    rw [hseq] at hn
    cases hn
  rename_i n hseq
  dsimp only
  by_cases hnext : n.toUInt64 = s.store.seq.inbound
  · rw [if_pos hnext]
    split
    · rename_i e store hstore
      exact .notStored hseq hnext hstore (fail_sends ..) rfl
    · rename_i store hstore
      exact .accepted hseq hnext hstore
  rw [if_neg hnext]
  split
  · rename_i hlt
    have hbelow : ∀ n', m.seqNum = some n' → n'.toUInt64 < s.store.seq.inbound := by
      intro n' hn'
      rw [hseq] at hn'
      cases hn'
      exact hlt
    split
    · exact .refused hbelow (.refl s)
    · exact .refused hbelow (fail_sends ..)
  · rename_i hlt
    have hbeyond : s.store.seq.inbound < n.toUInt64 := by
      rcases UInt64.lt_or_eq_of_le (UInt64.not_lt.mp hlt) with h | h
      · exact h
      · exact absurd h.symm hnext
    refine .gap hseq hbeyond ?_
    split
    · exact emit_sends ..
    · rename_i hstate
      have hstate : s.state = .awaitingResend := by simpa using hstate
      exact ⟨rfl, id, rfl, rfl, id, fun _ => rfl⟩

/-! ## The handlers -/

/-- What `handle_sequence_reset` does. -/
inductive ResetTo (disk : Disk) (s : Session) (m : FixMessage) : Session → Prop where
  | refused {s' : Session}
      (hback : ∀ n, m.findInt Tag.newSeqNo = some n → n.toUInt64 < s.store.seq.inbound)
      (hs : Sends s s') : ResetTo disk s m s'
  | notStored {n : Int64} {store : SeqStore} {e : StoreError} {s' : Session}
      (hnew : m.findInt Tag.newSeqNo = some n) (hle : s.store.seq.inbound ≤ n.toUInt64)
      (hstore : s.store.store disk { s.store.seq with inbound := n.toUInt64 } = (some e, store))
      (hs : Sends { s with store } s') (hstate : s'.state = .loggedOut) : ResetTo disk s m s'
  | moved {n : Int64} {store : SeqStore} (hnew : m.findInt Tag.newSeqNo = some n)
      (hle : s.store.seq.inbound ≤ n.toUInt64)
      (hstore : s.store.store disk { s.store.seq with inbound := n.toUInt64 } = (none, store)) :
      ResetTo disk s m
        (if s.state = .awaitingResend then { s with store, state := .active, queued := [] }
        else { s with store })

theorem handleSequenceReset_resetTo (disk : Disk) (s : Session) (m : FixMessage) (now : Now) :
    ResetTo disk s m (s.handleSequenceReset disk m now) := by
  unfold handleSequenceReset
  split
  · rename_i hnew
    refine .refused ?_ (emit_sends ..)
    intro n hn
    rw [hnew] at hn
    cases hn
  rename_i n hnew
  dsimp only
  split
  · rename_i hlt
    refine .refused ?_ (fail_sends ..)
    intro n' hn'
    rw [hnew] at hn'
    cases hn'
    exact hlt
  rename_i hlt
  have hle := UInt64.not_lt.mp hlt
  have haccept : s.store.acceptInbound disk (n.toUInt64 - 1) =
      s.store.store disk { s.store.seq with inbound := n.toUInt64 } := by
    unfold SeqStore.acceptInbound
    rw [UInt64.sub_add_cancel]
  rw [haccept]
  split
  · rename_i e store hstore
    exact .notStored hnew hle hstore (fail_sends ..) rfl
  · rename_i store hstore
    exact .moved hnew hle hstore

/-- What becomes of a message that passed the check. -/
inductive Dispatched (s : Session) (m : FixMessage) : Session → Prop where
  | answered {s' : Session} (htype : m.msgType ≠ MsgType.logout) (hs : Sends s s') :
      Dispatched s m s'
  | ended {s' : Session} (htype : m.msgType = MsgType.logout) (hs : Sends s s')
      (hstate : s'.state = .loggedOut) : Dispatched s m s'
  | delivered (htype : m.msgType ≠ MsgType.logout) :
      Dispatched s m { s with apps := s.apps ++ [m] }

theorem dispatch_dispatched (disk : Disk) (s : Session) (m : FixMessage) (now : Now) :
    Dispatched s m (s.dispatch disk m now) := by
  have hother : ∀ type, m.msgType = type → type ≠ MsgType.logout → m.msgType ≠ MsgType.logout :=
    fun _ htype hne h => hne (htype.symm.trans h)
  unfold dispatch
  dsimp only
  split
  · rename_i htype
    have htype := hother _ htype (by decide)
    split
    · exact .answered htype ⟨rfl, id, rfl, rfl, id, id⟩
    · exact .answered htype (.refl s)
  split
  · rename_i htype
    exact .answered (hother _ htype (by decide)) (emit_sends ..)
  split
  · rename_i htype
    exact .answered (hother _ htype (by decide)) (handleResendRequest_sends ..)
  split
  · rename_i htype
    refine .ended htype (handleLogout_sends ..) ?_
    unfold handleLogout
    split <;> rfl
  · rename_i htype
    exact .delivered htype

/-- What `handle_logon` does, the sequence check apart: the store is reset if the counterparty
asks for it, and an acceptor answers. -/
inductive LoggedOn (disk : Disk) (s : Session) (m : FixMessage) : Session → Prop where
  | notReset {store : SeqStore} {e : StoreError} {s' : Session}
      (hflag : m.flag Tag.resetSeqNumFlag = true) (hstore : s.store.reset disk = (some e, store))
      (hs : Sends { s with store } s') (hstate : s'.state = .loggedOut) : LoggedOn disk s m s'
  | checked {store : SeqStore} {t s' : Session} {ok : Bool}
      (hstore : store = s.store ∨
        (m.flag Tag.resetSeqNumFlag = true ∧ s.store.reset disk = (none, store)))
      (ht : Sends { s with store } t) (hs : Checked disk t m (ok, s')) :
      LoggedOn disk s m (if ok then { s' with state := .active } else s')

theorem handleLogon_loggedOn (disk : Disk) (s : Session) (m : FixMessage) (now : Now) :
    LoggedOn disk s m (s.handleLogon disk m now) := by
  unfold handleLogon
  dsimp only
  generalize hreset : (if (m.flag Tag.resetSeqNumFlag && !s.resetRequested) = true
    then SeqStore.reset disk s.store else (none, s.store)) = r
  obtain ⟨failed, store⟩ := r
  have hclear : Sends { s with store } { s with resetRequested := false, store } :=
    ⟨rfl, id, rfl, rfl, id, id⟩
  cases failed with
  | some e =>
    dsimp only
    split at hreset
    · rename_i hflag
      rw [Bool.and_eq_true] at hflag
      exact .notReset hflag.1 hreset (hclear.trans (fail_sends ..)) rfl
    · cases hreset
  | none =>
    have hstore : store = s.store ∨
        (m.flag Tag.resetSeqNumFlag = true ∧ s.store.reset disk = (none, store)) := by
      split at hreset
      · rename_i hflag
        rw [Bool.and_eq_true] at hflag
        exact .inr ⟨hflag.1, hreset⟩
      · cases hreset
        exact .inl rfl
    have ht : Sends { s with store }
        (({ s with resetRequested := false, store }.takeInterval m).answerLogon disk m now) := by
      have hinterval := takeInterval_sends { s with resetRequested := false, store } m
      have hanswer := answerLogon_sends disk
        ({ s with resetRequested := false, store }.takeInterval m) now m
      exact hclear.trans (hinterval.trans hanswer)
    generalize ({ s with resetRequested := false, store }.takeInterval m).answerLogon disk m now = t
      at ht ⊢
    have hchecked := checkSequence_checked disk t m now
    dsimp only
    split
    · rename_i s' heq
      rw [heq] at hchecked
      exact .checked hstore ht hchecked
    · rename_i s' heq
      rw [heq] at hchecked
      exact .checked hstore ht hchecked

/-- What `on_message` does. -/
inductive Handled (disk : Disk) (s : Session) (m : FixMessage) : Session → Prop where
  | logon {s' : Session} (htype : m.msgType = MsgType.logon) (hs : LoggedOn disk s m s') :
      Handled disk s m s'
  | ignored {s' : Session} (hstate : s.state = .disconnected) (hs : Sends s s') :
      Handled disk s m s'
  | sequenceReset {s' : Session} (htype : m.msgType = MsgType.sequenceReset)
      (hstate : s.state ≠ .disconnected) (hs : ResetTo disk s m s') : Handled disk s m s'
  | turnedAway {s' : Session} (htype : m.msgType ≠ MsgType.logon)
      (htype' : m.msgType ≠ MsgType.sequenceReset) (hstate : s.state ≠ .disconnected)
      (hs : Checked disk s m (false, s')) : Handled disk s m s'
  | taken {t s' : Session} (htype : m.msgType ≠ MsgType.logon)
      (htype' : m.msgType ≠ MsgType.sequenceReset) (hstate : s.state ≠ .disconnected)
      (ht : Checked disk s m (true, t)) (hs : Dispatched t m s') : Handled disk s m s'

theorem handle_handled (disk : Disk) (s : Session) (m : FixMessage) (now : Now) :
    Handled disk s m (s.handle disk m now) := by
  unfold handle
  split
  · rename_i htype
    exact .logon htype (handleLogon_loggedOn ..)
  rename_i htype
  split
  · rename_i hstate
    exact .ignored hstate (.refl s)
  rename_i hstate
  split
  · rename_i htype'
    exact .sequenceReset htype' hstate (handleSequenceReset_resetTo ..)
  rename_i htype'
  have hchecked := checkSequence_checked disk s m now
  split
  · rename_i s' heq
    rw [heq] at hchecked
    exact .turnedAway htype htype' hstate hchecked
  · rename_i t heq
    rw [heq] at hchecked
    exact .taken htype htype' hstate hchecked (dispatch_dispatched ..)

theorem onMessage_handled (disk : Disk) (s : Session) (m : FixMessage) (now : Now) :
    Handled disk { s with lastReceived := now.steady } m (s.onMessage disk m now) :=
  handle_handled disk _ m now

end Session

end MarketData.Gateway
