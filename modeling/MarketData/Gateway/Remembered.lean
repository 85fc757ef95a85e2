import Mathlib.Logic.Relation
import MarketData.Gateway.Opening
import MarketData.Gateway.Talk

/-!
# `Gateway/Remembered.lean` — what the resend ring holds

Every message that goes out under a number of its own is put into the ring, over the oldest that is
there. What a resend request is answered with is read from the ring alone, so what may be promised
of an answer is what may be promised of a record: it is a message as `emit` composed it, with the
number and the time it was sent under, and one that may be sent again is an application's
(`Posted`).

## Four acts

A call does many things, and four kinds of them touch what was sent or what is kept of it: a message
goes out under the next number, one goes out that has its number from elsewhere (a gap fill, a
copy), the numbers start again, and all the rest, which moves neither. `Act` lists them, and
`call_acts` takes every call apart into them once. An invariant of the ring is then three lines for
the acts that leave it alone and a proof for `emit`, and **no handler is unfolded twice**.

Whether the numbers started again is a parameter of the relation, and so is whether something was
sent a second time: a call that does the one (`Resets`) or the other (`Serves`) is known by its
message. A reset leaves the ring as it is. The records in it then carry numbers that are still to be
given out, and nothing in the session tells them from new ones; what comes of it is in
`Gateway/Renumbered.lean`.

## What is asked of the caller

A session sends what the application gives it under the type it is given (`Proper`). A type of the
session layer's own, passed in there, would be kept as an application's and sent again as such.
-/

set_option autoImplicit false

namespace MarketData.Gateway

namespace Session

/-- What is done to the messages sent, and to the ring that keeps them. -/
inductive Act (disk : Disk) (resets resends : Prop) : Session → Session → Prop where
  | emitted (s : Session) (msgType : Text) (body : List (Nat × Text)) (now : Now)
      (administrative : Bool) (htype : administrative = false → Application msgType) :
      Act disk resets resends s (s.emit disk msgType body now administrative).2
  /-- A gap fill, or a copy of what was sent. -/
  | repeated {s s' : Session} (hresends : resends) (m : FixMessage) (hout : s'.out = s.out ++ [m])
      (hring : s'.ring = s.ring) (hnext : s'.ringNext = s.ringNext)
      (houtbound : s'.store.seq.outbound = s.store.seq.outbound) : Act disk resets resends s s'
  | aside {s s' : Session} (hout : s'.out = s.out) (hring : s'.ring = s.ring)
      (hnext : s'.ringNext = s.ringNext)
      (houtbound : s'.store.seq.outbound = s.store.seq.outbound) : Act disk resets resends s s'
  /-- The numbers start again, and the ring stays. -/
  | renumbered {s s' : Session} (hresets : resets) (hout : s'.out = s.out)
      (hring : s'.ring = s.ring) (hnext : s'.ringNext = s.ringNext) : Act disk resets resends s s'

/-- One act after the other. -/
abbrev Acts (disk : Disk) (resets resends : Prop) : Session → Session → Prop :=
  Relation.ReflTransGen (Act disk resets resends)

/-- The call answers a resend request. -/
def Serves (disk : Disk) (s : Session) : Call → Prop
  | .message m _ =>
    m.msgType = MsgType.resendRequest ∧ s.state ≠ .disconnected ∧ s.Takes disk m ∧
      (m.findInt Tag.beginSeqNo).isSome = true ∧ (m.findInt Tag.endSeqNo).isSome = true
  | _ => False

/-- The call starts the numbers again. -/
def Resets (disk : Disk) (s : Session) : Call → Prop
  | .message m _ =>
    m.msgType = MsgType.logon ∧ s.wantsReset m = true ∧ disk s.store.writes = .synced
  | .connect _ resetSequences =>
    s.cfg.initiator = true ∧ resetSequences = true ∧ disk s.store.writes = .synced
  | _ => False

end Session

/-- What the application sends is of a type of its own. -/
def Call.Proper : Call → Prop
  | .send msgType _ _ => Application msgType
  | _ => True

namespace Session

section

variable {disk : Disk} {resets resends : Prop} {s t u : Session} {now : Now} {m : FixMessage}

/-! ## Every call is acts -/

theorem acts_aside (hout : u.out = s.out) (hring : u.ring = s.ring)
    (hnext : u.ringNext = s.ringNext)
    (houtbound : u.store.seq.outbound = s.store.seq.outbound) : Acts disk resets resends s u :=
  .single (.aside hout hring hnext houtbound)

/-- A message of the session's own. -/
theorem emit_acts (s : Session) (now : Now) (msgType : Text) (body : List (Nat × Text)) :
    Acts disk resets resends s (s.emit disk msgType body now true).2 :=
  .single (.emitted s msgType body now true fun h => (nomatch h))

theorem sendGapFill_acts (hresends : resends) (s : Session) (now : Now) (start newSeqNo : UInt64) :
    Acts disk resets resends s (s.sendGapFill start newSeqNo now) := by
  unfold sendGapFill
  dsimp only
  split
  · exact .single (.repeated hresends _ rfl rfl rfl rfl)
  · exact .refl

theorem resend_acts (hresends : resends) (s : Session) (now : Now) (sent : Sent) :
    Acts disk resets resends s (s.resend sent now) := by
  unfold resend
  split
  · exact .refl
  · split
    · exact .single (.repeated hresends _ rfl rfl rfl rfl)
    · exact .refl

theorem resendStep_acts (hresends : resends) (now : Now) (a : UInt64 × Session) (seq : UInt64) :
    Acts disk resets resends a.2 (resendStep now a seq).2 := by
  unfold resendStep
  split
  · exact .refl
  · refine Relation.ReflTransGen.trans ?_ (resend_acts hresends _ now _)
    split
    · exact sendGapFill_acts hresends ..
    · exact .refl

theorem resendLoop_acts (hresends : resends) (now : Now) (seqs : List UInt64)
    (a : UInt64 × Session) :
    Acts disk resets resends a.2 (seqs.foldl (resendStep now) a).2 := by
  induction seqs generalizing a with
  | nil => exact .refl
  | cons seq seqs ih => exact (resendStep_acts hresends now a seq).trans (ih _)

theorem handleResendRequest_acts (s : Session) (m : FixMessage) (now : Now)
    (hresends : (m.findInt Tag.beginSeqNo).isSome = true → (m.findInt Tag.endSeqNo).isSome = true →
      resends) : Acts disk resets resends s (s.handleResendRequest disk m now) := by
  unfold handleResendRequest
  split
  · rename_i hbegin hlast
    have hresends : resends := hresends (by rw [hbegin]; rfl) (by rw [hlast]; rfl)
    dsimp only
    split
    · exact acts_aside rfl rfl rfl rfl
    · rename_i seqs _
      refine (resendLoop_acts hresends now seqs (0, s)).trans ?_
      split
      · exact sendGapFill_acts hresends ..
      · exact .refl
  · exact emit_acts ..

theorem fail_acts (s : Session) (e : SessionError) (text : String) (now : Now) :
    Acts disk resets resends s (s.fail disk e text now) := by
  unfold fail
  have herror : Acts disk resets resends s { s with error := e } := acts_aside rfl rfl rfl rfl
  exact (herror.trans (emit_acts ..)).tail (.aside rfl rfl rfl rfl)

theorem handleLogout_acts (s : Session) (now : Now) :
    Acts disk resets resends s (s.handleLogout disk now) := by
  unfold handleLogout
  split
  · exact acts_aside rfl rfl rfl rfl
  · exact (emit_acts ..).tail (.aside rfl rfl rfl rfl)

theorem sendApplication_acts (s : Session) {msgType : Text} (htype : Application msgType)
    (body : List (Nat × Text)) (now : Now) :
    Acts disk resets resends s (s.sendApplication disk msgType body now).2 := by
  unfold sendApplication
  split
  · exact .refl
  · exact .single (.emitted s msgType body now false fun _ => htype)

theorem onTimer_acts (s : Session) (now : Now) :
    Acts disk resets resends s (s.onTimer disk now) := by
  unfold onTimer
  split
  · exact .refl
  split
  · exact .refl
  dsimp only
  have hbeat : Acts disk resets resends s
      (if s.cfg.heartbeatIntervalSeconds.toInt * second ≤ now.steady - s.lastSent
        then s.sendHeartbeat disk now [] else s) := by
    split
    · exact emit_acts ..
    · exact .refl
  generalize (if s.cfg.heartbeatIntervalSeconds.toInt * second ≤ now.steady - s.lastSent
    then s.sendHeartbeat disk now [] else s) = t at hbeat ⊢
  refine hbeat.trans ?_
  split
  · split
    · exact acts_aside rfl rfl rfl rfl
    · exact .refl
  split
  · unfold sendTestRequest
    have hid : Acts disk resets resends t { t with testRequestId := t.testRequestId + 1 } :=
      acts_aside rfl rfl rfl rfl
    exact (hid.trans (emit_acts ..)).tail (.aside rfl rfl rfl rfl)
  · exact .refl

/-- Accepting a message leaves the outbound number. -/
theorem acceptInbound_acts {store : SeqStore} {seq : UInt64} {failed : Option StoreError}
    (h : s.store.acceptInbound disk seq = (failed, store)) :
    Acts disk resets resends s { s with store } := by
  unfold SeqStore.acceptInbound at h
  refine acts_aside rfl rfl rfl ?_
  dsimp only
  cases failed with
  | none => rw [SeqStore.store_synced_seq h]
  | some e => rw [SeqStore.store_failed_seq h]

theorem checkSequence_acts (s : Session) (m : FixMessage) (now : Now) :
    Acts disk resets resends s (s.checkSequence disk m now).2 := by
  unfold checkSequence
  split
  · exact emit_acts ..
  dsimp only
  split
  · split
    · rename_i hstore
      exact (acceptInbound_acts hstore).trans (fail_acts ..)
    · rename_i hstore
      exact acceptInbound_acts hstore
  split
  · split
    · exact .refl
    · exact fail_acts ..
  · have hasked : Acts disk resets resends s (if s.state ≠ .awaitingResend then
        { s with state := .awaitingResend }.sendResendRequest disk s.store.seq.inbound now
        else s) := by
      split
      · have hwait : Acts disk resets resends s { s with state := .awaitingResend } :=
          acts_aside rfl rfl rfl rfl
        exact hwait.trans (emit_acts ..)
      · exact .refl
    exact hasked.tail (.aside rfl rfl rfl rfl)

theorem handleSequenceReset_acts (s : Session) (m : FixMessage) (now : Now) :
    Acts disk resets resends s (s.handleSequenceReset disk m now) := by
  unfold handleSequenceReset
  split
  · exact emit_acts ..
  dsimp only
  split
  · exact fail_acts ..
  split
  · rename_i hstore
    exact (acceptInbound_acts hstore).trans (fail_acts ..)
  · rename_i store hstore
    have hmoved : Acts disk resets resends s { s with store } := acceptInbound_acts hstore
    split
    · exact hmoved.tail (.aside rfl rfl rfl rfl)
    · exact hmoved

theorem dispatch_acts (s : Session) (m : FixMessage) (now : Now)
    (hresends : m.msgType = MsgType.resendRequest → (m.findInt Tag.beginSeqNo).isSome = true →
      (m.findInt Tag.endSeqNo).isSome = true → resends) :
    Acts disk resets resends s (s.dispatch disk m now) := by
  unfold dispatch
  dsimp only
  split
  · split
    · exact acts_aside rfl rfl rfl rfl
    · exact .refl
  split
  · exact emit_acts ..
  split
  · rename_i htype
    exact handleResendRequest_acts s m now (hresends htype)
  split
  · exact handleLogout_acts ..
  · exact acts_aside rfl rfl rfl rfl

/-- A reset that was refused leaves the numbers alone. -/
theorem reset_acts {store : SeqStore} {failed : Option StoreError} {wants : Bool}
    (hstore : (if wants then s.store.reset disk else (none, s.store)) = (failed, store))
    (hresets : wants = true → disk s.store.writes = .synced → resets) :
    Acts disk resets resends s { s with store } := by
  cases wants with
  | false =>
    cases hstore
    exact .refl
  | true =>
    rw [if_pos rfl] at hstore
    cases failed with
    | none =>
      have hsynced := SeqStore.synced_of_store hstore
      exact .single (.renumbered (hresets rfl hsynced) rfl rfl rfl)
    | some e =>
      exact acts_aside rfl rfl rfl (congrArg SeqPair.outbound (SeqStore.store_failed_seq hstore))

/-- What is left of a Logon once the reset it asks for is done. -/
theorem greeted_acts (s : Session) (m : FixMessage) (store : SeqStore) (now : Now)
    {ok : Bool} {u : Session}
    (h : ((s.greeted m store).answerLogon disk m now).checkSequence disk m now = (ok, u)) :
    Acts disk resets resends { s with resetRequested := false, store } u := by
  have hgreeted : Acts disk resets resends { s with resetRequested := false, store }
      (s.greeted m store) := by
    unfold greeted takeInterval
    split
    · exact acts_aside rfl rfl rfl rfl
    · exact .refl
  have hanswer : Acts disk resets resends (s.greeted m store)
      ((s.greeted m store).answerLogon disk m now) := by
    unfold answerLogon
    split
    · exact emit_acts ..
    · exact .refl
  have hcheck : Acts disk resets resends ((s.greeted m store).answerLogon disk m now)
      (((s.greeted m store).answerLogon disk m now).checkSequence disk m now).2 :=
    checkSequence_acts ..
  rw [h] at hcheck
  exact (hgreeted.trans hanswer).trans hcheck

theorem handleLogon_acts (s : Session) (m : FixMessage) (now : Now)
    (hresets : s.wantsReset m = true → disk s.store.writes = .synced → resets) :
    Acts disk resets resends s (s.handleLogon disk m now) := by
  rw [handleLogon_eq]
  generalize hstore : (if s.wantsReset m then s.store.reset disk else (none, s.store)) = r
  obtain ⟨failed, store⟩ := r
  have hreset : Acts disk resets resends s { s with resetRequested := false, store } :=
    (reset_acts hstore hresets).tail (.aside rfl rfl rfl rfl)
  cases failed with
  | some e => exact hreset.trans (fail_acts ..)
  | none =>
    dsimp only
    split
    · rename_i heq
      exact hreset.trans (greeted_acts s m store now heq)
    · rename_i heq
      exact (hreset.trans (greeted_acts s m store now heq)).tail (.aside rfl rfl rfl rfl)

theorem onMessage_acts (s : Session) (m : FixMessage) (now : Now) :
    Acts disk (s.Resets disk (.message m now)) (s.Serves disk (.message m now)) s
      (s.onMessage disk m now) := by
  have hreceived : Acts disk (s.Resets disk (.message m now)) (s.Serves disk (.message m now)) s
      { s with lastReceived := now.steady } := acts_aside rfl rfl rfl rfl
  refine hreceived.trans ?_
  unfold onMessage handle
  split
  · rename_i htype
    exact handleLogon_acts _ m now fun hwants hdisk => ⟨htype, hwants, hdisk⟩
  split
  · exact .refl
  rename_i hstate
  split
  · exact handleSequenceReset_acts ..
  · have hcheck : Acts disk (s.Resets disk (.message m now)) (s.Serves disk (.message m now))
        { s with lastReceived := now.steady }
        ({ s with lastReceived := now.steady }.checkSequence disk m now).2 :=
      checkSequence_acts ..
    have hchecked := checkSequence_checked disk { s with lastReceived := now.steady } m now
    split
    · rename_i heq
      rw [heq] at hcheck
      exact hcheck
    · rename_i heq
      rw [heq] at hcheck hchecked
      exact hcheck.trans (dispatch_acts _ m now fun htype hbegin hlast =>
        ⟨htype, hstate, hchecked.takes, hbegin, hlast⟩)

theorem connect_acts (s : Session) (now : Now) (reset : Bool) :
    Acts disk (s.Resets disk (.connect now reset)) resends s (s.connect disk now reset) := by
  unfold connect
  split
  · exact .refl
  rename_i hrole
  have hrole : s.cfg.initiator = true := by simpa using hrole
  dsimp only
  generalize hstore : (if reset then s.store.reset disk else (none, s.store)) = r
  obtain ⟨failed, store⟩ := r
  have hreset : Acts disk (s.Resets disk (.connect now reset)) resends s { s with store } :=
    reset_acts hstore fun hwants hdisk => ⟨hrole, hwants, hdisk⟩
  cases failed with
  | some e => exact hreset.tail (.aside rfl rfl rfl rfl)
  | none =>
    have hasked : Acts disk (s.Resets disk (.connect now reset)) resends s
        { s with store, resetRequested := reset } := hreset.tail (.aside rfl rfl rfl rfl)
    exact (hasked.trans (emit_acts ..)).tail (.aside rfl rfl rfl rfl)

/-- **Every call is acts**, but for the one that clears the ring. -/
theorem call_acts (s : Session) {c : Call} (hc : c.Proper) (hnew : c ≠ .newConnection) :
    Acts disk (s.Resets disk c) (s.Serves disk c) s (s.call disk c) := by
  unfold call
  split
  · exact .refl
  cases c with
  | message m now => exact onMessage_acts s m now
  | send msgType body now => exact sendApplication_acts s hc body now
  | logout reason now => exact (emit_acts ..).tail (.aside rfl rfl rfl rfl)
  | timer now => exact onTimer_acts s now
  | connect now reset => exact connect_acts s now reset
  | newConnection => exact absurd rfl hnew

/-! ## What is kept -/

/-- What `emit` puts into the ring. -/
def posting (s : Session) (msgType : Text) (body : List (Nat × Text)) (now : Now)
    (administrative : Bool) : Sent :=
  ⟨s.store.seq.outbound, s.stamp msgType s.store.seq.outbound now.utc body, now.utc,
    administrative⟩

theorem remember_store (s : Session) (store : SeqStore) (sent : Sent) :
    { s with store }.remember sent = { s.remember sent with store } := by
  unfold remember
  dsimp only
  split
  · rfl
  · rfl

/-- **What `emit` does.** It sends and keeps the message under the next number; or it sends and
keeps nothing, and the number may be spent all the same. -/
theorem emit_cases (disk : Disk) (s : Session) (msgType : Text) (body : List (Nat × Text))
    (now : Now) (adm : Bool) {s' : Session} (h : (s.emit disk msgType body now adm).2 = s') :
    (s'.out = s.out ∧ s'.ring = s.ring ∧ s'.ringNext = s.ringNext ∧
      (s'.store.seq.outbound = s.store.seq.outbound ∨
        s'.store.seq.outbound = s.store.seq.outbound + 1)) ∨
    (s'.out = s.out ++ [(s.posting msgType body now adm).message] ∧
      s'.ring = (s.remember (s.posting msgType body now adm)).ring ∧
      s'.ringNext = (s.remember (s.posting msgType body now adm)).ringNext ∧
      s'.store.seq.outbound = s.store.seq.outbound + 1) := by
  unfold emit SeqStore.claimOutbound at h
  generalize hstore : s.store.store disk { s.store.seq with outbound := s.store.seq.outbound + 1 }
    = r at h
  obtain ⟨failed, store⟩ := r
  cases failed with
  | some e =>
    left
    subst h
    exact ⟨rfl, rfl, rfl, .inl (congrArg SeqPair.outbound (SeqStore.store_failed_seq hstore))⟩
  | none =>
    have hseq : store.seq.outbound = s.store.seq.outbound + 1 :=
      congrArg SeqPair.outbound (SeqStore.store_synced_seq hstore)
    dsimp only at h
    split at h
    · right
      subst h
      rw [remember_store]
      refine ⟨?_, rfl, rfl, hseq⟩
      unfold remember
      split
      · rfl
      · rfl
    · left
      subst h
      exact ⟨rfl, rfl, rfl, .inr hseq⟩

theorem mem_remember {sent new : Sent} (h : some sent ∈ (s.remember new).ring) :
    some sent ∈ s.ring ∨ sent = new := by
  unfold remember at h
  split at h
  · exact .inl h
  · rcases List.mem_or_eq_of_mem_set h with h | h
    · exact .inl h
    · exact .inr (Option.some.inj h)

/-- **What an act keeps** it kept before, or has just sent. -/
theorem Act.kept (h : Act disk resets resends s u) {sent : Sent} (hsent : some sent ∈ u.ring) :
    some sent ∈ s.ring ∨ ∃ msgType body now adm, sent = s.posting msgType body now adm ∧
      (adm = false → Application msgType) ∧ u.out = s.out ++ [sent.message] := by
  cases h with
  | emitted msgType body now adm htype =>
    rcases emit_cases disk s msgType body now adm rfl with ⟨-, hring, -⟩ | ⟨hout, hring, -⟩
    · rw [hring] at hsent
      exact .inl hsent
    · rw [hring] at hsent
      rcases mem_remember hsent with hsent | rfl
      · exact .inl hsent
      · exact .inr ⟨msgType, body, now, adm, rfl, htype, hout⟩
  | repeated hresends m hout hring => exact .inl (hring ▸ hsent)
  | aside hout hring => exact .inl (hring ▸ hsent)
  | renumbered hresets hout hring => exact .inl (hring ▸ hsent)

/-- A record of a message as it was sent. -/
def Posted (sent : Sent) : Prop :=
  ∃ (s : Session) (msgType : Text) (body : List (Nat × Text)),
    sent.message = s.stamp msgType sent.seq sent.sendingTime body ∧
      (sent.administrative = false → Application msgType)

/-- All that the ring keeps was sent. -/
def Remembered (s : Session) : Prop := ∀ sent, some sent ∈ s.ring → Posted sent

theorem Posted.seqNum {sent : Sent} (h : Posted sent) :
    sent.message.seqNum = some sent.seq.toInt64 := by
  obtain ⟨s, msgType, body, hmessage, -⟩ := h
  rw [hmessage]
  exact stamp_seqNum ..

theorem Posted.application {sent : Sent} (h : Posted sent) (hadm : sent.administrative = false) :
    Application sent.message.msgType := by
  obtain ⟨s, msgType, body, hmessage, happ⟩ := h
  rw [hmessage]
  exact happ hadm

theorem Act.remembered (h : Act disk resets resends s u) (hs : s.Remembered) : u.Remembered := by
  intro sent hsent
  rcases h.kept hsent with hsent | ⟨msgType, body, now, adm, rfl, htype, -⟩
  · exact hs sent hsent
  · exact ⟨s, msgType, body, rfl, htype⟩

theorem Acts.remembered (h : Acts disk resets resends s u) (hs : s.Remembered) : u.Remembered := by
  induction h with
  | refl => exact hs
  | tail _ hact ih => exact hact.remembered ih

theorem not_mem_cleared {ring : List (Option Sent)} {sent : Sent} :
    some sent ∉ ring.map fun _ => (none : Option Sent) := by
  intro h
  obtain ⟨_, -, hnone⟩ := List.mem_map.mp h
  cases hnone

theorem remembered_call (hs : s.Remembered) {c : Call} (hc : c.Proper) :
    (s.call disk c).Remembered := by
  by_cases hnew : c = .newConnection
  · subst hnew
    unfold call
    split
    · exact hs
    · intro sent hsent
      exact absurd hsent not_mem_cleared
  · exact (call_acts s hc hnew).remembered hs

/-- **Over every run**, what the ring holds was sent as it stands there. -/
theorem remembered_run (disk : Disk) (cfg : SessionConfig) (store : SeqStore) {calls : List Call}
    (hcalls : ∀ c ∈ calls, c.Proper) : (calls.foldl (call disk) (.new cfg store)).Remembered := by
  refine Run.Along.invariant (C := fun _ c => c.Proper) Remembered
    (fun s c hs hc => remembered_call hs hc) ?_ (Run.along_of_forall fun _ => hcalls)
  intro sent hsent
  cases List.eq_of_mem_replicate hsent

end

end Session

end MarketData.Gateway
