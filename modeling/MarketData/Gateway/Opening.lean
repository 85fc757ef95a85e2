import MarketData.Gateway.Failure
import MarketData.Gateway.Link

/-!
# `Gateway/Opening.lean` — what comes before the Logon

On a new connection the counterparty's Logon is to come first: until it has passed the sequence
check, the application hears nothing, and a session that waits for it takes nothing else. The only
gate in `on_message` is for `Disconnected`. An initiator waits in `AwaitingLogon`, a Logon from
beyond a hole leaves `AwaitingResend`, and one that fails leaves `LoggedOut`; in all of these a
message that carries the expected number is accepted as in an open session.

## What is remembered of a connection

Whether a Logon has passed is not in the session, so `Connection` keeps it beside one. It is set by
a Logon that is due, or is in sequence after the reset it asks for, and cleared where a new
connection begins. The two promises are then about a session whose Logon is outstanding: the
application hears nothing, and nothing but a Logon moves the expected number while one is awaited.

`Keeps` is a condition on the counterparty, read off the message and the session before the call:
it sends no application message that would be taken, and while a Logon is awaited nothing else that
would be. **It does not say that the counterparty sends a Logon first**; a stray message with a
number that is not due is as harmless as none. `onMessage_taken` and `onMessage_moved` say exactly
which messages count, and the equivalence for one call follows by cases.
-/

set_option autoImplicit false

namespace MarketData.Gateway

namespace Session

variable (disk : Disk)

/-- A Logon that passes `check_sequence`. -/
def logonPasses (s : Session) (m : FixMessage) (now : Now) : Bool :=
  m.msgType = MsgType.logon &&
    match if s.wantsReset m then s.store.reset disk else (none, s.store) with
    | (some _, _) => false
    | (none, store) =>
      (((s.greeted m store).answerLogon disk m now).checkSequence disk m now).1

/-- The message carries the expected number, and the disk takes the next one. -/
def Takes (s : Session) (m : FixMessage) : Prop :=
  m.seqNum.any (fun seq => seq.toUInt64 = s.store.seq.inbound) = true ∧
    disk s.store.writes = .synced

/-- The `SequenceReset` goes beyond the expected number, and the disk takes it. -/
def Moves (s : Session) (m : FixMessage) : Prop :=
  (m.findInt Tag.newSeqNo).any (fun new => s.store.seq.inbound < new.toUInt64) = true ∧
    disk s.store.writes = .synced

instance (s : Session) (m : FixMessage) : Decidable (s.Takes disk m) :=
  inferInstanceAs (Decidable (_ ∧ _))

instance (s : Session) (m : FixMessage) : Decidable (s.Moves disk m) :=
  inferInstanceAs (Decidable (_ ∧ _))

end Session

/-- A session, and whether a Logon has passed its check since the connection was opened. -/
structure Connection where
  session : Session
  loggedOn : Bool := false

namespace Connection

variable (disk : Disk)

def step (l : Connection) (c : Call) : Connection :=
  { session := l.session.call disk c
    loggedOn :=
      if l.session.hung then l.loggedOn
      else
        match c with
        | .newConnection => false
        | .message m now =>
          l.loggedOn || { l.session with lastReceived := now.steady }.logonPasses disk m now
        | _ => l.loggedOn }

/-- Before a Logon has passed the application hears nothing, and while one is awaited no other
message is taken. -/
structure LogonFirst (l : Connection) (c : Call) : Prop where
  apps : l.loggedOn = false → (l.step disk c).session.apps = l.session.apps
  awaiting : l.session.state = .awaitingLogon →
    match c with
    | .message m _ => m.msgType ≠ MsgType.logon →
        (l.step disk c).session.apps = l.session.apps ∧
          (l.step disk c).session.store.seq.inbound = l.session.store.seq.inbound
    | _ => True

/-- The counterparty keeps to it: before a Logon has passed it sends no application message that
would be accepted, and while a Logon is awaited no other message that would be, nor a
`SequenceReset` that would move the expected number. -/
def Keeps (l : Connection) : Call → Prop
  | .message m _ =>
    l.session.hung = false → m.msgType ≠ MsgType.logon → l.session.state ≠ .disconnected →
      if m.msgType = MsgType.sequenceReset then
        l.session.state = .awaitingLogon → ¬l.session.Moves disk m
      else
        (l.loggedOn = false ∧ Application m.msgType) ∨ l.session.state = .awaitingLogon →
          ¬l.session.Takes disk m
  | _ => True

end Connection

namespace Session

variable {disk : Disk} {s s' t : Session} {m : FixMessage}

theorem Checked.takes (h : Checked disk s m (true, t)) : s.Takes disk m := by
  cases h with
  | accepted hseq hnext hstore =>
    refine ⟨?_, SeqStore.synced_of_store hstore⟩
    rw [hseq]
    exact decide_eq_true hnext

theorem Checked.not_takes (h : Checked disk s m (false, s')) : ¬s.Takes disk m := by
  rintro ⟨hany, hsynced⟩
  cases h with
  | notStored hseq hnext hstore hs hstate =>
    rename_i n store e
    have hnone := (store_isNone disk s.store { s.store.seq with inbound := n.toUInt64 + 1 }).mpr
      hsynced
    rw [SeqStore.acceptInbound] at hstore
    rw [hstore] at hnone
    cases hnone
  | refused hnext hs =>
    cases hseq : m.seqNum with
    | none =>
      rw [hseq] at hany
      cases hany
    | some seq =>
      rw [hseq] at hany
      exact UInt64.ne_of_lt (hnext seq hseq) (of_decide_eq_true hany)
  | gap hseq hbeyond hs =>
    rw [hseq] at hany
    exact UInt64.ne_of_lt hbeyond (of_decide_eq_true hany).symm

theorem Checked.inbound_of_false (h : Checked disk s m (false, s')) :
    s'.store.seq.inbound = s.store.seq.inbound ∧ s'.apps = s.apps := by
  cases h with
  | notStored hseq hnext hstore hs hstate =>
    refine ⟨?_, hs.apps⟩
    rw [hs.inbound, SeqStore.store_failed_seq hstore]
  | refused hnext hs => exact ⟨hs.inbound, hs.apps⟩
  | gap hseq hbeyond hs => exact ⟨hs.inbound, hs.apps⟩

theorem succ_ne_self (n : UInt64) : n + 1 ≠ n := by
  intro h
  have hone : (1 : UInt64).toNat = 1 := rfl
  have hnat := congrArg UInt64.toNat h
  have hlt := n.toNat_lt
  rw [UInt64.toNat_add] at hnat
  omega

theorem Checked.inbound_of_true (h : Checked disk s m (true, t)) :
    t.store.seq.inbound ≠ s.store.seq.inbound ∧ t.apps = s.apps := by
  cases h with
  | accepted hseq hnext hstore =>
    refine ⟨?_, rfl⟩
    show _ ≠ s.store.seq.inbound
    rw [SeqStore.store_synced_seq hstore, ← hnext]
    exact succ_ne_self _

/-- What is none of the session layer's goes to the application. -/
theorem dispatch_apps (disk : Disk) (s : Session) (now : Now) (hlogon : m.msgType ≠ MsgType.logon)
    (hreset : m.msgType ≠ MsgType.sequenceReset) :
    (s.dispatch disk m now).apps = (if Application m.msgType then s.apps ++ [m] else s.apps) ∧
      (s.dispatch disk m now).store.seq.inbound = s.store.seq.inbound := by
  have hnot : m.msgType ∈ [MsgType.heartbeat, MsgType.testRequest, MsgType.resendRequest,
      MsgType.sequenceReset, MsgType.logout, MsgType.logon] → ¬Application m.msgType :=
    fun hmem happ => happ hmem
  unfold dispatch
  dsimp only
  by_cases hbeat : m.msgType = MsgType.heartbeat
  · rw [if_neg (hnot (by simp [hbeat])), if_pos hbeat]
    split <;> exact ⟨rfl, rfl⟩
  rw [if_neg hbeat]
  by_cases htest : m.msgType = MsgType.testRequest
  · rw [if_neg (hnot (by simp [htest])), if_pos htest]
    have h := emit_sends disk s now MsgType.heartbeat
      (if (m.find Tag.testReqId).getD [] = [] then []
        else [(Tag.testReqId, (m.find Tag.testReqId).getD [])]) true
    exact ⟨h.apps, h.inbound⟩
  rw [if_neg htest]
  by_cases hresend : m.msgType = MsgType.resendRequest
  · rw [if_neg (hnot (by simp [hresend])), if_pos hresend]
    have h := handleResendRequest_sends disk s now m
    exact ⟨h.apps, h.inbound⟩
  rw [if_neg hresend]
  by_cases hlogout : m.msgType = MsgType.logout
  · rw [if_neg (hnot (by simp [hlogout])), if_pos hlogout]
    have h := handleLogout_sends disk s now
    exact ⟨h.apps, h.inbound⟩
  have happ : Application m.msgType := by
    unfold Application
    simp [*]
  rw [if_neg hlogout, if_pos happ]
  exact ⟨rfl, rfl⟩

/-- **A message that is neither a Logon nor a `SequenceReset`** is told and counted exactly when it
is taken. -/
theorem onMessage_taken (disk : Disk) (s : Session) (now : Now) (hlogon : m.msgType ≠ MsgType.logon)
    (hup : s.state ≠ .disconnected) (hreset : m.msgType ≠ MsgType.sequenceReset) :
    ((s.onMessage disk m now).apps = s.apps ↔ ¬(Application m.msgType ∧ s.Takes disk m)) ∧
      ((s.onMessage disk m now).store.seq.inbound = s.store.seq.inbound ↔ ¬s.Takes disk m) := by
  have hchecked := checkSequence_checked disk { s with lastReceived := now.steady } m now
  unfold onMessage handle
  rw [if_neg hlogon, if_neg hup, if_neg hreset]
  generalize checkSequence disk { s with lastReceived := now.steady } m now = r at hchecked ⊢
  obtain ⟨ok, t⟩ := r
  cases ok with
  | false =>
    have hnot : ¬s.Takes disk m := hchecked.not_takes
    obtain ⟨hin, happs⟩ := hchecked.inbound_of_false
    exact ⟨iff_of_true happs fun h => hnot h.2, iff_of_true hin hnot⟩
  | true =>
    have htakes : s.Takes disk m := hchecked.takes
    obtain ⟨hin, happs⟩ := hchecked.inbound_of_true
    obtain ⟨htold, hkept⟩ := dispatch_apps disk t now hlogon hreset
    refine ⟨?_, iff_of_false ?_ (not_not_intro htakes)⟩
    · dsimp only
      rw [htold, happs]
      split
      · rename_i happ
        exact iff_of_false (by simp) (not_not_intro ⟨happ, htakes⟩)
      · rename_i happ
        exact iff_of_true rfl fun h => happ h.1
    · dsimp only
      rw [hkept]
      exact hin

/-- **A `SequenceReset`** is counted exactly when it moves. -/
theorem onMessage_moved (disk : Disk) (s : Session) (now : Now)
    (hup : s.state ≠ .disconnected) (hreset : m.msgType = MsgType.sequenceReset) :
    (s.onMessage disk m now).apps = s.apps ∧
      ((s.onMessage disk m now).store.seq.inbound = s.store.seq.inbound ↔ ¬s.Moves disk m) := by
  have hto := handleSequenceReset_resetTo disk { s with lastReceived := now.steady } m now
  unfold onMessage handle
  rw [if_neg (by rw [hreset]; decide), if_neg hup, if_pos hreset]
  generalize handleSequenceReset disk { s with lastReceived := now.steady } m now = s' at hto ⊢
  cases hto with
  | refused hback hs =>
    refine ⟨hs.apps, iff_of_true hs.inbound ?_⟩
    rintro ⟨hany, -⟩
    cases hnew : m.findInt Tag.newSeqNo with
    | none =>
      rw [hnew] at hany
      cases hany
    | some new =>
      rw [hnew] at hany
      exact UInt64.lt_asymm (hback new hnew) (of_decide_eq_true hany)
  | notStored hnew hle hstore hs hstate =>
    rename_i new store e
    refine ⟨hs.apps, iff_of_true ?_ ?_⟩
    · rw [hs.inbound, SeqStore.store_failed_seq hstore]
    · rintro ⟨-, hsynced⟩
      have hnone := (store_isNone disk s.store { s.store.seq with inbound := new.toUInt64 }).mpr
        hsynced
      rw [hstore] at hnone
      cases hnone
  | moved hnew hle hstore =>
    rename_i new store
    have hseq : store.seq.inbound = new.toUInt64 := by rw [SeqStore.store_synced_seq hstore]
    have hmoves : s.Moves disk m ↔ s.store.seq.inbound < new.toUInt64 := by
      unfold Moves
      rw [hnew]
      refine ⟨fun h => of_decide_eq_true h.1, fun h => ⟨decide_eq_true h, ?_⟩⟩
      exact SeqStore.synced_of_store hstore
    have hin : store.seq.inbound = s.store.seq.inbound ↔ ¬s.Moves disk m := by
      rw [hseq, hmoves, UInt64.not_lt]
      exact ⟨fun h => h ▸ UInt64.le_refl _, fun h => UInt64.le_antisymm h hle⟩
    split
    · exact ⟨rfl, hin⟩
    · exact ⟨rfl, hin⟩

/-- A Logon is not told. -/
theorem onMessage_logon (disk : Disk) (s : Session) (now : Now) (hlogon : m.msgType = MsgType.logon) :
    (s.onMessage disk m now).apps = s.apps := by
  have h := handleLogon_loggedOn disk { s with lastReceived := now.steady } m now
  unfold onMessage handle
  rw [if_pos hlogon]
  generalize handleLogon disk { s with lastReceived := now.steady } m now = s' at h ⊢
  cases h with
  | notReset hflag hstore hs hstate => exact hs.apps
  | checked hstore ht hs =>
    rename_i store t u ok
    have happs : t.apps = s.apps := ht.apps
    cases ok with
    | false => exact hs.inbound_of_false.2.trans happs
    | true => exact hs.inbound_of_true.2.trans happs

/-- Only a message can be told. -/
theorem call_apps (disk : Disk) (s : Session) {c : Call} (hc : ∀ m now, c ≠ .message m now) :
    (s.call disk c).apps = s.apps := by
  unfold call
  split
  · rfl
  cases c with
  | message m now => exact absurd rfl (hc m now)
  | send msgType body now => exact (sendApplication_sends disk s now msgType body).apps
  | logout reason now => exact (logout_sends disk s now reason).apps
  | timer now => exact (onTimer_sends disk s now).apps
  | connect now reset =>
    have h := connect_connected disk s now reset
    dsimp only
    generalize s.connect disk now reset = s' at h ⊢
    cases h with
    | notInitiator => rfl
    | notReset hreset hstore hs hstate => exact hs.apps
    | sent hstore hs hstate => exact hs.apps
  | newConnection => rfl

end Session

namespace Connection

variable {disk : Disk} {l : Connection} {m : FixMessage} {now : Now}

/-- **One call** keeps the Logon first exactly when the counterparty does. -/
theorem logonFirst_iff (disk : Disk) (l : Connection) (c : Call) :
    l.LogonFirst disk c ↔ l.Keeps disk c := by
  cases c with
  | message m now =>
    cases hup : l.session.hung with
    | true =>
      have hsame : (l.step disk (.message m now)).session = l.session := by
        show l.session.call disk (.message m now) = l.session
        unfold Session.call
        rw [hup, if_pos rfl]
      refine iff_of_true ⟨fun _ => by rw [hsame], fun _ _ => by rw [hsame]; exact ⟨rfl, rfl⟩⟩ ?_
      intro hup'
      rw [hup] at hup'
      cases hup'
    | false =>
    have hcall : (l.step disk (.message m now)).session = l.session.onMessage disk m now := by
      show l.session.call disk (.message m now) = l.session.onMessage disk m now
      unfold Session.call
      rw [hup, if_neg (by decide)]
    by_cases hlogon : m.msgType = MsgType.logon
    · refine iff_of_true ⟨fun _ => ?_, fun _ h => absurd hlogon h⟩ fun _ h => absurd hlogon h
      rw [hcall]
      exact Session.onMessage_logon disk l.session now hlogon
    by_cases hconnected : l.session.state = .disconnected
    · refine iff_of_true ⟨fun _ => ?_, fun h => ?_⟩ fun _ _ h => absurd hconnected h
      · rw [hcall]
        unfold Session.onMessage Session.handle
        rw [if_neg hlogon, if_pos hconnected]
      · rw [hconnected] at h
        cases h
    by_cases hreset : m.msgType = MsgType.sequenceReset
    · obtain ⟨happs, hin⟩ := Session.onMessage_moved disk l.session now hconnected hreset
      have hkeeps : l.Keeps disk (.message m now) ↔
          (l.session.state = .awaitingLogon → ¬l.session.Moves disk m) := by
        dsimp only [Keeps]
        rw [if_pos hreset]
        exact ⟨fun h => h hup hlogon hconnected, fun h _ _ _ => h⟩
      rw [hkeeps]
      constructor
      · intro h hstate
        have hin' := (h.awaiting hstate hlogon).2
        rw [hcall] at hin'
        exact hin.mp hin'
      · intro h
        refine ⟨fun _ => hcall ▸ happs, fun hstate _ => ?_⟩
        rw [hcall]
        exact ⟨happs, hin.mpr (h hstate)⟩
    · obtain ⟨happs, hin⟩ := Session.onMessage_taken disk l.session now hlogon hconnected hreset
      have hkeeps : l.Keeps disk (.message m now) ↔
          ((l.loggedOn = false ∧ Application m.msgType) ∨ l.session.state = .awaitingLogon →
            ¬l.session.Takes disk m) := by
        dsimp only [Keeps]
        rw [if_neg hreset]
        exact ⟨fun h => h hup hlogon hconnected, fun h _ _ _ => h⟩
      rw [hkeeps]
      constructor
      · intro h hcase htakes
        rcases hcase with ⟨hbefore, happ⟩ | hstate
        · have hsame := h.apps hbefore
          rw [hcall] at hsame
          exact happs.mp hsame ⟨happ, htakes⟩
        · have hin' := (h.awaiting hstate hlogon).2
          rw [hcall] at hin'
          exact hin.mp hin' htakes
      · intro h
        refine ⟨fun hbefore => ?_, fun hstate _ => ?_⟩
        · rw [hcall]
          exact happs.mpr fun hcase => h (.inl ⟨hbefore, hcase.1⟩) hcase.2
        · rw [hcall]
          have hnot := h (.inr hstate)
          exact ⟨happs.mpr fun hcase => hnot hcase.2, hin.mpr hnot⟩
  | send | logout | timer | connect | newConnection =>
    refine iff_of_true ⟨fun _ => ?_, fun _ => trivial⟩ trivial
    exact Session.call_apps disk l.session fun _ _ h => (nomatch h)

/-- **The Logon comes first**, along a run, exactly when the counterparty sends nothing before it
that would be taken. -/
theorem logon_first_iff_kept (disk : Disk) (cfg : SessionConfig) (store : SeqStore)
    (calls : List Call) :
    Run.Along (step disk) (LogonFirst disk) ⟨.new cfg store, false⟩ calls ↔
      Run.Along (step disk) (Keeps disk) ⟨.new cfg store, false⟩ calls :=
  Run.along_congr fun l c => logonFirst_iff disk l c

/-- An initiator has sent its Logon, and is answered with an order. -/
theorem order_before_logon_delivered :
    let l : Connection := ⟨.new { Session.acceptor with initiator := true } {}, false⟩
    let calls := [.connect ⟨0, []⟩ false, Session.inbound ['D'] 1 []]
    let l' := calls.foldl (step fun _ => .synced) l
    (l'.session.state = .awaitingLogon ∧ l'.session.apps.map FixMessage.seqNum = [some 1] ∧
      l'.session.store.seq.inbound = 2 ∧ l'.loggedOn = false) ∧
      ¬Run.Along (step fun _ => .synced) (LogonFirst fun _ => .synced) l calls := by
  refine ⟨by decide +kernel, fun h => ?_⟩
  have happs := h.2.1.apps (by decide +kernel)
  exact absurd (congrArg List.length happs) (by decide +kernel)

end Connection

end MarketData.Gateway
