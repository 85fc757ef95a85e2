import MarketData.Gateway.Link

/-!
# `Gateway/Talk.lean` — what a session says to the other

Of two sessions one may be behind and the other is not. As long as nobody asks it to resend, a
session says everything under the next number it claims (`onMessage_claims`). And a session that
gets the number that is due takes it and asks for nothing, whatever it has to answer
(`onMessage_hears`).

## Two lemmas about a call, one for each end

`Speaks` and `Hears` are the two ends of one delivery. The one who speaks promises that what goes
into the channel is consecutive and carries no request (`Quiet`); the one who hears, having got what
was due, promises that it has taken it, that it waits for nothing, and that what it says in turn is
such speech again. They are kept apart because the session that is behind only ever speaks in this
sense: it may ask, and then `Speaks` says nothing of it.

What has to be counted is the length of a message. One that does not fit the buffer is not sent
although its number is claimed, which to the other side is a gap; `stamp_fits` bounds the length of
everything the session layer composes, given company ids that leave room (`Brief`) and a wall clock
of the length it has. What it merely repeats, an echoed test request id, is bounded by the message
it came in.

`Resendable` is kept here for the next module: what lies in the ring and may be resent is an
application's message, so no answer to a resend request can be taken for a Logon or a request.
-/

set_option autoImplicit false

namespace MarketData.Gateway

/-- No request that is answered with anything but a claimed number, or at a length of its own. -/
def Quiet (m : FixMessage) : Prop :=
  m.msgType ≠ MsgType.resendRequest ∧ m.msgType ≠ MsgType.testRequest

theorem length_intText_tag {t : Nat} (h : t < 1000) : (intText t).length ≤ 3 := by
  rw [intText_eq, if_pos (Int.natCast_nonneg t), Int.toNat_natCast,
    Nat.length_toDigits_le_iff (by decide) (by decide)]
  exact h

namespace Session

/-! ## The side that may be behind -/

section Claiming

variable {s : Session} {now : Now} {m : FixMessage} (hb : s.Brief) (hutc : now.utc.length = 21)

include hb hutc

theorem emit_own_claims (msgType : Text) (body : List (Nat × Text)) (adm : Bool)
    (hlength : msgType.length = 1)
    (hbody : (body.map fun f => (intText f.1).length + f.2.length + 2).sum ≤ 500)
    (htype : msgType ≠ MsgType.sequenceReset) (htype' : msgType ≠ MsgType.logon) :
    ∃ ms, Claims s (s.emit durable msgType body now adm).2 ms :=
  ⟨_, emit_claims (stamp_fits hb hutc hlength hbody _) (ordinary_stamp _ _ htype htype')⟩

theorem fail_claims (e : SessionError) {text : String}
    (htext : ([(Tag.text, text.toList)].map fun f => (intText f.1).length + f.2.length + 2).sum ≤ 500) :
    ∃ ms, Claims s (s.fail durable e text now) ms := by
  obtain ⟨ms, h⟩ := emit_own_claims (s := { s with error := e }) hb hutc MsgType.logout
    [(Tag.text, text.toList)] true rfl htext (by decide) (by decide)
  unfold fail
  dsimp only
  generalize ({ s with error := e }.emit durable MsgType.logout [(Tag.text, text.toList)] now
    true).2 = t at h ⊢
  refine ⟨ms, Claims.of_eq (?_ : Claims s t ms) rfl rfl rfl rfl rfl rfl⟩
  exact ⟨h.out, h.numbers, h.ordinary, h.brief, h.initiator, h.resetRequested⟩

theorem sendReject_claims (m : FixMessage) {text : String} (htext : text.toList.length ≤ 400) :
    ∃ ms, Claims s (s.sendReject durable m text now) ms := by
  refine emit_own_claims hb hutc _ _ _ rfl ?_ (by decide) (by decide)
  have hseq := length_intText_le (m.seqNum.getD 0)
  have href := length_intText_tag (t := Tag.refSeqNum) (by decide)
  have htag := length_intText_tag (t := Tag.text) (by decide)
  simp only [List.map_cons, List.map_nil, List.sum_cons, List.sum_nil]
  omega

theorem sendResendRequest_claims (begin : UInt64) :
    ∃ ms, Claims s (s.sendResendRequest durable begin now) ms := by
  refine emit_own_claims hb hutc _ _ _ rfl ?_ (by decide) (by decide)
  have hseq := length_intText_le begin.toInt64
  have hbegin := length_intText_tag (t := Tag.beginSeqNo) (by decide)
  have hend := length_intText_tag (t := Tag.endSeqNo) (by decide)
  simp only [List.map_cons, List.map_nil, List.sum_cons, List.sum_nil, List.length_cons,
    List.length_nil]
  omega

theorem handleLogout_claims : ∃ ms, Claims s (s.handleLogout durable now) ms := by
  unfold handleLogout
  split
  · exact ⟨[], (Claims.refl s).of_eq rfl rfl rfl rfl rfl rfl⟩
  · obtain ⟨ms, h⟩ := emit_own_claims hb hutc MsgType.logout [] true rfl (by decide) (by decide)
      (by decide)
    generalize (s.emit durable MsgType.logout [] now true).2 = t at h ⊢
    exact ⟨ms, h.of_eq rfl rfl rfl rfl rfl rfl⟩

/-- A Logon fits. -/
theorem logon_fits (reset : Bool) (seq : UInt64) :
    (s.stamp MsgType.logon seq now.utc (s.logonBody reset)).fits maxMessage = true := by
  apply stamp_fits hb hutc rfl
  have hint : (intText s.cfg.heartbeatIntervalSeconds.toInt).length ≤ 20 := by
    have h := length_intText_le (Int64.ofInt s.cfg.heartbeatIntervalSeconds.toInt)
    have hlo := s.cfg.heartbeatIntervalSeconds.le_toInt
    have hhi := s.cfg.heartbeatIntervalSeconds.toInt_lt
    rw [Int64.toInt_ofInt_of_le (by omega) (by omega)] at h
    exact h
  have hencrypt := length_intText_tag (t := Tag.encryptMethod) (by decide)
  have hbeat := length_intText_tag (t := Tag.heartBtInt) (by decide)
  have hflag := length_intText_tag (t := Tag.resetSeqNumFlag) (by decide)
  cases reset with
  | false =>
    simp only [logonBody, Bool.false_eq_true, if_false, List.append_nil, List.map_cons,
      List.map_nil, List.sum_cons, List.sum_nil, List.length_cons, List.length_nil]
    omega
  | true =>
    simp only [logonBody, if_true, List.cons_append, List.nil_append, List.map_cons,
      List.map_nil, List.sum_cons, List.sum_nil, List.length_cons, List.length_nil]
    omega

/-- An acceptor's answer to a Logon that does not reset. -/
theorem answerLogon_claims
    (hflag : s.cfg.initiator = true ∨ m.flag Tag.resetSeqNumFlag = false) :
    ∃ ms, Claims s (s.answerLogon durable m now) ms := by
  unfold answerLogon
  split
  · rename_i hrole
    have hflag : m.flag Tag.resetSeqNumFlag = false := by
      rcases hflag with h | h
      · exact absurd h hrole.1
      · exact h
    rw [hflag]
    refine ⟨_, emit_claims (logon_fits hb hutc false _) ⟨?_, fun _ => ?_⟩⟩
    · rw [stamp_msgType]
      decide
    · unfold FixMessage.flag
      rw [stamp_find _ _ _ _ _ (by decide)]
      rfl
  · exact ⟨[], .refl s⟩

theorem checkSequence_claims (m : FixMessage) :
    ∃ ms, Claims s (s.checkSequence durable m now).2 ms := by
  unfold checkSequence
  split
  · dsimp only
    exact sendReject_claims hb hutc m (by decide +kernel)
  dsimp only
  split
  · show ∃ ms, Claims s { s with store := _ } ms
    exact ⟨[], (Claims.refl s).of_eq rfl rfl rfl rfl rfl rfl⟩
  split
  · split
    · exact ⟨[], .refl s⟩
    · exact fail_claims hb hutc _ (by decide +kernel)
  · split
    · obtain ⟨ms, h⟩ := sendResendRequest_claims (s := { s with state := .awaitingResend }) hb hutc
        s.store.seq.inbound
      generalize { s with state := .awaitingResend }.sendResendRequest durable s.store.seq.inbound now
        = t at h ⊢
      refine ⟨ms, Claims.of_eq (?_ : Claims s t ms) rfl rfl rfl rfl rfl rfl⟩
      exact ⟨h.out, h.numbers, h.ordinary, h.brief, h.initiator, h.resetRequested⟩
    · exact ⟨[], (Claims.refl s).of_eq rfl rfl rfl rfl rfl rfl⟩

theorem handleSequenceReset_claims (m : FixMessage) :
    ∃ ms, Claims s (s.handleSequenceReset durable m now) ms := by
  unfold handleSequenceReset
  split
  · exact sendReject_claims hb hutc m (by decide +kernel)
  dsimp only
  split
  · exact fail_claims hb hutc _ (by decide +kernel)
  · show ∃ ms, Claims s (if s.state = .awaitingResend then _ else _) ms
    split
    · exact ⟨[], (Claims.refl s).of_eq rfl rfl rfl rfl rfl rfl⟩
    · exact ⟨[], (Claims.refl s).of_eq rfl rfl rfl rfl rfl rfl⟩

/-- A Logon is answered under the next numbers, unless it resets them. -/
theorem handleLogon_claims (hflag : m.flag Tag.resetSeqNumFlag = true →
    s.cfg.initiator = true ∧ s.resetRequested = true) :
    ∃ ms, Claims { s with resetRequested := false } (s.handleLogon durable m now) ms := by
  have hkeep : (m.flag Tag.resetSeqNumFlag && !s.resetRequested) = false := by
    cases hm : m.flag Tag.resetSeqNumFlag with
    | false => rfl
    | true => simp [(hflag hm).2]
  unfold handleLogon
  dsimp only
  rw [hkeep]
  simp only [Bool.false_eq_true, if_false]
  have hinterval : Claims { s with resetRequested := false }
      ({ s with resetRequested := false }.takeInterval m) [] := by
    unfold takeInterval
    split
    · exact (Claims.refl _).of_eq rfl rfl rfl rfl rfl rfl
    · exact .refl _
  have hb' := hinterval.brief hb
  have hrole : ({ s with resetRequested := false }.takeInterval m).cfg.initiator = true ∨
      m.flag Tag.resetSeqNumFlag = false := by
    rw [hinterval.initiator]
    cases hm : m.flag Tag.resetSeqNumFlag with
    | false => exact .inr rfl
    | true => exact .inl (hflag hm).1
  generalize ({ s with resetRequested := false }.takeInterval m) = t at hinterval hb' hrole ⊢
  obtain ⟨ms, hanswer⟩ := answerLogon_claims hb' hutc hrole
  have hb'' := hanswer.brief hb'
  generalize t.answerLogon durable m now = u at hanswer hb'' ⊢
  obtain ⟨ms', hcheck⟩ := checkSequence_claims hb'' hutc m
  generalize u.checkSequence durable m now = r at hcheck ⊢
  have h := (hinterval.trans hanswer).trans hcheck
  obtain ⟨ok, v⟩ := r
  cases ok with
  | false => exact ⟨_, h⟩
  | true => exact ⟨_, h.of_eq rfl rfl rfl rfl rfl rfl⟩

/-- **Whatever comes in**, but for a request to resend or to answer and a reset that was not asked
for, is answered under the next numbers. -/
theorem onMessage_claims (hquiet : Quiet m)
    (hflag : m.msgType = MsgType.logon → m.flag Tag.resetSeqNumFlag = true →
      s.cfg.initiator = true ∧ s.resetRequested = true) :
    ∃ ms, Claims { s with resetRequested := m.msgType ≠ MsgType.logon && s.resetRequested }
      (s.onMessage durable m now) ms := by
  unfold onMessage handle
  split
  · rename_i htype
    obtain ⟨ms, h⟩ := handleLogon_claims (s := { s with lastReceived := now.steady }) hb hutc
      (hflag htype)
    refine ⟨ms, h.out, h.numbers, h.ordinary, h.brief, h.initiator, ?_⟩
    rw [h.resetRequested]
    simp [htype]
  rename_i htype
  -- any other message leaves the request for a reset alone
  have hother : ∀ {u : Session}, (∃ ms, Claims { s with lastReceived := now.steady } u ms) →
      ∃ ms, Claims { s with resetRequested := m.msgType ≠ MsgType.logon && s.resetRequested } u
        ms := by
    intro u h
    obtain ⟨ms, h⟩ := h
    refine ⟨ms, h.out, h.numbers, h.ordinary, h.brief, h.initiator, ?_⟩
    rw [h.resetRequested]
    simp [htype]
  have hb' : { s with lastReceived := now.steady }.Brief := hb
  apply hother
  generalize { s with lastReceived := now.steady } = s at hb' ⊢
  split
  · exact ⟨[], .refl s⟩
  split
  · exact handleSequenceReset_claims hb' hutc m
  obtain ⟨ms, hcheck⟩ := checkSequence_claims hb' hutc m
  have hb'' := hcheck.brief hb'
  generalize s.checkSequence durable m now = r at hcheck hb'' ⊢
  obtain ⟨ok, t⟩ := r
  cases ok with
  | false => exact ⟨ms, hcheck⟩
  | true =>
    dsimp only at hcheck hb'' ⊢
    unfold dispatch
    dsimp only
    split
    · split
      · exact ⟨ms, hcheck.of_eq rfl rfl rfl rfl rfl rfl⟩
      · exact ⟨ms, hcheck⟩
    split
    · rename_i htype'
      exact absurd htype' hquiet.2
    split
    · rename_i htype'
      exact absurd htype' hquiet.1
    split
    · obtain ⟨ms', hlogout⟩ := handleLogout_claims hb'' hutc
      exact ⟨_, hcheck.trans hlogout⟩
    · exact ⟨ms, hcheck.of_eq rfl rfl rfl rfl rfl rfl⟩

end Claiming

/-! ## The side that is not behind -/

/-- What is kept for a resend, and may be resent, is an application's. -/
def Resendable (s : Session) : Prop :=
  ∀ sent, some sent ∈ s.ring → sent.administrative = false → Application sent.message.msgType

/-- `s'` is `s` after it has sent `ms`, none of which asks the other side for anything. -/
structure Speaks (s s' : Session) (ms : List FixMessage) : Prop where
  out : s'.out = s.out ++ ms
  quiet : ∀ m ∈ ms, Quiet m
  flags : ∀ m ∈ ms, m.msgType = MsgType.logon → m.flag Tag.resetSeqNumFlag = false
  resendable : s.Resendable → s'.Resendable
  inbound : s'.store.seq.inbound = s.store.seq.inbound
  state : s'.state = s.state ∨ s'.state = .loggedOut

namespace Speaks

variable {s s' s'' : Session} {ms ms' : List FixMessage}

theorem refl (s : Session) : Speaks s s [] :=
  ⟨(List.append_nil _).symm, fun _ h => (nomatch h), fun _ h => (nomatch h), id, rfl, .inl rfl⟩

theorem trans (h : Speaks s s' ms) (h' : Speaks s' s'' ms') : Speaks s s'' (ms ++ ms') where
  out := by rw [h'.out, h.out, List.append_assoc]
  quiet := fun m hm => (List.mem_append.mp hm).elim (h.quiet m) (h'.quiet m)
  flags := fun m hm => (List.mem_append.mp hm).elim (h.flags m) (h'.flags m)
  resendable := fun hr => h'.resendable (h.resendable hr)
  inbound := h'.inbound.trans h.inbound
  state := by
    rcases h'.state with h' | h'
    · rw [h']
      exact h.state
    · exact .inr h'

theorem exists_trans (h : ∃ ms, Speaks s s' ms) (h' : ∃ ms, Speaks s' s'' ms) :
    ∃ ms, Speaks s s'' ms := by
  obtain ⟨ms, h⟩ := h
  obtain ⟨ms', h'⟩ := h'
  exact ⟨ms ++ ms', h.trans h'⟩

/-- What a session does besides sending does not count. -/
theorem exists_of_eq {u : Session} (hout : u.out = s.out) (hring : u.ring = s.ring)
    (hinbound : u.store.seq.inbound = s.store.seq.inbound)
    (hstate : u.state = s.state ∨ u.state = .loggedOut) : ∃ ms, Speaks s u ms := by
  refine ⟨[], ?_, fun _ h => (nomatch h), fun _ h => (nomatch h), ?_, hinbound, hstate⟩
  · rw [hout, List.append_nil]
  · intro hr sent hsent
    rw [hring] at hsent
    exact hr sent hsent

end Speaks

section Speaking

variable (s : Session) (now : Now) (m : FixMessage)

theorem emit_speaks {msgType : Text} {body : List (Nat × Text)} {adm : Bool}
    (hquiet : msgType ≠ MsgType.resendRequest ∧ msgType ≠ MsgType.testRequest)
    (hlogon : msgType = MsgType.logon → (⟨body⟩ : FixMessage).flag Tag.resetSeqNumFlag = false)
    (hadm : adm = false → Application msgType) :
    ∃ ms, Speaks s (s.emit durable msgType body now adm).2 ms := by
  have hclaim : s.store.claimOutbound durable = (some s.store.seq.outbound,
      (s.store.store durable { s.store.seq with outbound := s.store.seq.outbound + 1 }).2) := rfl
  unfold emit
  rw [hclaim]
  dsimp only
  split
  · refine ⟨[s.stamp msgType s.store.seq.outbound now.utc body], ?_⟩
    unfold remember
    split
    · refine ⟨rfl, ?_, ?_, id, rfl, .inl rfl⟩
      · intro m hm
        obtain rfl := List.mem_singleton.mp hm
        exact hquiet
      · intro m hm htype
        obtain rfl := List.mem_singleton.mp hm
        unfold FixMessage.flag
        rw [stamp_find _ _ _ _ _ (by decide)]
        exact hlogon htype
    · refine ⟨rfl, ?_, ?_, ?_, rfl, .inl rfl⟩
      · intro m hm
        obtain rfl := List.mem_singleton.mp hm
        exact hquiet
      · intro m hm htype
        obtain rfl := List.mem_singleton.mp hm
        unfold FixMessage.flag
        rw [stamp_find _ _ _ _ _ (by decide)]
        exact hlogon htype
      · intro hr sent hsent hsentAdm
        rcases List.mem_or_eq_of_mem_set hsent with hsent | hsent
        · exact hr sent hsent hsentAdm
        · obtain rfl := Option.some.inj hsent
          exact hadm hsentAdm
  · exact Speaks.exists_of_eq rfl rfl rfl (.inl rfl)

theorem sendGapFill_speaks (start newSeqNo : UInt64) :
    ∃ ms, Speaks s (s.sendGapFill start newSeqNo now) ms := by
  unfold sendGapFill
  dsimp only
  split
  · refine ⟨[_], rfl, ?_, ?_, id, rfl, .inl rfl⟩
    · intro m hm
      obtain rfl := List.mem_singleton.mp hm
      exact ⟨by rw [stamp_msgType]; decide, by rw [stamp_msgType]; decide⟩
    · intro m hm htype
      obtain rfl := List.mem_singleton.mp hm
      rw [stamp_msgType] at htype
      exact absurd htype (by decide)
  · exact ⟨[], .refl s⟩

/-- A resent message keeps what was in the original, but for what frames it and says that it is
one. -/
theorem possDup_find (sent : Sent) {t : Nat} (ht : t ∉ [Tag.beginString, Tag.bodyLength,
    Tag.checkSum, Tag.possDupFlag, Tag.origSendingTime]) : (possDup sent m).find t = m.find t := by
  simp only [List.mem_cons, List.not_mem_nil, or_false, not_or] at ht
  obtain ⟨hbegin, hlength, hsum, hdup, horig⟩ := ht
  obtain ⟨fields⟩ := m
  unfold FixMessage.find possDup
  dsimp only
  congr 1
  induction fields with
  | nil => rfl
  | cons f fields ih =>
    rw [List.flatMap_cons, List.find?_append, ih]
    by_cases hframe : f.1 = Tag.beginString ∨ f.1 = Tag.bodyLength ∨ f.1 = Tag.checkSum
    · have hne : f.1 ≠ t := by
        rintro rfl
        rcases hframe with h | h | h
        · exact hbegin h
        · exact hlength h
        · exact hsum h
      rw [if_pos hframe]
      simp [hne]
    rw [if_neg hframe]
    by_cases hf : f.1 = Tag.sendingTime
    · rw [if_pos hf]
      by_cases hf' : f.1 = t
      · simp [hf']
      · simp [hf', Ne.symm hdup, Ne.symm horig]
    · rw [if_neg hf]
      by_cases hf' : f.1 = t
      · simp [hf']
      · simp [hf']

/-- It is of the type it was sent as. -/
theorem possDup_msgType (sent : Sent) : (possDup sent m).msgType = m.msgType := by
  unfold FixMessage.msgType
  rw [possDup_find m sent (by decide)]

theorem resend_speaks {sent : Sent} (htype : Application sent.message.msgType) :
    ∃ ms, Speaks s (s.resend sent now) ms := by
  unfold resend
  split
  · exact ⟨[], .refl s⟩
  rename_i m hparse
  have hm : m = sent.message := by
    unfold FixMessage.reparse at hparse
    split at hparse <;> cases hparse
    rfl
  have htype' : Application (possDup sent m).msgType := by
    rw [possDup_msgType, hm]
    exact htype
  simp only [Application, List.mem_cons, List.not_mem_nil, or_false, not_or] at htype'
  split
  · refine ⟨[_], rfl, ?_, ?_, id, rfl, .inl rfl⟩
    · intro m' hm'
      obtain rfl := List.mem_singleton.mp hm'
      exact ⟨htype'.2.2.1, htype'.2.1⟩
    · intro m' hm' hlogon
      obtain rfl := List.mem_singleton.mp hm'
      exact absurd hlogon htype'.2.2.2.2.2
  · exact ⟨[], .refl s⟩

theorem recall_mem {s : Session} {seq : UInt64} {sent : Sent} (h : s.recall seq = some sent) :
    some sent ∈ s.ring := by
  unfold Session.recall at h
  obtain ⟨slot, hslot, hsent⟩ := List.exists_of_findSome?_eq_some h
  rw [Option.filter_eq_some_iff] at hsent
  rw [← hsent.1]
  exact hslot

theorem resendStep_speaks {a : UInt64 × Session} (hr : a.2.Resendable) (seq : UInt64) :
    ∃ ms, Speaks a.2 (resendStep now a seq).2 ms := by
  unfold resendStep
  split
  · exact ⟨[], .refl _⟩
  · rename_i sent hsent
    rw [Option.filter_eq_some_iff] at hsent
    have htype : Application sent.message.msgType :=
      hr sent (recall_mem hsent.1) (by simpa using hsent.2)
    refine Speaks.exists_trans ?_ (resend_speaks _ now htype)
    split
    · exact sendGapFill_speaks ..
    · exact ⟨[], .refl _⟩

theorem resendLoop_speaks (seqs : List UInt64) {a : UInt64 × Session} (hr : a.2.Resendable) :
    ∃ ms, Speaks a.2 (seqs.foldl (resendStep now) a).2 ms := by
  induction seqs generalizing a with
  | nil => exact ⟨[], .refl _⟩
  | cons seq seqs ih =>
    obtain ⟨ms, hstep⟩ := resendStep_speaks now hr seq
    exact Speaks.exists_trans ⟨ms, hstep⟩ (ih (hstep.resendable hr))

theorem handleResendRequest_speaks (hr : s.Resendable) :
    ∃ ms, Speaks s (s.handleResendRequest durable m now) ms := by
  unfold handleResendRequest
  split
  · dsimp only
    split
    · exact Speaks.exists_of_eq rfl rfl rfl (.inl rfl)
    · rename_i seqs _
      refine Speaks.exists_trans (resendLoop_speaks now seqs (a := (0, s)) hr) ?_
      split
      · exact sendGapFill_speaks ..
      · exact ⟨[], .refl _⟩
  · exact emit_speaks s now ⟨by decide, by decide⟩ (fun h => absurd h (by decide)) (fun h => (nomatch h))

/-- What is dispatched is answered without asking for anything. -/
theorem dispatch_speaks (hr : s.Resendable) : ∃ ms, Speaks s (s.dispatch durable m now) ms := by
  unfold dispatch
  dsimp only
  split
  · split
    · exact Speaks.exists_of_eq rfl rfl rfl (.inl rfl)
    · exact ⟨[], .refl s⟩
  split
  · exact emit_speaks s now ⟨by decide, by decide⟩ (fun h => absurd h (by decide)) (fun h => (nomatch h))
  split
  · exact handleResendRequest_speaks s now m hr
  split
  · unfold handleLogout
    split
    · exact Speaks.exists_of_eq rfl rfl rfl (.inr rfl)
    · have h : ∃ ms, Speaks s (s.emit durable MsgType.logout [] now true).2 ms :=
        emit_speaks s now ⟨by decide, by decide⟩ (fun h => absurd h (by decide))
          (fun h => (nomatch h))
      generalize (s.emit durable MsgType.logout [] now true).2 = t at h ⊢
      exact Speaks.exists_trans h (Speaks.exists_of_eq rfl rfl rfl (.inr rfl))
  · exact Speaks.exists_of_eq rfl rfl rfl (.inl rfl)

/-- The number that is due is accepted. -/
theorem checkSequence_due {s : Session} {m : FixMessage}
    (hseq : m.seqNum = some s.store.seq.inbound.toInt64) :
    ∃ store, s.checkSequence durable m now = (true, { s with store }) ∧
      store.seq = { s.store.seq with inbound := s.store.seq.inbound + 1 } := by
  unfold checkSequence
  rw [hseq]
  dsimp only
  rw [UInt64.toUInt64_toInt64, if_pos rfl]
  exact ⟨_, rfl, rfl⟩

/-- What is left of a session that has taken the message that was due. -/
structure Hears (s s' : Session) : Prop where
  sends : ∃ ms, s'.out = s.out ++ ms ∧ (∀ m ∈ ms, Quiet m) ∧
    ∀ m ∈ ms, m.msgType = MsgType.logon → m.flag Tag.resetSeqNumFlag = false
  resendable : s'.Resendable
  inbound : s'.store.seq.inbound = s.store.seq.inbound + 1
  state : s'.state ≠ .awaitingResend
  up : s'.state ≠ .disconnected

variable {s : Session} {m : FixMessage}

theorem answerLogon_speaks (hflag : m.flag Tag.resetSeqNumFlag = false) :
    ∃ ms, Speaks s (s.answerLogon durable m now) ms := by
  unfold answerLogon
  split
  · refine emit_speaks s now ⟨by decide, by decide⟩ (fun _ => ?_) (fun h => (nomatch h))
    rw [hflag]
    rfl
  · exact ⟨[], .refl s⟩

theorem handleLogon_hears (hr : s.Resendable) (hseq : m.seqNum = some s.store.seq.inbound.toInt64)
    (hflag : m.flag Tag.resetSeqNumFlag = false) : Hears s (s.handleLogon durable m now) := by
  unfold handleLogon
  dsimp only
  rw [hflag]
  simp only [Bool.false_and, Bool.false_eq_true, if_false]
  have hclear : ∃ ms, Speaks s ({ s with resetRequested := false }.takeInterval m) ms := by
    unfold takeInterval
    split
    · exact Speaks.exists_of_eq rfl rfl rfl (.inl rfl)
    · exact Speaks.exists_of_eq rfl rfl rfl (.inl rfl)
  obtain ⟨ms, h⟩ := Speaks.exists_trans hclear
    (answerLogon_speaks now (s := { s with resetRequested := false }.takeInterval m) hflag)
  generalize ({ s with resetRequested := false }.takeInterval m).answerLogon durable m now = t
    at h ⊢
  have hseq' : m.seqNum = some t.store.seq.inbound.toInt64 := by
    rw [h.inbound]
    exact hseq
  obtain ⟨store, hcheck, hstore⟩ := checkSequence_due now hseq'
  rw [hcheck]
  refine ⟨⟨ms, h.out, h.quiet, h.flags⟩, h.resendable hr, ?_, fun h => (nomatch h),
    fun h => (nomatch h)⟩
  show store.seq.inbound = s.store.seq.inbound + 1
  rw [hstore, ← h.inbound]

/-- **The message that is due** is taken, and nothing is asked for. -/
theorem onMessage_hears (hr : s.Resendable) (hseq : m.seqNum = some s.store.seq.inbound.toInt64)
    (hordinary : Ordinary m) (hstate : s.state ≠ .awaitingResend)
    (hup : s.state = .disconnected → m.msgType = MsgType.logon) :
    Hears s (s.onMessage durable m now) := by
  unfold onMessage handle
  split
  · rename_i htype
    have h := handleLogon_hears now (s := { s with lastReceived := now.steady }) hr hseq
      (hordinary.2 htype)
    exact ⟨h.sends, h.resendable, h.inbound, h.state, h.up⟩
  rename_i htype
  split
  · rename_i hdown
    exact absurd (hup hdown) htype
  rename_i hdown
  rw [if_neg hordinary.1]
  obtain ⟨store, hcheck, hstore⟩ := checkSequence_due now
    (s := { s with lastReceived := now.steady }) hseq
  rw [hcheck]
  dsimp only
  have hr' : { s with lastReceived := now.steady, store }.Resendable := hr
  obtain ⟨ms, h⟩ := dispatch_speaks { s with lastReceived := now.steady, store } now m hr'
  generalize { s with lastReceived := now.steady, store }.dispatch durable m now = t at h ⊢
  refine ⟨⟨ms, h.out, h.quiet, h.flags⟩, h.resendable hr', ?_, ?_, ?_⟩
  · rw [h.inbound]
    exact congrArg SeqPair.inbound hstore
  · intro ht
    rcases h.state with hs | hs
    · exact hstate (hs.symm.trans ht)
    · rw [hs] at ht
      cases ht
  · intro ht
    rcases h.state with hs | hs
    · exact hdown (hs.symm.trans ht)
    · rw [hs] at ht
      cases ht

end Speaking

end Session

end MarketData.Gateway
