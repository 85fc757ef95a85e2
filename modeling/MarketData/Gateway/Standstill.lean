import MarketData.Gateway.InStep

/-!
# `Gateway/Standstill.lean` — when two sessions wait for each other

A session that finds a gap asks for a resend and holds back whatever else comes with a number from
beyond it, the other side's own resend request included. If both sides are behind when they log
on, both requests are held back and neither is answered. If one of them is not, or the Logon
resets the numbers, no run gets there.

## Two halves of different kinds

That a standstill is never reached is a statement about all runs, and its proof is an invariant:
one side stays in step (`Gateway/InStep.lean`), and a side in step waits for nothing. That it is
reached is a statement about one run, for all stores; the run is four deliveries long, each side's
Logon and each side's request, and **the proof computes it with the numbers left open**. `Asked` is
what one side has become after finding its gap, and by symmetry serves for both.

A reset makes the two halves meet. It takes both numbers of both sides back to one, so neither is
behind afterwards, whatever they were before.

The first half leaves out a store whose next number is the last 64-bit one: the number after it is
zero, and what counts as behind would be read the wrong way round.
-/

set_option autoImplicit false

namespace MarketData.Gateway

namespace Link

/-! ## Logging on -/

/-- The number the initiator's Logon carries. -/
def logonNumber (store : SeqStore) (reset : Bool) : UInt64 :=
  if reset then 1 else store.seq.outbound

/-- The initiator right after its Logon, and the Logon. -/
structure LoggingOn (store : SeqStore) (reset : Bool) (a : Session) (m : FixMessage) : Prop where
  state : a.state = .awaitingLogon
  outbound : a.store.seq.outbound = logonNumber store reset + 1
  inbound : a.store.seq.inbound = if reset then 1 else store.seq.inbound
  resetRequested : a.resetRequested = reset
  initiator : a.cfg.initiator = true
  brief : a.Brief
  resendable : a.Resendable
  hung : a.hung = false
  msgType : m.msgType = MsgType.logon
  seqNum : m.seqNum = some (logonNumber store reset).toInt64
  flag : m.flag Tag.resetSeqNumFlag = reset

/-- What `connect` does on a disk that takes every write. -/
theorem connect_durable {s : Session} (hrole : s.cfg.initiator = true) (now : Now) (reset : Bool)
    {t : Session}
    (ht : t = { s with
      store := if reset then (s.store.reset durable).2 else s.store
      resetRequested := reset }) :
    s.connect durable now reset =
      { (t.emit durable MsgType.logon (t.logonBody reset) now true).2 with
        state := .awaitingLogon, lastReceived := now.steady } := by
  unfold Session.connect
  rw [if_neg (by simp [hrole])]
  cases reset with
  | false =>
    simp only [Bool.false_eq_true, if_false] at ht ⊢
    rw [ht]
  | true =>
    simp only [if_true] at ht ⊢
    rw [ht]
    unfold SeqStore.reset
    generalize hst : s.store.store durable ⟨1, 1⟩ = r
    obtain ⟨failed, store⟩ := r
    obtain rfl : none = failed := congrArg Prod.fst hst
    rfl

theorem connect_loggingOn {cfg : SessionConfig} (store : SeqStore) {now : Now} (reset : Bool)
    (hbrief : cfg.senderCompId.length + cfg.targetCompId.length ≤ 7000)
    (hutc : now.utc.length = 21) :
    ∃ m, ((Session.new { cfg with initiator := true } store).call durable
        (.connect now reset)).out = [m] ∧
      LoggingOn store reset { (Session.new { cfg with initiator := true } store).call durable
        (.connect now reset) with out := [] } m := by
  have hring : ∀ sent, some sent ∉ (Session.new { cfg with initiator := true } store).ring := by
    intro sent hsent
    cases List.eq_of_mem_replicate hsent
  have hcall : (Session.new { cfg with initiator := true } store).call durable
      (.connect now reset) = (Session.new { cfg with initiator := true } store).connect durable now
        reset := rfl
  rw [hcall]
  generalize ht : { Session.new { cfg with initiator := true } store with
      store := if reset then (store.reset durable).2 else store
      resetRequested := reset : Session } = t
  rw [connect_durable rfl now reset ht.symm]
  have hout : t.out = [] := by rw [← ht]; rfl
  have hcfg : t.cfg = { cfg with initiator := true } := by rw [← ht]; rfl
  have hring : ∀ sent, some sent ∉ t.ring := by
    rw [← ht]
    exact hring
  have houtbound : t.store.seq.outbound = logonNumber store reset := by
    rw [← ht]
    cases reset with
    | false => rfl
    | true => rfl
  have hinbound : t.store.seq.inbound = if reset then 1 else store.seq.inbound := by
    rw [← ht]
    cases reset with
    | false => rfl
    | true => rfl
  have hreset : t.resetRequested = reset := by rw [← ht]
  have hhung : t.hung = false := by rw [← ht]; rfl
  have hb : t.Brief := by
    unfold Session.Brief
    rw [hcfg]
    exact hbrief
  obtain ⟨s', heq, hout', hseq, -, hcfg', hreset', hhung', hring'⟩ :=
    Session.emit_durable true (Session.logon_fits hb hutc reset t.store.seq.outbound)
  rw [heq]
  refine ⟨_, by rw [hout', hout, List.nil_append], ?_⟩
  exact {
    state := rfl
    outbound := by
      show s'.store.seq.outbound = _
      rw [hseq, houtbound]
    inbound := by
      show s'.store.seq.inbound = _
      rw [hseq]
      exact hinbound
    resetRequested := hreset'.trans hreset
    initiator := by
      show s'.cfg.initiator = true
      rw [hcfg', hcfg]
    brief := by
      show s'.cfg.senderCompId.length + s'.cfg.targetCompId.length ≤ 7000
      rw [hcfg', hcfg]
      exact hbrief
    resendable := by
      intro sent hsent hadm
      rcases hring' sent hsent with h | h
      · exact absurd h (hring sent)
      · rw [h] at hadm
        cases hadm
    hung := hhung'.trans hhung
    msgType := Session.stamp_msgType ..
    seqNum := by rw [Session.stamp_seqNum, houtbound]
    flag := by
      unfold FixMessage.flag
      rw [Session.stamp_find _ _ _ _ _ (by decide)]
      cases reset with
      | false => rfl
      | true => rfl }

section

variable {cfgA cfgB : SessionConfig} {storeA storeB : SeqStore} {now : Now}
  (hbriefA : cfgA.senderCompId.length + cfgA.targetCompId.length ≤ 7000)
  (hbriefB : cfgB.senderCompId.length + cfgB.targetCompId.length ≤ 7000)
  (hutc : now.utc.length = 21)

include hbriefA hutc in
theorem connected_spec (cfgB : SessionConfig) (storeB : SeqStore) (reset : Bool) :
    ∃ m, (connected cfgA cfgB storeA storeB now reset).toB = [m] ∧
    LoggingOn storeA reset (connected cfgA cfgB storeA storeB now reset).a m := by
  obtain ⟨m, hout, ha⟩ := connect_loggingOn storeA reset hbriefA hutc
  exact ⟨m, hout, ha⟩

theorem new_resendable (cfg : SessionConfig) (store : SeqStore) :
    (Session.new cfg store).Resendable := by
  intro sent hsent
  cases List.eq_of_mem_replicate hsent

include hbriefA hutc in
/-- The acceptor expects the number of the Logon. -/
theorem acceptor_inStep (hnext : storeB.seq.inbound = storeA.seq.outbound) :
    InStep (connected cfgA cfgB storeA storeB now false).b
      (connected cfgA cfgB storeA storeB now false).a
      (connected cfgA cfgB storeA storeB now false).toB
      (connected cfgA cfgB storeA storeB now false).toA := by
  obtain ⟨m, htoB, ha⟩ := connected_spec hbriefA hutc cfgB storeB false
  rw [htoB]
  exact {
    state := fun h => (nomatch h)
    numbers := by
      refine ⟨?_, ?_⟩
      · rw [ha.seqNum]
        exact congrArg (fun n => some (UInt64.toInt64 n)) hnext.symm
      · show storeB.seq.inbound + 1 = _
        rw [ha.outbound, hnext]
        rfl
    ordinary := by
      intro m' hm'
      obtain rfl := List.mem_singleton.mp hm'
      refine ⟨?_, fun _ => ha.flag⟩
      rw [ha.msgType]
      decide
    first := fun _ => ⟨m, [], rfl, ha.msgType⟩
    quiet := fun _ hm => (nomatch hm)
    flags := trivial
    role := .inl ha.initiator
    resendable := new_resendable _ _
    brief := ha.brief
    out := ⟨rfl, rfl⟩ }

include hbriefA hbriefB hutc in
/-- The initiator expects the number the acceptor goes on with. -/
theorem initiator_inStep (hnext : storeA.seq.inbound = storeB.seq.outbound) :
    InStep (connected cfgA cfgB storeA storeB now false).a
      (connected cfgA cfgB storeA storeB now false).b
      (connected cfgA cfgB storeA storeB now false).toA
      (connected cfgA cfgB storeA storeB now false).toB := by
  obtain ⟨m, htoB, ha⟩ := connected_spec hbriefA hutc cfgB storeB false
  rw [htoB]
  exact {
    state := by
      rw [ha.state]
      decide
    numbers := by
      show _ = storeB.seq.outbound
      rw [ha.inbound]
      exact hnext
    ordinary := fun _ hm => (nomatch hm)
    first := by
      intro h
      rw [ha.state] at h
      cases h
    quiet := by
      intro m' hm'
      obtain rfl := List.mem_singleton.mp hm'
      unfold Quiet
      rw [ha.msgType]
      decide
    flags := by
      refine ⟨fun _ hflag => ?_, trivial⟩
      rw [ha.flag] at hflag
      cases hflag
    role := by
      refine .inr fun m' hm' _ => ?_
      obtain rfl := List.mem_singleton.mp hm'
      exact ha.flag
    resendable := ha.resendable
    brief := hbriefB
    out := ⟨rfl, rfl⟩ }

/-- An acceptor that a Logon finds down resets its numbers as the Logon asks, answers under the
first one, and expects the second. -/
theorem onMessage_reset {b : Session} {m : FixMessage} {now : Now} (hb : b.Brief)
    (hutc : now.utc.length = 21)
    (hrole : b.cfg.initiator = false) (hdown : b.state = .disconnected)
    (hasked : b.resetRequested = false) (hr : b.Resendable) (htype : m.msgType = MsgType.logon)
    (hflag : m.flag Tag.resetSeqNumFlag = true) (hseq : m.seqNum = some (1 : UInt64).toInt64) :
    (b.onMessage durable m now).state = .active ∧
      (b.onMessage durable m now).store.seq.inbound = 2 ∧
      (b.onMessage durable m now).Resendable ∧
      ∃ m', (b.onMessage durable m now).out = b.out ++ [m'] ∧ m'.msgType = MsgType.logon := by
  unfold Session.onMessage Session.handle
  rw [if_pos htype]
  unfold Session.handleLogon
  simp only [hflag, hasked, Bool.not_false, Bool.and_self, if_true]
  unfold SeqStore.reset
  generalize hst : b.store.store durable ⟨1, 1⟩ = r
  obtain ⟨failed, store⟩ := r
  obtain rfl : none = failed := congrArg Prod.fst hst
  have hstore : store.seq = ⟨1, 1⟩ := SeqStore.store_synced_seq hst
  dsimp only
  -- the interval is the only thing `takeInterval` changes
  obtain ⟨t, ht, hcfg, htb⟩ : ∃ t, { b with
      lastReceived := now.steady, resetRequested := false, store }.takeInterval m = t ∧
      t.cfg.initiator = false ∧ t.Brief ∧ t.state = .disconnected ∧ t.store = store ∧
      t.Resendable ∧ t.out = b.out := by
    refine ⟨_, rfl, ?_⟩
    unfold Session.takeInterval
    split
    · exact ⟨hrole, hb, hdown, rfl, hr, rfl⟩
    · exact ⟨hrole, hb, hdown, rfl, hr, rfl⟩
  obtain ⟨hbt, hdown', hstore', hrt, hout⟩ := htb
  rw [ht]
  unfold Session.answerLogon
  rw [if_pos ⟨by simp [hcfg], hdown'⟩, hflag]
  obtain ⟨u, heq, hout', hseq', -, -, -, -, hring⟩ :=
    Session.emit_durable true (Session.logon_fits hbt hutc true t.store.seq.outbound)
  rw [heq]
  have hdue : m.seqNum = some u.store.seq.inbound.toInt64 := by
    rw [hseq', hstore', hstore]
    exact hseq
  obtain ⟨store', hcheck, hin⟩ := Session.checkSequence_due now hdue
  rw [hcheck]
  refine ⟨rfl, ?_, ?_, t.stamp MsgType.logon t.store.seq.outbound now.utc (t.logonBody true), ?_,
    rfl⟩
  · show store'.seq.inbound = 2
    rw [hin, hseq', hstore', hstore]
    rfl
  · intro sent hsent hadm
    rcases hring sent hsent with h | h
    · exact hrt sent h hadm
    · rw [h] at hadm
      cases hadm
  · show u.out = _
    rw [hout', hout]

include hbriefA hbriefB hutc in
/-- After a reset nobody is behind: until the acceptor takes the Logon nothing happens, and then
both start over. -/
theorem step_of_reset {e : LinkEvent} (he : (connected cfgA cfgB storeA storeB now true).Allowed e) :
    (connected cfgA cfgB storeA storeB now true).step e =
        connected cfgA cfgB storeA storeB now true ∨
      ((connected cfgA cfgB storeA storeB now true).step e).OneInStep := by
  obtain ⟨m, htoB, ha⟩ := connected_spec hbriefA hutc cfgB storeB true
  have hb : (connected cfgA cfgB storeA storeB now true).b =
      .new { cfgB with initiator := false } storeB := rfl
  have htoA : (connected cfgA cfgB storeA storeB now true).toA = [] := rfl
  have hout : (connected cfgA cfgB storeA storeB now true).a.out = [] := rfl
  generalize connected cfgA cfgB storeA storeB now true = l at htoB ha hb htoA hout he ⊢
  obtain ⟨a, b, toA, toB⟩ := l
  dsimp only at htoB ha hb htoA hout
  subst htoB htoA hb
  cases e with
  | deliverA now' => exact .inl rfl
  | sendA msgType body now' =>
    refine .inl ?_
    have hidle : a.call durable (.send msgType body now') = a := by
      simp [Session.call, ha.hung, Session.sendApplication, ha.state]
    unfold step callA
    dsimp only
    rw [hidle, hout, List.append_nil]
    congr 1
    rw [← hout]
  | sendB msgType body now' => exact .inl rfl
  | deliverB now' =>
    refine .inr (.inr ?_)
    have hcall : (Session.new { cfgB with initiator := false } storeB).call durable
        (.message m now') = (Session.new { cfgB with initiator := false } storeB).onMessage durable m
          now' := rfl
    unfold step callB
    dsimp only
    rw [if_neg (by exact Bool.false_ne_true), hcall]
    have hutc' : now'.utc.length = 21 := he
    have hbrief : (Session.new { cfgB with initiator := false } storeB).Brief := hbriefB
    obtain ⟨hstate, hin, hr, m', hout', htype'⟩ := onMessage_reset hbrief hutc' rfl rfl rfl
      (new_resendable { cfgB with initiator := false } storeB) ha.msgType ha.flag ha.seqNum
    generalize (Session.new { cfgB with initiator := false } storeB).onMessage durable m now' = b
      at hstate hin hr hout' ⊢
    exact {
      state := by
        show b.state ≠ _
        rw [hstate]
        decide
      numbers := by
        show b.store.seq.inbound = a.store.seq.outbound
        rw [hin, ha.outbound]
        rfl
      ordinary := fun _ hm => (nomatch hm)
      first := by
        intro h
        rw [show b.state = .disconnected from h] at hstate
        cases hstate
      quiet := by
        intro m'' hm''
        have hm'' : m'' ∈ b.out := hm''
        rw [hout'] at hm''
        obtain rfl := List.mem_singleton.mp hm''
        unfold Quiet
        rw [htype']
        decide
      flags := by
        show FlagsKnown a.resetRequested b.out
        rw [hout', ha.resetRequested]
        exact ⟨fun _ _ => rfl, trivial⟩
      role := .inl ha.initiator
      resendable := hr
      brief := ha.brief
      out := ⟨rfl, hout⟩ }

include hbriefA hbriefB hutc in
/-- **No standstill** where the Logon resets the numbers, or one side is not behind. -/
theorem not_standstill {reset : Bool}
    (hone : reset = true ∨ storeA.seq.inbound = storeB.seq.outbound ∨
      storeB.seq.inbound = storeA.seq.outbound)
    (events : List LinkEvent)
    (hallowed : Run.Along step Allowed (connected cfgA cfgB storeA storeB now reset) events) :
    ¬((connected cfgA cfgB storeA storeB now reset).run events).Standstill := by
  have hinv : ∀ l : Link, l = connected cfgA cfgB storeA storeB now true ∨ l.OneInStep →
      ¬l.Standstill := by
    rintro l (rfl | h)
    · obtain ⟨m, -, ha⟩ := connected_spec hbriefA hutc cfgB storeB true
      rintro ⟨hstate, -⟩
      rw [ha.state] at hstate
      cases hstate
    · exact h.not_standstill
  apply hinv
  refine hallowed.invariant
    (fun l => l = connected cfgA cfgB storeA storeB now true ∨ l.OneInStep) ?_ ?_
  · rintro l e (rfl | h) he
    · exact step_of_reset hbriefA hbriefB hutc he
    · exact .inr (h.step he)
  · cases reset with
    | true => exact .inl rfl
    | false =>
      rcases hone with hreset | hnext | hnext
      · cases hreset
      · exact .inr (.inl (initiator_inStep hbriefA hbriefB hutc hnext))
      · exact .inr (.inr (acceptor_inStep hbriefA hutc hnext))

end

/-! ## Both behind -/

/-- A number from beyond the expected one is held back; the first time a resend is asked for. -/
theorem checkSequence_beyond {s : Session} {m : FixMessage} {now : Now} {n : UInt64} (hb : s.Brief)
    (hutc : now.utc.length = 21) (hseq : m.seqNum = some n.toInt64)
    (hbeyond : s.store.seq.inbound < n) :
    ∃ t, s.checkSequence durable m now = (false, t) ∧ t.state = .awaitingResend ∧
      t.store.seq.inbound = s.store.seq.inbound ∧ t.hung = s.hung ∧ t.Brief ∧
      ((s.state = .awaitingResend ∧ t.out = s.out) ∨
        (s.state ≠ .awaitingResend ∧ ∃ m', t.out = s.out ++ [m'] ∧
          m'.msgType = MsgType.resendRequest ∧ m'.seqNum = some s.store.seq.outbound.toInt64)) := by
  unfold Session.checkSequence
  rw [hseq]
  dsimp only
  rw [UInt64.toUInt64_toInt64, if_neg (UInt64.ne_of_lt hbeyond).symm,
    if_neg (UInt64.not_lt.mpr (UInt64.le_of_lt hbeyond))]
  refine ⟨_, rfl, ?_⟩
  by_cases hstate : s.state = .awaitingResend
  · rw [if_neg (by simp [hstate])]
    exact ⟨hstate, rfl, rfl, hb, .inl ⟨hstate, rfl⟩⟩
  · rw [if_pos hstate]
    have hfits : ({ s with state := .awaitingResend }.stamp MsgType.resendRequest
        s.store.seq.outbound now.utc [(Tag.beginSeqNo, intText s.store.seq.inbound.toInt64.toInt),
          (Tag.endSeqNo, ['0'])]).fits maxMessage = true := by
      refine Session.stamp_fits hb hutc rfl ?_ _
      have hnumber := length_intText_le s.store.seq.inbound.toInt64
      have hbegin := length_intText_tag (t := Tag.beginSeqNo) (by decide)
      have hend := length_intText_tag (t := Tag.endSeqNo) (by decide)
      simp only [List.map_cons, List.map_nil, List.sum_cons, List.sum_nil, List.length_cons,
        List.length_nil]
      omega
    obtain ⟨u, heq, hout, hseq', hstate', hcfg, -, hhung, -⟩ := Session.emit_durable true hfits
    unfold Session.sendResendRequest
    rw [heq]
    refine ⟨hstate', ?_, hhung, ?_, .inr ⟨hstate, _, hout, rfl, Session.stamp_seqNum ..⟩⟩
    · show u.store.seq.inbound = _
      rw [hseq']
    · show u.cfg.senderCompId.length + u.cfg.targetCompId.length ≤ 7000
      rw [hcfg]
      exact hb

/-- A session that has found a gap: what it sent on the way, and that it waits. -/
structure Asked (s t : Session) (greeting : List FixMessage) (request : FixMessage) : Prop where
  out : t.out = s.out ++ greeting ++ [request]
  state : t.state = .awaitingResend
  inbound : t.store.seq.inbound = s.store.seq.inbound
  hung : t.hung = s.hung
  brief : t.Brief
  msgType : request.msgType = MsgType.resendRequest
  seqNum : request.seqNum = some (s.store.seq.outbound + UInt64.ofNat greeting.length).toInt64

/-- A Logon from beyond the expected number: an acceptor that was down answers it, and either side
asks for a resend. -/
theorem onMessage_logon_beyond {s : Session} {m : FixMessage} {now : Now} {n : UInt64}
    (hb : s.Brief) (hutc : now.utc.length = 21) (hwait : s.state ≠ .awaitingResend)
    (htype : m.msgType = MsgType.logon) (hflag : m.flag Tag.resetSeqNumFlag = false)
    (hseq : m.seqNum = some n.toInt64) (hbeyond : s.store.seq.inbound < n) :
    ∃ greeting request, Asked s (s.onMessage durable m now) greeting request ∧
      ((¬(¬s.cfg.initiator = true ∧ s.state = .disconnected) ∧ greeting = []) ∨
        (¬s.cfg.initiator = true ∧ s.state = .disconnected) ∧
        ∃ m', greeting = [m'] ∧ m'.msgType = MsgType.logon ∧
          m'.flag Tag.resetSeqNumFlag = false ∧
          m'.seqNum = some s.store.seq.outbound.toInt64) := by
  unfold Session.onMessage Session.handle
  rw [if_pos htype]
  unfold Session.handleLogon
  simp only [hflag, Bool.false_and, Bool.false_eq_true, if_false]
  -- the interval is the only thing `takeInterval` changes
  obtain ⟨t, ht, hrole, hbt, hstate, hstore, hout, hhung⟩ : ∃ t, { s with
      lastReceived := now.steady, resetRequested := false }.takeInterval m = t ∧
      t.cfg.initiator = s.cfg.initiator ∧ t.Brief ∧ t.state = s.state ∧ t.store = s.store ∧
      t.out = s.out ∧ t.hung = s.hung := by
    refine ⟨_, rfl, ?_⟩
    unfold Session.takeInterval
    split
    · exact ⟨rfl, hb, rfl, rfl, rfl, rfl⟩
    · exact ⟨rfl, hb, rfl, rfl, rfl, rfl⟩
  rw [ht]
  unfold Session.answerLogon
  have hsame : (¬t.cfg.initiator = true ∧ t.state = .disconnected) ↔
      ¬s.cfg.initiator = true ∧ s.state = .disconnected := by rw [hrole, hstate]
  by_cases hdown : ¬t.cfg.initiator = true ∧ t.state = .disconnected
  · rw [if_pos hdown, hflag]
    obtain ⟨u, heq, hout', hseq', hstate', hcfg', -, hhung', -⟩ :=
      Session.emit_durable true (Session.logon_fits hbt hutc false t.store.seq.outbound)
    rw [heq]
    have hbu : u.Brief := by
      unfold Session.Brief
      rw [hcfg']
      exact hbt
    obtain ⟨v, hcheck, hv, hin, hhung'', hbv, hcase⟩ := checkSequence_beyond hbu hutc hseq (by
      rw [hseq', hstore]
      exact hbeyond)
    rw [hcheck]
    rcases hcase with ⟨habsurd, -⟩ | ⟨-, m', hout'', htype', hseq''⟩
    · rw [hstate', hstate] at habsurd
      exact absurd habsurd hwait
    · refine ⟨[t.stamp MsgType.logon t.store.seq.outbound now.utc (t.logonBody false)], m', ?_,
        .inr ⟨hsame.mp hdown, _, rfl, rfl, ?_, ?_⟩⟩
      · refine ⟨?_, hv, ?_, ?_, hbv, htype', ?_⟩
        · show v.out = _
          rw [hout'', hout', hout]
        · show v.store.seq.inbound = _
          rw [hin, hseq', hstore]
        · show v.hung = _
          rw [hhung'', hhung', hhung]
        · rw [hseq'', hseq', hstore]
          rfl
      · unfold FixMessage.flag
        rw [Session.stamp_find _ _ _ _ _ (by decide)]
        rfl
      · rw [Session.stamp_seqNum, hstore]
  · rw [if_neg hdown]
    obtain ⟨v, hcheck, hv, hin, hhung', hbv, hcase⟩ := checkSequence_beyond hbt hutc hseq (by
      rw [hstore]
      exact hbeyond)
    rw [hcheck]
    rcases hcase with ⟨habsurd, -⟩ | ⟨-, m', hout', htype', hseq'⟩
    · rw [hstate] at habsurd
      exact absurd habsurd hwait
    · refine ⟨[], m', ?_, .inl ⟨fun h => hdown (hsame.mpr h), rfl⟩⟩
      refine ⟨?_, hv, ?_, ?_, hbv, htype', ?_⟩
      · show v.out = _
        rw [hout', hout, List.append_nil]
      · show v.store.seq.inbound = _
        rw [hin, hstore]
      · show v.hung = _
        rw [hhung', hhung]
      · rw [hseq', hstore]
        show _ = some (s.store.seq.outbound + 0).toInt64
        rw [UInt64.add_zero]

/-- A resend request from beyond the expected number is held back too. -/
theorem onMessage_request_beyond {s : Session} {m : FixMessage} {now : Now} {n : UInt64}
    (hb : s.Brief) (hutc : now.utc.length = 21) (hwait : s.state = .awaitingResend)
    (htype : m.msgType = MsgType.resendRequest) (hseq : m.seqNum = some n.toInt64)
    (hbeyond : s.store.seq.inbound < n) :
    (s.onMessage durable m now).state = .awaitingResend ∧
      (s.onMessage durable m now).out = s.out := by
  unfold Session.onMessage Session.handle
  rw [if_neg (by rw [htype]; decide), if_neg (by rw [hwait]; decide),
    if_neg (by rw [htype]; decide)]
  obtain ⟨t, hcheck, ht, -, -, -, hcase⟩ := checkSequence_beyond
    (s := { s with lastReceived := now.steady }) hb hutc hseq hbeyond
  rw [hcheck]
  rcases hcase with ⟨-, hout⟩ | ⟨habsurd, -⟩
  · exact ⟨ht, hout⟩
  · exact absurd hwait habsurd

theorem step_deliverA {a b : Session} {m : FixMessage} {toA toB : List FixMessage} (now : Now)
    (hhung : a.hung = false) :
    step ⟨a, b, m :: toA, toB⟩ (.deliverA now) =
      ⟨{ a.onMessage durable m now with out := [] }, b, toA,
        toB ++ (a.onMessage durable m now).out⟩ := by
  simp [step, callA, Session.call, hhung]

theorem step_deliverB {a b : Session} {m : FixMessage} {toA toB : List FixMessage} (now : Now)
    (hhung : b.hung = false) :
    step ⟨a, b, toA, m :: toB⟩ (.deliverB now) =
      ⟨a, { b.onMessage durable m now with out := [] },
        toA ++ (b.onMessage durable m now).out, toB⟩ := by
  simp [step, callB, Session.call, hhung]

theorem lt_add_one {i n : UInt64} (h : i < n) (hn : n + 1 ≠ 0) : i < n + 1 := by
  have hone : (1 : UInt64).toNat = 1 := rfl
  have hne : (n + 1).toNat ≠ 0 := by
    intro h0
    exact hn (UInt64.toNat_inj.mp h0)
  have hlt := n.toNat_lt
  rw [UInt64.toNat_add] at hne
  rw [UInt64.lt_iff_toNat_lt] at h ⊢
  rw [UInt64.toNat_add]
  omega

/-- **Standstill**: both are behind, and each holds the other's request back. -/
theorem standstill_of_both_behind {cfgA cfgB : SessionConfig} {storeA storeB : SeqStore} {now : Now}
    (hbriefA : cfgA.senderCompId.length + cfgA.targetCompId.length ≤ 7000)
    (hbriefB : cfgB.senderCompId.length + cfgB.targetCompId.length ≤ 7000)
    (hutc : now.utc.length = 21)
    (hlast : storeA.seq.outbound + 1 ≠ 0) (hlast' : storeB.seq.outbound + 1 ≠ 0)
    (hbehindA : storeA.seq.inbound < storeB.seq.outbound)
    (hbehindB : storeB.seq.inbound < storeA.seq.outbound) :
    ((connected cfgA cfgB storeA storeB now false).run
      [.deliverB now, .deliverA now, .deliverA now, .deliverB now]).Standstill := by
  obtain ⟨m, htoB, ha⟩ := connected_spec hbriefA hutc cfgB storeB false
  have hb : (connected cfgA cfgB storeA storeB now false).b =
      .new { cfgB with initiator := false } storeB := rfl
  have htoA : (connected cfgA cfgB storeA storeB now false).toA = [] := rfl
  have houtA : (connected cfgA cfgB storeA storeB now false).a.out = [] := rfl
  generalize connected cfgA cfgB storeA storeB now false = l at htoB ha hb htoA houtA ⊢
  obtain ⟨a, b, toA, toB⟩ := l
  dsimp only at htoB ha hb htoA houtA
  subst htoB htoA
  have hbrief : b.Brief := by
    rw [hb]
    exact hbriefB
  have hdown : b.state = .disconnected := by rw [hb]; rfl
  have hhung : b.hung = false := by rw [hb]; rfl
  have houtB : b.out = [] := by rw [hb]; rfl
  have hin : b.store.seq = storeB.seq := by rw [hb]; rfl
  have hrole : b.cfg.initiator ≠ true := by
    rw [hb]
    exact Bool.false_ne_true
  -- the acceptor answers the Logon and asks for a resend
  obtain ⟨greeting, requestB, hB, hgreeting⟩ := onMessage_logon_beyond hbrief hutc
    (by rw [hdown]; decide) ha.msgType ha.flag ha.seqNum (by rw [hin]; exact hbehindB)
  obtain ⟨logonB, rfl, htypeB, hflagB, hseqB⟩ : ∃ m', greeting = [m'] ∧
      m'.msgType = MsgType.logon ∧ m'.flag Tag.resetSeqNumFlag = false ∧
      m'.seqNum = some b.store.seq.outbound.toInt64 := by
    rcases hgreeting with ⟨h, -⟩ | ⟨-, h⟩
    · exact absurd ⟨hrole, hdown⟩ h
    · exact h
  have hrun : ∀ (l : Link) (e : LinkEvent) es, l.run (e :: es) = (l.step e).run es :=
    fun _ _ _ => rfl
  rw [hrun, step_deliverB now hhung, hB.out, houtB]
  have hBseq := hB.seqNum
  rw [hin] at hseqB hBseq
  obtain ⟨b', hb', hBin, hBstate, hBhung, hBbrief, hBout⟩ : ∃ b' : Session,
      { b.onMessage durable m now with out := [] } = b' ∧
      b'.store.seq.inbound = storeB.seq.inbound ∧ b'.state = .awaitingResend ∧ b'.hung = false ∧
      b'.Brief ∧ b'.out = [] := by
    refine ⟨_, rfl, ?_, hB.state, hB.hung.trans hhung, hB.brief, rfl⟩
    show (b.onMessage durable m now).store.seq.inbound = _
    rw [hB.inbound, hin]
  rw [hb']
  -- the initiator asks for a resend
  obtain ⟨greeting', requestA, hA, hgreeting'⟩ := onMessage_logon_beyond ha.brief hutc
    (by rw [ha.state]; decide) htypeB hflagB hseqB (by
      rw [ha.inbound]
      exact hbehindA)
  obtain rfl : greeting' = [] := by
    rcases hgreeting' with ⟨-, h⟩ | ⟨⟨h, -⟩, -⟩
    · exact h
    · exact absurd ha.initiator h
  rw [List.nil_append, List.nil_append, List.cons_append, List.nil_append, hrun,
    step_deliverA now ha.hung, hA.out, houtA]
  have hAseq := hA.seqNum
  rw [ha.outbound] at hAseq
  obtain ⟨a', ha', hAin, hAstate, hAhung, hAbrief, hAout⟩ : ∃ a' : Session,
      { a.onMessage durable logonB now with out := [] } = a' ∧
      a'.store.seq.inbound = storeA.seq.inbound ∧ a'.state = .awaitingResend ∧ a'.hung = false ∧
      a'.Brief ∧ a'.out = [] := by
    refine ⟨_, rfl, ?_, hA.state, hA.hung.trans ha.hung, hA.brief, rfl⟩
    show (a.onMessage durable logonB now).store.seq.inbound = _
    rw [hA.inbound, ha.inbound]
    rfl
  rw [ha']
  -- and each holds the other's request back
  rw [hrun, step_deliverA now hAhung]
  obtain ⟨hstate, hout⟩ := onMessage_request_beyond hAbrief hutc hAstate hB.msgType hBseq (by
    rw [hAin]
    exact lt_add_one hbehindA hlast')
  rw [hout, hAout, List.append_nil, List.nil_append, List.nil_append, List.nil_append, hrun,
    step_deliverB now hBhung]
  obtain ⟨hstate', hout'⟩ := onMessage_request_beyond hBbrief hutc hBstate hA.msgType hAseq (by
    show b'.store.seq.inbound < storeA.seq.outbound + 1 + 0
    rw [hBin, UInt64.add_zero]
    exact lt_add_one hbehindB hlast)
  rw [hout', hBout]
  exact ⟨hstate, hstate', rfl, rfl⟩

/-- **Two sessions come to a standstill where both are behind**, and nowhere else. The first half
is about every run, the second says that one of them gets there; it leaves out a store whose next
number is the last of all. -/
theorem never_standstill_unless_both_behind {cfgA cfgB : SessionConfig} {storeA storeB : SeqStore}
    {now : Now} (reset : Bool)
    (hbriefA : cfgA.senderCompId.length + cfgA.targetCompId.length ≤ 7000)
    (hbriefB : cfgB.senderCompId.length + cfgB.targetCompId.length ≤ 7000)
    (hutc : now.utc.length = 21) (hA : storeA.seq.inbound ≤ storeB.seq.outbound)
    (hB : storeB.seq.inbound ≤ storeA.seq.outbound) :
    ((reset = true ∨ ¬(storeA.seq.inbound < storeB.seq.outbound ∧
        storeB.seq.inbound < storeA.seq.outbound)) →
      ∀ events, Run.Along step Allowed (connected cfgA cfgB storeA storeB now reset) events →
        ¬((connected cfgA cfgB storeA storeB now reset).run events).Standstill) ∧
    (reset = false → storeA.seq.outbound + 1 ≠ 0 → storeB.seq.outbound + 1 ≠ 0 →
      storeA.seq.inbound < storeB.seq.outbound ∧ storeB.seq.inbound < storeA.seq.outbound →
      ∃ events, Run.Along step Allowed (connected cfgA cfgB storeA storeB now reset) events ∧
        ((connected cfgA cfgB storeA storeB now reset).run events).Standstill) := by
  constructor
  · intro hone
    apply not_standstill hbriefA hbriefB hutc
    rcases hone with hreset | hone
    · exact .inl hreset
    · by_cases hlt : storeA.seq.inbound < storeB.seq.outbound
      · refine .inr (.inr (UInt64.le_antisymm hB (UInt64.not_lt.mp fun hlt' => hone ⟨hlt, hlt'⟩)))
      · exact .inr (.inl (UInt64.le_antisymm hA (UInt64.not_lt.mp hlt)))
  · rintro rfl hlast hlast' ⟨hbehindA, hbehindB⟩
    exact ⟨[.deliverB now, .deliverA now, .deliverA now, .deliverB now],
      ⟨hutc, hutc, hutc, hutc, trivial⟩,
      standstill_of_both_behind hbriefA hbriefB hutc hlast hlast' hbehindA hbehindB⟩

/-- A store that has come this far. -/
def storeAt (outbound inbound : UInt64) : SeqStore := { seq := ⟨outbound, inbound⟩ }

/-- A moment of the wall clock. -/
def moment : Now := ⟨0, "20260101-00:00:00.000".toList⟩

/-- The acceptor has missed two messages and the initiator none. -/
theorem never_standstill_when_acceptor_behind :
    let l := connected ⟨['I'], ['A'], 30, fun i => i / 5, 4, true⟩
      ⟨['A'], ['I'], 30, fun i => i / 5, 4, false⟩ (storeAt 3 1) (storeAt 1 1) moment false
    let events := [LinkEvent.deliverB moment, .deliverA moment, .deliverA moment, .deliverB moment]
    (storeAt 3 1).seq.inbound = (storeAt 1 1).seq.outbound ∧ (l.run events).b.state = .active ∧
      ¬(l.run events).Standstill := by
  refine ⟨by decide, by decide +kernel, ?_⟩
  refine (never_standstill_unless_both_behind false (by decide) (by decide) (by decide +kernel)
    (by decide) (by decide)).1 (.inr (by decide)) _ ?_
  refine ⟨?_, ?_, ?_, ?_, trivial⟩ <;> unfold Allowed <;> decide +kernel

/-- Each has missed two messages of the other: they log on and wait for ever. -/
theorem standstill_when_both_behind :
    (storeAt 3 1).seq.inbound ≤ (storeAt 3 1).seq.outbound ∧
      ((connected ⟨['I'], ['A'], 30, fun i => i / 5, 4, true⟩
        ⟨['A'], ['I'], 30, fun i => i / 5, 4, false⟩ (storeAt 3 1) (storeAt 3 1) moment false).run
        [.deliverB moment, .deliverA moment, .deliverA moment, .deliverB moment]).Standstill := by
  decide +kernel

end Link

end MarketData.Gateway
