import MarketData.Gateway.Fix
import MarketData.Gateway.SeqStore

/-!
# `Gateway/Session.lean` — the FIX session layer

`cpp/gateway/src/session.cpp`: a state machine over inbound messages, the clock and the caller's
sends. What goes to the sink is kept in `out` and what `on_app` is called with in `apps`, both in
order. The disk under the sequence store is an argument, and so is the time of the call: one
reading of both clocks for all that a call sends.

A resend request up to the last 64-bit number never comes back: the loop over the range steps past
its end to zero. The session is then `hung`, in the state the loop found it in.

## Calls in, messages out

A session has no thread of its own: everything it does is done in a call, and `Call` lists them. The
sink and the callback are lists rather than functions, so that what was sent and told can be asked
for after the call, in order; nothing in the session reads them. The order *between* the two is not
kept. Where it matters, which is when a process is killed inside a call, `Gateway/Delivery.lean`
leaves it open.

## States that are not enforced

The state is a field that callers of `emit` and `fail` assign, and the source assigns it in some
places after a call that has assigned it already. The model does the same, line by line: `connect`,
`logout` and `handleLogon` overwrite what a refused number has just set. **No structure ties the
state to the other fields**, because the source has no such tie; what holds between them is proved
where it holds (`Gateway/Gaps.lean`, `Gateway/Failure.lean`).

A `Session` keeps messages as fields. Two questions about their text cannot be avoided, whether one
fits its buffer and whether a copy that is sent again can be parsed, and are answered by counting
(`Gateway/Fix.lean`). The tolerance for a late heartbeat is a product of doubles and stays a
function of the configuration.
-/

set_option autoImplicit false

namespace MarketData.Gateway

inductive SessionState where
  | disconnected
  /-- Logon sent, waiting for the counterparty's. -/
  | awaitingLogon
  | active
  /-- A gap was detected inbound and a `ResendRequest` is outstanding. -/
  | awaitingResend
  | awaitingLogout
  | loggedOut
  deriving DecidableEq, Repr

inductive SessionError where
  | none
  | sequenceReversal
  | backwardsSequenceReset
  | unresponsive
  | storeFailure
  | corrupt
  deriving DecidableEq, Repr

structure SessionConfig where
  senderCompId : Text
  targetCompId : Text
  heartbeatIntervalSeconds : Int32 := 30
  /-- The tolerance for an interval, in ticks of the steady clock: a product of doubles. -/
  tolerance : Int → Int := fun interval => interval / 5
  resendRing : Nat := 4096
  initiator : Bool := true

/-- An outbound message held for a resend. -/
structure Sent where
  seq : UInt64
  message : FixMessage
  sendingTime : Text
  administrative : Bool
  deriving DecidableEq, Repr

/-- The steady clock, which drives the timers, and the wall clock as FIX writes it. -/
structure Now where
  steady : Int
  utc : Text
  deriving DecidableEq, Repr

structure Session where
  cfg : SessionConfig
  store : SeqStore
  state : SessionState := .disconnected
  error : SessionError := .none
  lastSent : Int := 0
  lastReceived : Int := 0
  testRequestOutstanding : Bool := false
  testRequestId : UInt64 := 0
  /-- Set when *we* sent `ResetSeqNumFlag=Y`, until the counterparty's Logon. -/
  resetRequested : Bool := false
  /-- Traffic from beyond a hole. -/
  queued : List FixMessage := []
  ring : List (Option Sent)
  ringNext : Nat := 0
  out : List FixMessage := []
  apps : List FixMessage := []
  /-- The call in progress never returns. -/
  hung : Bool := false

/-- `MAX_MESSAGE` -/
def maxMessage : Nat := 8192

/-- Ticks of the steady clock in a second. -/
def second : Int := 1000000000

namespace Session

def new (cfg : SessionConfig) (store : SeqStore) : Session :=
  { cfg, store, ring := List.replicate cfg.resendRing none }

variable (disk : Disk)

/-! ## Outbound -/

def remember (s : Session) (sent : Sent) : Session :=
  if s.ring = [] then s
  else
    { s with
      ring := s.ring.set s.ringNext (some sent)
      ringNext := (s.ringNext + 1) % s.ring.length }

def «recall» (s : Session) (seq : UInt64) : Option Sent :=
  s.ring.findSome? fun slot => slot.filter fun sent => sent.seq = seq

/-- A message under this session's header. -/
def stamp (s : Session) (msgType : Text) (seq : UInt64) (utc : Text) (body : List (Nat × Text)) :
    FixMessage :=
  ⟨[(Tag.msgType, msgType),
    (Tag.senderCompId, s.cfg.senderCompId),
    (Tag.targetCompId, s.cfg.targetCompId),
    (Tag.msgSeqNum, intText seq.toInt64.toInt),
    (Tag.sendingTime, utc)] ++ body⟩

/-- Sends under a number claimed from the store. A message the buffer does not hold is not sent,
and its number is spent. -/
def emit (s : Session) (msgType : Text) (body : List (Nat × Text)) (now : Now)
    (administrative : Bool) : Bool × Session :=
  match s.store.claimOutbound disk with
  | (none, store) => (false, { s with store, error := .storeFailure, state := .loggedOut })
  | (some seq, store) =>
    let m := s.stamp msgType seq now.utc body
    if m.fits maxMessage then
      let s := { s with store }.remember ⟨seq, m, now.utc, administrative⟩
      (true, { s with out := s.out ++ [m], lastSent := now.steady })
    else (false, { s with store, error := .corrupt })

def resetForNewConnection (s : Session) : Session :=
  { s with
    state := .disconnected
    error := .none
    lastSent := 0
    lastReceived := 0
    testRequestOutstanding := false
    resetRequested := false
    queued := []
    ring := s.ring.map fun _ => none
    ringNext := 0 }

/-- The body of a Logon. -/
def logonBody (s : Session) (reset : Bool) : List (Nat × Text) :=
  [(Tag.encryptMethod, ['0']),
    (Tag.heartBtInt, intText s.cfg.heartbeatIntervalSeconds.toInt)] ++
    if reset then [(Tag.resetSeqNumFlag, ['Y'])] else []

/-- Sends the logon. Initiator only. -/
def connect (s : Session) (now : Now) (resetSequences : Bool) : Session :=
  if ¬ s.cfg.initiator then s
  else
    let (failed, store) := if resetSequences then s.store.reset disk else (none, s.store)
    let s := { s with store }
    match failed with
    | some _ => { s with error := .storeFailure, state := .loggedOut }
    | none =>
      let s := { s with resetRequested := resetSequences }
      let s := (s.emit disk MsgType.logon (s.logonBody resetSequences) now true).2
      { s with state := .awaitingLogon, lastReceived := now.steady }

/-- A bare heartbeat does not satisfy a test request; one that echoes its id does. -/
def sendHeartbeat (s : Session) (now : Now) (testReqId : Text) : Session :=
  (s.emit disk MsgType.heartbeat (if testReqId = [] then [] else [(Tag.testReqId, testReqId)]) now
    true).2

/-- The id of the `n`-th test request. -/
def testReqId (n : UInt64) : Text := 'T' :: 'R' :: intText n.toNat

def sendTestRequest (s : Session) (now : Now) : Session :=
  let s := { s with testRequestId := s.testRequestId + 1 }
  let s := (s.emit disk MsgType.testRequest [(Tag.testReqId, testReqId s.testRequestId)] now true).2
  { s with testRequestOutstanding := true }

/-- Everything from `begin` on. -/
def sendResendRequest (s : Session) (begin : UInt64) (now : Now) : Session :=
  (s.emit disk MsgType.resendRequest
    [(Tag.beginSeqNo, intText begin.toInt64.toInt), (Tag.endSeqNo, ['0'])] now true).2

/-- Not claimed from the store: a gap fill carries the number of the range it stands in for. -/
def sendGapFill (s : Session) (start newSeqNo : UInt64) (now : Now) : Session :=
  let m := s.stamp MsgType.sequenceReset start now.utc
    [(Tag.possDupFlag, ['Y']),
      (Tag.origSendingTime, now.utc),
      (Tag.gapFillFlag, ['Y']),
      (Tag.newSeqNo, intText newSeqNo.toInt64.toInt)]
  if m.fits maxMessage then { s with out := s.out ++ [m], lastSent := now.steady } else s

def sendReject (s : Session) (m : FixMessage) (text : String) (now : Now) : Session :=
  (s.emit disk MsgType.reject
    [(Tag.refSeqNum, intText (m.seqNum.getD 0).toInt), (Tag.text, text.toList)] now true).2

/-- The answer says whether the message was sent. -/
def sendApplication (s : Session) (msgType : Text) (body : List (Nat × Text)) (now : Now) :
    Bool × Session :=
  if s.state ≠ .active then (false, s) else s.emit disk msgType body now false

def logout (s : Session) (reason : Text) (now : Now) : Session :=
  let s := (s.emit disk MsgType.logout (if reason = [] then [] else [(Tag.text, reason)]) now
    true).2
  { s with state := .awaitingLogout }

/-- No wait for a confirming logout. -/
def fail (s : Session) (e : SessionError) (text : String) (now : Now) : Session :=
  let s := { s with error := e }
  let s := (s.emit disk MsgType.logout [(Tag.text, text.toList)] now true).2
  { s with state := .loggedOut }

/-! ## Inbound -/

/-- Sequence checking. The answer says whether the message may be processed further. -/
def checkSequence (s : Session) (m : FixMessage) (now : Now) : Bool × Session :=
  match m.seqNum with
  | none => (false, s.sendReject disk m "message without MsgSeqNum" now)
  | some seq =>
    let got := seq.toUInt64
    let expected := s.store.seq.inbound
    if got = expected then
      match s.store.acceptInbound disk got with
      | (some _, store) =>
        (false, { s with store }.fail disk .storeFailure "could not persist an inbound sequence"
          now)
      | (none, store) => (true, { s with store })
    else if got < expected then
      if m.flag Tag.possDupFlag then (false, s)
      else
        (false, s.fail disk .sequenceReversal
          "MsgSeqNum below the expected value with no PossDupFlag" now)
    else
      -- A gap: asked for once, and held until it is filled.
      let s :=
        if s.state ≠ .awaitingResend then
          { s with state := .awaitingResend }.sendResendRequest disk expected now
        else s
      (false, { s with queued := s.queued ++ [m] })

/-- The interval a Logon proposes is taken over. -/
def takeInterval (s : Session) (m : FixMessage) : Session :=
  match m.findInt Tag.heartBtInt with
  | some hb => { s with cfg := { s.cfg with heartbeatIntervalSeconds := hb.toInt32 } }
  | none => s

/-- The acceptor's Logon, which echoes the interval and the reset. -/
def answerLogon (s : Session) (m : FixMessage) (now : Now) : Session :=
  if ¬ s.cfg.initiator ∧ s.state = .disconnected then
    (s.emit disk MsgType.logon (s.logonBody (m.flag Tag.resetSeqNumFlag)) now true).2
  else s

def handleLogon (s : Session) (m : FixMessage) (now : Now) : Session :=
  let weAsked := s.resetRequested
  let s := { s with resetRequested := false }
  let (failed, store) :=
    if m.flag Tag.resetSeqNumFlag && !weAsked then s.store.reset disk else (none, s.store)
  let s := { s with store }
  match failed with
  | some _ => s.fail disk .storeFailure "could not persist a sequence reset" now
  | none =>
    match ((s.takeInterval m).answerLogon disk m now).checkSequence disk m now with
    | (false, s) => s
    | (true, s) => { s with state := .active }

def handleTestRequest (s : Session) (m : FixMessage) (now : Now) : Session :=
  s.sendHeartbeat disk now ((m.find Tag.testReqId).getD [])

def handleLogout (s : Session) (now : Now) : Session :=
  if s.state = .awaitingLogout then { s with state := .loggedOut }
  else { (s.emit disk MsgType.logout [] now true).2 with state := .loggedOut }

/-- The original with `PossDupFlag` and `OrigSendingTime` added after its `SendingTime`. What frames
a message is rewritten, not copied. -/
def possDup (sent : Sent) (m : FixMessage) : FixMessage :=
  ⟨m.fields.flatMap fun f =>
    if f.1 = Tag.beginString ∨ f.1 = Tag.bodyLength ∨ f.1 = Tag.checkSum then []
    else if f.1 = Tag.sendingTime then
      [f, (Tag.possDupFlag, ['Y']), (Tag.origSendingTime, sent.sendingTime)]
    else [f]⟩

def resend (s : Session) (sent : Sent) (now : Now) : Session :=
  match sent.message.reparse with
  | none => s
  | some m =>
    if (possDup sent m).fits maxMessage then
      { s with out := s.out ++ [possDup sent m], lastSent := now.steady }
    else s

/-- One turn of the loop over the range. Declines are batched: `gapStart` is where the batch
began, and zero if there is none. -/
def resendStep (now : Now) (a : UInt64 × Session) (seq : UInt64) : UInt64 × Session :=
  match (a.2.recall seq).filter fun sent => !sent.administrative with
  | none => (if a.1 = 0 then seq else a.1, a.2)
  | some sent => (0, (if a.1 ≠ 0 then a.2.sendGapFill a.1 seq now else a.2).resend sent now)

/-- The numbers `seq` goes through in `for (seq = from; seq <= to; ++seq)`. There is no end to it
where every number is `<= to`. -/
def range (start last : UInt64) : Option (List UInt64) :=
  if start ≤ last ∧ last = UInt64.ofNat (UInt64.size - 1) then none
  else some ((List.range' start.toNat (last.toNat + 1 - start.toNat)).map UInt64.ofNat)

def handleResendRequest (s : Session) (m : FixMessage) (now : Now) : Session :=
  match m.findInt Tag.beginSeqNo, m.findInt Tag.endSeqNo with
  | some begin, some last =>
    -- 0 and 999999 both mean "everything from BeginSeqNo".
    let last := if last = 0 ∨ last = 999999 then s.store.seq.outbound - 1 else last.toUInt64
    match range begin.toUInt64 last with
    | none => { s with hung := true }
    | some seqs =>
      let (gapStart, s) := seqs.foldl (resendStep now) (0, s)
      if gapStart ≠ 0 then s.sendGapFill gapStart (last + 1) now else s
  | _, _ => s.sendReject disk m "ResendRequest without BeginSeqNo or EndSeqNo" now

/-- Its own number is not looked at. -/
def handleSequenceReset (s : Session) (m : FixMessage) (now : Now) : Session :=
  match m.findInt Tag.newSeqNo with
  | none => s.sendReject disk m "SequenceReset without NewSeqNo" now
  | some newSeq =>
    let target := newSeq.toUInt64
    if target < s.store.seq.inbound then
      s.fail disk .backwardsSequenceReset "SequenceReset would move the sequence backwards" now
    else
      match s.store.acceptInbound disk (target - 1) with
      | (some _, store) =>
        { s with store }.fail disk .storeFailure "could not persist a sequence reset" now
      | (none, store) =>
        if s.state = .awaitingResend then { s with store, state := .active, queued := [] }
        else { s with store }

/-- What an accepted message is for. -/
def dispatch (s : Session) (m : FixMessage) (now : Now) : Session :=
  let type := m.msgType
  if type = MsgType.heartbeat then
    if s.testRequestOutstanding ∧ m.find Tag.testReqId = some (testReqId s.testRequestId) then
      { s with testRequestOutstanding := false }
    else s
  else if type = MsgType.testRequest then s.handleTestRequest disk m now
  else if type = MsgType.resendRequest then s.handleResendRequest disk m now
  else if type = MsgType.logout then s.handleLogout disk now
  else { s with apps := s.apps ++ [m] }

/-- Logon is the only message taken before the session is up, and `SequenceReset` the only one
whose number is not checked. -/
def handle (s : Session) (m : FixMessage) (now : Now) : Session :=
  if m.msgType = MsgType.logon then s.handleLogon disk m now
  else if s.state = .disconnected then s
  else if m.msgType = MsgType.sequenceReset then s.handleSequenceReset disk m now
  else
    match s.checkSequence disk m now with
    | (false, s) => s
    | (true, s) => s.dispatch disk m now

def onMessage (s : Session) (m : FixMessage) (now : Now) : Session :=
  { s with lastReceived := now.steady }.handle disk m now

/-! ## Timers -/

def onTimer (s : Session) (now : Now) : Session :=
  if s.state = .disconnected ∨ s.state = .loggedOut then s
  else if s.cfg.heartbeatIntervalSeconds ≤ 0 then s
  else
    let interval := s.cfg.heartbeatIntervalSeconds.toInt * second
    let tolerance := s.cfg.tolerance interval
    let s := if interval ≤ now.steady - s.lastSent then s.sendHeartbeat disk now [] else s
    let quiet := now.steady - s.lastReceived
    if s.testRequestOutstanding then
      if interval + tolerance * 2 ≤ quiet then
        { s with error := .unresponsive, state := .loggedOut }
      else s
    else if interval + tolerance ≤ quiet then s.sendTestRequest disk now
    else s

end Session

/-- A call into the session. -/
inductive Call where
  | message (m : FixMessage) (now : Now)
  | send (msgType : Text) (body : List (Nat × Text)) (now : Now)
  | logout (reason : Text) (now : Now)
  | timer (now : Now)
  | connect (now : Now) (resetSequences : Bool)
  | newConnection
  deriving DecidableEq, Repr

/-- One call. There is none while an earlier one has not returned. -/
def Session.call (disk : Disk) (s : Session) (c : Call) : Session :=
  if s.hung then s
  else
    match c with
    | .message m now => s.onMessage disk m now
    | .send msgType body now => (s.sendApplication disk msgType body now).2
    | .logout reason now => s.logout disk reason now
    | .timer now => s.onTimer disk now
    | .connect now resetSequences => s.connect disk now resetSequences
    | .newConnection => s.resetForNewConnection

end MarketData.Gateway
