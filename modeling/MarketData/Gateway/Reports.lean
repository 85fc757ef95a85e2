import MarketData.Gateway.Handled
import MarketData.Gateway.OrderRouter
import MarketData.Lib.Run

/-!
# `Gateway/Reports.lean` — what becomes of a report on its way to the client

The main loop of `cpp/gateway/src/gateway_main.cpp` over its router and its session. The router
takes a report off the ring, records it and hands the execution report to the session, and does
not look at the answer. The session sends an application message only while it is `Active`; the
loop also pumps while a logon or a resend is awaited, and after a logout in the same turn. What
was taken off the ring then is gone (`told_iff_sendable`).

## Router and session side by side

The router's model keeps what it hands over in `sent`, and the session's model takes a message and a
body. `MainLoop` is the two together, and `tell` is the callback that joins them: after every step
of the router, what is new in `sent` goes to the session as an application message. An event of the
loop is a report that arrives, one turn of `pump`, or a call into the session, in any order; the
source's fixed order of polling is one of these.

`Told` is what is wanted of a turn: the report is in the ring still, or it went to the sink under a
number of its own and the resend ring holds it. **A report that is recorded and not told is
neither**, and nothing brings it back: on a restart the log says the order is done. `Sendable` reads
the state before the turn, the disk and the size of the message; `sendApplication_passed_iff` is the
session's side of it, for any application message.

Reports that are not on a client's order go to no client, and the promise says nothing of them.
-/

set_option autoImplicit false

namespace MarketData.Gateway

open MarketData.Wire

namespace Session

variable {disk : Disk} {s s' : Session}

/-! ## The ring has room -/

theorem Checked.room {m : FixMessage} {ok : Bool} (h : Checked disk s m (ok, s')) (hr : s.Room) :
    s'.Room := by
  cases h with
  | accepted hseq hnext hstore => exact hr
  | notStored hseq hnext hstore hs hstate => exact hs.room hr
  | refused hnext hs => exact hs.room hr
  | gap hseq hbeyond hs => exact hs.room hr

theorem ResetTo.room {m : FixMessage} (h : ResetTo disk s m s') (hr : s.Room) : s'.Room := by
  cases h with
  | refused hback hs => exact hs.room hr
  | notStored hnew hle hstore hs hstate => exact hs.room hr
  | moved hnew hle hstore =>
    split
    · exact hr
    · exact hr

theorem Dispatched.room {m : FixMessage} (h : Dispatched s m s') (hr : s.Room) : s'.Room := by
  cases h with
  | answered htype hs => exact hs.room hr
  | ended htype hs hstate => exact hs.room hr
  | delivered htype => exact hr

theorem LoggedOn.room {m : FixMessage} (h : LoggedOn disk s m s') (hr : s.Room) : s'.Room := by
  cases h with
  | notReset hflag hstore hs hstate => exact hs.room hr
  | checked hstore ht hs =>
    have hr' := hs.room (ht.room hr)
    split
    · exact hr'
    · exact hr'

theorem Handled.room {m : FixMessage} (h : Handled disk s m s') (hr : s.Room) : s'.Room := by
  cases h with
  | logon htype hs => exact hs.room hr
  | ignored hstate hs => exact hs.room hr
  | sequenceReset htype hstate hs => exact hs.room hr
  | turnedAway htype htype' hstate hs => exact hs.room hr
  | taken htype htype' hstate ht hs => exact hs.room (ht.room hr)

theorem new_room (cfg : SessionConfig) (store : SeqStore) : (new cfg store).Room := by
  intro hring
  exact List.length_pos_iff.mpr hring

theorem call_room (disk : Disk) (c : Call) (hr : s.Room) : (s.call disk c).Room := by
  unfold call
  split
  · exact hr
  cases c with
  | message m now => exact (onMessage_handled disk s m now).room hr
  | send msgType body now => exact (sendApplication_sends disk s now msgType body).room hr
  | logout reason now => exact (logout_sends disk s now reason).room hr
  | timer now => exact (onTimer_sends disk s now).room hr
  | connect now reset =>
    have hconnected := connect_connected disk s now reset
    dsimp only
    generalize s.connect disk now reset = s' at hconnected ⊢
    cases hconnected with
    | notInitiator hrole => exact hr
    | notReset hreset hstore hs hstate => exact hs.room hr
    | sent hstore hs hstate => exact hs.room hr
  | newConnection =>
    intro hring
    exact List.length_pos_iff.mpr hring

/-- What a message that is sent leaves behind: it went to the sink under the number that was next,
and there it is held for a resend. -/
structure Passed (s : Session) (msgType : Text) (body : List (Nat × Text)) (now : Now)
    (s' : Session) : Prop where
  out : s'.out = s.out ++ [s.stamp msgType s.store.seq.outbound now.utc body]
  outbound : s'.store.seq.outbound = s.store.seq.outbound + 1
  held : s.ring ≠ [] → some ⟨s.store.seq.outbound,
    s.stamp msgType s.store.seq.outbound now.utc body, now.utc, false⟩ ∈ s'.ring

/-- **An application message is passed on** just where the session is up, its number gets to the
disk and the buffer holds it. -/
theorem sendApplication_passed_iff (hr : s.Room) (msgType : Text) (body : List (Nat × Text))
    (now : Now) :
    Passed s msgType body now (s.sendApplication disk msgType body now).2 ↔
      s.state = .active ∧ disk s.store.writes = .synced ∧
        (s.stamp msgType s.store.seq.outbound now.utc body).fits maxMessage = true := by
  have hgone : ∀ t : Session, t.out = s.out → ¬ Passed s msgType body now t := by
    intro t hout h
    have hlen := congrArg List.length (h.out.symm.trans hout)
    simp at hlen
  unfold sendApplication
  by_cases hstate : s.state = .active
  · rw [if_neg (by simpa using hstate)]
    unfold emit SeqStore.claimOutbound
    generalize hstore : s.store.store disk _ = r
    obtain ⟨failed, store⟩ := r
    cases failed with
    | some e =>
      refine iff_of_false (hgone _ rfl) fun h => ?_
      unfold SeqStore.store at hstore
      rw [h.2.1] at hstore
      cases hstore
    | none =>
      dsimp only
      have hsynced := SeqStore.synced_of_store hstore
      split
      · rename_i hfits
        refine iff_of_true ?_ ⟨hstate, hsynced, hfits⟩
        have hseq := SeqStore.store_synced_seq hstore
        unfold remember
        split
        · rename_i hring
          exact ⟨rfl, by rw [hseq], fun h => absurd hring h⟩
        · refine ⟨rfl, by rw [hseq], fun hring => ?_⟩
          exact List.mem_set (hr hring) _
      · rename_i hfits
        exact iff_of_false (hgone _ rfl) fun h => hfits h.2.2
  · rw [if_pos hstate]
    exact iff_of_false (hgone _ rfl) fun h => hstate h.1

end Session

/-! ## The main loop -/

structure MainLoop where
  router : OrderRouter
  session : Session

inductive LoopEvent where
  /-- The risk service puts a report into the ring. -/
  | report (d : ExecReport)
  /-- One turn of the loop in `pump`. -/
  | turn (durable : Bool) (now : Now)
  /-- A call into the session; what it delivers is handled at `now`. -/
  | call (c : Call) (now : Now) (durable durable' : Bool)
  | reconcile

/-- An event on the client's order, and not an answer to a question of the gateway's. -/
def isEvent (d : ExecReport) : Bool :=
  match d.execType with
  | .orderStatus | .statusComplete => false
  | _ => true

/-- A turn of `pump` that meets an event on the client's order. -/
theorem OrderRouter.pump_event {g : OrderRouter} {d : ExecReport} {reports : Fifo ExecReport}
    (durable : Bool) (hpop : g.reports.pop = some (d, reports)) (hevent : isEvent d = true) :
    g.pump durable = ({ g with reports }.recordReport durable d).sendExecReport d := by
  unfold pump
  rw [hpop]
  unfold isEvent at hevent
  dsimp only
  unfold onReport
  cases htype : d.execType <;> rw [htype] at hevent <;> first | rfl | cases hevent

namespace MainLoop

variable (disk : Disk)

/-- Hands the session the execution reports that are new in `router`. -/
def tell (g : MainLoop) (now : Now) (router : OrderRouter) : MainLoop where
  router := router
  session := (router.sent.drop g.router.sent.length).foldl
    (fun s m => (s.sendApplication disk MsgType.executionReport m.fields now).2) g.session

def step (g : MainLoop) : LoopEvent → MainLoop
  | .report d =>
    match g.router.reports.push d with
    | none => g
    | some reports => { g with router := { g.router with reports } }
  | .turn durable now => if g.session.hung then g else g.tell disk now (g.router.pump durable)
  | .call c now durable durable' =>
    let session := g.session.call disk c
    (session.apps.drop g.session.apps.length).foldl
      (fun g m => g.tell disk now (g.router.onApplication m durable durable').2) { g with session }
  | .reconcile =>
    if g.session.hung then g else { g with router := g.router.requestReconciliation.2 }

/-- What the client is told of a report. -/
def answer (g : MainLoop) (durable : Bool) (d : ExecReport) (reports : Fifo ExecReport) :
    FixMessage :=
  ({ g.router with reports }.recordReport durable d).execReport d

/-- A report on the client's order that is taken off the ring goes to the sink under a number of
its own and is held for a resend, or it stays in the ring. -/
def Told (g : MainLoop) : LoopEvent → Prop
  | .turn durable now => ∀ d reports, g.router.reports.pop = some (d, reports) → isEvent d = true →
      g.session.Passed MsgType.executionReport (g.answer durable d reports).fields now
        (g.step disk (.turn durable now)).session ∨
      (g.step disk (.turn durable now)).router.reports = g.router.reports
  | _ => True

/-- A report on the client's order is only taken off the ring while the session is up, the disk
takes its number and the buffer holds it. -/
def Sendable (g : MainLoop) : LoopEvent → Prop
  | .turn durable now => ∀ d reports, g.router.reports.pop = some (d, reports) → isEvent d = true →
      g.session.hung = false →
      g.session.state = .active ∧ disk g.session.store.writes = .synced ∧
        (g.session.stamp MsgType.executionReport g.session.store.seq.outbound now.utc
          (g.answer durable d reports).fields).fits maxMessage = true
  | _ => True

theorem tell_room {g : MainLoop} (hr : g.session.Room) (now : Now) (router : OrderRouter) :
    (g.tell disk now router).session.Room := by
  unfold tell
  dsimp only
  generalize router.sent.drop g.router.sent.length = ms
  generalize g.session = s at hr ⊢
  induction ms generalizing s with
  | nil => exact hr
  | cons m ms ih => exact ih _ ((Session.sendApplication_sends disk s now _ _).room hr)

theorem step_room {g : MainLoop} (hr : g.session.Room) (e : LoopEvent) :
    (g.step disk e).session.Room := by
  cases e with
  | report d =>
    unfold step
    dsimp only
    split
    · exact hr
    · exact hr
  | turn durable now =>
    unfold step
    dsimp only
    split
    · exact hr
    · exact tell_room disk hr now _
  | call c now durable durable' =>
    have hcall := Session.call_room disk c hr
    unfold step
    dsimp only
    generalize g.session.call disk c = s at hcall ⊢
    generalize s.apps.drop g.session.apps.length = ms
    have hg : ({ g with session := s } : MainLoop).session.Room := hcall
    generalize ({ g with session := s } : MainLoop) = g at hg ⊢
    induction ms generalizing g with
    | nil => exact hg
    | cons m ms ih => exact ih _ (tell_room disk hg now _)
  | reconcile =>
    unfold step
    dsimp only
    split
    · exact hr
    · exact hr

/-- The order log is what is in memory, whatever the gateway does. -/
theorem step_logged {g : MainLoop} (h : g.router.store.Logged) (e : LoopEvent) :
    (g.step disk e).router.store.Logged := by
  cases e with
  | report d =>
    unfold step
    dsimp only
    split
    · exact h
    · exact h
  | turn durable now =>
    unfold step
    dsimp only
    split
    · exact h
    · exact OrderRouter.logged_pump h durable
  | call c now durable durable' =>
    unfold step
    dsimp only
    generalize g.session.call disk c = s
    generalize s.apps.drop g.session.apps.length = ms
    have hg : ({ g with session := s } : MainLoop).router.store.Logged := h
    generalize ({ g with session := s } : MainLoop) = g at hg ⊢
    induction ms generalizing g with
    | nil => exact hg
    | cons m ms ih => exact ih _ (OrderRouter.logged_onApplication hg m durable durable')
  | reconcile =>
    unfold step
    dsimp only
    split
    · exact h
    · exact OrderRouter.logged_requestReconciliation h

/-- **Memory and log agree** in every state of a gateway that was started from a log. -/
theorem run_logged {g : MainLoop} {log : List OrderRecord} (h : g.router.store = .openLog log)
    (events : List LoopEvent) : (events.foldl (step disk) g).router.store.Logged := by
  have hstart : g.router.store.Logged := by
    rw [h]
    exact OrderStore.logged_openLog log
  clear h
  induction events generalizing g with
  | nil => exact hstart
  | cons e events ih => exact ih (step_logged disk hstart e)

/-- A turn that meets an event on the client's order. -/
theorem step_turn {g : MainLoop} {d : ExecReport} {reports : Fifo ExecReport}
    (durable : Bool) (now : Now) (hhung : g.session.hung = false)
    (hpop : g.router.reports.pop = some (d, reports))
    (hevent : isEvent d = true) :
    (g.step disk (.turn durable now)).session = (g.session.sendApplication disk
      MsgType.executionReport (g.answer durable d reports).fields now).2 ∧
    (g.step disk (.turn durable now)).router.reports = reports := by
  have hpump := OrderRouter.pump_event durable hpop hevent
  have hsent : ({ g.router with reports }.recordReport durable d).sent = g.router.sent := by
    unfold OrderRouter.recordReport
    split <;> rfl
  have hreports : ({ g.router with reports }.recordReport durable d).reports = reports := by
    unfold OrderRouter.recordReport
    split <;> rfl
  unfold step
  dsimp only
  rw [if_neg (by simp [hhung]), hpump]
  unfold tell answer OrderRouter.sendExecReport
  generalize OrderRouter.recordReport { g.router with reports } durable d = r at hsent hreports ⊢
  refine ⟨?_, hreports⟩
  dsimp only
  rw [hsent, List.drop_left]
  rfl

theorem told_iff {g : MainLoop} (hr : g.session.Room) (e : LoopEvent) :
    g.Told disk e ↔ g.Sendable disk e := by
  cases e with
  | report d => exact Iff.rfl
  | call c now durable durable' => exact Iff.rfl
  | reconcile => exact Iff.rfl
  | turn durable now =>
    unfold Told Sendable
    refine forall_congr' fun d => forall_congr' fun reports => forall_congr' fun hpop =>
      forall_congr' fun hevent => ?_
    cases hhung : g.session.hung with
    | true =>
      refine iff_of_true (.inr ?_) fun h => (nomatch h)
      unfold step
      dsimp only
      rw [if_pos hhung]
    | false =>
      obtain ⟨hsession, hreports⟩ := step_turn disk durable now hhung hpop hevent
      rw [hsession, hreports, Session.sendApplication_passed_iff hr, imp_iff_right rfl]
      refine or_iff_left fun heq => ?_
      -- The ring is one report shorter.
      have hlen := congrArg List.length (Fifo.pop_some hpop).1
      rw [← heq] at hlen
      simp at hlen

/-- **What the client gets to know.** From a session as it starts and a router in any state, no
report is lost along a run just where every report on a client's order that `pump` meets finds
the session up, a disk that takes its number and room for it in the buffer. -/
theorem told_iff_sendable (cfg : SessionConfig) (store : SeqStore) (router : OrderRouter)
    (events : List LoopEvent) :
    Run.Along (step disk) (Told disk) ⟨router, .new cfg store⟩ events ↔
      Run.Along (step disk) (Sendable disk) ⟨router, .new cfg store⟩ events :=
  Run.along_congr_of_invariant (fun g => g.session.Room) (fun _ e hr => step_room disk hr e)
    (fun _ e hr => told_iff disk hr e) (Session.new_room cfg store)

/-- An order that is done. -/
def fillReport : ExecReport :=
  { clientOrderId := 7, exchangeOrderId := 100, tradeId := 9, price := 10000, quantity := 50
    leavesQuantity := 0, symbolId := 1, side := .bid, execType := .fill
    rejectReason := .notRejected }

/-- An initiator that has just sent its Logon, with a fill in the ring. -/
def awaitingLogon : List LoopEvent :=
  [.report fillReport, .call (.connect ⟨0, "20260101-00:00:00.000".toList⟩ false) ⟨0, []⟩ true true]

/-- The next turn takes the fill off the ring and sends nothing. -/
theorem fill_lost_awaitingLogon :
    ¬ Run.Along (step fun _ => .synced) (Told fun _ => .synced)
      ⟨⟨⟨8, []⟩, ⟨8, []⟩, {}, [], 0, .idle, 0, [], {}, 1, []⟩,
        .new { senderCompId := ['G'], targetCompId := ['C'] } {}⟩
      (awaitingLogon ++ [.turn true ⟨0, "20260101-00:00:00.000".toList⟩]) := by
  rw [Run.along_append]
  intro h
  have htold := h.2.1 fillReport ⟨8, []⟩ (by decide +kernel) rfl
  rcases htold with hpassed | hring
  · have hlen := congrArg List.length hpassed.out
    revert hlen
    decide +kernel
  · revert hring
    decide +kernel

end MainLoop

end MarketData.Gateway
