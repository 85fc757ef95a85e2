import MarketData.Gateway.Handled
import MarketData.Lib.Run

/-!
# `Gateway/Link.lean` — two sessions and the channels between them

An initiator and an acceptor, each over a store whose writes reach the disk, and a channel each way
that keeps its order and loses nothing. The initiator logs on; from then on either side takes the
oldest message of its channel or sends one of its application's. No timer runs.

What a session sends, as long as it answers no resend request, carries one number after the other
(`Claims`).

## Why the disk does not fail here

The question about two sessions is whether they can end up waiting for each other, and a session
whose disk refuses a write has failed and waits for nobody. `durable` makes both stores plain
counters, so that a run is decided by the order of the steps and the messages alone. Timers are left
out for a different reason: a heartbeat or a test request is one more message under the next number,
and would end no wait.

A channel is a list of messages, as they come back from the parser. TCP keeps their order and the
transport cuts them right (`Gateway/Transport.lean`); a connection that drops is the end of the run.

`Claims` is an inductive over the messages sent, not an equation about the store, because a call may
send several: each goes to the ring and under the number after the last one, and the application
messages among them are kept for a resend. `Ordinary` messages are those whose receipt asks for no
jump; everything that `Claims` covers is ordinary.
-/

set_option autoImplicit false

namespace MarketData.Gateway

/-- The disk on which every write is synced. -/
def durable : Disk := fun _ => .synced

structure Link where
  a : Session
  b : Session
  toA : List FixMessage := []
  toB : List FixMessage := []

inductive LinkEvent where
  | deliverA (now : Now)
  | deliverB (now : Now)
  | sendA (msgType : Text) (body : List (Nat × Text)) (now : Now)
  | sendB (msgType : Text) (body : List (Nat × Text)) (now : Now)
  deriving DecidableEq, Repr

namespace Link

/-- A call into the initiator. What it sends goes to the other's channel. -/
def callA (l : Link) (c : Call) : Link :=
  let a := l.a.call durable c
  { l with a := { a with out := [] }, toB := l.toB ++ a.out }

def callB (l : Link) (c : Call) : Link :=
  let b := l.b.call durable c
  { l with b := { b with out := [] }, toA := l.toA ++ b.out }

/-- The initiator has logged on over these two stores. -/
def connected (cfgA cfgB : SessionConfig) (storeA storeB : SeqStore) (now : Now) (reset : Bool) :
    Link :=
  { a := .new { cfgA with initiator := true } storeA
    b := .new { cfgB with initiator := false } storeB : Link }.callA (.connect now reset)

/-- A session in the middle of a call takes nothing off its channel. -/
def step (l : Link) : LinkEvent → Link
  | .deliverA now =>
    match l.toA with
    | [] => l
    | m :: ms => if l.a.hung then l else { l with toA := ms }.callA (.message m now)
  | .deliverB now =>
    match l.toB with
    | [] => l
    | m :: ms => if l.b.hung then l else { l with toB := ms }.callB (.message m now)
  | .sendA msgType body now => l.callA (.send msgType body now)
  | .sendB msgType body now => l.callB (.send msgType body now)

def run (l : Link) (events : List LinkEvent) : Link := events.foldl step l

/-- Both wait for the other to resend, and nothing is under way. -/
def Standstill (l : Link) : Prop :=
  l.a.state = .awaitingResend ∧ l.b.state = .awaitingResend ∧ l.toA = [] ∧ l.toB = []

instance (l : Link) : Decidable l.Standstill :=
  inferInstanceAs (Decidable (_ ∧ _ ∧ _ ∧ _))

end Link

/-- The type of a message that is not the session layer's. -/
def Application (msgType : Text) : Prop :=
  msgType ∉ [MsgType.heartbeat, MsgType.testRequest, MsgType.resendRequest, MsgType.sequenceReset,
    MsgType.logout, MsgType.logon]

instance (msgType : Text) : Decidable (Application msgType) := inferInstanceAs (Decidable (¬_))

/-! ## Messages under a header -/

namespace Session

variable (s : Session) (msgType : Text) (seq : UInt64) (utc : Text) (body : List (Nat × Text))

@[simp] theorem stamp_msgType : (s.stamp msgType seq utc body).msgType = msgType := rfl

@[simp] theorem stamp_seqNum : (s.stamp msgType seq utc body).seqNum = some seq.toInt64 :=
  FixMessage.findInt_of_find rfl

theorem stamp_size_le : (s.stamp msgType seq utc body).size ≤
    66 + msgType.length + s.cfg.senderCompId.length + s.cfg.targetCompId.length + utc.length +
      (body.map fun f => (intText f.1).length + f.2.length + 2).sum := by
  have hseq := length_intText_le seq.toInt64
  have htags : (intText (Tag.msgType : Nat)).length = 2 ∧ (intText (Tag.senderCompId : Nat)).length = 2
      ∧ (intText (Tag.targetCompId : Nat)).length = 2 ∧ (intText (Tag.msgSeqNum : Nat)).length = 2
      ∧ (intText (Tag.sendingTime : Nat)).length = 2 := by decide +kernel
  simp only [FixMessage.size, stamp, List.map_append, List.sum_append, List.map_cons, List.map_nil,
    List.sum_cons, List.sum_nil, htags]
  omega

/-- Whatever is in the body, the header's fields come first. -/
theorem stamp_find {t : Nat} (ht : t ∉ [Tag.msgType, Tag.senderCompId, Tag.targetCompId,
    Tag.msgSeqNum, Tag.sendingTime]) :
    (s.stamp msgType seq utc body).find t = (⟨body⟩ : FixMessage).find t := by
  simp only [List.mem_cons, List.not_mem_nil, or_false, not_or] at ht
  simp only [FixMessage.find, stamp, List.cons_append, List.nil_append, List.find?_cons]
  simp [Ne.symm ht.1, Ne.symm ht.2.1, Ne.symm ht.2.2.1, Ne.symm ht.2.2.2.1, Ne.symm ht.2.2.2.2]

/-- The two company ids leave room for the session's own messages. -/
def Brief : Prop := s.cfg.senderCompId.length + s.cfg.targetCompId.length ≤ 7000

end Session

/-- Numbers from `first` on, one after the other, up to `next`. -/
def Consecutive : UInt64 → UInt64 → List FixMessage → Prop
  | first, next, [] => first = next
  | first, next, m :: ms => m.seqNum = some first.toInt64 ∧ Consecutive (first + 1) next ms

theorem Consecutive.append {first mid next : UInt64} {ms ms' : List FixMessage}
    (h : Consecutive first mid ms) (h' : Consecutive mid next ms') :
    Consecutive first next (ms ++ ms') := by
  induction ms generalizing first with
  | nil =>
    obtain rfl : first = mid := h
    exact h'
  | cons m ms ih => exact ⟨h.1, ih h.2⟩

/-- Neither a `SequenceReset` nor a Logon that resets. -/
def Ordinary (m : FixMessage) : Prop :=
  m.msgType ≠ MsgType.sequenceReset ∧
    (m.msgType = MsgType.logon → m.flag Tag.resetSeqNumFlag = false)

namespace Session

/-- `s'` is `s` after it has sent `ms`, each under the next number. -/
structure Claims (s s' : Session) (ms : List FixMessage) : Prop where
  out : s'.out = s.out ++ ms
  numbers : Consecutive s.store.seq.outbound s'.store.seq.outbound ms
  ordinary : ∀ m ∈ ms, Ordinary m
  brief : s.Brief → s'.Brief
  initiator : s'.cfg.initiator = s.cfg.initiator
  resetRequested : s'.resetRequested = s.resetRequested

namespace Claims

variable {s s' s'' : Session} {ms ms' : List FixMessage}

theorem refl (s : Session) : Claims s s [] :=
  ⟨(List.append_nil _).symm, rfl, fun _ h => (nomatch h), id, rfl, rfl⟩

theorem trans (h : Claims s s' ms) (h' : Claims s' s'' ms') : Claims s s'' (ms ++ ms') where
  out := by rw [h'.out, h.out, List.append_assoc]
  numbers := h.numbers.append h'.numbers
  ordinary := fun m hm => (List.mem_append.mp hm).elim (h.ordinary m) (h'.ordinary m)
  brief := fun hb => h'.brief (h.brief hb)
  initiator := h'.initiator.trans h.initiator
  resetRequested := h'.resetRequested.trans h.resetRequested

/-- What a session does besides sending does not count. -/
theorem of_eq {u : Session} (h : Claims s s' ms) (hout : u.out = s'.out)
    (hstore : u.store.seq.outbound = s'.store.seq.outbound)
    (hsender : u.cfg.senderCompId = s'.cfg.senderCompId)
    (htarget : u.cfg.targetCompId = s'.cfg.targetCompId)
    (hrole : u.cfg.initiator = s'.cfg.initiator)
    (hreset : u.resetRequested = s'.resetRequested) : Claims s u ms where
  out := hout.trans h.out
  numbers := hstore ▸ h.numbers
  ordinary := h.ordinary
  brief := fun hb => by
    have hb' := h.brief hb
    unfold Brief at hb' ⊢
    rw [hsender, htarget]
    exact hb'
  initiator := hrole.trans h.initiator
  resetRequested := hreset.trans h.resetRequested

end Claims

variable {s : Session} {now : Now} {body : List (Nat × Text)} {msgType : Text}

/-- What `emit` does with a message that fits. -/
theorem emit_durable (adm : Bool)
    (hfits : (s.stamp msgType s.store.seq.outbound now.utc body).fits maxMessage = true) :
    ∃ s', s.emit durable msgType body now adm = (true, s') ∧
      s'.out = s.out ++ [s.stamp msgType s.store.seq.outbound now.utc body] ∧
      s'.store.seq = { s.store.seq with outbound := s.store.seq.outbound + 1 } ∧
      s'.state = s.state ∧ s'.cfg = s.cfg ∧ s'.resetRequested = s.resetRequested ∧
      s'.hung = s.hung ∧
      ∀ sent, some sent ∈ s'.ring → some sent ∈ s.ring ∨ sent.administrative = adm := by
  unfold emit
  have hclaim : s.store.claimOutbound durable = (some s.store.seq.outbound,
      (s.store.store durable { s.store.seq with outbound := s.store.seq.outbound + 1 }).2) := rfl
  rw [hclaim]
  dsimp only
  rw [if_pos hfits]
  refine ⟨_, rfl, ?_⟩
  unfold remember
  split
  · exact ⟨rfl, rfl, rfl, rfl, rfl, rfl, fun _ h => .inl h⟩
  · refine ⟨rfl, rfl, rfl, rfl, rfl, rfl, fun sent hsent => ?_⟩
    rcases List.mem_or_eq_of_mem_set hsent with hsent | hsent
    · exact .inl hsent
    · obtain rfl := Option.some.inj hsent
      exact .inr rfl

theorem emit_claims {adm : Bool}
    (hfits : (s.stamp msgType s.store.seq.outbound now.utc body).fits maxMessage = true)
    (hordinary : Ordinary (s.stamp msgType s.store.seq.outbound now.utc body)) :
    Claims s (s.emit durable msgType body now adm).2
      [s.stamp msgType s.store.seq.outbound now.utc body] := by
  obtain ⟨s', heq, hout, hseq, -, hcfg, hreset, -⟩ := emit_durable adm hfits
  rw [heq]
  refine ⟨hout, ⟨stamp_seqNum .., ?_⟩, ?_, ?_, ?_, hreset⟩
  · show s.store.seq.outbound + 1 = s'.store.seq.outbound
    rw [hseq]
  · intro m hm
    obtain rfl := List.mem_singleton.mp hm
    exact hordinary
  · intro hb
    unfold Brief
    rw [hcfg]
    exact hb
  · rw [hcfg]

/-- The session's own messages fit: what is in them besides the header is short. -/
theorem stamp_fits (hb : s.Brief) (hutc : now.utc.length = 21) (htype : msgType.length = 1)
    (hbody : (body.map fun f => (intText f.1).length + f.2.length + 2).sum ≤ 500) (seq : UInt64) :
    (s.stamp msgType seq now.utc body).fits maxMessage = true := by
  have hsize := s.stamp_size_le msgType seq now.utc body
  unfold Brief at hb
  unfold FixMessage.fits maxMessage
  rw [decide_eq_true_eq]
  omega

/-- A message of the session's own, of another type than the two. -/
theorem ordinary_stamp (seq : UInt64) (utc : Text) (htype : msgType ≠ MsgType.sequenceReset)
    (htype' : msgType ≠ MsgType.logon) : Ordinary (s.stamp msgType seq utc body) :=
  ⟨htype, fun h => absurd h htype'⟩

end Session

end MarketData.Gateway
