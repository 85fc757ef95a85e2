import MarketData.Gateway.Talk

/-!
# `Gateway/InStep.lean` — the side that is not behind

If one side is not behind, it never finds a gap: the other has sent it every number it claimed,
one after the other, and would only do otherwise in answer to a resend request, which it never
gets. That is the invariant (`InStep`), and every step of either side keeps it.

## What has to be said of the channel

A side is in step when the messages under way to it are exactly the numbers it has not seen, in
order, up to the number the other claims next. The other fields are what makes that inductive: it is
not waiting and has asked for nothing, what it keeps can be sent again, and a Logon that resets is
one the receiver knows of (`FlagsKnown`: the first Logon settles that). The other side may be
behind, may wait, and may ask; `InStep` says nothing of it.

**Only one side has to be in step.** When it is asked to resend, it answers with gap fills and
copies that carry old numbers, and those go to the other side, about which nothing is claimed. So
the two halves of a step (taking a message, and being the one whose message is taken) are different
lemmas, and `OneInStep.step` puts them together by symmetry.

`Allowed` is what the runs ask of their surroundings: the clock writes texts of the length it
writes, and an application sends messages of its own types that fit the buffer. Both are there
because a message that does not fit is dropped after its number is claimed, and would leave a hole.
-/

set_option autoImplicit false

namespace MarketData.Gateway

/-- A Logon that resets is one the receiver asked for; the first Logon settles that. -/
def FlagsKnown : Bool → List FixMessage → Prop
  | _, [] => True
  | asked, m :: ms =>
    (m.msgType = MsgType.logon → m.flag Tag.resetSeqNumFlag = true → asked = true) ∧
      FlagsKnown (m.msgType ≠ MsgType.logon && asked) ms

theorem FlagsKnown.append {asked : Bool} {ms ms' : List FixMessage} (h : FlagsKnown asked ms)
    (h' : ∀ m ∈ ms', m.msgType = MsgType.logon → m.flag Tag.resetSeqNumFlag = false) :
    FlagsKnown asked (ms ++ ms') := by
  induction ms generalizing asked with
  | nil =>
    induction ms' generalizing asked with
    | nil => trivial
    | cons m ms' ih =>
      refine ⟨?_, ih (fun m hm => h' m (List.mem_cons_of_mem _ hm)) trivial⟩
      intro htype hflag
      rw [h' m List.mem_cons_self htype] at hflag
      cases hflag
  | cons m ms ih => exact ⟨h.1, ih h.2⟩

/-- `x` is not behind `y`: what is under way to it is all it has not seen, in order. And `x` asks
for nothing. -/
structure InStep (x y : Session) (yx xy : List FixMessage) : Prop where
  state : x.state ≠ .awaitingResend
  numbers : Consecutive x.store.seq.inbound y.store.seq.outbound yx
  ordinary : ∀ m ∈ yx, Ordinary m
  first : x.state = .disconnected → ∃ m ms, yx = m :: ms ∧ m.msgType = MsgType.logon
  quiet : ∀ m ∈ xy, Quiet m
  flags : FlagsKnown y.resetRequested xy
  role : y.cfg.initiator = true ∨
    ∀ m ∈ xy, m.msgType = MsgType.logon → m.flag Tag.resetSeqNumFlag = false
  resendable : x.Resendable
  brief : y.Brief
  out : x.out = [] ∧ y.out = []

namespace InStep

variable {x y : Session} {yx xy : List FixMessage} {m : FixMessage} {now : Now}

/-- What `x` says without asking for anything goes to `y`. -/
theorem say {x' : Session} {ms : List FixMessage} (h : InStep x y yx xy)
    (hstate : x'.state ≠ .awaitingResend)
    (hinbound : x'.store.seq.inbound = x.store.seq.inbound)
    (hfirst : x'.state = .disconnected → x.state = .disconnected)
    (hresendable : x'.Resendable) (hquiet : ∀ m ∈ ms, Quiet m)
    (hflags : ∀ m ∈ ms, m.msgType = MsgType.logon → m.flag Tag.resetSeqNumFlag = false) :
    InStep { x' with out := [] } y yx (xy ++ ms) where
  state := hstate
  numbers := by
    show Consecutive x'.store.seq.inbound _ _
    rw [hinbound]
    exact h.numbers
  ordinary := h.ordinary
  first := fun hd => h.first (hfirst hd)
  quiet := fun m hm => (List.mem_append.mp hm).elim (h.quiet m) (hquiet m)
  flags := h.flags.append hflags
  role := h.role.imp id fun hrole m hm => (List.mem_append.mp hm).elim (hrole m) (hflags m)
  resendable := hresendable
  brief := h.brief
  out := ⟨rfl, h.out.2⟩

/-- `x` takes a message. -/
theorem hear (h : InStep x y (m :: yx) xy) :
    InStep { x.onMessage durable m now with out := [] } y yx
      (xy ++ (x.onMessage durable m now).out) := by
  have hup : x.state = .disconnected → m.msgType = MsgType.logon := by
    intro hd
    obtain ⟨m', ms, heq, htype⟩ := h.first hd
    cases heq
    exact htype
  have hhears := Session.onMessage_hears now h.resendable h.numbers.1
    (h.ordinary m List.mem_cons_self) h.state hup
  obtain ⟨ms, hout, hquiet, hflags⟩ := hhears.sends
  rw [h.out.1, List.nil_append] at hout
  rw [hout]
  exact {
    state := hhears.state
    numbers := by
      show Consecutive (x.onMessage durable m now).store.seq.inbound _ _
      rw [hhears.inbound]
      exact h.numbers.2
    ordinary := fun m' hm' => h.ordinary m' (List.mem_cons_of_mem _ hm')
    first := fun hd => absurd hd hhears.up
    quiet := fun m' hm' => (List.mem_append.mp hm').elim (h.quiet m') (hquiet m')
    flags := h.flags.append hflags
    role := h.role.imp id fun hrole m' hm' => (List.mem_append.mp hm').elim (hrole m') (hflags m')
    resendable := hhears.resendable
    brief := h.brief
    out := ⟨rfl, h.out.2⟩ }

/-- What `y` says under the next numbers is under way to `x`. -/
theorem claim {y' y'' : Session} {ms xy' : List FixMessage} (h : InStep x y yx xy)
    (hclaims : Session.Claims y' y'' ms) (hstore : y'.store = y.store) (hout : y'.out = y.out)
    (hcfg : y'.cfg = y.cfg) (hquiet : ∀ m ∈ xy', Quiet m)
    (hflags : FlagsKnown y''.resetRequested xy')
    (hrole : y.cfg.initiator = true ∨
      ∀ m ∈ xy', m.msgType = MsgType.logon → m.flag Tag.resetSeqNumFlag = false) :
    InStep x { y'' with out := [] } (yx ++ y''.out) xy' := by
  have hms : y''.out = ms := by rw [hclaims.out, hout, h.out.2, List.nil_append]
  rw [hms]
  exact {
    state := h.state
    numbers := by
      refine h.numbers.append ?_
      have hnumbers := hclaims.numbers
      rw [hstore] at hnumbers
      exact hnumbers
    ordinary := fun m hm => (List.mem_append.mp hm).elim (h.ordinary m) (hclaims.ordinary m)
    first := by
      intro hd
      obtain ⟨m, ms', rfl, htype⟩ := h.first hd
      exact ⟨m, ms' ++ ms, rfl, htype⟩
    quiet := hquiet
    flags := hflags
    role := by
      show y''.cfg.initiator = true ∨ _
      rw [hclaims.initiator, hcfg]
      exact hrole
    resendable := h.resendable
    brief := by
      apply hclaims.brief
      unfold Session.Brief
      rw [hcfg]
      exact h.brief
    out := ⟨h.out.1, rfl⟩ }

/-- `y` takes a message. -/
theorem answer (h : InStep x y yx (m :: xy)) (hutc : now.utc.length = 21) :
    InStep x { y.onMessage durable m now with out := [] }
      (yx ++ (y.onMessage durable m now).out) xy := by
  have hflag : m.msgType = MsgType.logon → m.flag Tag.resetSeqNumFlag = true →
      y.cfg.initiator = true ∧ y.resetRequested = true := by
    intro htype hflag
    refine ⟨?_, h.flags.1 htype hflag⟩
    rcases h.role with hrole | hrole
    · exact hrole
    · rw [hrole m List.mem_cons_self htype] at hflag
      cases hflag
  obtain ⟨ms, hclaims⟩ := Session.onMessage_claims h.brief hutc (h.quiet m List.mem_cons_self) hflag
  refine h.claim hclaims rfl rfl rfl (fun m' hm' => h.quiet m' (List.mem_cons_of_mem _ hm')) ?_
    (h.role.imp id fun hrole m' hm' => hrole m' (List.mem_cons_of_mem _ hm'))
  rw [hclaims.resetRequested]
  exact h.flags.2

/-- `x` sends one of its application's messages. -/
theorem sayApplication (h : InStep x y yx xy) {msgType : Text} (htype : Application msgType)
    (body : List (Nat × Text)) :
    InStep { (x.sendApplication durable msgType body now).2 with out := [] } y yx
      (xy ++ (x.sendApplication durable msgType body now).2.out) := by
  have hspeaks : ∃ ms, Session.Speaks x (x.sendApplication durable msgType body now).2 ms := by
    unfold Session.sendApplication
    split
    · exact ⟨[], .refl x⟩
    · have hother : ∀ t, t ∈ [MsgType.heartbeat, MsgType.testRequest, MsgType.resendRequest,
          MsgType.sequenceReset, MsgType.logout, MsgType.logon] → msgType ≠ t :=
        fun t ht heq => htype (heq ▸ ht)
      exact Session.emit_speaks x now ⟨hother _ (by decide), hother _ (by decide)⟩
        (fun h => absurd h (hother _ (by decide))) (fun _ => htype)
  generalize (x.sendApplication durable msgType body now).2 = x' at hspeaks ⊢
  obtain ⟨ms, hs⟩ := hspeaks
  have hout : x'.out = ms := by rw [hs.out, h.out.1, List.nil_append]
  rw [hout]
  refine h.say ?_ hs.inbound ?_ (hs.resendable h.resendable) hs.quiet hs.flags
  · intro hx
    rcases hs.state with hstate | hstate
    · exact h.state (hstate.symm.trans hx)
    · rw [hstate] at hx
      cases hx
  · intro hx
    rcases hs.state with hstate | hstate
    · exact hstate.symm.trans hx
    · rw [hstate] at hx
      cases hx

/-- `y` sends one of its application's messages, which fits. -/
theorem claimApplication (h : InStep x y yx xy) {msgType : Text} (htype : Application msgType)
    {body : List (Nat × Text)}
    (hfits : ∀ seq, (y.stamp msgType seq now.utc body).fits maxMessage = true) :
    InStep x { (y.sendApplication durable msgType body now).2 with out := [] }
      (yx ++ (y.sendApplication durable msgType body now).2.out) xy := by
  have hclaims : ∃ ms, Session.Claims y (y.sendApplication durable msgType body now).2 ms := by
    unfold Session.sendApplication
    split
    · exact ⟨[], .refl y⟩
    · have hother : ∀ t, t ∈ [MsgType.heartbeat, MsgType.testRequest, MsgType.resendRequest,
          MsgType.sequenceReset, MsgType.logout, MsgType.logon] → msgType ≠ t :=
        fun t ht heq => htype (heq ▸ ht)
      exact ⟨_, Session.emit_claims (hfits _)
        (Session.ordinary_stamp _ _ (hother _ (by decide)) (hother _ (by decide)))⟩
  obtain ⟨ms, hclaims⟩ := hclaims
  refine h.claim hclaims rfl rfl rfl h.quiet ?_ h.role
  rw [hclaims.resetRequested]
  exact h.flags

end InStep

namespace Link

/-- The wall clock's texts are 21 characters long, and an application's message is none of the
session layer's and fits the buffer, whatever its number. -/
def Allowed (l : Link) : LinkEvent → Prop
  | .deliverA now | .deliverB now => now.utc.length = 21
  | .sendA msgType body now => now.utc.length = 21 ∧ Application msgType ∧
      ∀ seq, (l.a.stamp msgType seq now.utc body).fits maxMessage = true
  | .sendB msgType body now => now.utc.length = 21 ∧ Application msgType ∧
      ∀ seq, (l.b.stamp msgType seq now.utc body).fits maxMessage = true

/-- One of the two is not behind. -/
def OneInStep (l : Link) : Prop :=
  InStep l.a l.b l.toA l.toB ∨ InStep l.b l.a l.toB l.toA

/-- **One step** leaves the side in step that was. -/
theorem OneInStep.step {l : Link} (h : l.OneInStep) {e : LinkEvent} (he : l.Allowed e) :
    (l.step e).OneInStep := by
  cases e with
  | deliverA now =>
    unfold Link.step
    dsimp only
    split
    · exact h
    rename_i m ms htoA
    split
    · exact h
    rename_i hhung
    unfold OneInStep at h
    rw [htoA] at h
    unfold callA Session.call
    rw [if_neg hhung]
    dsimp only
    rcases h with h | h
    · exact .inl h.hear
    · exact .inr (h.answer he)
  | deliverB now =>
    unfold Link.step
    dsimp only
    split
    · exact h
    rename_i m ms htoB
    split
    · exact h
    rename_i hhung
    unfold OneInStep at h
    rw [htoB] at h
    unfold callB Session.call
    rw [if_neg hhung]
    dsimp only
    rcases h with h | h
    · exact .inl (h.answer he)
    · exact .inr h.hear
  | sendA msgType body now =>
    unfold Link.step callA Session.call
    dsimp only
    split
    · rcases h with h | h
      · have hnone : ∀ m, m ∉ l.a.out := by
          rw [h.out.1]
          exact fun _ => List.not_mem_nil
        exact .inl (h.say h.state rfl id h.resendable (fun m hm => absurd hm (hnone m))
          fun m hm => absurd hm (hnone m))
      · exact .inr (h.claim (.refl l.a) rfl rfl rfl h.quiet h.flags h.role)
    · rcases h with h | h
      · exact .inl (h.sayApplication he.2.1 body)
      · exact .inr (h.claimApplication he.2.1 he.2.2)
  | sendB msgType body now =>
    unfold Link.step callB Session.call
    dsimp only
    split
    · rcases h with h | h
      · exact .inl (h.claim (.refl l.b) rfl rfl rfl h.quiet h.flags h.role)
      · have hnone : ∀ m, m ∉ l.b.out := by
          rw [h.out.1]
          exact fun _ => List.not_mem_nil
        exact .inr (h.say h.state rfl id h.resendable (fun m hm => absurd hm (hnone m))
          fun m hm => absurd hm (hnone m))
    · rcases h with h | h
      · exact .inl (h.claimApplication he.2.1 he.2.2)
      · exact .inr (h.sayApplication he.2.1 body)

theorem OneInStep.not_standstill {l : Link} (h : l.OneInStep) : ¬l.Standstill := by
  rintro ⟨ha, hb, -, -⟩
  rcases h with h | h
  · exact h.state ha
  · exact h.state hb

end Link

end MarketData.Gateway
