import MarketData.Gateway.Gaps
import MarketData.Gateway.Link

/-!
# `Gateway/Held.lean` — what becomes of the held messages

What arrives from beyond a hole is put in `queued_`, to be applied in order once the hole is
closed. Nothing ever takes a message out of it: `handle_sequence_reset` and a new connection clear
it. So however the hole is closed, the session goes on expecting the first of the messages it
holds, and the application hears none of them until the counterparty sends them again.

## Every way of closing the hole

`held_never_applied` is a negative result, and such a result is easily had by looking at the wrong
runs. The runs here are all those in which the hole is closed and nothing from beyond it is sent
again: `Call.UpTo` lets through messages up to `n`, gap fills and resets up to `n + 1`, sends,
timers and a logout, in any order and number. `Holds` is the state they start from, a session that
waits with messages it keeps, and says nothing about how it got there; `holdsTwo` is one that a
Logon and two messages produce.

The invariant is `UpTo`: since that state nothing from beyond `n` has been expected or told. It does
not mention the queue, and does not have to: **no branch of the call reads it**. That is the content
of the theorem, and why no condition on the queue could rescue it.
-/

set_option autoImplicit false

namespace MarketData.Gateway

/-- The call brings nothing from beyond `n`: no message of a higher number, and no
`SequenceReset` to more than its successor. -/
def Call.UpTo (n : UInt64) : Call → Prop
  | .message m _ =>
    if m.msgType = MsgType.sequenceReset then
      ((m.findInt Tag.newSeqNo).getD 0).toUInt64 ≤ n + 1
    else m.number ≤ n
  | _ => True

instance (n : UInt64) : (c : Call) → Decidable (c.UpTo n)
  | .message .. => inferInstanceAs (Decidable (ite ..))
  | .send .. | .logout .. | .timer .. | .connect .. | .newConnection =>
    inferInstanceAs (Decidable True)

theorem FixMessage.number_eq {m : FixMessage} {k : Int64} (h : m.seqNum = some k) :
    m.number = k.toUInt64 := by
  rw [FixMessage.number, h]
  rfl

namespace Session

/-- The session waits for the numbers up to `n`, and holds those that follow. -/
structure Holds (s : Session) (n : UInt64) (held : List FixMessage) : Prop where
  waiting : s.state = .awaitingResend
  hole : s.store.seq.inbound ≤ n
  queued : ∀ q ∈ held, q ∈ s.queued
  numbers : held.map (fun q => q.number.toNat) = List.range' (n.toNat + 1) held.length

/-- What the application was told between `s` and `s'` from beyond `n`. -/
def toldBeyond (n : UInt64) (s s' : Session) : List FixMessage :=
  (s'.apps.drop s.apps.length).filter fun q => n < q.number

/-- The held messages were applied: each application message once and in order, and the number
that follows the last of them is the one expected. -/
def Applied (n : UInt64) (held : List FixMessage) (s s' : Session) : Prop :=
  toldBeyond n s s' = held.filter (fun q => Application q.msgType) ∧
    s'.store.seq.inbound.toNat = n.toNat + held.length + 1

/-- Since `s`, nothing from beyond `n` was expected or told. -/
structure UpTo (n : UInt64) (s s' : Session) : Prop where
  inbound : s'.store.seq.inbound ≤ n + 1
  apps : ∃ told, s'.apps = s.apps ++ told ∧ ∀ q ∈ told, q.number ≤ n

variable {disk : Disk} {n : UInt64} {s s' t : Session} {m : FixMessage}

/-- Nothing was told at all. -/
theorem UpTo.of_apps (hin : s'.store.seq.inbound ≤ n + 1) (happs : s'.apps = s.apps) :
    UpTo n s s' := by
  refine ⟨hin, [], ?_, fun _ hq => (nomatch hq)⟩
  rw [happs, List.append_nil]

theorem UpTo.trans (h : UpTo n s t) (h' : UpTo n t s') : UpTo n s s' := by
  obtain ⟨-, told, htold, hle⟩ := h
  obtain ⟨hin, told', htold', hle'⟩ := h'
  refine ⟨hin, told ++ told', ?_, ?_⟩
  · rw [htold', htold, List.append_assoc]
  · intro q hq
    rcases List.mem_append.mp hq with hq | hq
    · exact hle q hq
    · exact hle' q hq

theorem Sends.upTo (h : Sends s s') (hin : s.store.seq.inbound ≤ n + 1) : UpTo n s s' := by
  refine .of_apps ?_ h.apps
  rw [h.inbound]
  exact hin

/-- The successor of a number up to `n` is one up to `n + 1`. -/
theorem succ_le_succ {k : UInt64} (hn : n < n + 1) (h : k ≤ n) : k + 1 ≤ n + 1 := by
  have hone : (1 : UInt64).toNat = 1 := rfl
  rw [UInt64.lt_iff_toNat_lt, UInt64.toNat_add] at hn
  rw [UInt64.le_iff_toNat_le] at h
  rw [UInt64.le_iff_toNat_le, UInt64.toNat_add, UInt64.toNat_add]
  omega

theorem Checked.upTo {ok : Bool} (hn : n < n + 1) (hm : m.number ≤ n)
    (hin : s.store.seq.inbound ≤ n + 1) (h : Checked disk s m (ok, s')) : UpTo n s s' := by
  cases h with
  | accepted hseq hnext hstore =>
    rename_i k store
    refine .of_apps ?_ rfl
    show store.seq.inbound ≤ n + 1
    rw [SeqStore.store_synced_seq hstore]
    exact succ_le_succ hn (FixMessage.number_eq hseq ▸ hm)
  | notStored hseq hnext hstore hs hstate =>
    have hkept := hs.upTo (n := n) (by rw [SeqStore.store_failed_seq hstore]; exact hin)
    exact ⟨hkept.inbound, hkept.apps⟩
  | refused hnext hs => exact hs.upTo hin
  | gap hseq hbeyond hs =>
    have hkept := hs.upTo (n := n) hin
    exact ⟨hkept.inbound, hkept.apps⟩

theorem LoggedOn.upTo (hn : n < n + 1) (hm : m.number ≤ n) (hin : s.store.seq.inbound ≤ n + 1)
    (h : LoggedOn disk s m s') : UpTo n s s' := by
  -- a store that was reset expects 1
  have hreset : ∀ store, s.store.reset disk = (none, store) → store.seq.inbound ≤ n + 1 := by
    intro store hstore
    rw [SeqStore.store_synced_seq hstore]
    exact UInt64.zero_add (1 : UInt64) ▸ succ_le_succ hn UInt64.zero_le
  cases h with
  | notReset hflag hstore hs hstate =>
    have hkept := hs.upTo (n := n) (by rw [SeqStore.store_failed_seq hstore]; exact hin)
    exact ⟨hkept.inbound, hkept.apps⟩
  | checked hstore ht hs =>
    rename_i store t u ok
    have hstored : store.seq.inbound ≤ n + 1 := by
      rcases hstore with rfl | ⟨-, hstore⟩
      · exact hin
      · exact hreset store hstore
    have hsent := ht.upTo (n := n) hstored
    have hchecked := (UpTo.mk hsent.inbound hsent.apps : UpTo n s t).trans
      (hs.upTo hn hm hsent.inbound)
    cases ok with
    | false => exact hchecked
    | true => exact ⟨hchecked.inbound, hchecked.apps⟩

theorem ResetTo.upTo (hm : ((m.findInt Tag.newSeqNo).getD 0).toUInt64 ≤ n + 1)
    (hin : s.store.seq.inbound ≤ n + 1) (h : ResetTo disk s m s') : UpTo n s s' := by
  cases h with
  | refused hback hs => exact hs.upTo hin
  | notStored hnew hle hstore hs hstate =>
    have hkept := hs.upTo (n := n) (by rw [SeqStore.store_failed_seq hstore]; exact hin)
    exact ⟨hkept.inbound, hkept.apps⟩
  | moved hnew hle hstore =>
    rename_i k store
    rw [hnew] at hm
    have hmoved : store.seq.inbound ≤ n + 1 := by
      rw [SeqStore.store_synced_seq hstore]
      exact hm
    split
    · exact .of_apps hmoved rfl
    · exact .of_apps hmoved rfl

/-- **One call** that brings nothing from beyond `n`. -/
theorem call_upTo (disk : Disk) (hn : n < n + 1) {c : Call} (hc : c.UpTo n)
    (hin : s.store.seq.inbound ≤ n + 1) : UpTo n s (s.call disk c) := by
  unfold call
  split
  · exact .of_apps hin rfl
  cases c with
  | message m now =>
    have h := onMessage_handled disk s m now
    dsimp only
    generalize s.onMessage disk m now = s' at h ⊢
    have hself : UpTo n s { s with lastReceived := now.steady } := .of_apps hin rfl
    dsimp only [Call.UpTo] at hc
    refine hself.trans ?_
    cases h with
    | logon htype hs =>
      rw [if_neg (by rw [htype]; decide)] at hc
      exact hs.upTo hn hc hin
    | ignored hstate hs => exact hs.upTo hin
    | sequenceReset htype hstate hs =>
      rw [if_pos htype] at hc
      exact hs.upTo hc hin
    | turnedAway htype htype' hstate hs =>
      rw [if_neg htype'] at hc
      exact hs.upTo hn hc hin
    | taken htype htype' hstate ht hs =>
      rw [if_neg htype'] at hc
      have hchecked := Checked.upTo (s := { s with lastReceived := now.steady }) hn hc hin ht
      refine hchecked.trans ?_
      cases hs with
      | answered htype hs => exact hs.upTo hchecked.inbound
      | ended htype hs hstate => exact hs.upTo hchecked.inbound
      | delivered htype =>
        refine ⟨hchecked.inbound, [m], rfl, ?_⟩
        intro q hq
        obtain rfl := List.mem_singleton.mp hq
        exact hc
  | send msgType body now => exact (sendApplication_sends disk s now msgType body).upTo hin
  | logout reason now => exact (logout_sends disk s now reason).upTo hin
  | timer now => exact (onTimer_sends disk s now).upTo hin
  | connect now reset =>
    have h := connect_connected disk s now reset
    dsimp only
    generalize s.connect disk now reset = s' at h ⊢
    cases h with
    | notInitiator => exact .of_apps hin rfl
    | notReset hreset hstore hs hstate =>
      have hkept := hs.upTo (n := n) (by rw [SeqStore.store_failed_seq hstore]; exact hin)
      exact ⟨hkept.inbound, hkept.apps⟩
    | sent hstore hs hstate =>
      rename_i store
      have hstored : store.seq.inbound ≤ n + 1 := by
        rcases hstore with ⟨-, rfl⟩ | ⟨-, hstore⟩
        · exact hin
        · rw [SeqStore.store_synced_seq hstore]
          exact UInt64.zero_add (1 : UInt64) ▸ succ_le_succ hn UInt64.zero_le
      have hkept := hs.upTo (n := n) hstored
      exact ⟨hkept.inbound, hkept.apps⟩
  | newConnection => exact .of_apps hin rfl

theorem calls_upTo (disk : Disk) (hn : n < n + 1) {calls : List Call}
    (hcalls : ∀ c ∈ calls, c.UpTo n) (hin : s.store.seq.inbound ≤ n + 1) :
    UpTo n s (calls.foldl (call disk) s) := by
  induction calls generalizing s with
  | nil => exact .of_apps hin rfl
  | cons c calls ih =>
    have hstep := call_upTo disk hn (hcalls c (List.mem_cons_self ..)) hin
    exact hstep.trans (ih (fun c hc => hcalls c (List.mem_cons_of_mem _ hc)) hstep.inbound)

/-- A session that holds something has a number to expect after `n`. -/
theorem Holds.lt_succ {held : List FixMessage} (h : s.Holds n held) (hne : held ≠ []) :
    n < n + 1 := by
  obtain ⟨q, rest, rfl⟩ := List.exists_cons_of_ne_nil hne
  have hnumbers := h.numbers
  rw [List.map_cons, List.length_cons, List.range'_succ] at hnumbers
  have hq : q.number.toNat = n.toNat + 1 := (List.cons.inj hnumbers).1
  have hlt := q.number.toNat_lt
  have hone : (1 : UInt64).toNat = 1 := rfl
  rw [UInt64.lt_iff_toNat_lt, UInt64.toNat_add]
  omega

/-- **What is held is never applied.** Whatever closes the hole (messages up to `n`, gap fills up
to `n + 1`, with sends and timers among them): nothing from beyond it is told, and the number
expected is at most the first of those held. -/
theorem held_never_applied (disk : Disk) {held : List FixMessage} {calls : List Call}
    (h : s.Holds n held) (hne : held ≠ []) (hcalls : ∀ c ∈ calls, c.UpTo n) :
    toldBeyond n s (calls.foldl (call disk) s) = [] ∧
      ¬Applied n held s (calls.foldl (call disk) s) := by
  have hn := h.lt_succ hne
  obtain ⟨hin, told, htold, hle⟩ := calls_upTo disk hn hcalls (UInt64.le_trans h.hole
    (UInt64.le_of_lt hn))
  refine ⟨?_, fun happlied => ?_⟩
  · unfold toldBeyond
    rw [htold, List.drop_left, List.filter_eq_nil_iff]
    intro q hq
    simpa using hle q hq
  · have hlast := happlied.2
    have hpos := List.length_pos_iff.mpr hne
    have hone : (1 : UInt64).toNat = 1 := rfl
    rw [UInt64.le_iff_toNat_le, UInt64.toNat_add] at hin
    rw [UInt64.lt_iff_toNat_lt, UInt64.toNat_add] at hn
    omega

/-- An acceptor that has logged on holds 3 and 4, and waits for 2. -/
def holdsTwo : Session :=
  [inbound MsgType.logon 1 [], inbound ['D'] 3 [], inbound ['D'] 4 []].foldl
    (call fun _ => .synced) (.new acceptor {})

/-- The missing message arrives. 3 is the next one expected, and the application has heard of 2. -/
theorem held_kept_when_hole_closed :
    let held := holdsTwo.queued
    let s' := [inbound ['D'] 2 [(Tag.possDupFlag, ['Y'])]].foldl (call fun _ => .synced) holdsTwo
    (held.map FixMessage.number = [3, 4] ∧ s'.apps.map FixMessage.number = [2] ∧
      s'.store.seq.inbound = 3) ∧ toldBeyond 2 holdsTwo s' = [] ∧ ¬Applied 2 held holdsTwo s' :=
  ⟨by decide +kernel, held_never_applied _ ⟨by decide +kernel, by decide +kernel,
    fun _ hq => hq, by decide +kernel⟩ (by decide +kernel) (by decide +kernel)⟩

/-- So it is with a gap fill, which throws the two messages away. -/
theorem held_lost_when_hole_filled :
    let s' := [inbound MsgType.sequenceReset 2 [(Tag.gapFillFlag, ['Y']),
      (Tag.newSeqNo, ['3'])]].foldl (call fun _ => .synced) holdsTwo
    s'.apps = [] ∧ s'.store.seq.inbound = 3 ∧ s'.queued = [] ∧
      ¬Applied 2 holdsTwo.queued holdsTwo s' := by
  refine ⟨by decide +kernel, by decide +kernel, by decide +kernel, fun h => ?_⟩
  exact absurd h.2 (by decide +kernel)

end Session

end MarketData.Gateway
