import MarketData.Gateway.Delivery

/-!
# `Gateway/Gaps.lean` — holes in what came in

Two things a session is to guarantee about the numbers it has not seen. None is passed over
without a reason: it was accepted, or the counterparty filled it in, or reset past it. And the
wait for a hole ends when the hole does. Both are followed over every run of calls.

A `SequenceReset` is taken without a look at its own number, also when it is a gap fill; and only
a `SequenceReset` or a Logon ends the wait. Where the two promises hold is said in terms of these.

## Reasons for a number

`Covers` is one number's reason: the message carries it and it was the one expected, or the message
is a gap fill from a number not above it to one beyond it, or a reset to one beyond it.
`NoneSkipped` asks for a reason for every number between the old expectation and the new. Stated so,
a reset may jump as far as it likes, and a gap fill only from the hole on: what a gap fill stands
for begins at its own number. That is the whole difference between the two kinds, and the source's
handler makes none.

## The wait

`Waiting` is the invariant of the second half: a session in `AwaitingResend` holds a message that is
still to come, and all it holds have numbers. It is kept by every call but one, the acceptance of
the very message that closes the hole, after which the state should change and does not.
`LeavesHole` keeps those out, and `hole_open_while_awaiting_resend` has one direction only: in a run
that breaks it, a later reset may still end the wait before anyone looks.
-/

set_option autoImplicit false

namespace MarketData.Gateway

namespace Session

/-! ## No number is skipped -/

/-- Why a number may be passed over: it was the one expected and `m` carries it, or `m` is a gap
fill from a number not above it to one beyond it, or a reset to one beyond it. -/
inductive Covers (s : Session) (m : FixMessage) (n : UInt64) : Prop where
  | accepted (htype : m.msgType ≠ MsgType.sequenceReset) {k : Int64} (hseq : m.seqNum = some k)
      (hk : k.toUInt64 = n) (hn : n = s.store.seq.inbound)
  | gapFill (htype : m.msgType = MsgType.sequenceReset) (hflag : m.flag Tag.gapFillFlag = true)
      {k t : Int64} (hseq : m.seqNum = some k) (hnew : m.findInt Tag.newSeqNo = some t)
      (hle : k.toUInt64 ≤ n) (hlt : n < t.toUInt64)
  | reset (htype : m.msgType = MsgType.sequenceReset) (hflag : m.flag Tag.gapFillFlag = false)
      {t : Int64} (hnew : m.findInt Tag.newSeqNo = some t) (hlt : n < t.toUInt64)

/-- A gap fill for a session that is up. -/
def IsGapFill (s : Session) (m : FixMessage) : Prop :=
  s.hung = false ∧ s.state ≠ .disconnected ∧ m.msgType = MsgType.sequenceReset ∧
    m.flag Tag.gapFillFlag = true

/-- What one call may not do: pass over a number that nothing covers, unless the numbers are reset
by a Logon, or take a gap fill from beyond the expected number for anything but a gap. -/
def NoneSkipped (disk : Disk) (s : Session) : Call → Prop
  | .message m now =>
    let s' := s.call disk (.message m now)
    ((m.msgType = MsgType.logon ∧ m.flag Tag.resetSeqNumFlag = true) ∨
        ∀ n, s.store.seq.inbound ≤ n → n < s'.store.seq.inbound → Covers s m n) ∧
      (s.IsGapFill m → ∀ k ∈ m.seqNum, s.store.seq.inbound < k.toUInt64 →
        s'.store.seq.inbound = s.store.seq.inbound ∧ s'.queued = s.queued ++ [m])
  | .connect now resetSequences =>
    resetSequences = true ∨ ∀ n, s.store.seq.inbound ≤ n →
      ¬n < (s.call disk (.connect now resetSequences)).store.seq.inbound
  | c => ∀ n, s.store.seq.inbound ≤ n → ¬n < (s.call disk c).store.seq.inbound

/-- `m` starts no later than where the hole does. Without a number of its own, it fills nothing. -/
def StartsAtHole (disk : Disk) (s : Session) (m : FixMessage) : Prop :=
  match m.seqNum with
  | some k => k.toUInt64 ≤ s.store.seq.inbound
  | none => ∀ t ∈ m.findInt Tag.newSeqNo, s.store.seq.inbound < t.toUInt64 →
      disk s.store.writes ≠ .synced

/-- Every gap fill starts at the hole. -/
def FillsFromHole (disk : Disk) (s : Session) : Call → Prop
  | .message m _ => s.IsGapFill m → s.StartsAtHole disk m
  | _ => True

variable {disk : Disk} {s s' t : Session} {m : FixMessage}

/-- Sends pass over nothing. -/
theorem Sends.passes_none (h : Sends s s') (n : UInt64) (hle : s.store.seq.inbound ≤ n) :
    ¬n < s'.store.seq.inbound := by
  rw [h.inbound]
  exact UInt64.not_lt.mpr hle

/-- A message that is turned away passes over nothing. -/
theorem Checked.passes_none (h : Checked disk s m (false, s')) (n : UInt64)
    (hle : s.store.seq.inbound ≤ n) : ¬n < s'.store.seq.inbound := by
  cases h with
  | notStored hseq hnext hstore hs hstate =>
    rw [hs.inbound, SeqStore.store_failed_seq hstore]
    exact UInt64.not_lt.mpr hle
  | refused hnext hs => exact hs.passes_none n hle
  | gap hseq hbeyond hs => exact hs.passes_none n hle

/-- An accepted message passes over its own number at most. -/
theorem Checked.passes (h : Checked disk s m (true, t)) {n : UInt64}
    (hle : s.store.seq.inbound ≤ n) (hlt : n < t.store.seq.inbound) :
    ∃ k, m.seqNum = some k ∧ k.toUInt64 = n ∧ n = s.store.seq.inbound := by
  cases h with
  | accepted hseq hnext hstore =>
    rename_i k store
    have hn : n = s.store.seq.inbound := by
      have hstored : store.seq.inbound = s.store.seq.inbound + 1 := by
        rw [SeqStore.store_synced_seq hstore, ← hnext]
      have hlt : n < store.seq.inbound := hlt
      rw [hstored, UInt64.lt_iff_toNat_lt, UInt64.toNat_add] at hlt
      rw [UInt64.le_iff_toNat_le] at hle
      have hone : (1 : UInt64).toNat = 1 := rfl
      apply UInt64.toNat_inj.mp
      omega
    exact ⟨k, hseq, hnext.trans hn.symm, hn⟩

theorem LoggedOn.covers (hflag : m.flag Tag.resetSeqNumFlag = false)
    (htype : m.msgType = MsgType.logon) (h : LoggedOn disk s m s') {n : UInt64}
    (hle : s.store.seq.inbound ≤ n) (hlt : n < s'.store.seq.inbound) : Covers s m n := by
  have hother : m.msgType ≠ MsgType.sequenceReset := by
    rw [htype]
    decide
  cases h with
  | notReset hflag' => simp [hflag] at hflag'
  | checked hstore ht hs =>
    rename_i store t u ok
    rcases hstore with rfl | ⟨hflag', -⟩
    · have hin : t.store.seq.inbound = s.store.seq.inbound := ht.inbound
      cases ok with
      | false => exact absurd hlt (hs.passes_none n (hin ▸ hle))
      | true =>
        obtain ⟨k, hseq, hk, hn⟩ := hs.passes (hin ▸ hle) hlt
        exact .accepted hother hseq hk (hn.trans hin)
    · simp [hflag] at hflag'

/-- What a `SequenceReset` passes over lies below its `NewSeqNo`. -/
theorem ResetTo.passes (h : ResetTo disk s m s') {n : UInt64} (hle : s.store.seq.inbound ≤ n)
    (hlt : n < s'.store.seq.inbound) :
    disk s.store.writes = .synced ∧ ∃ t, m.findInt Tag.newSeqNo = some t ∧ n < t.toUInt64 := by
  cases h with
  | refused hback hs => exact absurd hlt (hs.passes_none n hle)
  | notStored hnew hle' hstore hs hstate =>
    rw [hs.inbound, SeqStore.store_failed_seq hstore] at hlt
    exact absurd hlt (UInt64.not_lt.mpr hle)
  | moved hnew hle' hstore =>
    rename_i k store
    have hlt : n < store.seq.inbound := by
      split at hlt
      · exact hlt
      · exact hlt
    have hsynced := SeqStore.synced_of_store hstore
    rw [SeqStore.store_synced_seq hstore] at hlt
    exact ⟨hsynced, k, hnew, hlt⟩

/-- A `SequenceReset` is never held as a gap. -/
theorem ResetTo.queued_ne (h : ResetTo disk s m s') : s'.queued ≠ s.queued ++ [m] := by
  have hself : s.queued ≠ s.queued ++ [m] := by simp
  cases h with
  | refused hback hs => exact hs.queued ▸ hself
  | notStored hnew hle hstore hs hstate =>
    have hq : s'.queued = s.queued := hs.queued
    exact hq ▸ hself
  | moved hnew hle hstore =>
    split
    · simp
    · exact hself

/-- Where the gap fills start at the hole, what a `SequenceReset` passes over is covered by it. -/
theorem ResetTo.covers (h : ResetTo disk s m s') (htype : m.msgType = MsgType.sequenceReset)
    (hfill : m.flag Tag.gapFillFlag = true → s.StartsAtHole disk m)
    {n : UInt64} (hle : s.store.seq.inbound ≤ n) (hlt : n < s'.store.seq.inbound) :
    Covers s m n := by
  obtain ⟨hsynced, t, hnew, hlt⟩ := h.passes hle hlt
  cases hflag : m.flag Tag.gapFillFlag with
  | false => exact .reset htype hflag hnew hlt
  | true =>
    have hfill := hfill hflag
    unfold StartsAtHole at hfill
    cases hseq : m.seqNum with
    | none =>
      rw [hseq] at hfill
      exact absurd hsynced (hfill t hnew (UInt64.lt_of_le_of_lt hle hlt))
    | some k =>
      rw [hseq] at hfill
      exact .gapFill htype hflag hseq hnew (UInt64.le_trans hfill hle) hlt

/-- What one message passes over is covered by it, where the gap fills start at the hole. -/
theorem Handled.covers (h : Handled disk s m s')
    (hreset : ¬(m.msgType = MsgType.logon ∧ m.flag Tag.resetSeqNumFlag = true))
    (hfill : s.state ≠ .disconnected → m.msgType = MsgType.sequenceReset →
      m.flag Tag.gapFillFlag = true → s.StartsAtHole disk m)
    {n : UInt64} (hle : s.store.seq.inbound ≤ n) (hlt : n < s'.store.seq.inbound) :
    Covers s m n := by
  cases h with
  | logon htype hs =>
    have hflag : m.flag Tag.resetSeqNumFlag = false := by
      cases hflag : m.flag Tag.resetSeqNumFlag with
      | false => rfl
      | true => exact absurd ⟨htype, hflag⟩ hreset
    exact hs.covers hflag htype hle hlt
  | ignored hstate hs => exact absurd hlt (hs.passes_none n hle)
  | sequenceReset htype hstate hs => exact hs.covers htype (hfill hstate htype) hle hlt
  | turnedAway htype htype' hstate hs => exact absurd hlt (hs.passes_none n hle)
  | taken htype htype' hstate ht hs =>
    rename_i t
    have hin : s'.store.seq.inbound = t.store.seq.inbound := by
      cases hs with
      | answered _ hs | ended _ hs => exact hs.inbound
      | delivered => rfl
    rw [hin] at hlt
    obtain ⟨k, hseq, hk, hn⟩ := ht.passes hle hlt
    exact .accepted htype' hseq hk hn

/-- A reset past the expected number that is stored passes over it. -/
theorem ResetTo.moves (h : ResetTo disk s m s') {t : Int64} (hnew : m.findInt Tag.newSeqNo = some t)
    (hlt : s.store.seq.inbound < t.toUInt64) (hsynced : disk s.store.writes = .synced) :
    s.store.seq.inbound < s'.store.seq.inbound := by
  cases h with
  | refused hback => exact absurd (hback t hnew) (UInt64.not_lt.mpr (UInt64.le_of_lt hlt))
  | notStored hnew' _ hstore =>
    unfold SeqStore.store at hstore
    simp [hsynced] at hstore
  | moved hnew' hle hstore =>
    rename_i k store
    rw [hnew] at hnew'
    cases hnew'
    have hin : s.store.seq.inbound < store.seq.inbound := by
      rw [SeqStore.store_synced_seq hstore]
      exact hlt
    split
    · exact hin
    · exact hin

theorem Handled.resetTo (h : Handled disk s m s') (htype : m.msgType = MsgType.sequenceReset)
    (hstate : s.state ≠ .disconnected) : ResetTo disk s m s' := by
  cases h with
  | logon htype' =>
    rw [htype] at htype'
    exact absurd htype' (by decide)
  | ignored hstate' => exact absurd hstate' hstate
  | sequenceReset _ _ hs => exact hs
  | turnedAway _ htype' => exact absurd htype htype'
  | taken _ htype' => exact absurd htype htype'

/-- Only a message passes over a number, a reset of our own apart. -/
theorem call_passes_none (disk : Disk) (s : Session) {c : Call} (hmsg : ∀ m now, c ≠ .message m now)
    (hreset : ∀ now, c ≠ .connect now true) (n : UInt64) (hle : s.store.seq.inbound ≤ n) :
    ¬n < (s.call disk c).store.seq.inbound := by
  unfold call
  split
  · exact (Sends.refl s).passes_none n hle
  cases c with
  | message m now => exact absurd rfl (hmsg m now)
  | send msgType body now => exact (sendApplication_sends disk s now msgType body).passes_none n hle
  | logout reason now => exact (logout_sends disk s now reason).passes_none n hle
  | timer now => exact (onTimer_sends disk s now).passes_none n hle
  | newConnection => exact UInt64.not_lt.mpr hle
  | connect now reset =>
    cases reset with
    | true => exact absurd rfl (hreset now)
    | false =>
      have h := connect_connected disk s now false
      dsimp only
      generalize s.connect disk now false = s' at h ⊢
      cases h with
      | notInitiator => exact (Sends.refl _).passes_none n hle
      | notReset hreset => cases hreset
      | sent hstore hs =>
        rcases hstore with ⟨-, rfl⟩ | ⟨hreset, -⟩
        · exact hs.passes_none n hle
        · cases hreset

/-- **One call** passes over no number without a reason exactly where its gap fill, if it is one,
starts at the hole. -/
theorem noneSkipped_iff (disk : Disk) (s : Session) (c : Call) :
    NoneSkipped disk s c ↔ FillsFromHole disk s c := by
  cases c with
  | send | logout | timer | newConnection =>
    exact ⟨fun _ => trivial, fun _ => call_passes_none disk s (fun _ _ h => (nomatch h))
      (fun _ h => (nomatch h))⟩
  | connect now reset =>
    refine ⟨fun _ => trivial, fun _ => ?_⟩
    cases reset with
    | true => exact .inl rfl
    | false =>
      exact .inr (call_passes_none disk s (fun _ _ h => (nomatch h)) (fun _ h => (nomatch h)))
  | message m now =>
    have hhandled := onMessage_handled disk s m now
    by_cases hhung : s.hung = true
    · -- nothing is taken in, so there is nothing to cover
      have hcall : s.call disk (.message m now) = s := by rw [call, if_pos hhung]
      constructor
      · intro _ hfill
        exact absurd hhung (by simp [hfill.1])
      · intro _
        refine ⟨.inr fun n hle hlt => ?_, fun hfill => absurd hhung (by simp [hfill.1])⟩
        rw [hcall] at hlt
        exact absurd hlt (UInt64.not_lt.mpr hle)
    have hhung : s.hung = false := by simpa using hhung
    have hcall : s.call disk (.message m now) = s.onMessage disk m now := by
      simp [call, hhung]
    constructor
    · intro hnone hfill
      obtain ⟨-, hstate, htype, hflag⟩ := hfill
      have hnot : m.msgType ≠ MsgType.logon := by
        rw [htype]
        decide
      have hreset := hhandled.resetTo htype hstate
      obtain ⟨hcovers, hgap⟩ := hnone
      rw [hcall] at hcovers hgap
      unfold StartsAtHole
      split
      · rename_i k hseq
        by_contra hlt
        have hq := (hgap ⟨hhung, hstate, htype, hflag⟩ k hseq (UInt64.not_le.mp hlt)).2
        exact hreset.queued_ne hq
      · rename_i hseq
        intro t hnew hlt hsynced
        -- it moves the number past the expected one, which nothing covers
        have hmoved := hreset.moves hnew hlt hsynced
        rcases hcovers with ⟨htype', -⟩ | hcovers
        · exact hnot htype'
        · cases hcovers _ (UInt64.le_refl _) hmoved with
          | accepted htype' => exact htype' htype
          | gapFill _ _ hseq' => simp [hseq] at hseq'
          | reset _ hflag' => simp [hflag] at hflag'
    · intro hfill
      have hfill' : s.state ≠ .disconnected → m.msgType = MsgType.sequenceReset →
          m.flag Tag.gapFillFlag = true → s.StartsAtHole disk m :=
        fun hstate htype hflag => hfill ⟨hhung, hstate, htype, hflag⟩
      refine ⟨?_, ?_⟩
      · by_cases hreset : m.msgType = MsgType.logon ∧ m.flag Tag.resetSeqNumFlag = true
        · exact .inl hreset
        · refine .inr fun n hle hlt => ?_
          rw [hcall] at hlt
          cases hhandled.covers hreset hfill' hle hlt with
          | accepted htype hseq hk hn => exact .accepted htype hseq hk hn
          | gapFill htype hflag hseq hnew hle hlt => exact .gapFill htype hflag hseq hnew hle hlt
          | reset htype hflag hnew hlt => exact .reset htype hflag hnew hlt
      · intro hgap k hseq hbeyond
        have hle := hfill hgap
        unfold StartsAtHole at hle
        rw [show m.seqNum = some k from hseq] at hle
        exact absurd hbeyond (UInt64.not_lt.mpr hle)

/-- **No number is skipped** in a run exactly where every gap fill of it starts at the hole. -/
theorem none_skipped_iff_fills_from_hole (disk : Disk) (s : Session) (calls : List Call) :
    Run.Along (call disk) (NoneSkipped disk) s calls ↔
      Run.Along (call disk) (FillsFromHole disk) s calls :=
  Run.along_congr fun s c => noneSkipped_iff disk s c

/-- An acceptor that keeps four messages. -/
def acceptor : SessionConfig := ⟨[], [], 30, fun interval => interval / 5, 4, false⟩

/-- An inbound message of that type and number. -/
def inbound (msgType : Text) (number : Int) (body : List (Nat × Text)) : Call :=
  .message ⟨[(Tag.msgType, msgType), (Tag.msgSeqNum, intText number)] ++ body⟩ ⟨0, []⟩

/-- The gap fill that stands for 5 to 7 arrives where 2 is expected: 2, 3 and 4 are gone. -/
theorem gap_fill_beyond_hole_skips :
    let calls := [inbound MsgType.logon 1 [],
      inbound MsgType.sequenceReset 5 [(Tag.gapFillFlag, ['Y']), (Tag.newSeqNo, ['8'])]]
    (calls.foldl (call fun _ => .synced) (.new acceptor {})).store.seq.inbound = 8 ∧
      ¬Run.Along (call fun _ => .synced) (NoneSkipped fun _ => .synced) (.new acceptor {})
        calls := by
  refine ⟨by decide +kernel, fun h => ?_⟩
  have hfill := (noneSkipped_iff _ _ _).mp h.2.1 ⟨by decide +kernel, by decide +kernel,
    by decide +kernel, by decide +kernel⟩
  have hseq : (⟨[(Tag.msgType, MsgType.sequenceReset), (Tag.msgSeqNum, intText 5)] ++
      [(Tag.gapFillFlag, ['Y']), (Tag.newSeqNo, ['8'])]⟩ : FixMessage).seqNum = some 5 := by
    decide +kernel
  unfold StartsAtHole at hfill
  rw [hseq] at hfill
  exact absurd hfill (by decide +kernel)

/-! ## The wait ends with the hole -/

/-- While the session waits for a resend, something it holds is still to come. -/
def HoleOpen (s : Session) : Prop :=
  s.state = .awaitingResend → ∃ q ∈ s.queued, s.store.seq.inbound ≤ q.number

/-- No message closes the hole by being accepted: where it is the last one missing, it is a Logon,
a Logout or a `SequenceReset`. -/
def LeavesHole (disk : Disk) (s : Session) : Call → Prop
  | .message m _ =>
    s.hung = false → s.state = .awaitingResend → m.msgType ≠ MsgType.logon →
      m.msgType ≠ MsgType.sequenceReset → m.msgType ≠ MsgType.logout →
      (∃ k ∈ m.seqNum, k.toUInt64 = s.store.seq.inbound) →
      disk s.store.writes = .synced → ∃ q ∈ s.queued, s.store.seq.inbound < q.number
  | _ => True

instance (disk : Disk) (s : Session) (c : Call) : Decidable (LeavesHole disk s c) :=
  match c with
  | .message .. => inferInstanceAs (Decidable (_ = _ → _))
  | .send .. | .logout .. | .timer .. | .connect .. | .newConnection =>
    inferInstanceAs (Decidable True)

/-- What a run keeps: the wait has something to wait for, and what is held has a number. -/
structure Waiting (s : Session) : Prop where
  positive : ∀ q ∈ s.queued, 0 < q.number
  holeOpen : HoleOpen s

theorem waiting_new (cfg : SessionConfig) (store : SeqStore) : Waiting (.new cfg store) :=
  ⟨fun _ hq => (nomatch hq), fun h => (nomatch h)⟩

theorem Sends.waiting (h : Sends s s') (hw : Waiting s) : Waiting s' := by
  refine ⟨?_, ?_⟩
  · rw [h.queued]
    exact hw.positive
  · intro hstate
    rw [h.queued, h.inbound]
    exact hw.holeOpen (h.state hstate)

/-- A session that has ended, or is not up yet, waits for nothing. -/
theorem Sends.waiting_of_state (h : Sends s s') (hpos : ∀ q ∈ s.queued, 0 < q.number)
    (hstate : s'.state ≠ .awaitingResend) : Waiting s' :=
  ⟨h.queued ▸ hpos, fun h => absurd h hstate⟩

theorem Checked.waiting_of_false (h : Checked disk s m (false, s')) (hw : Waiting s) :
    Waiting s' := by
  cases h with
  | notStored hseq hnext hstore hs hstate =>
    exact hs.waiting_of_state hw.positive (by simp [hstate])
  | refused hnext hs => exact hs.waiting hw
  | gap hseq hbeyond hs =>
    rename_i k u
    have hnumber : s.store.seq.inbound < m.number := by
      rw [FixMessage.number, hseq]
      exact hbeyond
    refine ⟨?_, ?_⟩
    · intro q hq
      rcases List.mem_append.mp hq with hq | hq
      · have hqueued : u.queued = s.queued := hs.queued
        exact hw.positive q (hqueued ▸ hq)
      · obtain rfl := List.mem_singleton.mp hq
        exact UInt64.lt_of_le_of_lt (UInt64.zero_le) hnumber
    · intro _
      refine ⟨m, List.mem_append_right _ (List.mem_singleton_self m), ?_⟩
      have hin : u.store.seq.inbound = s.store.seq.inbound := hs.inbound
      show u.store.seq.inbound ≤ m.number
      rw [hin]
      exact UInt64.le_of_lt hnumber

theorem ResetTo.waiting (h : ResetTo disk s m s') (hw : Waiting s) : Waiting s' := by
  cases h with
  | refused hback hs => exact hs.waiting hw
  | notStored hnew hle hstore hs hstate =>
    exact hs.waiting_of_state hw.positive (by simp [hstate])
  | moved hnew hle hstore =>
    split
    · exact ⟨fun _ hq => (nomatch hq), fun h => (nomatch h)⟩
    · rename_i hstate
      exact ⟨hw.positive, fun h => absurd h hstate⟩

/-- A reset store expects the first number, and whatever is held is not below it. -/
theorem Waiting.reset {store : SeqStore} (hw : Waiting s)
    (hstore : s.store.reset disk = (none, store)) : Waiting { s with store } := by
  refine ⟨hw.positive, fun hstate => ?_⟩
  obtain ⟨q, hq, -⟩ := hw.holeOpen hstate
  refine ⟨q, hq, ?_⟩
  show store.seq.inbound ≤ q.number
  have hpos := hw.positive q hq
  have hzero : (0 : UInt64).toNat = 0 := rfl
  have hone : (1 : UInt64).toNat = 1 := rfl
  rw [SeqStore.store_synced_seq hstore]
  show 1 ≤ q.number
  rw [UInt64.lt_iff_toNat_lt] at hpos
  rw [UInt64.le_iff_toNat_le]
  omega

theorem LoggedOn.waiting (h : LoggedOn disk s m s') (hw : Waiting s) : Waiting s' := by
  cases h with
  | notReset hflag hstore hs hstate => exact hs.waiting_of_state hw.positive (by simp [hstate])
  | checked hstore ht hs =>
    rename_i store t u ok
    have hwt : Waiting t := by
      rcases hstore with rfl | ⟨-, hstore⟩
      · exact ht.waiting hw
      · exact ht.waiting (hw.reset hstore)
    cases ok with
    | false => exact hs.waiting_of_false hwt
    | true =>
      cases hs with
      | accepted => exact ⟨hwt.positive, fun h => (nomatch h)⟩

/-- An accepted message that is not the last one missing leaves the hole open. -/
theorem Checked.waiting_of_true (h : Checked disk s m (true, t)) (hw : Waiting s)
    (hopen : s.state = .awaitingResend →
      (∃ k ∈ m.seqNum, k.toUInt64 = s.store.seq.inbound) →
      disk s.store.writes = .synced → ∃ q ∈ s.queued, s.store.seq.inbound < q.number) :
    Waiting t := by
  cases h with
  | accepted hseq hnext hstore =>
    rename_i k store
    refine ⟨hw.positive, fun hstate => ?_⟩
    have hsynced : disk s.store.writes = .synced := SeqStore.synced_of_store hstore
    obtain ⟨q, hq, hlt⟩ := hopen hstate ⟨k, hseq, hnext⟩ hsynced
    refine ⟨q, hq, ?_⟩
    show store.seq.inbound ≤ q.number
    have hone : (1 : UInt64).toNat = 1 := rfl
    have hbound := q.number.toNat_lt
    rw [SeqStore.store_synced_seq hstore]
    show k.toUInt64 + 1 ≤ q.number
    rw [hnext]
    rw [UInt64.lt_iff_toNat_lt] at hlt
    rw [UInt64.le_iff_toNat_le, UInt64.toNat_add]
    omega

theorem Handled.waiting (h : Handled disk s m s') (hw : Waiting s)
    (hopen : s.state = .awaitingResend → m.msgType ≠ MsgType.logon →
      m.msgType ≠ MsgType.sequenceReset → m.msgType ≠ MsgType.logout →
      (∃ k ∈ m.seqNum, k.toUInt64 = s.store.seq.inbound) →
      disk s.store.writes = .synced → ∃ q ∈ s.queued, s.store.seq.inbound < q.number) :
    Waiting s' := by
  cases h with
  | logon htype hs => exact hs.waiting hw
  | ignored hstate hs => exact hs.waiting hw
  | sequenceReset htype hstate hs => exact hs.waiting hw
  | turnedAway htype htype' hstate hs => exact hs.waiting_of_false hw
  | taken htype htype' hstate ht hs =>
    rename_i t
    cases hs with
    | answered hlogout hs =>
      exact hs.waiting (ht.waiting_of_true hw fun hs => hopen hs htype htype' hlogout)
    | delivered hlogout =>
      have hwt := ht.waiting_of_true hw fun hs => hopen hs htype htype' hlogout
      exact ⟨hwt.positive, hwt.holeOpen⟩
    | ended hlogout hs hstate =>
      refine hs.waiting_of_state ?_ (by simp [hstate])
      cases ht with
      | accepted => exact hw.positive

/-- **One call** keeps something to wait for. -/
theorem Waiting.call (hw : Waiting s) {c : Call} (hc : LeavesHole disk s c) :
    Waiting (s.call disk c) := by
  unfold Session.call
  split
  · exact hw
  rename_i hhung
  have hhung : s.hung = false := by simpa using hhung
  cases c with
  | message m now =>
    have hw' : Waiting { s with lastReceived := now.steady } := ⟨hw.positive, hw.holeOpen⟩
    exact (onMessage_handled disk s m now).waiting hw' (hc hhung)
  | send msgType body now => exact (sendApplication_sends disk s now msgType body).waiting hw
  | logout reason now => exact (logout_sends disk s now reason).waiting hw
  | timer now => exact (onTimer_sends disk s now).waiting hw
  | newConnection => exact ⟨fun _ hq => (nomatch hq), fun h => (nomatch h)⟩
  | connect now reset =>
    have h := connect_connected disk s now reset
    dsimp only
    generalize s.connect disk now reset = s' at h ⊢
    cases h with
    | notInitiator => exact hw
    | notReset hreset hstore hs hstate => exact hs.waiting_of_state hw.positive (by simp [hstate])
    | sent hstore hs hstate => exact hs.waiting_of_state hw.positive (by simp [hstate])

/-- **The wait ends with the hole**, in every run in which no hole is closed by a message that is
accepted. -/
theorem hole_open_while_awaiting_resend (disk : Disk) (cfg : SessionConfig) (store : SeqStore)
    (calls : List Call)
    (hleaves : Run.Along (call disk) (LeavesHole disk) (.new cfg store) calls) :
    HoleOpen (calls.foldl (call disk) (.new cfg store)) :=
  (hleaves.invariant Waiting (fun _ _ hw hc => hw.call hc) (waiting_new cfg store)).holeOpen

/-- 3 arrives ahead of 2, which is then resent. -/
theorem hole_open_before_last_resend :
    let calls := [inbound MsgType.logon 1 [], inbound ['D'] 3 [], inbound ['D'] 2 []]
    (calls.foldl (call fun _ => .synced) (.new acceptor {})).state = .awaitingResend ∧
      HoleOpen (calls.foldl (call fun _ => .synced) (.new acceptor {})) := by
  refine ⟨by decide +kernel, hole_open_while_awaiting_resend _ acceptor {} _ ?_⟩
  exact ⟨by decide +kernel, by decide +kernel, by decide +kernel, trivial⟩

/-- Then 3 is resent as well. Nothing is missing, and the session still waits. -/
theorem awaiting_resend_after_last_resend :
    let calls := [inbound MsgType.logon 1 [], inbound ['D'] 3 [], inbound ['D'] 2 [],
      inbound ['D'] 3 []]
    let s := calls.foldl (call fun _ => .synced) (.new acceptor {})
    s.state = .awaitingResend ∧ s.store.seq.inbound = 4 ∧ s.queued.map FixMessage.number = [3] ∧
      ¬HoleOpen s := by
  dsimp only
  generalize hs : [inbound MsgType.logon 1 [], inbound ['D'] 3 [], inbound ['D'] 2 [],
    inbound ['D'] 3 []].foldl (call fun _ => .synced) (.new acceptor {}) = s
  have hstate : s.state = .awaitingResend := by
    rw [← hs]
    decide +kernel
  have hin : s.store.seq.inbound = 4 := by
    rw [← hs]
    decide +kernel
  have hqueued : s.queued.map FixMessage.number = [3] := by
    rw [← hs]
    decide +kernel
  refine ⟨hstate, hin, hqueued, fun hopen => ?_⟩
  obtain ⟨q, hq, hle⟩ := hopen hstate
  have hnumber : q.number = 3 := by
    have hmem := List.mem_map_of_mem (f := FixMessage.number) hq
    rw [hqueued] at hmem
    exact List.mem_singleton.mp hmem
  rw [hin, hnumber] at hle
  exact absurd hle (by decide)

end Session

end MarketData.Gateway
