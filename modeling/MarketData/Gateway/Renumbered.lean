import MarketData.Gateway.Coverage

/-!
# `Gateway/Renumbered.lean` — the ring after the numbers start again

A Logon with `ResetSeqNumFlag` puts both directions back to 1 and leaves the resend ring as it is.
From then on the ring has records from before the reset under numbers that are current, and `recall`
takes the first slot with the number it is asked for. Whether an old message is sent a second time
is a matter of which slot it lies in.

## What is sent as new

The counterpart of a record is a message that was sent under its number. `since` collects them from
the reset on: all that goes out in a call but for an answer to a resend request, which is copies and
gap fills. **Nothing in the session keeps such a list.** It is a companion of the run, and a reset
begins it anew.

## The age of a slot

The ring is written round and round, so how many records were kept after that of a slot can be read
off the slot and the next one to be written (`age`). `Window` says that a slot of less age than
messages were sent since the reset has one of these messages, and which. That is all the ring is
good for: a slot of more age is from before, and no invariant says anything of it.

## When no harm is done

`Harmless` is about the records from before, and of these only about the ones that could be sent
again under a number the loop comes to. Each of them lies behind another record with its number, or
its copy is no different from that of a message sent since (which takes a message with the same
`SendingTime`). That an old record is found under a number that is in use now is enough for the
harm: nothing else in the loop looks at when a message was sent.

## A loop without end

A request up to the last number of all is a loop that wraps and never ends (`range`). What such a
call sends is not in `out`, since the call does not return; but each turn of it sends something, and
that is in `turned`. It is asked for any number of turns, so that nothing has to be assumed of the
range.
-/

set_option autoImplicit false

namespace MarketData.Gateway

open MarketData.Batch

/-- The message as it goes out when it is sent again. -/
def FixMessage.asCopy (m : FixMessage) : FixMessage :=
  Session.possDup ⟨m.number, m, (m.find Tag.sendingTime).getD [], false⟩ m

namespace Session

instance (disk : Disk) (s : Session) : (c : Call) → Decidable (s.Resets disk c)
  | .message .. => inferInstanceAs (Decidable (_ ∧ _))
  | .connect .. => inferInstanceAs (Decidable (_ ∧ _))
  | .send .. | .logout .. | .timer .. | .newConnection => inferInstanceAs (Decidable False)

instance (disk : Disk) (s : Session) : (c : Call) → Decidable (s.Serves disk c)
  | .message .. => inferInstanceAs (Decidable (_ ∧ _))
  | .connect .. | .send .. | .logout .. | .timer .. | .newConnection =>
    inferInstanceAs (Decidable False)

/-- The messages sent as new since the numbers last started again, after the call. -/
def since (disk : Disk) (s : Session) (sent : List FixMessage) (c : Call) : List FixMessage :=
  if s.hung = true ∨ s.Serves disk c then sent
  else if s.Resets disk c then s.answer disk c
  else sent ++ s.answer disk c

/-- A call, with what was sent as new since the numbers last started again. -/
def callSince (disk : Disk) (p : Session × List FixMessage) (c : Call) :
    Session × List FixMessage :=
  (p.1.call disk c, p.1.since disk p.2 c)

/-- How many records were kept after the one in the slot. -/
def age (s : Session) (slot : Nat) : Nat :=
  if slot < s.ringNext then s.ringNext - 1 - slot else s.ringNext + s.ring.length - 1 - slot

/-- The slots of less age than messages were `sent` have these messages. -/
structure Window (sent : List FixMessage) (s : Session) : Prop where
  next : s.ring ≠ [] → s.ringNext < s.ring.length
  holds : ∀ slot record, s.ring[slot]? = some (some record) → s.age slot < sent.length →
    sent[sent.length - 1 - s.age slot]? = some record.message

/-- The loop from `start` to `last` comes to `seq`. -/
def Comes (start last seq : UInt64) : Prop :=
  ∃ k : Nat, seq = start + UInt64.ofNat k ∧ ∀ i ≤ k, start + UInt64.ofNat i ≤ last

/-- The first `k` numbers of the loop. -/
def firstTurns (start : UInt64) (k : Nat) : List UInt64 :=
  (List.range k).map fun i => start + UInt64.ofNat i

/-- What the first `k` turns of the loop send. -/
def turned (s : Session) (now : Now) (start : UInt64) (k : Nat) : List FixMessage :=
  ((firstTurns start k).foldl (resendStep now) (0, s)).2.out.drop s.out.length

/-- Each record that was kept before the last `sent.length` ones, under a number that the loop comes
to, and that could be sent again, lies behind another with its number, or its copy is that of a
message `sent` under it. -/
def Harmless (s : Session) (sent : List FixMessage) (start last : UInt64) : Prop :=
  ∀ slot record, s.ring[slot]? = some (some record) → sent.length ≤ s.age slot →
    record.administrative = false → Comes start last record.seq → again record ≠ none →
      (∃ lower other, lower < slot ∧ s.ring[lower]? = some (some other) ∧
        other.seq = record.seq) ∨
      ∃ original ∈ sent, original.number = record.seq ∧ original.asCopy = record.message.asCopy

/-- What is sent again was `sent`, under the same number. The rest is gap fills. -/
def Current (sent answer : List FixMessage) : Prop :=
  ∀ m ∈ answer, m.msgType ≠ MsgType.sequenceReset →
    ∃ original ∈ sent, original.number = m.number ∧ m = original.asCopy

/-- **Nothing is sent again from before a reset**, neither in the call nor in any part of its
loop. -/
structure NoneRevived (disk : Disk) (s : Session) (sent : List FixMessage) (m : FixMessage)
    (now : Now) (start last : UInt64) : Prop where
  answered : Current sent (s.answer disk (.message m now))
  turned : ∀ k, (∀ i < k, start + UInt64.ofNat i ≤ last) → Current sent (s.turned now start k)

variable {disk : Disk} {s t u : Session} {now : Now} {m : FixMessage} {sent : List FixMessage}

/-! ## The window -/

theorem Window.congr (h : Window sent s) (hring : u.ring = s.ring)
    (hnext : u.ringNext = s.ringNext) : Window sent u := by
  have hage : u.age = s.age := by
    funext slot
    unfold age
    rw [hring, hnext]
  refine ⟨fun hne => ?_, fun slot record hslot hlt => ?_⟩
  · rw [hring] at hne ⊢
    rw [hnext]
    exact h.next hne
  · rw [hage] at hlt ⊢
    exact h.holds slot record (hring ▸ hslot) hlt

/-- A slot that is not written is one older; the one that is has no age. -/
theorem age_remember (s : Session) (new : Sent) (hnext : s.ringNext < s.ring.length) {slot : Nat}
    (hslot : slot < s.ring.length) :
    (s.remember new).age slot = if slot = s.ringNext then 0 else s.age slot + 1 := by
  have hne : s.ring ≠ [] := by
    intro hempty
    rw [hempty] at hnext
    exact absurd hnext (Nat.not_lt_zero _)
  unfold remember age
  rw [if_neg hne]
  dsimp only
  rw [List.length_set]
  by_cases hlast : s.ringNext + 1 < s.ring.length
  · rw [Nat.mod_eq_of_lt hlast]
    split_ifs <;> omega
  · have heq : s.ringNext + 1 = s.ring.length := by omega
    rw [heq, Nat.mod_self]
    split_ifs <;> omega

/-- The message of a record that is kept is the last one sent. -/
theorem Window.remember (h : Window sent s) (new : Sent) :
    Window (sent ++ [new.message]) (s.remember new) := by
  by_cases hempty : s.ring = []
  · have hsame : s.remember new = s := if_pos hempty
    rw [hsame]
    refine ⟨fun hne => absurd hempty hne, fun slot record hslot => ?_⟩
    rw [hempty] at hslot
    cases hslot
  have hnext := h.next hempty
  have hkept : s.remember new = { s with
      ring := s.ring.set s.ringNext (some new)
      ringNext := (s.ringNext + 1) % s.ring.length } := if_neg hempty
  refine ⟨fun _ => ?_, fun slot record hslot hage => ?_⟩
  · rw [hkept]
    dsimp only
    rw [List.length_set]
    exact Nat.mod_lt _ (by omega)
  have hlt : slot < s.ring.length := by
    have hbound := (List.getElem?_eq_some_iff.mp hslot).1
    rwa [hkept, List.length_set] at hbound
  rw [age_remember s new hnext hlt] at hage ⊢
  rw [hkept] at hslot
  dsimp only at hslot
  rw [List.length_append, List.length_singleton] at hage ⊢
  by_cases heq : slot = s.ringNext
  · subst heq
    rw [List.getElem?_set_self hlt] at hslot
    obtain rfl := Option.some.inj (Option.some.inj hslot)
    rw [if_pos rfl, Nat.sub_zero, Nat.add_sub_cancel, List.getElem?_concat_length]
  · rw [if_neg heq] at hage ⊢
    rw [List.getElem?_set_ne (Ne.symm heq)] at hslot
    rw [List.getElem?_append_left (by omega)]
    have hold := h.holds slot record hslot (by omega)
    rwa [show sent.length + 1 - 1 - (s.age slot + 1) = sent.length - 1 - s.age slot by omega]

theorem Act.window (h : Act disk False False s u) (hs : Window sent s) :
    ∃ ms, u.out = s.out ++ ms ∧ Window (sent ++ ms) u := by
  cases h with
  | emitted msgType body now adm htype =>
    rcases emit_cases disk s msgType body now adm rfl with
      ⟨hout, hring, hnext, -⟩ | ⟨hout, hring, hnext, -⟩
    · refine ⟨[], by rw [hout, List.append_nil], ?_⟩
      rw [List.append_nil]
      exact hs.congr hring hnext
    · exact ⟨_, hout, (hs.remember _).congr hring hnext⟩
  | repeated hresends => exact hresends.elim
  | aside hout hring hnext =>
    refine ⟨[], by rw [hout, List.append_nil], ?_⟩
    rw [List.append_nil]
    exact hs.congr hring hnext
  | renumbered hresets => exact hresets.elim

/-- **Whatever is sent is kept**, in the order in which it is sent. -/
theorem Acts.window (h : Acts disk False False s u) (hs : Window sent s) :
    ∃ ms, u.out = s.out ++ ms ∧ Window (sent ++ ms) u := by
  induction h with
  | refl => exact ⟨[], (List.append_nil _).symm, by rwa [List.append_nil]⟩
  | tail _ hact ih =>
    obtain ⟨ms, hout, hwindow⟩ := ih
    obtain ⟨ms', hout', hwindow'⟩ := hact.window hwindow
    exact ⟨ms ++ ms', by rw [hout', hout, List.append_assoc], by rwa [← List.append_assoc]⟩

/-- The same, of a call that is acts. -/
theorem answer_window {c : Call} (hout : t.out = s.out) (hs : Window sent t)
    (hacts : Acts disk False False t (s.call disk c)) :
    Window (sent ++ s.answer disk c) (s.call disk c) := by
  obtain ⟨ms, hsent, hwindow⟩ := hacts.window hs
  have hanswer : s.answer disk c = ms := by
    unfold answer
    rw [hsent, hout, List.drop_left]
  rwa [hanswer]

/-! ## A call -/

/-- A call that starts the numbers again does so before it sends anything. -/
theorem resets_acts (hup : s.hung = false) {c : Call} (hc : s.Resets disk c) :
    ∃ t : Session, t.out = s.out ∧ t.ring = s.ring ∧ t.ringNext = s.ringNext ∧
      Acts disk False False t (s.call disk c) := by
  unfold call
  rw [if_neg (by rw [hup]; decide)]
  cases c with
  | message m now =>
    obtain ⟨htype, hwants, hdisk⟩ := hc
    have hwants' : { s with lastReceived := now.steady }.wantsReset m = true := hwants
    dsimp only
    unfold onMessage handle
    rw [if_pos htype, handleLogon_eq, if_pos hwants']
    have hstored : (s.store.store disk ⟨1, 1⟩).1 = none := (store_isNone disk _ _).mpr hdisk
    unfold SeqStore.reset
    generalize s.store.store disk ⟨1, 1⟩ = r at hstored
    obtain ⟨failed, store⟩ := r
    obtain rfl : failed = none := hstored
    dsimp only
    split
    · rename_i heq
      exact ⟨{ s with lastReceived := now.steady, resetRequested := false, store }, rfl, rfl, rfl,
        greeted_acts _ m store now heq⟩
    · rename_i heq
      exact ⟨{ s with lastReceived := now.steady, resetRequested := false, store }, rfl, rfl, rfl,
        (greeted_acts _ m store now heq).tail (.aside rfl rfl rfl rfl)⟩
  | connect now reset =>
    obtain ⟨hrole, rfl, hdisk⟩ := hc
    have hstored : (s.store.store disk ⟨1, 1⟩).1 = none := (store_isNone disk _ _).mpr hdisk
    dsimp only
    unfold connect
    rw [if_neg (not_not.mpr hrole)]
    dsimp only
    rw [if_pos rfl]
    unfold SeqStore.reset
    generalize s.store.store disk ⟨1, 1⟩ = r at hstored
    obtain ⟨failed, store⟩ := r
    obtain rfl : failed = none := hstored
    dsimp only
    exact ⟨{ s with store, resetRequested := true }, rfl, rfl, rfl,
      (emit_acts ..).tail (.aside rfl rfl rfl rfl)⟩
  | send msgType body now => exact hc.elim
  | logout reason now => exact hc.elim
  | timer now => exact hc.elim
  | newConnection => exact hc.elim

/-- A request up to the last number of all. -/
theorem handleResendRequest_endless (disk : Disk) (s : Session) {m : FixMessage}
    {begin last : Int64} (hbegin : m.findInt Tag.beginSeqNo = some begin)
    (hlast : m.findInt Tag.endSeqNo = some last)
    (h : range begin.toUInt64 (s.lastAsked last) = none) (now : Now) :
    s.handleResendRequest disk m now = { s with hung := true } := by
  unfold lastAsked at h
  unfold handleResendRequest
  rw [hbegin, hlast]
  dsimp only
  rw [h]

/-- A resend request that is taken is answered from the ring and leaves it. -/
theorem serves_ring {m : FixMessage} (hup : s.hung = false)
    (hc : s.Serves disk (.message m now)) :
    (s.call disk (.message m now)).ring = s.ring ∧
      (s.call disk (.message m now)).ringNext = s.ringNext := by
  obtain ⟨htype, hstate, htakes, hbegin, hlast⟩ := hc
  obtain ⟨begin, hbegin⟩ := Option.isSome_iff_exists.mp hbegin
  obtain ⟨last, hlast⟩ := Option.isSome_iff_exists.mp hlast
  obtain ⟨u, hcall, -, -, hring, hnext, -, -⟩ := call_resendRequest hup hstate htype htakes now
  rw [hcall]
  cases hrange : range begin.toUInt64 (u.lastAsked last) with
  | some seqs =>
    obtain ⟨-, hsame⟩ := handleResendRequest_walk disk u hbegin hlast hrange now
    exact ⟨hsame.ring.trans hring, hsame.next.trans hnext⟩
  | none =>
    rw [handleResendRequest_endless disk u hbegin hlast hrange]
    exact ⟨hring, hnext⟩

/-- **Every call keeps the window.** -/
theorem window_call (hs : Window sent s) {c : Call} (hc : c.Proper) :
    Window (s.since disk sent c) (s.call disk c) := by
  unfold since
  cases hup : s.hung with
  | true =>
    rw [if_pos (.inl rfl)]
    have hcall : s.call disk c = s := if_pos hup
    rwa [hcall]
  | false =>
    by_cases hserves : s.Serves disk c
    · rw [if_pos (.inr hserves)]
      cases c with
      | message m now =>
        obtain ⟨hring, hnext⟩ := serves_ring hup hserves
        exact hs.congr hring hnext
      | connect now reset => exact hserves.elim
      | send msgType body now => exact hserves.elim
      | logout reason now => exact hserves.elim
      | timer now => exact hserves.elim
      | newConnection => exact hserves.elim
    rw [if_neg (by simp [hserves])]
    by_cases hresets : s.Resets disk c
    · rw [if_pos hresets]
      obtain ⟨t, hout, hring, hnext, hacts⟩ := resets_acts hup hresets
      have hnone : Window [] t := ⟨fun hne => by
        rw [hring] at hne ⊢
        rw [hnext]
        exact hs.next hne, fun slot record hslot hlt => absurd hlt (Nat.not_lt_zero _)⟩
      have hwindow := answer_window hout hnone hacts
      rwa [List.nil_append] at hwindow
    rw [if_neg hresets]
    by_cases hnew : c = .newConnection
    · subst hnew
      have hcall : s.call disk .newConnection = s.resetForNewConnection := if_neg (by simp [hup])
      have hanswer : s.answer disk .newConnection = [] := by
        unfold answer
        rw [hcall]
        exact List.drop_length
      rw [hanswer, List.append_nil, hcall]
      refine ⟨fun hne => ?_, fun slot record hslot => ?_⟩
      · exact List.length_pos_iff.mpr hne
      · exact absurd (List.mem_of_getElem? hslot) not_mem_cleared
    · have hacts : Acts disk (s.Resets disk c) (s.Serves disk c) s (s.call disk c) :=
        call_acts s hc hnew
      rw [eq_false hresets, eq_false hserves] at hacts
      exact answer_window rfl hs hacts

/-- **Over every run.** -/
theorem window_run (disk : Disk) (cfg : SessionConfig) (store : SeqStore) {calls : List Call}
    (hcalls : ∀ c ∈ calls, c.Proper) {p : Session × List FixMessage}
    (hrun : calls.foldl (callSince disk) (.new cfg store, []) = p) :
    p.1.Remembered ∧ Window p.2 p.1 := by
  rw [← hrun]
  refine Run.Along.invariant (C := fun _ c => c.Proper)
    (fun p : Session × List FixMessage => p.1.Remembered ∧ Window p.2 p.1)
    (fun p c hp hc => ⟨remembered_call hp.1 hc, window_call hp.2 hc⟩) ?_
    (Run.along_of_forall fun _ => hcalls)
  refine ⟨fun record hrecord => ?_, fun hne => ?_, fun slot record hslot hlt => ?_⟩
  · cases List.eq_of_mem_replicate hrecord
  · exact List.length_pos_iff.mpr hne
  · exact absurd hlt (Nat.not_lt_zero _)

/-! ## What the loop sends -/

/-- What is in `ms`, but for gap fills, is the copies of the records that are found for `seqs`. -/
def Yields (s : Session) (seqs : List UInt64) (ms : List FixMessage) : Prop :=
  ∀ m : FixMessage, m.msgType ≠ MsgType.sequenceReset →
    (m ∈ ms ↔ ∃ seq ∈ seqs, (s.resendable seq.toNat).bind again = some m)

theorem closed_yields (now : Now) (stop : UInt64) (a : UInt64 × Session) :
    ∃ ms, (closed now stop a).out = a.2.out ++ ms ∧ Same a.2 (closed now stop a) ∧
      ∀ m ∈ ms, m.msgType = MsgType.sequenceReset := by
  unfold closed
  split
  · obtain ⟨hout, hsame⟩ := sendGapFill_out a.2 a.1.toNat stop.toNat now
    rw [UInt64.ofNat_toNat, UInt64.ofNat_toNat] at hout hsame
    refine ⟨_, hout, hsame, fun m hm => ?_⟩
    unfold said at hm
    dsimp only at hm
    split at hm
    · rw [List.mem_singleton.mp hm]
      exact (gapFill_fill ..).msgType
    · cases hm
  · exact ⟨[], (List.append_nil _).symm, .refl _, fun m hm => (nomatch hm)⟩

/-- **The loop sends** a copy of what it finds for each number it comes to. -/
theorem loop_yields (now : Now) (seqs : List UInt64) (gap : UInt64) (s : Session) :
    ∃ ms, (seqs.foldl (resendStep now) (gap, s)).2.out = s.out ++ ms ∧
      Same s (seqs.foldl (resendStep now) (gap, s)).2 ∧ s.Yields seqs ms := by
  induction seqs generalizing gap s with
  | nil => exact ⟨[], (List.append_nil _).symm, .refl s, fun m _ => by simp⟩
  | cons seq seqs ih =>
    rw [List.foldl_cons]
    cases hsent : s.resendable seq.toNat with
    | none =>
      have hkeep : s.keeps seq.toNat = false := by rw [keeps, hsent]; rfl
      have hstep : resendStep now (gap, s) (UInt64.ofNat seq.toNat) = _ :=
        resendStep_declined hkeep gap
      rw [UInt64.ofNat_toNat] at hstep
      rw [hstep]
      obtain ⟨ms, hout, hsame, hms⟩ := ih (if gap = 0 then seq else gap) s
      refine ⟨ms, hout, hsame, fun m hm => ?_⟩
      rw [hms m hm]
      simp [hsent]
    | some record =>
      have hstep : resendStep now (gap, s) (UInt64.ofNat seq.toNat) = _ :=
        resendStep_kept hsent gap
      rw [UInt64.ofNat_toNat] at hstep
      rw [hstep]
      obtain ⟨fills, hfilled, hsame, hfills⟩ := closed_yields now seq (gap, s)
      generalize closed now seq (gap, s) = t at hfilled hsame
      obtain ⟨hcopied, hsame'⟩ := resend_out t record now
      obtain ⟨ms, hout, hsame'', hms⟩ := ih 0 (t.resend record now)
      have hboth := hsame.trans hsame'
      refine ⟨fills ++ (again record).toList ++ ms, ?_, hboth.trans hsame'', fun m hm => ?_⟩
      · rw [hout, hcopied, hfilled]
        simp only [List.append_assoc]
      have hfill : m ∉ fills := fun hmem => hm (hfills m hmem)
      have hrest := hms m hm
      simp only [hboth.resendable] at hrest
      simp [hfill, hrest, hsent, Option.mem_toList]

theorem turned_yields (s : Session) (now : Now) (start : UInt64) (k : Nat) :
    s.Yields (firstTurns start k) (s.turned now start k) := by
  obtain ⟨ms, hout, -, hms⟩ := loop_yields now (firstTurns start k) 0 s
  unfold turned
  rwa [hout, List.drop_left]

/-- What the loop comes to, if it ends. -/
theorem mem_range_iff {start last : UInt64} {seqs : List UInt64} (h : range start last = some seqs)
    {seq : UInt64} : seq ∈ seqs ↔ Comes start last seq := by
  obtain ⟨rfl, hends⟩ := range_eq_some h
  rw [List.mem_map]
  have hnat : ∀ i, start.toNat + i < 2 ^ 64 → (start + UInt64.ofNat i).toNat = start.toNat + i := by
    intro i hi
    rw [UInt64.toNat_add, UInt64.toNat_ofNat_of_lt' (by show i < 2 ^ 64; omega),
      Nat.mod_eq_of_lt hi]
  constructor
  · rintro ⟨n, hn, rfl⟩
    rw [List.mem_range'_1] at hn
    have hend := hends (by rw [UInt64.le_iff_toNat_le]; omega)
    refine ⟨n - start.toNat, ?_, fun i hi => ?_⟩
    · rw [← UInt64.toNat_inj, hnat _ (by omega),
        UInt64.toNat_ofNat_of_lt' (by show n < 2 ^ 64; omega)]
      omega
    · rw [UInt64.le_iff_toNat_le, hnat _ (by omega)]
      omega
  · rintro ⟨k, rfl, hk⟩
    have hstart : start ≤ last := by simpa using hk 0 (Nat.zero_le k)
    have hend := hends hstart
    rw [UInt64.le_iff_toNat_le] at hstart
    -- no number up to the last one wraps
    have hbelow : ∀ i ≤ k, start.toNat + i ≤ last.toNat := by
      intro i
      induction i with
      | zero => exact fun _ => hstart
      | succ i ih =>
        intro hi
        have hprev := ih (by omega)
        have hle := hk (i + 1) hi
        rwa [UInt64.le_iff_toNat_le, hnat _ (by omega)] at hle
    have hlast := hbelow k (Nat.le_refl k)
    refine ⟨start.toNat + k, List.mem_range'_1.mpr ⟨by omega, by omega⟩, ?_⟩
    rw [← UInt64.toNat_inj, hnat _ (by omega),
      UInt64.toNat_ofNat_of_lt' (by show _ < 2 ^ 64; omega)]

theorem mem_firstTurns {start last seq : UInt64} {k : Nat} (h : seq ∈ firstTurns start k)
    (hk : ∀ i < k, start + UInt64.ofNat i ≤ last) : Comes start last seq := by
  obtain ⟨i, hi, rfl⟩ := List.mem_map.mp h
  have hi := List.mem_range.mp hi
  exact ⟨i, rfl, fun j hj => hk j (by omega)⟩

/-- **The answer sends** what the loop finds, if the loop ends, and otherwise does not come. -/
theorem answer_yields (hup : s.hung = false) {m : FixMessage} (hstate : s.state ≠ .disconnected)
    (htype : m.msgType = MsgType.resendRequest) (htakes : s.Takes disk m) {begin last : Int64}
    (hbegin : m.findInt Tag.beginSeqNo = some begin) (hlast : m.findInt Tag.endSeqNo = some last)
    (now : Now) :
    ∃ seqs, (∀ seq ∈ seqs, Comes begin.toUInt64 (s.lastAsked last) seq) ∧
      s.Yields seqs (s.answer disk (.message m now)) := by
  obtain ⟨u, hcall, -, hout, hring, -, hcfg, houtbound⟩ :=
    call_resendRequest hup hstate htype htakes now
  have hasked : u.lastAsked last = s.lastAsked last := by
    unfold lastAsked
    rw [houtbound]
  have hresendable : u.resendable = s.resendable := by
    funext n
    unfold resendable Session.recall
    rw [hring]
  unfold answer
  rw [hcall, ← hasked, ← hout]
  cases hrange : range begin.toUInt64 (u.lastAsked last) with
  | none =>
    rw [handleResendRequest_endless disk u hbegin hlast hrange]
    refine ⟨[], fun seq hseq => (nomatch hseq), fun m _ => ?_⟩
    simp
  | some seqs =>
    rw [handleResendRequest_eq disk u hbegin hlast hrange]
    obtain ⟨ms, hsent, -, hms⟩ := loop_yields now seqs 0 u
    obtain ⟨fills, hfilled, -, hfills⟩ :=
      closed_yields now (u.lastAsked last + 1) (seqs.foldl (resendStep now) (0, u))
    refine ⟨seqs, fun seq hseq => (mem_range_iff hrange).mp hseq, fun m hm => ?_⟩
    rw [hfilled, hsent, List.append_assoc, List.drop_left, List.mem_append]
    have hfill : m ∉ fills := fun hmem => hm (hfills m hmem)
    rw [or_iff_left hfill, hms m hm, hresendable]

/-! ## What is found -/

/-- **`recall`** takes the first slot with the number. -/
theorem recall_eq_some_iff {seq : UInt64} {record : Sent} : s.recall seq = some record ↔
    ∃ slot, s.ring[slot]? = some (some record) ∧ record.seq = seq ∧
      ∀ (lower : Nat) (other : Sent), lower < slot → s.ring[lower]? = some (some other) →
        other.seq ≠ seq := by
  unfold Session.recall
  rw [List.findSome?_eq_some_iff]
  constructor
  · rintro ⟨before, slot, after, hring, hslot, hbefore⟩
    obtain ⟨rfl, hseq⟩ := Option.filter_eq_some_iff.mp hslot
    refine ⟨before.length, ?_, of_decide_eq_true hseq, fun lower other hlower hother heq => ?_⟩
    · rw [hring, List.getElem?_append_right (Nat.le_refl _), Nat.sub_self, List.getElem?_cons_zero]
    · rw [hring, List.getElem?_append_left hlower] at hother
      have hnone := hbefore _ (List.mem_of_getElem? hother)
      simp [heq] at hnone
  · rintro ⟨slot, hslot, hseq, hlower⟩
    obtain ⟨hlt, hget⟩ := List.getElem?_eq_some_iff.mp hslot
    refine ⟨s.ring.take slot, some record, s.ring.drop (slot + 1), ?_, by simp [hseq], ?_⟩
    · rw [← hget, ← List.drop_eq_getElem_cons hlt, List.take_append_drop]
    · intro entry hentry
      obtain ⟨lower, hlt', hget'⟩ := List.mem_take_iff_getElem.mp hentry
      cases entry with
      | none => rfl
      | some other =>
        have hne := hlower lower other (by omega)
          (List.getElem?_eq_some_iff.mpr ⟨by omega, hget'⟩)
        simp [hne]

theorem Posted.again_eq {record : Sent} (h : Posted record) (hagain : again record = some m) :
    m = record.message.asCopy := by
  obtain ⟨-, -, -, -, -, htime, -⟩ := h.fields
  rw [again_eq_some hagain]
  unfold FixMessage.asCopy
  rw [htime]
  rfl

theorem Posted.number {record : Sent} (h : Posted record) : record.message.number = record.seq := by
  unfold FixMessage.number
  rw [h.seqNum, Option.getD_some, UInt64.toUInt64_toInt64]

/-- **Harmless is enough**, for whatever the loop sends. -/
theorem current_of_harmless (hs : s.Remembered) (hwindow : Window sent s) {start last : UInt64}
    (h : s.Harmless sent start last) {seqs : List UInt64} {ms : List FixMessage}
    (hseqs : ∀ seq ∈ seqs, Comes start last seq) (hms : s.Yields seqs ms) : Current sent ms := by
  intro m hm htype
  obtain ⟨seq, hseq, hfound⟩ := (hms m htype).mp hm
  obtain ⟨record, hrecord, hagain⟩ := Option.bind_eq_some_iff.mp hfound
  unfold resendable at hrecord
  rw [Option.filter_eq_some_iff, UInt64.ofNat_toNat] at hrecord
  obtain ⟨hrecall, hadm⟩ := hrecord
  have hposted := hs record (recall_mem hrecall)
  have hadm : record.administrative = false := by simpa using hadm
  have hnumber : m.number = record.seq := (hposted.copy hadm hagain).number
  obtain ⟨slot, hslot, rfl, hfirst⟩ := recall_eq_some_iff.mp hrecall
  rw [hnumber, hposted.again_eq hagain]
  by_cases hage : s.age slot < sent.length
  · exact ⟨record.message, List.mem_of_getElem? (hwindow.holds slot record hslot hage),
      hposted.number, rfl⟩
  · rcases h slot record hslot (Nat.not_lt.mp hage) hadm (hseqs _ hseq) (by rw [hagain]; simp) with
      ⟨lower, other, hlower, hother, heq⟩ | ⟨original, hmem, horiginal, hcopy⟩
    · exact absurd heq (hfirst lower other hlower hother)
    · exact ⟨original, hmem, horiginal, hcopy.symm⟩

/-- **And needed**, for what its turns send. -/
theorem harmless_of_turned (hs : s.Remembered) {start last : UInt64}
    (h : ∀ k, (∀ i < k, start + UInt64.ofNat i ≤ last) → Current sent (s.turned now start k)) :
    s.Harmless sent start last := by
  intro slot record hslot hold hadm hcomes hagain
  by_cases hlower : ∃ lower other, lower < slot ∧ s.ring[lower]? = some (some other) ∧
      other.seq = record.seq
  · exact .inl hlower
  right
  obtain ⟨copy, hcopy⟩ := Option.ne_none_iff_exists'.mp hagain
  have hposted := hs record (List.mem_of_getElem? hslot)
  have hcopied := hposted.copy hadm hcopy
  have hfound : (s.resendable record.seq.toNat).bind again = some copy := by
    have hrecall : s.recall record.seq = some record :=
      recall_eq_some_iff.mpr ⟨slot, hslot, rfl, fun lower other hlt hother heq =>
        hlower ⟨lower, other, hlt, hother, heq⟩⟩
    have hkept : (some record).filter (fun sent => !sent.administrative) = some record :=
      Option.filter_eq_some_iff.mpr ⟨rfl, by rw [hadm]; rfl⟩
    unfold resendable
    rw [UInt64.ofNat_toNat, hrecall, hkept]
    exact hcopy
  obtain ⟨k, hk, hturns⟩ := hcomes
  have hturn : record.seq ∈ firstTurns start (k + 1) :=
    List.mem_map.mpr ⟨k, List.mem_range.mpr (Nat.lt_succ_self k), hk.symm⟩
  have hmem := (turned_yields s now start (k + 1) copy hcopied.not_reset).mpr
    ⟨_, hturn, hfound⟩
  obtain ⟨original, horiginal, hnumber, heq⟩ :=
    h (k + 1) (fun i hi => hturns i (by omega)) copy hmem hcopied.not_reset
  refine ⟨original, horiginal, ?_, ?_⟩
  · rw [hnumber, hcopied.number]
  · rw [← heq, hposted.again_eq hcopy]

/-- A Logon, what was sent `before`, a Logon that starts the numbers again, and the orders `b` and
`c`, under 1 and 2. -/
def renumbered (before : List Call) : List Call :=
  inbound MsgType.logon 1 [] :: before ++ [inbound MsgType.logon 1 [(Tag.resetSeqNumFlag, ['Y'])],
    .send ['D'] [(Tag.clOrdId, ['b'])] ⟨0, []⟩, .send ['D'] [(Tag.clOrdId, ['c'])] ⟨0, []⟩]

def afterRenumbered (before : List Call) : Session × List FixMessage :=
  (renumbered before).foldl (callSince fun _ => .synced) (.new acceptor {}, [])

end Session

end MarketData.Gateway
