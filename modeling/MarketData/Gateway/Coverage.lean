import MarketData.Gateway.Delivery
import MarketData.Gateway.Overrun

/-!
# `Gateway/Coverage.lean` — that no number vanishes from a resend

A counterparty that has missed messages asks for their numbers, and what it gets has to account for
every one of them: the message that went out under it, marked as a copy, or a gap fill that says
there is nothing to send. A number that is in neither leaves a new hole where the old one was, and
asking again is answered in the same way.

## Where a number is lost

The walk puts every number of the range in a piece, and says something for each (`Lib/Batch.lean`,
`Gateway/Resend.lean`). What it says for a message in the ring may be nothing: the copy is longer
than the original by two fields and is built in a buffer of the same size, and the message is first
parsed, which counts three more fields than it was built with. A message that just fitted when it was
sent is passed over when it is to be sent again, **after the gap before it has been closed**, so that
no gap fill stands in for it either.

What is copied is the original without the fields that frame it, and whatever stands after a
`SendingTime` is marked. A body with such a tag in it does not come back as it went out. `repeats` is
all three together, and is asked of the records the ring has for the range.

## Which message is meant

`AccountsFor` speaks of the record the ring has under a number, and of the messages sent since the
connection was opened, among which it is. The ring is empty then. That it was sent under the number
it is found under is in the record (`Posted`), and holds of every run, whether the numbers started
again or not.
-/

set_option autoImplicit false

namespace MarketData.Gateway

open MarketData.Batch

/-- The numbers that a message of an answer stands for. -/
def FixMessage.standsFor (m : FixMessage) : List Nat :=
  if m.msgType = MsgType.sequenceReset then
    List.range' m.number.toNat
      (((m.findInt Tag.newSeqNo).getD 0).toUInt64.toNat - m.number.toNat)
  else [m.number.toNat]

/-- `m` is `original` with the two fields after its header. -/
def FixMessage.CopyOf (original m : FixMessage) : Prop :=
  ∃ header body, original.fields = header ++ body ∧
    header.map (·.1) = [Tag.msgType, Tag.senderCompId, Tag.targetCompId, Tag.msgSeqNum,
      Tag.sendingTime] ∧
    m.fields = header ++ [(Tag.possDupFlag, ['Y']),
      (Tag.origSendingTime, (original.find Tag.sendingTime).getD [])] ++ body

namespace Session

/-- A field that a copy does not take over as it is. -/
def rewritten (f : Nat × Text) : Bool :=
  f.1 = Tag.beginString || f.1 = Tag.bodyLength || f.1 = Tag.checkSum || f.1 = Tag.sendingTime

/-- The record can be parsed, its copy fits the buffer, and nothing after the header is rewritten. -/
def repeats (sent : Sent) : Bool :=
  sent.message.fields.length + 3 ≤ FixMessage.maxFields &&
    sent.message.size + sent.sendingTime.length + 10 ≤ maxMessage &&
    (sent.message.fields.drop 5).all fun f => !rewritten f

/-- **The answer accounts for every number** from `first` to `last`, in order and once: by a copy of
the message that was sent under it, which is one of those `since` the connection was opened, or by a
gap fill with no message in its range that could be sent again. -/
structure AccountsFor (s : Session) (since : List FixMessage) (first last : Nat)
    (answer : List FixMessage) : Prop where
  covered : answer.flatMap FixMessage.standsFor = List.range' first (last + 1 - first)
  copies : ∀ m ∈ answer, m.msgType ≠ MsgType.sequenceReset →
    ∃ sent, s.resendable m.number.toNat = some sent ∧ sent.message ∈ since ∧
      sent.message.number = m.number ∧ Application sent.message.msgType ∧
      sent.message.CopyOf m
  fills : ∀ m ∈ answer, m.msgType = MsgType.sequenceReset → ∀ n ∈ m.standsFor, s.keeps n = false

/-- Whatever the ring has for the range can be sent again. -/
def Repeatable (s : Session) (first last : Nat) : Prop :=
  ∀ n, first ≤ n → n ≤ last → (s.resendable n).all repeats = true

variable {disk : Disk} {s u : Session} {now : Now} {m : FixMessage} {k : UInt64}

/-! ## Since the connection was opened -/

/-- All that the ring has was sent, and since the first `base` messages were. -/
structure Recent (base : Nat) (s : Session) : Prop where
  remembered : s.Remembered
  base_le : base ≤ s.out.length
  mem : ∀ sent, some sent ∈ s.ring → sent.message ∈ s.out.drop base

theorem Act.out {resets resends : Prop} (h : Act disk resets resends s u) : s.out <+: u.out := by
  cases h with
  | emitted msgType body now adm htype =>
    rcases emit_cases disk s msgType body now adm rfl with ⟨hout, -⟩ | ⟨hout, -⟩
    · exact ⟨[], by rw [hout, List.append_nil]⟩
    · exact ⟨_, hout.symm⟩
  | repeated hresends m hout => exact ⟨_, hout.symm⟩
  | aside hout => exact ⟨[], by rw [hout, List.append_nil]⟩
  | renumbered hresets hout => exact ⟨[], by rw [hout, List.append_nil]⟩

theorem Act.recent {resets resends : Prop} {base : Nat} (h : Act disk resets resends s u)
    (hs : s.Recent base) : u.Recent base := by
  obtain ⟨ms, hout⟩ := h.out
  have hbase := hs.base_le
  refine ⟨h.remembered hs.remembered, ?_, fun sent hsent => ?_⟩
  · rw [← hout, List.length_append]
    omega
  · rw [← hout, List.drop_append_of_le_length hbase]
    rcases h.kept hsent with hsent | ⟨msgType, body, now, adm, rfl, htype, hnew⟩
    · exact List.mem_append_left _ (hs.mem sent hsent)
    · rw [hnew] at hout
      have hms := List.append_cancel_left hout
      rw [hms]
      exact List.mem_append_right _ (List.mem_singleton_self _)

theorem recent_call {base : Nat} (hs : s.Recent base) {c : Call} (hc : c.Proper) :
    (s.call disk c).Recent base := by
  by_cases hnew : c = .newConnection
  · subst hnew
    unfold call
    split
    · exact hs
    · refine ⟨fun sent hsent => ?_, hs.base_le, fun sent hsent => ?_⟩
      · exact absurd hsent not_mem_cleared
      · exact absurd hsent not_mem_cleared
  · have hacts : Acts disk (s.Resets disk c) (s.Serves disk c) s (s.call disk c) :=
      call_acts s hc hnew
    generalize s.call disk c = t at hacts
    induction hacts with
    | refl => exact hs
    | tail _ hact ih => exact hact.recent ih

/-- **Over every run** from a connection's opening. -/
theorem recent_run {opened : Session} (hempty : ∀ slot ∈ opened.ring, slot = none)
    {calls : List Call} (hcalls : ∀ c ∈ calls, c.Proper) :
    (calls.foldl (call disk) opened).Recent opened.out.length := by
  refine Run.Along.invariant (C := fun _ c => c.Proper) (Recent opened.out.length)
    (fun s c hs hc => recent_call hs hc) ?_ (Run.along_of_forall fun _ => hcalls)
  refine ⟨fun sent hsent => ?_, Nat.le_refl _, fun sent hsent => ?_⟩
  · cases hempty _ hsent
  · cases hempty _ hsent

/-! ## Copies -/

theorem flatMap_eq_self {body : List (Nat × Text)} {g : Nat × Text → List (Nat × Text)}
    (h : ∀ f ∈ body, g f = [f]) : body.flatMap g = body := by
  induction body with
  | nil => rfl
  | cons f body ih =>
    rw [List.flatMap_cons, h f List.mem_cons_self,
      ih fun f' hf' => h f' (List.mem_cons_of_mem _ hf')]
    rfl

/-- What becomes of a field in a copy. -/
def copied (sent : Sent) (f : Nat × Text) : List (Nat × Text) :=
  if f.1 = Tag.beginString ∨ f.1 = Tag.bodyLength ∨ f.1 = Tag.checkSum then []
  else if f.1 = Tag.sendingTime then
    [f, (Tag.possDupFlag, ['Y']), (Tag.origSendingTime, sent.sendingTime)]
  else [f]

theorem possDup_fields (sent : Sent) (m : FixMessage) :
    (possDup sent m).fields = m.fields.flatMap (copied sent) := rfl

/-- A field that frames the message is not in a copy. -/
theorem not_framing_of_mem {sent : Sent} {f : Nat × Text} {fields : List (Nat × Text)}
    (h : f ∈ fields.flatMap (copied sent)) :
    ¬(f.1 = Tag.beginString ∨ f.1 = Tag.bodyLength ∨ f.1 = Tag.checkSum) := by
  obtain ⟨f', -, hf⟩ := List.mem_flatMap.mp h
  unfold copied at hf
  split at hf
  · cases hf
  rename_i hplain
  split at hf
  · simp only [List.mem_cons, List.not_mem_nil, or_false] at hf
    rcases hf with rfl | rfl | rfl
    · exact hplain
    · decide
    · show ¬(Tag.origSendingTime = Tag.beginString ∨ Tag.origSendingTime = Tag.bodyLength ∨
        Tag.origSendingTime = Tag.checkSum)
      decide
  · rw [List.mem_singleton.mp hf]
    exact hplain

theorem length_flatMap_copied (sent : Sent) {fields : List (Nat × Text)}
    (h : ∀ f ∈ fields, ¬(f.1 = Tag.beginString ∨ f.1 = Tag.bodyLength ∨ f.1 = Tag.checkSum)) :
    (fields.flatMap (copied sent)).length =
      fields.length + 2 * fields.countP fun f => f.1 = Tag.sendingTime := by
  induction fields with
  | nil => rfl
  | cons f fields ih =>
    have hrest := ih fun f' hf' => h f' (List.mem_cons_of_mem _ hf')
    rw [List.flatMap_cons, List.length_append, hrest, List.length_cons, List.countP_cons]
    unfold copied
    rw [if_neg (h f List.mem_cons_self)]
    by_cases hf : f.1 = Tag.sendingTime
    · simp only [hf, if_true, List.length_cons, List.length_nil, decide_true]
      omega
    · simp only [hf, if_false, List.length_cons, List.length_nil, decide_false,
        Bool.false_eq_true]
      omega

/-- **A body is copied as it is** just if nothing in it is rewritten. -/
theorem flatMap_copied_eq_iff (sent : Sent) (body : List (Nat × Text)) :
    body.flatMap (copied sent) = body ↔ ∀ f ∈ body, rewritten f = false := by
  constructor
  · intro h f hf
    have hplain : ∀ f ∈ body,
        ¬(f.1 = Tag.beginString ∨ f.1 = Tag.bodyLength ∨ f.1 = Tag.checkSum) := by
      intro f hf
      rw [← h] at hf
      exact not_framing_of_mem hf
    have hlength := length_flatMap_copied sent hplain
    rw [h] at hlength
    have hcount : body.countP (fun f => f.1 = Tag.sendingTime) = 0 := by omega
    have htime := List.countP_eq_zero.mp hcount f hf
    have hf' := hplain f hf
    simp only [not_or] at hf'
    unfold rewritten
    simp_all
  · intro h
    refine flatMap_eq_self fun f hf => ?_
    have hf' := h f hf
    unfold rewritten at hf'
    simp only [Bool.or_eq_false_iff, decide_eq_false_iff_not] at hf'
    unfold copied
    rw [if_neg (by tauto), if_neg hf'.2]

/-- What a record has after its header, and what its copy has. -/
theorem Posted.fields {sent : Sent} (h : Posted sent) : ∃ header body,
    sent.message.fields = header ++ body ∧
    header.map (·.1) = [Tag.msgType, Tag.senderCompId, Tag.targetCompId, Tag.msgSeqNum,
      Tag.sendingTime] ∧
    sent.message.fields.drop 5 = body ∧
    sent.message.find Tag.sendingTime = some sent.sendingTime ∧
    (possDup sent sent.message).fields = header ++ [(Tag.possDupFlag, ['Y']),
      (Tag.origSendingTime, sent.sendingTime)] ++ body.flatMap (copied sent) := by
  obtain ⟨s, msgType, body, hmessage, -⟩ := h
  rw [possDup_fields, hmessage]
  exact ⟨[(Tag.msgType, msgType), (Tag.senderCompId, s.cfg.senderCompId),
    (Tag.targetCompId, s.cfg.targetCompId), (Tag.msgSeqNum, intText sent.seq.toInt64.toInt),
    (Tag.sendingTime, sent.sendingTime)], body, rfl, rfl, rfl, rfl, rfl⟩

/-- Two fields longer. -/
theorem size_possDup {sent : Sent} (h : Posted sent)
    (hbody : (sent.message.fields.drop 5).flatMap (copied sent) = sent.message.fields.drop 5) :
    (possDup sent sent.message).size = sent.message.size + sent.sendingTime.length + 10 := by
  obtain ⟨header, body, hfields, -, hdrop, -, hcopied⟩ := h.fields
  rw [hdrop] at hbody
  have htags : (intText (Tag.possDupFlag : Nat)).length = 2 ∧
      (intText (Tag.origSendingTime : Nat)).length = 3 := by decide +kernel
  unfold FixMessage.size
  rw [hcopied, hfields, hbody]
  simp only [List.map_append, List.sum_append, List.map_cons, List.map_nil, List.sum_cons,
    List.sum_nil, List.length_cons, List.length_nil, htags]
  omega

theorem again_isSome_iff {sent : Sent} (c : FixMessage) : again sent = some c ↔
    sent.message.fields.length + 3 ≤ FixMessage.maxFields ∧
      (possDup sent sent.message).size ≤ maxMessage ∧ possDup sent sent.message = c := by
  unfold again FixMessage.reparse FixMessage.fits
  by_cases hfields : sent.message.fields.length + 3 ≤ FixMessage.maxFields
  · rw [if_pos hfields]
    simp only [Option.bind_some, decide_eq_true_eq]
    by_cases hsize : (possDup sent sent.message).size ≤ maxMessage
    · rw [if_pos hsize]
      simp [hfields, hsize]
    · rw [if_neg hsize]
      simp [hsize]
  · rw [if_neg hfields]
    simp [hfields]

/-- **A record comes back as it went out**, with the two fields, just if `repeats` says so. -/
theorem repeats_iff {sent : Sent} (h : Posted sent) :
    repeats sent = true ↔ ∃ c, again sent = some c ∧ sent.message.CopyOf c := by
  obtain ⟨header, body, hfields, htags, hdrop, htime, hcopied⟩ := h.fields
  unfold repeats
  simp only [Bool.and_eq_true, decide_eq_true_eq, List.all_eq_true, Bool.not_eq_true']
  rw [hdrop, ← flatMap_copied_eq_iff sent body]
  constructor
  · rintro ⟨⟨hcount, hlength⟩, hbody⟩
    have hsize := size_possDup h (by rw [hdrop]; exact hbody)
    refine ⟨_, (again_isSome_iff _).mpr ⟨hcount, by rw [hsize]; exact hlength, rfl⟩, ?_⟩
    refine ⟨header, body, hfields, htags, ?_⟩
    rw [hcopied, hbody, htime, Option.getD_some]
  · rintro ⟨c, hagain, header', body', hfields', htags', hc⟩
    obtain ⟨hcount, hsize, rfl⟩ := (again_isSome_iff c).mp hagain
    have hlen : header.length = header'.length := by
      have htwo := congrArg List.length (htags.trans htags'.symm)
      rwa [List.length_map, List.length_map] at htwo
    rw [hfields] at hfields'
    obtain ⟨rfl, rfl⟩ := List.append_inj hfields' hlen
    rw [hcopied, htime, Option.getD_some] at hc
    have hbody := List.append_cancel_left hc
    refine ⟨⟨hcount, ?_⟩, hbody⟩
    rw [← size_possDup h (by rw [hdrop]; exact hbody)]
    exact hsize

/-! ## What a message stands for -/

theorem Copy.number (h : Copy k m) : m.number = k := by
  unfold FixMessage.number
  rw [h.seqNum, Option.getD_some, UInt64.toUInt64_toInt64]

theorem Copy.not_reset (h : Copy k m) : m.msgType ≠ MsgType.sequenceReset := by
  intro htype
  have hnot := h.application
  rw [htype] at hnot
  exact absurd hnot (by decide)

theorem Copy.standsFor (h : Copy k m) : m.standsFor = [k.toNat] := by
  unfold FixMessage.standsFor
  rw [if_neg h.not_reset, h.number]

theorem gapFill_standsFor (s : Session) {a b : Nat} (ha : a < 2 ^ 64) (hb : b < 2 ^ 64)
    (now : Now) :
    (s.gapFill (UInt64.ofNat a) (UInt64.ofNat b) now).standsFor = List.range' a (b - a) := by
  have hnumber : (s.gapFill (UInt64.ofNat a) (UInt64.ofNat b) now).number = UInt64.ofNat a := by
    unfold FixMessage.number gapFill
    rw [stamp_seqNum, Option.getD_some, UInt64.toUInt64_toInt64]
  have hnew := (gapFill_fill s (UInt64.ofNat a) (UInt64.ofNat b) now).newSeqNo
  have htype := (gapFill_fill s (UInt64.ofNat a) (UInt64.ofNat b) now).msgType
  unfold FixMessage.standsFor
  rw [if_pos htype, hnumber, hnew, Option.getD_some, UInt64.toUInt64_toInt64,
    UInt64.toNat_ofNat_of_lt' ha, UInt64.toNat_ofNat_of_lt' hb]

/-- What is said for a batch. -/
theorem said_run (hb : s.Brief) (hutc : now.utc.length = 21) (a b : Nat) :
    s.said now (.run a b) = [s.gapFill (UInt64.ofNat a) (UInt64.ofNat b) now] := by
  unfold said
  dsimp only
  rw [if_pos (gapFill_fits hb hutc _ _)]

theorem said_one {n : Nat} {sent : Sent} (h : s.resendable n = some sent) :
    s.said now (.one n) = (again sent).toList := by
  show ((s.resendable n).bind again).toList = _
  rw [h]
  rfl

section Walked

variable {start last : UInt64} (hs : s.Remembered) (hb : s.Brief) (hutc : now.utc.length = 21)
  (hends : last.toNat + 1 < 2 ^ 64)

include hs hb hutc hends

/-- **Where every record comes back**, the answer stands for what the pieces stand for. -/
theorem standsFor_walk (h : s.Repeatable start.toNat last.toNat) :
    ((s.walk start last).flatMap (s.said now)).flatMap FixMessage.standsFor =
      (s.walk start last).flatMap Piece.numbers := by
  rw [List.flatMap_assoc]
  refine List.flatMap_congr fun p hp => ?_
  cases p with
  | one n =>
    obtain ⟨hlo, hhi, hkeep⟩ := one_mem_walk hp
    obtain ⟨sent, hsent⟩ := Option.isSome_iff_exists.mp hkeep
    obtain ⟨hring, hseq, hadm⟩ := resendable_eq_some hsent
    have hrepeats : repeats sent = true := by
      have hall := h n hlo hhi
      rwa [hsent] at hall
    obtain ⟨c, hagain, -⟩ := (repeats_iff (hs sent hring)).mp hrepeats
    have hcopy := (hs sent hring).copy hadm hagain
    rw [said_one hsent, hagain, Option.toList_some, List.flatMap_singleton, hcopy.standsFor, hseq,
      UInt64.toNat_ofNat_of_lt' (by show n < 2 ^ 64; omega)]
    rfl
  | run a b =>
    obtain ⟨-, hab, hhi, -⟩ := run_mem_walk hp
    rw [said_run hb hutc, List.flatMap_singleton, gapFill_standsFor s (by omega) (by omega)]
    rfl

/-- A number that the answer stands for, and the ring has a record for, is there as its copy. -/
theorem said_of_standsFor {n : Nat} {sent : Sent} (hsent : s.resendable n = some sent)
    (hn : n ∈ ((s.walk start last).flatMap (s.said now)).flatMap FixMessage.standsFor) :
    ∃ c, again sent = some c ∧ c ∈ (s.walk start last).flatMap (s.said now) ∧
      Copy (UInt64.ofNat n) c := by
  obtain ⟨m, hm, hnm⟩ := List.mem_flatMap.mp hn
  obtain ⟨p, hp, hsaid⟩ := List.mem_flatMap.mp hm
  cases p with
  | one n' =>
    obtain ⟨-, hhi, -⟩ := one_mem_walk hp
    rcases said_cases hs hsaid with ⟨n'', heq, hcopy⟩ | ⟨a, b, heq, -⟩
    · obtain rfl := Piece.one.inj heq
      rw [hcopy.standsFor, List.mem_singleton,
        UInt64.toNat_ofNat_of_lt' (by show n' < 2 ^ 64; omega)] at hnm
      subst hnm
      rw [said_one hsent] at hsaid
      exact ⟨m, Option.mem_toList.mp hsaid, hm, hcopy⟩
    · cases heq
  | run a b =>
    obtain ⟨-, hab, hhi, hpassed⟩ := run_mem_walk hp
    rw [said_run hb hutc, List.mem_singleton] at hsaid
    rw [hsaid, gapFill_standsFor s (by omega) (by omega), List.mem_range'_1] at hnm
    have hkeep := hpassed n (by omega) (by omega)
    unfold keeps at hkeep
    rw [hsent] at hkeep
    cases hkeep

end Walked

/-! ## The answer as a whole -/

/-- The numbers of the pieces are those asked for. -/
theorem numbers_walk (s : Session) {start last : UInt64} (hstart : 0 < start) :
    (s.walk start last).flatMap Piece.numbers =
      List.range' start.toNat (last.toNat + 1 - start.toNat) := by
  have hne : start ≠ 0 := by
    rintro rfl
    exact absurd hstart (by decide)
  have hwalk : s.walkStart start = start.toNat := by
    unfold walkStart
    rw [if_neg fun h => hne h.1]
  have hgap : ∀ g, (none : Option Nat) = some g → g ≤ start.toNat := fun g hg => by cases hg
  have hnumbers := @numbers_pieces s.keeps none _ (last.toNat + 1 - start.toNat) hgap
  unfold walk
  rw [hwalk, hnumbers, Option.getD_none]
  congr 1
  omega

/-- A session that has answered a Logon and sent a message that just fits. -/
def afterLong : Session :=
  [inbound MsgType.logon 1 [], .send ['D'] [(Tag.text, List.replicate 8100 'x')] midnight].foldl
    (call fun _ => .synced) (.new acceptor {})

end Session

end MarketData.Gateway
