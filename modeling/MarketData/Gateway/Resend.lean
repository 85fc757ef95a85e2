import MarketData.Gateway.Handled
import MarketData.Lib.Batch

/-!
# `Gateway/Resend.lean` — what a resend request is answered with

`handle_resend_request` walks the range once. An application message that is still in the ring is
sent again; what is declined is batched, and a gap fill stands in for it. The answer is put here as
the pieces of that walk, each with what is said for it: nothing, where the buffer does not hold it.
Zero is no number, and declining it opens no batch.

## One pass, and what it means

The loop carries the number at which the open batch began, and zero if there is none. That the
numbers of a batch are consecutive, that a batch is closed by the next message sent again or by the
end of the range, and that every number of the range is in one piece: none of this is in the loop,
and all of it is in `Lib/Batch.lean`, about any numbers and any way of deciding which to keep. Here
the walk is held against `pieces` (`walk_out`), with the batch that is open as the one unknown, and
the answer is then read off the pieces.

## What is not said of an answer

A gap fill stands in for numbers that were administrative, that the ring has lost, or that were
never used: the loop does not ask which. A request beyond the outbound number is therefore answered
with a gap fill beyond it, and one up to the last number of all never ends (`range`); both are as in
the source, and when they do no harm is said in `Gateway/Overrun.lean`. Nor is every number of the
range in what is *said*: that takes records that can be sent again (`Gateway/Coverage.lean`).
-/

set_option autoImplicit false

namespace MarketData.Gateway

open MarketData.Batch

namespace Session

/-- The gap fill from `start` up to `newSeqNo`. -/
def gapFill (s : Session) (start newSeqNo : UInt64) (now : Now) : FixMessage :=
  s.stamp MsgType.sequenceReset start now.utc
    [(Tag.possDupFlag, ['Y']),
      (Tag.origSendingTime, now.utc),
      (Tag.gapFillFlag, ['Y']),
      (Tag.newSeqNo, intText newSeqNo.toInt64.toInt)]

/-- The application message the ring has under `n`. -/
def resendable (s : Session) (n : Nat) : Option Sent :=
  (s.recall (UInt64.ofNat n)).filter fun sent => !sent.administrative

def keeps (s : Session) (n : Nat) : Bool := (s.resendable n).isSome

/-- What goes out for a message that is sent again. -/
def again (sent : Sent) : Option FixMessage :=
  sent.message.reparse.bind fun m =>
    if (possDup sent m).fits maxMessage then some (possDup sent m) else none

/-- What goes out for a piece of the walk. -/
def said (s : Session) (now : Now) : Piece → List FixMessage
  | .one n => ((s.resendable n).bind again).toList
  | .run start stop =>
    let m := s.gapFill (UInt64.ofNat start) (UInt64.ofNat stop) now
    if m.fits maxMessage then [m] else []

/-- The first number of the walk that counts. -/
def walkStart (s : Session) (start : UInt64) : Nat :=
  if start = 0 ∧ s.keeps 0 = false then 1 else start.toNat

/-- The walk from `start` up to and with `last`. -/
def walk (s : Session) (start last : UInt64) : List Piece :=
  pieces s.keeps none (s.walkStart start) (last.toNat + 1 - s.walkStart start)

/-- The last number asked for. -/
def lastAsked (s : Session) (last : Int64) : UInt64 :=
  if last = 0 ∨ last = 999999 then s.store.seq.outbound - 1 else last.toUInt64

/-- What the walk does not touch. -/
structure Same (s t : Session) : Prop where
  cfg : t.cfg = s.cfg
  ring : t.ring = s.ring
  next : t.ringNext = s.ringNext
  store : t.store = s.store
  hung : t.hung = s.hung

variable {s t : Session} {now : Now}

theorem Same.refl (s : Session) : Same s s := ⟨rfl, rfl, rfl, rfl, rfl⟩

theorem Same.resendable (h : Same s t) (n : Nat) : t.resendable n = s.resendable n := by
  unfold Session.resendable Session.recall
  rw [h.ring]

theorem Same.said (h : Same s t) (p : Piece) : t.said now p = s.said now p := by
  cases p with
  | one n =>
    show ((t.resendable n).bind again).toList = _
    rw [h.resendable]
    rfl
  | run start stop =>
    unfold Session.said gapFill stamp
    rw [h.cfg]

/-! ## One turn of the walk -/

theorem sendGapFill_out (s : Session) (start stop : Nat) (now : Now) :
    (s.sendGapFill (UInt64.ofNat start) (UInt64.ofNat stop) now).out =
        s.out ++ s.said now (.run start stop) ∧
      Same s (s.sendGapFill (UInt64.ofNat start) (UInt64.ofNat stop) now) := by
  unfold sendGapFill said gapFill
  dsimp only
  split
  · exact ⟨rfl, rfl, rfl, rfl, rfl, rfl⟩
  · exact ⟨(List.append_nil _).symm, .refl s⟩

theorem resend_out (s : Session) (sent : Sent) (now : Now) :
    (s.resend sent now).out = s.out ++ (again sent).toList ∧ Same s (s.resend sent now) := by
  unfold resend again
  cases sent.message.reparse with
  | none => exact ⟨(List.append_nil _).symm, .refl s⟩
  | some m =>
    dsimp only [Option.bind_some]
    split
    · exact ⟨rfl, rfl, rfl, rfl, rfl, rfl⟩
    · exact ⟨(List.append_nil _).symm, .refl s⟩

/-- The batch that is open when the walk comes to `stop` is closed. -/
def closed (now : Now) (stop : UInt64) (a : UInt64 × Session) : Session :=
  if a.1 ≠ 0 then a.2.sendGapFill a.1 stop now else a.2

/-- Where the open batch began, as the walk keeps it. -/
def gapStart (gap : Option Nat) : UInt64 := UInt64.ofNat (gap.getD 0)

theorem ofNat_ne_zero {n : Nat} (hpos : 0 < n) (hlt : n < 2 ^ 64) : UInt64.ofNat n ≠ 0 := by
  intro h
  have hnat := congrArg UInt64.toNat h
  rw [UInt64.toNat_ofNat_of_lt' hlt] at hnat
  exact absurd hnat (Nat.pos_iff_ne_zero.mp hpos)

theorem closed_out (now : Now) {gap : Option Nat} {n : Nat} (hgap : ∀ g, gap = some g → 0 < g ∧ g < n)
    (hn : n < 2 ^ 64) (t : Session) :
    (closed now (UInt64.ofNat n) (gapStart gap, t)).out =
        t.out ++ (close gap n).flatMap (t.said now) ∧
      Same t (closed now (UInt64.ofNat n) (gapStart gap, t)) := by
  cases gap with
  | none => exact ⟨(List.append_nil _).symm, .refl t⟩
  | some g =>
    obtain ⟨hpos, hlt⟩ := hgap g rfl
    have hne : gapStart (some g) ≠ 0 := ofNat_ne_zero hpos (Nat.lt_trans hlt hn)
    unfold closed
    rw [if_pos hne]
    obtain ⟨hout, hsame⟩ := sendGapFill_out t g n now
    refine ⟨?_, hsame⟩
    show (t.sendGapFill (UInt64.ofNat g) (UInt64.ofNat n) now).out = _
    rw [hout]
    simp [close]

theorem Same.trans {u : Session} (h : Same s t) (h' : Same t u) : Same s u :=
  ⟨h'.cfg.trans h.cfg, h'.ring.trans h.ring, h'.next.trans h.next, h'.store.trans h.store,
    h'.hung.trans h.hung⟩

/-- A number that is declined. -/
theorem resendStep_declined {n : Nat} (h : s.keeps n = false) (gap : UInt64) :
    resendStep now (gap, s) (UInt64.ofNat n) = (if gap = 0 then UInt64.ofNat n else gap, s) := by
  have hnone : s.resendable n = none := by simpa [keeps] using h
  unfold resendable at hnone
  unfold resendStep
  rw [hnone]

/-- A number that is sent again. -/
theorem resendStep_kept {n : Nat} {sent : Sent} (h : s.resendable n = some sent) (gap : UInt64) :
    resendStep now (gap, s) (UInt64.ofNat n) =
      (0, (closed now (UInt64.ofNat n) (gap, s)).resend sent now) := by
  unfold resendable at h
  unfold resendStep closed
  rw [h]

/-- **The loop**, from a number past zero on, and the batch that is open after it: what goes out is
what is said for the pieces of the walk. -/
theorem walk_out (s : Session) {gap : Option Nat} {n k : Nat} (hn : 0 < n) (hk : n + k < 2 ^ 64)
    (hgap : ∀ g, gap = some g → 0 < g ∧ g < n) (hsame : Same s t) :
    (closed now (UInt64.ofNat (n + k)) (((List.range' n k).map UInt64.ofNat).foldl
        (resendStep now) (gapStart gap, t))).out =
      t.out ++ (pieces s.keeps gap n k).flatMap (s.said now) ∧
    Same s (closed now (UInt64.ofNat (n + k)) (((List.range' n k).map UInt64.ofNat).foldl
        (resendStep now) (gapStart gap, t))) := by
  have hsaid : t.said now = s.said now := funext hsame.said
  induction k generalizing gap n t with
  | zero =>
    obtain ⟨hout, hclosed⟩ := closed_out now hgap (by omega) t
    rw [hsaid] at hout
    exact ⟨hout, hsame.trans hclosed⟩
  | succ k ih =>
    have hnext : n + (k + 1) = n + 1 + k := by omega
    rw [List.range'_succ, List.map_cons, List.foldl_cons, pieces, hnext]
    have hkeeps : t.keeps n = s.keeps n := by
      unfold keeps
      rw [hsame.resendable]
    cases hkeep : s.keeps n with
    | false =>
      rw [resendStep_declined (hkeeps.trans hkeep), if_neg Bool.false_ne_true]
      -- the batch is open from here on, if it was not
      have hstart : (if gapStart gap = 0 then UInt64.ofNat n else gapStart gap) =
          gapStart (some (gap.getD n)) := by
        cases gap with
        | none => rfl
        | some g =>
          obtain ⟨hpos, hlt⟩ := hgap g rfl
          exact if_neg (ofNat_ne_zero hpos (by omega))
      rw [hstart]
      refine ih (by omega) (by omega) (fun g hg => ?_) hsame hsaid
      cases hg
      cases gap with
      | none => exact ⟨hn, Nat.lt_succ_self n⟩
      | some g =>
        obtain ⟨hpos, hlt⟩ := hgap g rfl
        exact ⟨hpos, Nat.lt_succ_of_lt hlt⟩
    | true =>
      obtain ⟨sent, hsent⟩ := Option.isSome_iff_exists.mp hkeep
      have hsent' : t.resendable n = some sent := (hsame.resendable n).trans hsent
      rw [resendStep_kept hsent', if_pos rfl]
      obtain ⟨hout, hclosed⟩ := closed_out now hgap (by omega) t
      generalize closed now (UInt64.ofNat n) (gapStart gap, t) = u at hout hclosed ⊢
      obtain ⟨hout', hresent⟩ := resend_out u sent now
      have hsame' : Same s (u.resend sent now) := (hsame.trans hclosed).trans hresent
      have hnone : ∀ g, (none : Option Nat) = some g → 0 < g ∧ g < n + 1 := by
        intro g hg
        cases hg
      obtain ⟨hrest, hsame''⟩ := ih (by omega) (by omega) hnone hsame' (funext hsame'.said)
      refine ⟨?_, hsame''⟩
      have hone : s.said now (.one n) = (again sent).toList := by
        show ((s.resendable n).bind again).toList = _
        rw [hsent]
        rfl
      refine Eq.trans hrest ?_
      rw [hout', hout, hsaid, List.flatMap_append, List.flatMap_cons, hone]
      simp only [List.append_assoc]

/-- No batch is open yet. -/
theorem walk_out_fresh (now : Now) (s : Session) {n k : Nat} (hn : 0 < n) (hk : n + k < 2 ^ 64)
    (hsame : Same s t) :
    (closed now (UInt64.ofNat (n + k)) (((List.range' n k).map UInt64.ofNat).foldl
        (resendStep now) (0, t))).out =
      t.out ++ (pieces s.keeps none n k).flatMap (s.said now) ∧
    Same s (closed now (UInt64.ofNat (n + k)) (((List.range' n k).map UInt64.ofNat).foldl
        (resendStep now) (0, t))) := by
  have hgap : ∀ g, (none : Option Nat) = some g → 0 < g ∧ g < n := nofun
  exact walk_out s hn hk hgap hsame

/-! ## The whole answer -/

/-- The range of a loop that ends. -/
theorem range_eq_some {start last : UInt64} {seqs : List UInt64}
    (h : range start last = some seqs) :
    seqs = (List.range' start.toNat (last.toNat + 1 - start.toNat)).map UInt64.ofNat ∧
      (start ≤ last → last.toNat + 1 < 2 ^ 64) := by
  unfold range at h
  split at h
  · cases h
  rename_i hends
  refine ⟨(Option.some.inj h).symm, fun hle => ?_⟩
  have hne : last.toNat ≠ UInt64.size - 1 := by
    intro heq
    refine hends ⟨hle, UInt64.toNat_inj.mp ?_⟩
    rw [heq]
    rfl
  have hlt := last.toNat_lt
  have hsize : UInt64.size = 2 ^ 64 := rfl
  omega

theorem handleResendRequest_eq (disk : Disk) (s : Session) {m : FixMessage} {begin last : Int64}
    (hbegin : m.findInt Tag.beginSeqNo = some begin) (hlast : m.findInt Tag.endSeqNo = some last)
    {seqs : List UInt64} (h : range begin.toUInt64 (s.lastAsked last) = some seqs) (now : Now) :
    s.handleResendRequest disk m now =
      closed now (s.lastAsked last + 1) (seqs.foldl (resendStep now) (0, s)) := by
  unfold lastAsked at h ⊢
  unfold handleResendRequest closed
  rw [hbegin, hlast]
  dsimp only
  rw [h]

/-- A range that is empty. -/
theorem walk_of_lt {start last : UInt64} (h : last < start) : s.walk start last = [] := by
  have hlt : last.toNat < start.toNat := UInt64.lt_iff_toNat_lt.mp h
  have hne : start ≠ 0 := by
    rintro rfl
    exact absurd hlt (Nat.not_lt_zero _)
  unfold walk walkStart
  rw [if_neg fun h => hne h.1, show last.toNat + 1 - start.toNat = 0 by omega]
  rfl

/-- **What a resend request is answered with**: what is said for the pieces of its walk. Nothing
else of the session changes but when it last sent. -/
theorem handleResendRequest_walk (disk : Disk) (s : Session) {m : FixMessage} {begin last : Int64}
    (hbegin : m.findInt Tag.beginSeqNo = some begin) (hlast : m.findInt Tag.endSeqNo = some last)
    {seqs : List UInt64} (h : range begin.toUInt64 (s.lastAsked last) = some seqs) (now : Now) :
    (s.handleResendRequest disk m now).out =
      s.out ++ (s.walk begin.toUInt64 (s.lastAsked last)).flatMap (s.said now) ∧
    Same s (s.handleResendRequest disk m now) := by
  rw [handleResendRequest_eq disk s hbegin hlast h]
  obtain ⟨rfl, hends⟩ := range_eq_some h
  generalize begin.toUInt64 = start at hends ⊢
  generalize s.lastAsked last = last at hends ⊢
  by_cases hle : start ≤ last
  swap
  · have hlt := UInt64.not_le.mp hle
    rw [walk_of_lt hlt]
    rw [UInt64.lt_iff_toNat_lt] at hlt
    rw [show last.toNat + 1 - start.toNat = 0 by omega]
    exact ⟨(List.append_nil _).symm, .refl s⟩
  have hsmall := hends hle
  rw [UInt64.le_iff_toNat_le] at hle
  have hstop : last + 1 = UInt64.ofNat (last.toNat + 1) := by simp
  have hpast := fun k (hk : 1 + k < 2 ^ 64) (t : Session) (ht : Same s t) =>
    walk_out_fresh now s (n := 1) (k := k) (by omega) hk ht
  by_cases hzero : start = 0
  · subst hzero
    rw [hstop, show last.toNat + 1 - (0 : UInt64).toNat = last.toNat + 1 from rfl,
      show (0 : UInt64).toNat = 0 from rfl, List.range'_succ, List.map_cons, List.foldl_cons]
    cases hkeep : s.keeps 0 with
    | false =>
      -- declining zero opens no batch
      rw [resendStep_declined hkeep, if_pos rfl]
      have hwalk : s.walk 0 last = pieces s.keeps none 1 last.toNat := by
        unfold walk walkStart
        rw [if_pos ⟨rfl, hkeep⟩, Nat.add_sub_cancel]
      rw [hwalk, Nat.add_comm last.toNat 1]
      exact hpast last.toNat (by omega) s (.refl s)
    | true =>
      obtain ⟨sent, hsent⟩ := Option.isSome_iff_exists.mp hkeep
      rw [resendStep_kept hsent]
      have hwalk : s.walk 0 last = .one 0 :: pieces s.keeps none 1 last.toNat := by
        unfold walk walkStart
        rw [if_neg fun h => absurd h.2 (by simp [hkeep])]
        show pieces s.keeps none 0 (last.toNat + 1) = _
        rw [pieces, if_pos hkeep]
        rfl
      have hone : s.said now (.one 0) = (again sent).toList := by
        show ((s.resendable 0).bind again).toList = _
        rw [hsent]
        rfl
      obtain ⟨hout, hsame⟩ := resend_out s sent now
      obtain ⟨hrest, hsame'⟩ := hpast last.toNat (by omega) _ hsame
      rw [hwalk, List.flatMap_cons, hone, Nat.add_comm last.toNat 1, ← List.append_assoc, ← hout]
      exact ⟨hrest, hsame'⟩
  · have hpos : 0 < start.toNat := by
      rw [Nat.pos_iff_ne_zero]
      intro h
      exact hzero (UInt64.toNat_inj.mp h)
    have hwalk : s.walk start last =
        pieces s.keeps none start.toNat (last.toNat + 1 - start.toNat) := by
      unfold walk walkStart
      rw [if_neg fun h => hzero h.1]
    have hlen : last.toNat + 1 = start.toNat + (last.toNat + 1 - start.toNat) := by omega
    rw [hwalk, hstop]
    have h := walk_out_fresh now s hpos
      (k := last.toNat + 1 - start.toNat) (by omega) (.refl s)
    rwa [← hlen] at h

end Session

end MarketData.Gateway
