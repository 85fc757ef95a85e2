import MarketData.Gateway.Grammar

/-!
# `Gateway/Totality.lean` — every buffer gets an answer

The one position that is computed from what the counterparty declared is that of the checksum
field, and it is computed in 64 bits. Where the sum goes past them, the position wraps, and where
it stops short of them by less than the field is long, the check that the field has arrived wraps
instead and the view of it starts past the end of the buffer. Nothing else can: `parse_total_iff`.

## What an answer is

A parser in Lean returns, so that it does is not the question. `Answered` asks three things of what
is returned: no view started out of range, which in the source ends the process; no position
wrapped, since an answer about the wrong bytes is none; and **more is asked for only where more can
come**: the buffer with something appended to it is a message, or it is shorter than it declares.
Without the last part a parser that asks for more for ever would answer everything.

`Overreaches` reads the declared length alone, from the text of the buffer, with the digits at the
front of it where the separator has not come. With some of these lengths the view starts out of
range (`overreaching`), with the others a position wraps and the answer is about other bytes.
-/

set_option autoImplicit false

namespace MarketData.Gateway.Fix

open MarketData.Words MarketData.Split

/-! ## Where the errors come from -/

theorem verifyChecksum_error {b : Text} {pos : Nat} {e : Fault}
    (h : verifyChecksum b pos = .error e) :
    e = .error .badBodyLength ∨ e = .error .badCheckSum ∨ (e = .outOfRange ∧ b.length < pos) := by
  unfold verifyChecksum at h
  rcases bind_eq_error h with h | ⟨three, -, h⟩
  · unfold substr at h
    split at h
    · cases h
    · rename_i hpast
      exact .inr (.inr ⟨(Except.error.inj h).symm, by omega⟩)
  split at h
  · exact .inl (Except.error.inj h).symm
  split at h
  · exact .inr (.inl (Except.error.inj h).symm)
  rename_i hsoh
  obtain ⟨hlt, -⟩ := List.getElem?_eq_some_iff.mp (not_not.mp hsoh)
  rcases bind_eq_error h with h | ⟨declared, -, h⟩
  · unfold substr at h
    rw [if_pos (by omega)] at h
    cases h
  split at h
  · exact .inr (.inl (Except.error.inj h).symm)
  split at h
  · exact .inr (.inl (Except.error.inj h).symm)
  split at h
  · exact .inr (.inl (Except.error.inj h).symm)
  · cases h

theorem parseField_error {text : Text} {e : Fault} (h : parseField text = .error e) :
    e = .error .malformedField := by
  unfold parseField at h
  split at h
  · exact (Except.error.inj h).symm
  split at h
  · exact (Except.error.inj h).symm
  · cases h

theorem parseFields_error {fuel count : Nat} {raw : Text} {e : Fault}
    (h : parseFields fuel count raw = .error e) :
    e = .error .malformedField ∨ e = .error .tooManyFields := by
  induction fuel generalizing count raw with
  | zero => cases h
  | succ fuel ih =>
    rw [parseFields] at h
    split at h
    · cases h
    split at h
    · exact .inl (Except.error.inj h).symm
    rcases bind_eq_error h with h | ⟨field, -, h⟩
    · exact .inl (parseField_error h)
    split at h
    · exact .inr (Except.error.inj h).symm
    rcases bind_eq_error h with h | ⟨fields, -, h⟩
    · exact ih h
    · cases h

/-- **Whence an error.** Only the header asks for more, and only the view of the checksum field may
start past the end. -/
theorem parse_error {b : Text} {e : Fault} (h : Message.parse b = .error e) :
    findChecksum b = .error e ∨ ∃ pos, findChecksum b = .ok pos ∧
      e ≠ .error .incomplete ∧ (e = .outOfRange → b.length < pos) := by
  unfold Message.parse at h
  rcases bind_eq_error h with h | ⟨pos, hpos, h⟩
  · exact .inl h
  refine .inr ⟨pos, hpos, ?_⟩
  rcases bind_eq_error h with h | ⟨⟨⟩, -, h⟩
  · rcases verifyChecksum_error h with rfl | rfl | ⟨rfl, hlt⟩
    · exact ⟨by simp, by simp⟩
    · exact ⟨by simp, by simp⟩
    · exact ⟨by simp, fun _ => hlt⟩
  rcases bind_eq_error h with h | ⟨fields, -, h⟩
  · rcases parseFields_error h with rfl | rfl
    · exact ⟨by simp, by simp⟩
    · exact ⟨by simp, by simp⟩
  · cases h

/-! ## What may still come -/

/-- A body of `n` bytes: nothing, or one field. -/
def someBody (n : Nat) : Text :=
  if n = 0 then [] else ['1', '='] ++ List.replicate (n - 3) 'a' ++ [soh]

theorem someBody_spec {n : Nat} (h : n = 0 ∨ 3 ≤ n) :
    (someBody n).length = n ∧ ∃ fs, Spelled (someBody n) fs ∧ fs.length ≤ 1 := by
  unfold someBody
  split
  · rename_i hzero
    exact ⟨hzero.symm, [], .nil, Nat.zero_le _⟩
  · have hfree : soh ∉ List.replicate (n - 3) 'a' := by
      intro hmem
      exact absurd (List.eq_of_mem_replicate hmem) (by decide)
    refine ⟨by simp; omega, [⟨1, List.replicate (n - 3) 'a'⟩], ?_, Nat.le_refl _⟩
    have hone : tagOf ['1'] = some 1 := rfl
    exact Spelled.cons hone hfree .nil

/-- A length that no message has is the beginning of one that a message has. -/
theorem exists_message {d : Text} (hd : IsLength d) (hn : decimal d = 0 ∨ 3 ≤ decimal d)
    (hfits : bodyStartOf d + decimal d + checksumFieldLen < 2 ^ 64) :
    ∃ t, (header ++ d ++ soh :: t).length < 2 ^ 64 ∧
      ∃ m consumed, Message.parse (header ++ d ++ soh :: t) = .ok (m, consumed) := by
  obtain ⟨hlen, fs, hspelled, hfs⟩ := someBody_spec hn
  generalize someBody (decimal d) = body at hlen hspelled
  have hlt := checksum_lt (summed d body)
  obtain ⟨hthree, hall, hvalue⟩ := three_spec (checksum (summed d body)) (by omega)
  have hframed := framed_oneMessage hd hlen.symm ⟨hthree, hall⟩
  have hwhole := congrArg List.length hframed.eq_whole
  rw [List.length_append, hframed.length_whole, hlen] at hwhole
  refine ⟨body ++ trailer (Builder.three (checksum (summed d body))), ?_, ?_⟩
  · show (oneMessage d body _).length < 2 ^ 64
    rw [hwhole]
    exact hfits
  · refine ⟨_, _, (hframed.parse_iff (by rw [hlen]; exact hfits)).mpr ⟨?_, ⟨_, rfl,
      hspelled.append ((spelled_trailer_iff hall).mpr rfl), ?_⟩, rfl⟩⟩
    · rw [hvalue]
      omega
    · rw [List.length_append, List.length_singleton]
      unfold FixMessage.maxFields
      omega

theorem IsLength.append_zero {d : Text} (h : IsLength d) (hlt : decimal d * 10 < 2 ^ 64) :
    IsLength (d ++ ['0']) ∧ decimal (d ++ ['0']) = decimal d * 10 := by
  have hvalue : decimal (d ++ ['0']) = decimal d * 10 := by
    unfold decimal
    rw [List.foldl_append]
    rfl
  refine ⟨⟨by simp, ?_, by rw [hvalue]; exact hlt⟩, hvalue⟩
  rw [List.all_append, h.digits]
  rfl

theorem parse_heartbeat : ∃ m consumed,
    Message.parse (oneMessage ['5'] heartbeatBody ['1', '6', '3']) = .ok (m, consumed) :=
  ⟨⟨headFields ['5'] ++ [⟨35, ['0']⟩, checksumField ['1', '6', '3']],
    oneMessage ['5'] heartbeatBody ['1', '6', '3']⟩, 26, by decide +kernel⟩

/-! ## Totality -/

/-- The digits at the front of the length, or all of them, declare a length with which the position
behind the checksum field does not fit 64 bits. -/
def Overreaches (b : Text) : Prop :=
  ∃ d tail, IsLength d ∧ b = header ++ d ++ tail ∧ (tail = [] ∨ tail.head? = some soh) ∧
    2 ^ 64 ≤ bodyStartOf d + decimal d + checksumFieldLen

/-- The buffer gets an answer: no view starts out of range, no position wraps, and more is asked
for only where more can come. -/
structure Answered (b : Text) : Prop where
  inRange : Message.parse b ≠ .error .outOfRange
  noWrap : ∀ d t, Declares b d t → checksumPosOf d = bodyStartOf d + decimal d ∧
    wrapAdd (checksumPosOf d) checksumFieldLen = checksumPosOf d + checksumFieldLen
  awaited : Message.parse b = .error (.error .incomplete) →
    (∃ x, (b ++ x).length < 2 ^ 64 ∧ ∃ m consumed, Message.parse (b ++ x) = .ok (m, consumed)) ∨
      ∃ d t, Declares b d t ∧ b.length < bodyStartOf d + decimal d + checksumFieldLen

theorem soh_not_mem_length {d : Text} (h : IsLength d) : soh ∉ d := soh_not_mem_digits h.digits

/-- A header whose length has no separator yet is cut off. -/
theorem findChecksum_cut {d : Text} (hd : IsLength d) :
    findChecksum (header ++ d) = .error (.error .incomplete) ∧ ∀ d' t, ¬ Declares (header ++ d) d' t := by
  have hnot : ∀ d' t, ¬ Declares (header ++ d) d' t := by
    rintro d' t ⟨-, heq⟩
    rw [List.append_assoc] at heq
    have hmem : soh ∈ d := by
      rw [List.append_cancel_left heq]
      simp
    exact soh_not_mem_length hd hmem
  refine ⟨?_, hnot⟩
  rcases header_cases (header ++ d) with ⟨d', t, hdeclares⟩ | ⟨-, hcut⟩ | ⟨e, hne, hclash⟩
  · exact absurd hdeclares (hnot d' t)
  · exact hcut
  · -- a separator would make it a header
    have hdeclares : Declares (header ++ d ++ [soh]) d [] := ⟨hd, rfl⟩
    have hfind := hdeclares.findChecksum_eq
    rw [hclash] at hfind
    split at hfind
    · exact absurd (Fault.error.inj (Except.error.inj hfind)) hne
    · cases hfind

theorem Answered.not_overreaches {b : Text} (h : Answered b) : ¬ Overreaches b := by
  rintro ⟨d, tail, hd, rfl, htail, hover⟩
  cases tail with
  | nil =>
    rw [List.append_nil] at h
    obtain ⟨hcut, hnot⟩ := findChecksum_cut hd
    rcases h.awaited (parse_of_findChecksum_error hcut) with ⟨x, hlt, m, consumed, hok⟩ | ⟨d', t, hd', -⟩
    · obtain ⟨d', body, ccc, rest, haccepted⟩ := (parse_ok_iff hlt).mp hok
      have hframed := haccepted.framed
      have hlen := congrArg List.length hframed.eq_whole
      have hsum : (wholeOf d' body ccc ++ rest).length = _ := List.length_append
      rw [hsum, hframed.length_whole] at hlen
      -- the digits that came first are the first of the whole length
      obtain ⟨d'', rfl⟩ : ∃ d'', d' = d ++ d'' := by
        have hshape := hframed.shape
        rw [List.append_assoc, List.append_assoc header] at hshape
        have hboth := List.append_cancel_left hshape
        have hprefix : d <+: d' ++ soh :: (body ++ trailer ccc ++ rest) := ⟨x, hboth⟩
        rcases List.prefix_or_prefix_of_prefix hprefix (List.prefix_append d' _) with hle | hge
        · obtain ⟨d'', hd''⟩ := hle
          exact ⟨d'', hd''.symm⟩
        · obtain ⟨y, rfl⟩ := hge
          rw [List.append_assoc] at hboth
          have hy := List.append_cancel_left hboth
          cases y with
          | nil => exact ⟨[], by simp⟩
          | cons c cs =>
            obtain rfl := (List.cons.inj hy).1
            exact absurd (by simp) (soh_not_mem_length hd)
      have hmore := decimal_le_append d d''
      rw [hframed.declared] at hmore
      unfold bodyStartOf at hover hlen
      have hdigits : (d ++ d'').length = _ := List.length_append
      rw [hdigits] at hlen
      omega
    · exact hnot d' t hd'
  | cons c t =>
    rcases htail with hnil | hsoh
    · cases hnil
    obtain rfl := Option.some.inj hsoh
    obtain ⟨hpos, hend⟩ := h.noWrap d t ⟨hd, rfl⟩
    have hlt : wrapAdd (checksumPosOf d) checksumFieldLen < 2 ^ 64 := Nat.mod_lt _ (by decide)
    omega

theorem answered_of_not_overreaches {b : Text} (hsize : b.length < 2 ^ 63) (h : ¬ Overreaches b) :
    Answered b := by
  have hfits : ∀ {d t : Text}, Declares b d t →
      bodyStartOf d + decimal d + checksumFieldLen < 2 ^ 64 := by
    rintro d t ⟨hd, hb⟩
    exact Nat.lt_of_not_le fun hover => h ⟨d, soh :: t, hd, hb, .inr rfl, hover⟩
  have hnoWrap : ∀ d t, Declares b d t → checksumPosOf d = bodyStartOf d + decimal d ∧
      wrapAdd (checksumPosOf d) checksumFieldLen = checksumPosOf d + checksumFieldLen := by
    intro d t hd
    have hlt := hfits hd
    have hpos : checksumPosOf d = bodyStartOf d + decimal d := wrapAdd_eq (by omega)
    exact ⟨hpos, wrapAdd_eq (by omega)⟩
  refine ⟨fun hout => ?_, hnoWrap, fun hmore => ?_⟩
  · rcases header_cases b with ⟨d, t, hd⟩ | ⟨-, hcut⟩ | ⟨e, -, hclash⟩
    · obtain ⟨hpos, hend⟩ := hnoWrap d t hd
      have hfind := hd.findChecksum_eq
      rw [hend] at hfind
      rcases parse_error hout with hfound | ⟨pos, hfound, -, hpast⟩
      · rw [hfound] at hfind
        split at hfind
        · cases hfind
        · cases hfind
      · rw [hfound] at hfind
        split at hfind
        · cases hfind
        · have := hpast rfl
          rw [Except.ok.inj hfind] at this
          omega
    · rw [parse_of_findChecksum_error hcut] at hout
      cases hout
    · have hbare := hclash []
      rw [List.append_nil] at hbare
      rw [parse_of_findChecksum_error hbare] at hout
      cases hout
  · rcases header_cases b with ⟨d, t, hd⟩ | ⟨hcut, -⟩ | ⟨e, hne, hclash⟩
    · obtain ⟨hpos, hend⟩ := hnoWrap d t hd
      refine .inr ⟨d, t, hd, ?_⟩
      have hfind := hd.findChecksum_eq
      rcases parse_error hmore with hfound | ⟨pos, -, hne, -⟩
      · rw [hfound, hend, hpos] at hfind
        split at hfind
        · assumption
        · cases hfind
      · exact absurd rfl hne
    · left
      cases hcut with
      | fixed hprefix =>
        obtain ⟨x, hx⟩ := hprefix
        refine ⟨x ++ ['5', soh] ++ heartbeatBody ++ trailer ['1', '6', '3'], ?_⟩
        have hone : b ++ (x ++ ['5', soh] ++ heartbeatBody ++ trailer ['1', '6', '3']) =
            oneMessage ['5'] heartbeatBody ['1', '6', '3'] := by
          rw [oneMessage, ← hx]
          simp
        rw [hone]
        exact ⟨by decide, parse_heartbeat⟩
      | @digits d hd =>
        have hover : bodyStartOf d + decimal d + checksumFieldLen < 2 ^ 64 :=
          Nat.lt_of_not_le fun hover =>
            h ⟨d, [], hd, (List.append_nil _).symm, .inl rfl, hover⟩
        by_cases hsome : decimal d = 0 ∨ 3 ≤ decimal d
        · obtain ⟨t, hlt, hok⟩ := exists_message hd hsome hover
          exact ⟨soh :: t, hlt, hok⟩
        · -- one or two bytes hold no field, but another digit makes them ten or twenty
          obtain ⟨hten, hvalue⟩ := hd.append_zero (by omega)
          have hlen : (d ++ ['0']).length = d.length + 1 := List.length_append
          have hcover : (header ++ d).length = 12 + d.length := List.length_append
          have hfits' : bodyStartOf (d ++ ['0']) + decimal (d ++ ['0']) + checksumFieldLen < 2 ^ 64 := by
            unfold bodyStartOf checksumFieldLen
            omega
          obtain ⟨t, hlt, hok⟩ := exists_message hten (.inr (by omega)) hfits'
          refine ⟨'0' :: soh :: t, ?_, ?_⟩
          · simpa using hlt
          · simpa using hok
    · have hbare := hclash []
      rw [List.append_nil] at hbare
      rw [parse_of_findChecksum_error hbare] at hmore
      exact absurd (Fault.error.inj (Except.error.inj hmore)) hne

/-- **Every buffer gets an answer**, but one that declares a length the address space has no room
for. -/
theorem parse_total_iff {b : Text} (hsize : b.length < 2 ^ 63) : Answered b ↔ ¬ Overreaches b :=
  ⟨Answered.not_overreaches, answered_of_not_overreaches hsize⟩

/-- A declared length of nine, and four bytes of the body. -/
theorem answered_cut_body : Answered (header ++ ['9', soh, '5', '8', '=', 'x']) := by
  refine (parse_total_iff (by decide)).mpr ?_
  rintro ⟨d, tail, hd, hb, htail, hover⟩
  rw [List.append_assoc] at hb
  have hrest := List.append_cancel_left hb
  cases tail with
  | nil =>
    rw [List.append_nil] at hrest
    have hdigits := hd.digits
    rw [← hrest] at hdigits
    revert hdigits
    decide
  | cons c t =>
    obtain rfl : c = soh := by simpa using htail
    obtain ⟨rfl, -⟩ := sep_inj (x := ['9']) (r := ['5', '8', '=', 'x']) (by decide)
      (soh_not_mem_length hd) hrest
    revert hover
    decide

/-- A header that declares a length of `2 ^ 64 - 36`: the checksum field would start three bytes
before the end of the address space, the sum that asks whether it has arrived is four, and the view
of it starts past the end of the buffer. -/
def overreaching : Text :=
  header ++ Nat.toDigits 10 (2 ^ 64 - 36) ++ [soh]

theorem ended_overreaching :
    Message.parse overreaching = .error .outOfRange ∧ ¬ Answered overreaching := by
  have hended : Message.parse overreaching = .error .outOfRange := by decide +kernel
  exact ⟨hended, fun h => h.inRange hended⟩

end MarketData.Gateway.Fix
