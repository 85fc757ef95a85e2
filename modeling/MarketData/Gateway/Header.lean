import Mathlib.Data.List.Infix
import MarketData.Gateway.Decimal
import MarketData.Gateway.Framing

/-!
# `Gateway/Header.lean` — what a buffer may open with

A buffer opens like a message, is cut off inside the header of one, or clashes with it. The first
two fields decide which: their text is fixed up to the declared length, and the length is digits up
to a separator. A clash stays one whatever arrives afterwards; so does a header that is complete.

## Three ways, and why there is no fourth

Whoever feeds the parser bytes as they arrive depends on the answer to a buffer being the answer to
every longer one, unless it was to ask for more. `header_cases` is that for the header. `Declares`,
`CutOff` and the clash exclude each other, and each comes with the lemma that says what the parse
makes of it: the parse goes on with the checksum field, it asks for more, or it refuses.

`Clash` is the word for texts neither of which begins with the other. It is symmetric and survives
appending on either side, so the refusals of a malformed header need no case analysis on where the
first wrong character is.

`IsLength` says of a text that it is digits and a 64-bit number, and leaves open whether the
separator has arrived. Where the digits go on, the same text is a cut-off header; where a separator
follows, it is a declared length; and where anything else does, it clashes.
-/

set_option autoImplicit false

namespace MarketData.Gateway.Fix

open MarketData.Words

/-! ## A fixed text -/

/-- The buffer has to begin with `text`. -/
def expect (text b : Text) (e : ParseError) : Except Fault Unit :=
  if text <+: b then .ok ()
  else if b <+: text then .error (.error .incomplete)
  else .error (.error e)

/-- Neither of two texts begins with the other. -/
def Clash (text b : Text) : Prop := ¬ text <+: b ∧ ¬ b <+: text

theorem Clash.append {text b : Text} (h : Clash text b) (x : Text) : Clash text (b ++ x) := by
  refine ⟨fun htext => ?_, fun hb => h.2 ((List.prefix_append b x).trans hb)⟩
  cases List.prefix_or_prefix_of_prefix htext (List.prefix_append b x) with
  | inl hle => exact h.1 hle
  | inr hle => exact h.2 hle

theorem expect_append (text rest : Text) (e : ParseError) : expect text (text ++ rest) e = .ok () :=
  if_pos (List.prefix_append text rest)

theorem expect_cases (text b : Text) (e : ParseError) :
    (∃ rest, b = text ++ rest) ∨
    (b <+: text ∧ b ≠ text ∧ expect text b e = .error (.error .incomplete)) ∨
    ∀ x, expect text (b ++ x) e = .error (.error e) := by
  by_cases htext : text <+: b
  · obtain ⟨rest, rfl⟩ := htext
    exact .inl ⟨rest, rfl⟩
  by_cases hb : b <+: text
  · refine .inr (.inl ⟨hb, ?_, ?_⟩)
    · rintro rfl
      exact htext (List.prefix_refl b)
    · rw [expect, if_neg htext, if_pos hb]
  · refine .inr (.inr fun x => ?_)
    have hclash := Clash.append ⟨htext, hb⟩ x
    rw [expect, if_neg hclash.1, if_neg hclash.2]

theorem parseBegin_eq (b : Text) : parseBegin b = expect (opening ++ [soh]) b .badBeginString := by
  have hopening : opening.length = 9 := rfl
  unfold parseBegin expect
  by_cases hlt : b.length < 10
  · have hlong : ¬ opening ++ [soh] <+: b := fun h => by
      have hle := h.length_le
      rw [List.length_append, List.length_singleton, hopening] at hle
      omega
    have hmin : min b.length 9 = b.length := by omega
    have hcut : b <+: opening ++ [soh] ↔ b = opening.take b.length := by
      rw [List.prefix_iff_eq_take, List.take_append_of_le_length (by omega)]
    rw [if_pos hlt, if_neg hlong, hmin, List.take_length]
    by_cases hb : b = opening.take b.length
    · rw [if_neg (not_not.mpr hb), if_pos (hcut.mpr hb)]
    · rw [if_pos hb, if_neg (mt hcut.mp hb)]
  · have hwhole : opening ++ [soh] <+: b ↔ b.take 9 = opening ∧ b[9]? = some soh := by
      rw [List.prefix_iff_eq_take]
      show _ = b.take 10 ↔ _
      have hlast : 9 < b.length := by omega
      have hget : b[9]? = some b[9] := List.getElem?_eq_getElem hlast
      rw [List.take_add_one, hget, Option.toList_some]
      constructor
      · intro h
        obtain ⟨htake, hsep⟩ := List.append_inj' h rfl
        rw [← htake, List.singleton_inj.mp hsep]
        exact ⟨rfl, rfl⟩
      · rintro ⟨htake, hlast⟩
        rw [htake, Option.some.inj hlast]
    rw [if_neg hlt]
    by_cases hb : opening ++ [soh] <+: b
    · obtain ⟨htake, hlast⟩ := hwhole.mp hb
      rw [if_pos hb, if_neg (by rw [htake, hlast]; simp)]
    · have hshort : ¬ b <+: opening ++ [soh] := by
        intro h
        have hlen : b.length = (opening ++ [soh]).length :=
          Nat.le_antisymm h.length_le (Nat.le_of_not_lt hlt)
        rw [h.eq_of_length hlen] at hb
        exact hb (List.prefix_refl _)
      rw [if_neg hb, if_neg hshort, if_pos (by rw [hwhole] at hb; tauto)]

theorem parseNine_eq (b : Text) : parseNine b = expect ['9', '='] b .badBodyLength := by
  unfold parseNine expect
  cases b with
  | nil => rfl
  | cons c cs =>
    cases cs with
    | nil => simp [List.cons_prefix_cons]
    | cons c' cs =>
      by_cases hnine : c = '9' ∧ c' = '='
      · simp [List.cons_prefix_cons, hnine.1, hnine.2]
      · simp only [List.cons_prefix_cons]
        simp [eq_comm, hnine]
        tauto

/-! ## The declared length -/

/-- The text of a number of 64 bits. -/
structure IsLength (d : Text) : Prop where
  ne_nil : d ≠ []
  digits : d.all Char.isDigit = true
  lt : decimal d < 2 ^ 64

/-- The buffer does not go on with a digit. -/
def Ends (b : Text) : Prop := ∀ c ∈ b.head?, c.isDigit = false

theorem soh_not_digit : soh.isDigit = false := by decide

section Digits

variable {d rest : Text}

theorem takeWhile_digits (hd : d.all Char.isDigit = true) (hrest : Ends rest) :
    (d ++ rest).takeWhile Char.isDigit = d := by
  rw [List.takeWhile_append_of_pos (List.all_eq_true.mp hd)]
  cases rest with
  | nil => simp
  | cons c cs => rw [List.takeWhile_cons_of_neg (by simp [hrest c rfl]), List.append_nil]

theorem dropWhile_digits (hd : d.all Char.isDigit = true) (hrest : Ends rest) :
    (d ++ rest).dropWhile Char.isDigit = rest := by
  rw [List.dropWhile_append_of_pos (List.all_eq_true.mp hd)]
  cases rest with
  | nil => rfl
  | cons c cs => rw [List.dropWhile_cons_of_neg (by simp [hrest c rfl])]

/-- The digits at the front, and what follows them. -/
theorem digits_split (b : Text) :
    ∃ d rest, b = d ++ rest ∧ d.all Char.isDigit = true ∧ Ends rest := by
  refine ⟨b.takeWhile Char.isDigit, b.dropWhile Char.isDigit, ?_, ?_, ?_⟩
  · exact (List.takeWhile_append_dropWhile ..).symm
  · exact List.all_takeWhile ..
  · intro c hc
    have := List.head?_dropWhile_not Char.isDigit b
    rw [Option.mem_def.mp hc] at this
    simpa using this

theorem fromChars_digits (hd : d.all Char.isDigit = true) (hrest : Ends rest) :
    fromChars (d ++ rest) =
      if d = [] ∨ 2 ^ 64 ≤ decimal d then none else some (UInt64.ofNat (decimal d)) := by
  unfold fromChars
  dsimp only
  rw [takeWhile_digits hd hrest]

end Digits

theorem parseBodyLength_digits {d rest : Text} (h : IsLength d) (hrest : Ends rest) :
    parseBodyLength (d ++ rest) =
      match rest with
      | [] => .error (.error .incomplete)
      | c :: _ =>
        if c ≠ soh then .error (.error .badBodyLength) else .ok (decimal d, d.length + 1) := by
  unfold parseBodyLength
  rw [fromChars_digits h.digits hrest, takeWhile_digits h.digits hrest,
    dropWhile_digits h.digits hrest, if_neg (not_or.mpr ⟨h.ne_nil, Nat.not_le.mpr h.lt⟩)]
  have hvalue : (UInt64.ofNat (decimal d)).toNat = decimal d := UInt64.toNat_ofNat_of_lt h.lt
  cases rest with
  | nil => rfl
  | cons c cs =>
    dsimp only
    rw [hvalue]

/-- The declared length is there, is cut off, or is none whatever follows. -/
theorem parseBodyLength_cases (b : Text) :
    (∃ d t, IsLength d ∧ b = d ++ soh :: t) ∨
    ((b = [] ∨ IsLength b) ∧ parseBodyLength b = .error (.error .incomplete)) ∨
    ∀ x, parseBodyLength (b ++ x) = .error (.error .badBodyLength) := by
  obtain ⟨d, rest, rfl, hdigits, hrest⟩ := digits_split b
  by_cases hd : d = []
  · subst hd
    cases rest with
    | nil => exact .inr (.inl ⟨.inl rfl, rfl⟩)
    | cons c cs =>
      refine .inr (.inr fun x => ?_)
      have hnone : fromChars (c :: cs ++ x) = none := fromChars_digits (d := []) rfl hrest
      unfold parseBodyLength
      rw [List.nil_append, hnone]
      rfl
  by_cases hlt : decimal d < 2 ^ 64
  · have hlength : IsLength d := ⟨hd, hdigits, hlt⟩
    cases rest with
    | nil =>
      have hcut := parseBodyLength_digits hlength hrest
      exact .inr (.inl ⟨.inr (by rwa [List.append_nil]), hcut⟩)
    | cons c cs =>
      by_cases hc : c = soh
      · subst hc
        exact .inl ⟨d, cs, hlength, rfl⟩
      · refine .inr (.inr fun x => ?_)
        have hends : Ends (c :: cs ++ x) := hrest
        rw [List.append_assoc, parseBodyLength_digits hlength hends]
        show (if c ≠ soh then _ else _) = _
        rw [if_pos hc]
  · -- the number has more than 64 bits, and more digits leave it no smaller
    refine .inr (.inr fun x => ?_)
    obtain ⟨d', rest', hmore, hdigits', hrest'⟩ := digits_split (rest ++ x)
    have hall : (d ++ d').all Char.isDigit = true := by
      rw [List.all_append, hdigits, hdigits']
      rfl
    have hle := decimal_le_append d d'
    have hne : d ++ d' ++ rest' ≠ [] := by simp [hd]
    unfold parseBodyLength
    rw [List.append_assoc, hmore, ← List.append_assoc, fromChars_digits hall hrest',
      if_pos (.inr (by omega))]
    dsimp only
    rw [if_neg hne]

/-! ## The header -/

/-- The bytes before the declared length. -/
def header : Text := opening ++ [soh, '9', '=']

/-- The buffer opens with a header that declares the length `d`, with `t` after it. -/
def Declares (b d t : Text) : Prop := IsLength d ∧ b = header ++ d ++ soh :: t

theorem Declares.append {b d t : Text} (h : Declares b d t) (x : Text) :
    Declares (b ++ x) d (t ++ x) := by
  obtain ⟨hd, rfl⟩ := h
  exact ⟨hd, by simp⟩

/-- The offset of the body. -/
def bodyStartOf (d : Text) : Nat := 13 + d.length

/-- The code's position of the checksum field. -/
def checksumPosOf (d : Text) : Nat := wrapAdd (bodyStartOf d) (decimal d)

theorem Declares.findChecksum_eq {b d t : Text} (h : Declares b d t) :
    findChecksum b = if b.length < wrapAdd (checksumPosOf d) checksumFieldLen then
        .error (.error .incomplete)
      else .ok (checksumPosOf d) := by
  obtain ⟨hd, rfl⟩ := h
  have hends : Ends (soh :: t) := by
    intro c hc
    obtain rfl := Option.some.inj hc
    exact soh_not_digit
  have hbegin : parseBegin (header ++ d ++ soh :: t) = .ok () := by
    rw [parseBegin_eq]
    exact expect_append (opening ++ [soh]) ('9' :: '=' :: (d ++ soh :: t)) _
  have hnine : parseNine ((header ++ d ++ soh :: t).drop 10) = .ok () := by
    rw [parseNine_eq]
    exact expect_append ['9', '='] (d ++ soh :: t) _
  have hlength : parseBodyLength ((header ++ d ++ soh :: t).drop 12) =
      .ok (decimal d, d.length + 1) := by
    show parseBodyLength (d ++ soh :: t) = _
    rw [parseBodyLength_digits hd hends]
    simp
  have hstart : 12 + (d.length + 1) = bodyStartOf d := by
    unfold bodyStartOf
    omega
  unfold findChecksum
  rw [hbegin, hnine, hlength]
  simp only [Except.bind, bind, hstart]
  rfl

/-- What the buffer has of the header is cut off. -/
inductive CutOff : Text → Prop where
  | fixed {b : Text} (h : b <+: header) : CutOff b
  | digits {d : Text} (h : IsLength d) : CutOff (header ++ d)

/-- **A buffer opens like a message, is cut off in the header, or clashes with it for good.** -/
theorem header_cases (b : Text) :
    (∃ d t, Declares b d t) ∨
    (CutOff b ∧ findChecksum b = .error (.error .incomplete)) ∨
    ∃ e ≠ .incomplete, ∀ x, findChecksum (b ++ x) = .error (.error e) := by
  have hsplit : header = opening ++ [soh] ++ ['9', '='] := rfl
  rcases expect_cases (opening ++ [soh]) b .badBeginString with
    ⟨b', rfl⟩ | ⟨hcut, -, hshort⟩ | hclash
  · have hbegin : ∀ x, parseBegin (opening ++ [soh] ++ x) = .ok () := fun x => by
      rw [parseBegin_eq]
      exact expect_append _ x _
    rcases expect_cases ['9', '='] b' .badBodyLength with ⟨b'', rfl⟩ | ⟨hcut, -, hshort⟩ | hclash
    · have hnine : ∀ x, parseNine ((opening ++ [soh] ++ (['9', '='] ++ x)).drop 10) = .ok () :=
        fun x => by
          rw [parseNine_eq]
          exact expect_append _ x _
      rcases parseBodyLength_cases b'' with ⟨d, t, hd, rfl⟩ | ⟨hb, hshort⟩ | hclash
      · exact .inl ⟨d, t, hd, by rw [hsplit]; simp only [List.append_assoc]⟩
      · refine .inr (.inl ⟨?_, ?_⟩)
        · rw [← List.append_assoc, ← hsplit]
          rcases hb with rfl | hd
          · exact .fixed (by rw [List.append_nil])
          · exact .digits hd
        · unfold findChecksum
          rw [hbegin, hnine]
          show Except.bind (parseBodyLength b'') _ = _
          rw [hshort]
          rfl
      · refine .inr (.inr ⟨.badBodyLength, by simp, fun x => ?_⟩)
        unfold findChecksum
        rw [List.append_assoc, List.append_assoc ['9', '='], hbegin, hnine]
        show Except.bind (parseBodyLength (b'' ++ x)) _ = _
        rw [hclash]
        rfl
    · refine .inr (.inl ⟨.fixed ?_, ?_⟩)
      · rw [hsplit]
        exact List.prefix_append_right_inj _ |>.mpr hcut
      · unfold findChecksum
        rw [hbegin]
        show Except.bind (parseNine b') _ = _
        rw [parseNine_eq, hshort]
        rfl
    · refine .inr (.inr ⟨.badBodyLength, by simp, fun x => ?_⟩)
      unfold findChecksum
      rw [List.append_assoc, hbegin]
      show Except.bind (parseNine (b' ++ x)) _ = _
      rw [parseNine_eq, hclash]
      rfl
  · refine .inr (.inl ⟨.fixed (hcut.trans ?_), ?_⟩)
    · rw [hsplit]
      exact List.prefix_append ..
    · unfold findChecksum
      rw [parseBegin_eq, hshort]
      rfl
  · refine .inr (.inr ⟨.badBeginString, by simp, fun x => ?_⟩)
    unfold findChecksum
    rw [parseBegin_eq, hclash]
    rfl

end MarketData.Gateway.Fix
