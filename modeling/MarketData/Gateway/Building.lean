import MarketData.Gateway.Grammar

/-!
# `Gateway/Building.lean` — what is built is what is parsed

`Builder` writes a message into a buffer of fixed size. Once a write does not fit, none after it
does anything, and nothing is finished. Where all of them fit, the message is one of the grammar,
with the length and the checksum filled in (`message_eq`); it is parsed back, and of a message that
has not arrived as a whole every part asks for more.

## From writes to a text

A `Builder` is a text and whether it has overflowed, and its writes are many and small: a tag, an
equals sign, a value, a separator. `puts` does any list of them at once, and `puts_fits` turns the
list into one write; from there on the proofs are about a text, not about a sequence of writes. The
two numbers that are filled in at the end, six digits of length and three of checksum, are where
`Gateway/Decimal.lean` comes in: a digit written is the digit read.

`Field.Sound` is all that is asked of a field: its tag is an `int`, and its value has no separator.
An equals sign inside a value, an empty value and a value that looks like a checksum field are sound
(`someFields` has all three), since the parser splits at the first equals sign and cuts by length.

## The session's messages

`Gateway/Session.lean` is about messages that are lists of fields and never builds a text. The two
questions it asks of one, whether it fits and whether it is parsed back, are answered there by
counting; `fits_iff` and `reparse_iff` hold those counts against `Builder` and the parser here.
-/

set_option autoImplicit false

namespace MarketData.Gateway.Fix

open MarketData.Words MarketData.Split

/-! ## Writing -/

namespace Builder

/-- Writes one text after another. -/
def puts (b : Builder) (texts : List Text) : Builder := texts.foldl put b

/-- Nothing but the bytes and the overflow changes. -/
theorem put_frame (b : Builder) (s : Text) :
    (b.put s).cap = b.cap ∧ (b.put s).bodyLengthPos = b.bodyLengthPos ∧
      (b.put s).bodyStart = b.bodyStart ∧ (b.put s).begun = b.begun := by
  unfold put
  split <;> exact ⟨rfl, rfl, rfl, rfl⟩

theorem put_fits {b : Builder} {s : Text} (hb : b.overflow = false)
    (h : b.buf.length + s.length ≤ b.cap) : b.put s = { b with buf := b.buf ++ s } := by
  unfold put
  rw [if_neg]
  rintro (hover | hlt)
  · rw [hb] at hover
    cases hover
  · omega

theorem put_overflow {b : Builder} {s : Text} (h : (b.put s).overflow = false) :
    b.overflow = false ∧ b.buf.length + s.length ≤ b.cap ∧ (b.put s).buf = b.buf ++ s := by
  unfold put at h ⊢
  split at h
  · cases h
  · rename_i hcond
    rw [not_or] at hcond
    rw [if_neg (not_or.mpr hcond)]
    exact ⟨h, by omega, rfl⟩

/-- **Writing several texts** is writing them as one, if all of them fit. -/
theorem puts_fits {b : Builder} {texts : List Text} (hb : b.overflow = false)
    (h : b.buf.length + texts.flatten.length ≤ b.cap) :
    b.puts texts = { b with buf := b.buf ++ texts.flatten } := by
  induction texts generalizing b with
  | nil => simp [puts]
  | cons s texts ih =>
    rw [List.flatten_cons, List.length_append] at h
    have hput := put_fits (s := s) hb (by omega)
    show (b.put s).puts texts = _
    have hroom : (b.buf ++ s).length + texts.flatten.length ≤ b.cap := by
      rw [List.length_append]
      omega
    rw [hput, ih (b := { b with buf := b.buf ++ s }) hb hroom]
    simp

theorem puts_begun (b : Builder) (texts : List Text) : (b.puts texts).begun = b.begun := by
  induction texts generalizing b with
  | nil => rfl
  | cons s texts ih => exact (ih (b.put s)).trans (put_frame b s).2.2.2

theorem puts_cap (b : Builder) (texts : List Text) : (b.puts texts).cap = b.cap := by
  induction texts generalizing b with
  | nil => rfl
  | cons s texts ih => exact (ih (b.put s)).trans (put_frame b s).1

theorem length_puts_le {b : Builder} (hcap : b.buf.length ≤ b.cap) (texts : List Text) :
    (b.puts texts).buf.length ≤ b.cap := by
  induction texts generalizing b with
  | nil => exact hcap
  | cons s texts ih =>
    have hput : (b.put s).buf.length ≤ (b.put s).cap := by
      unfold put
      split
      · exact hcap
      · rename_i hcond
        rw [not_or] at hcond
        show (b.buf ++ s).length ≤ b.cap
        rw [List.length_append]
        omega
    exact Nat.le_trans (ih hput) (Nat.le_of_eq (put_frame b s).1)

/-- And only if they do. -/
theorem puts_overflow {b : Builder} {texts : List Text} (hcap : b.buf.length ≤ b.cap)
    (h : (b.puts texts).overflow = false) :
    b.overflow = false ∧ b.buf.length + texts.flatten.length ≤ b.cap := by
  induction texts generalizing b with
  | nil => exact ⟨h, by simpa using hcap⟩
  | cons s texts ih =>
    have hfirst : (b.put s).overflow = false := by
      by_contra hover
      have hstuck : ∀ (b : Builder) (ts : List Text), b.overflow = true →
          (b.puts ts).overflow = true := by
        intro b ts
        induction ts generalizing b with
        | nil => exact id
        | cons t ts ih =>
          intro hover
          refine ih (b.put t) ?_
          unfold put
          rw [if_pos (.inl hover)]
      rw [Bool.not_eq_false] at hover
      have hlast := hstuck (b.put s) texts hover
      rw [show (b.put s).puts texts = b.puts (s :: texts) from rfl, h] at hlast
      cases hlast
    obtain ⟨hb, hle, hbuf⟩ := put_overflow hfirst
    have hcap' := (put_frame b s).1
    have hrest := ih (b := b.put s) (by rw [hbuf, hcap', List.length_append]; omega) h
    rw [hbuf, hcap', List.length_append] at hrest
    rw [List.flatten_cons, List.length_append]
    exact ⟨hb, by omega⟩

end Builder

/-- A field with its separator. -/
def fieldText (f : Field) : Text := intText f.tag ++ '=' :: f.value ++ [soh]

/-- The body of a message of these fields. -/
def bodyOf (fields : List Field) : Text := fields.flatMap fieldText

/-- The bytes of the message: 19 in front of the body and seven behind it. -/
def messageLength (fields : List Field) : Nat := 26 + (bodyOf fields).length

theorem add_fields_eq (b : Builder) (fields : List Field) :
    ∃ texts : List Text, fields.foldl (fun b f => b.add f.tag f.value) b = b.puts texts ∧
      texts.flatten = bodyOf fields := by
  induction fields generalizing b with
  | nil => exact ⟨[], rfl, rfl⟩
  | cons f fields ih =>
    obtain ⟨texts, hfold, hflat⟩ := ih (b.add f.tag f.value)
    refine ⟨[intText f.tag, ['='], f.value, [soh]] ++ texts, ?_, ?_⟩
    · rw [List.foldl_cons, hfold, Builder.puts, Builder.puts, List.foldl_append]
      rfl
    · rw [List.flatten_append, hflat, bodyOf, bodyOf, List.flatMap_cons]
      simp [fieldText]

/-! ## The message -/

/-- `begin` up to the length, and from the length on. -/
theorem start_eq (cap : Nat) :
    ∃ b₁ b₂ : Builder, b₁ = ({ cap } : Builder).puts [['8', '='], beginString44, [soh], ['9', '=']] ∧
      b₂ = ({ b₁ with bodyLengthPos := b₁.buf.length } : Builder).puts
        [['0', '0', '0', '0', '0', '0'], [soh]] ∧
      Builder.start { cap } beginString44 =
        { b₂ with bodyStart := b₂.buf.length, begun := !b₂.overflow } :=
  ⟨_, _, rfl, rfl, rfl⟩

/-- `begin`, where there is room for the 19 bytes. -/
theorem start_fits {cap : Nat} (h : 19 ≤ cap) :
    Builder.start { cap } beginString44 =
      { cap, buf := header ++ ['0', '0', '0', '0', '0', '0', soh], bodyLengthPos := 12,
        bodyStart := 19, overflow := false, begun := true } := by
  obtain ⟨b₁, b₂, hb₁, hb₂, heq⟩ := start_eq cap
  have hheader : b₁ = { cap, buf := header } :=
    hb₁.trans (Builder.puts_fits (b := { cap }) rfl (by show 0 + 12 ≤ cap; omega))
  subst hheader
  have hblank : b₂ =
      { cap, buf := header ++ ['0', '0', '0', '0', '0', '0', soh], bodyLengthPos := 12 } :=
    hb₂.trans (Builder.puts_fits (b := { cap, buf := header, bodyLengthPos := 12 }) rfl
      (by show 12 + 7 ≤ cap; omega))
  rw [heq, hblank]
  rfl

theorem start_overflow {cap : Nat} (h : cap < 19) :
    (Builder.start { cap } beginString44).begun = false := by
  obtain ⟨b₁, b₂, hb₁, hb₂, heq⟩ := start_eq cap
  rw [heq]
  show (!b₂.overflow) = false
  rw [Bool.not_eq_false']
  by_contra hover
  rw [Bool.not_eq_true] at hover
  have hcap₁ : b₁.cap = cap := by rw [hb₁, Builder.puts_cap]
  have hle₁ : b₁.buf.length ≤ b₁.cap := by
    rw [hcap₁, hb₁]
    exact Builder.length_puts_le (b := { cap }) (Nat.zero_le _) _
  rw [hb₂] at hover
  obtain ⟨hover₁, hroom⟩ := Builder.puts_overflow
    (b := { b₁ with bodyLengthPos := b₁.buf.length }) hle₁ hover
  have hover₁' : b₁.overflow = false := hover₁
  rw [hb₁] at hover₁'
  obtain ⟨-, hroom₁⟩ := Builder.puts_overflow (b := { cap }) (Nat.zero_le _) hover₁'
  have hheader : b₁ = { cap, buf := header } :=
    hb₁.trans (Builder.puts_fits (b := { cap }) rfl hroom₁)
  rw [hheader] at hroom
  have hroom' : 12 + 7 ≤ cap := hroom
  omega

/-! ## Filling in -/

/-- Six digits hold every length below a million. -/
theorem six_spec {n : Nat} (h : n ≤ 999999) :
    (Builder.six n).length = 6 ∧ IsLength (Builder.six n) ∧ decimal (Builder.six n) = n := by
  have hdigit := fun div => digitChar (n / div)
  have hvalue : decimal (Builder.six n) = n := by
    show ((((((0 * 10 + ((Char.ofNat ('0'.toNat + n / 100000 % 10)).toNat - '0'.toNat)) * 10 +
      ((Char.ofNat ('0'.toNat + n / 10000 % 10)).toNat - '0'.toNat)) * 10 +
      ((Char.ofNat ('0'.toNat + n / 1000 % 10)).toNat - '0'.toNat)) * 10 +
      ((Char.ofNat ('0'.toNat + n / 100 % 10)).toNat - '0'.toNat)) * 10 +
      ((Char.ofNat ('0'.toNat + n / 10 % 10)).toNat - '0'.toNat)) * 10 +
      ((Char.ofNat ('0'.toNat + n / 1 % 10)).toNat - '0'.toNat)) = n
    rw [(hdigit 100000).2, (hdigit 10000).2, (hdigit 1000).2, (hdigit 100).2, (hdigit 10).2,
      (hdigit 1).2]
    omega
  refine ⟨rfl, ⟨by simp [Builder.six], ?_, by rw [hvalue]; omega⟩, hvalue⟩
  rw [List.all_eq_true]
  intro c hc
  obtain ⟨div, -, rfl⟩ := List.mem_map.mp hc
  exact (hdigit div).1

/-- `finish`, of a message that was begun and whose writes all fitted. -/
theorem finish_eq {cap : Nat} {body : Text} (hbody : 19 + body.length ≤ cap) :
    Builder.finish
      { cap, buf := header ++ ['0', '0', '0', '0', '0', '0', soh] ++ body, bodyLengthPos := 12,
        bodyStart := 19, overflow := false, begun := true } =
      if cap < 26 + body.length then []
      else wholeOf (Builder.six body.length) body
        (Builder.three (checksum (summed (Builder.six body.length) body))) := by
  have hlength : (header ++ ['0', '0', '0', '0', '0', '0', soh] ++ body).length - 19 =
      body.length := by
    rw [List.length_append]
    exact Nat.add_sub_cancel_left 19 body.length
  have hfilled : (header ++ ['0', '0', '0', '0', '0', '0', soh] ++ body).take 12 ++
      Builder.six body.length ++ (header ++ ['0', '0', '0', '0', '0', '0', soh] ++ body).drop 18 =
        summed (Builder.six body.length) body := rfl
  have hsummed : (summed (Builder.six body.length) body).length = 19 + body.length := by
    rw [length_summed]
    rfl
  unfold Builder.finish
  rw [if_neg (by simp)]
  dsimp only
  rw [hlength, hfilled]
  generalize checksum (summed (Builder.six body.length) body) = ck
  generalize hb :
    ({ cap, buf := summed (Builder.six body.length) body, bodyLengthPos := 12, bodyStart := 19,
       overflow := false, begun := true } : Builder) = b
  have hputs : ((b.put ['1', '0', '=']).put (Builder.three ck)).put [soh] =
      b.puts [['1', '0', '='], Builder.three ck, [soh]] := rfl
  rw [hputs]
  by_cases hroom : cap < 26 + body.length
  · rw [if_pos hroom, if_pos]
    by_contra hover
    rw [Bool.not_eq_true] at hover
    subst hb
    obtain ⟨-, hle⟩ := Builder.puts_overflow (by show (summed _ _).length ≤ cap; omega) hover
    have hle' : (summed (Builder.six body.length) body).length + 7 ≤ cap := hle
    omega
  · subst hb
    rw [if_neg hroom, Builder.puts_fits rfl (by
      show (summed (Builder.six body.length) body).length + 7 ≤ cap
      omega)]
    rfl

/-- **A message that fits** is the header with its length, the fields, and the checksum; one that
does not is not there. -/
theorem message_eq (cap : Nat) (fields : List Field) :
    Builder.message cap fields =
      if cap < messageLength fields then []
      else wholeOf (Builder.six (bodyOf fields).length) (bodyOf fields)
        (Builder.three (checksum (summed (Builder.six (bodyOf fields).length) (bodyOf fields)))) := by
  unfold Builder.message messageLength
  obtain ⟨texts, hfold, hflat⟩ := add_fields_eq (Builder.start { cap } beginString44) fields
  rw [hfold, ← hflat]
  by_cases hcap : cap < 19
  · rw [if_pos (by omega), Builder.finish, if_pos]
    left
    rw [Builder.puts_begun]
    exact start_overflow hcap
  rw [start_fits (by omega)]
  generalize hb : (⟨cap, header ++ ['0', '0', '0', '0', '0', '0', soh], 12, 19, false, true⟩ :
    Builder) = b
  have hlen : b.buf.length = 19 ∧ b.cap = cap ∧ b.overflow = false := by
    rw [← hb]
    exact ⟨rfl, rfl, rfl⟩
  by_cases hroom : 19 + texts.flatten.length ≤ cap
  · rw [Builder.puts_fits hlen.2.2 (by omega), ← hb]
    exact finish_eq hroom
  · rw [if_pos (by omega), Builder.finish, if_pos]
    right
    by_contra hover
    rw [Bool.not_eq_true] at hover
    have hle := (Builder.puts_overflow (by omega) hover).2
    omega

theorem message_eq_nil_iff (cap : Nat) (fields : List Field) :
    Builder.message cap fields = [] ↔ cap < messageLength fields := by
  rw [message_eq]
  split
  · rename_i hlt
    exact ⟨fun _ => hlt, fun _ => rfl⟩
  · rename_i hroom
    exact ⟨fun hnil => (nomatch hnil), fun hlt => absurd hlt hroom⟩

/-! ## Parsing it back -/

/-- An `int`'s text is read as that `int`. -/
theorem tagOf_intText {t : Int} (hlo : -2 ^ 31 ≤ t) (hhi : t < 2 ^ 31) :
    tagOf (intText t) = some t := by
  rw [intText_eq]
  have hdigits := toDigits_all_isDigit
  by_cases ht : 0 ≤ t
  · rw [if_pos ht]
    unfold tagOf
    split
    · -- a digit is not a sign
      rename_i digits heq
      have hall := hdigits t.toNat
      rw [heq] at hall
      simp at hall
    · rw [if_pos ⟨Nat.toDigits_ne_nil, hdigits _, by rw [decimal_toDigits]; omega⟩,
        decimal_toDigits]
      congr 1
      omega
  · rw [if_neg ht]
    show (if Nat.toDigits 10 (-t).toNat ≠ [] ∧ _ ∧ _ then _ else _) = _
    rw [if_pos ⟨Nat.toDigits_ne_nil, hdigits _, by rw [decimal_toDigits]; omega⟩, decimal_toDigits]
    congr 1
    omega

/-- What a field is made of: the tag is an `int`, and the value has no separator. -/
def Field.Sound (f : Field) : Prop := -2 ^ 31 ≤ f.tag ∧ f.tag < 2 ^ 31 ∧ soh ∉ f.value

instance (f : Field) : Decidable f.Sound := inferInstanceAs (Decidable (_ ∧ _ ∧ _))

theorem spelled_bodyOf {fields : List Field} (h : ∀ f ∈ fields, f.Sound) :
    Spelled (bodyOf fields) fields := by
  induction fields with
  | nil => exact .nil
  | cons f fields ih =>
    obtain ⟨hlo, hhi, hvalue⟩ := h f (by simp)
    have hrest := ih fun g hg => h g (by simp [hg])
    have hcons := Spelled.cons (tagOf_intText hlo hhi) hvalue hrest
    simpa [bodyOf, fieldText] using hcons

/-- A message that has not arrived as a whole asks for more. -/
theorem Framed.cut_short {b d body ccc p : Text} (h : Framed b d body ccc [])
    (hfits : bodyStartOf d + body.length + checksumFieldLen < 2 ^ 64) (hp : p <+: b) (hne : p ≠ b) :
    Message.parse p = .error (.error .incomplete) := by
  have hshort : p.length < b.length := by
    refine Nat.lt_of_le_of_ne hp.length_le fun heq => hne (hp.eq_of_length heq)
  have hlen : b.length = bodyStartOf d + body.length + checksumFieldLen := by
    rw [h.eq_whole, List.append_nil, h.length_whole]
  obtain ⟨x, rfl⟩ := hp
  rcases header_cases p with ⟨d', t, hd'⟩ | ⟨-, hcut⟩ | ⟨e, -, hclash⟩
  · -- the length it declares is that of the whole
    obtain rfl : d = d' := by
      have hshape := h.shape.symm.trans (hd'.append x).2
      rw [List.append_assoc, List.append_assoc header] at hshape
      exact (sep_inj (soh_not_mem_digits h.isLength.digits) (soh_not_mem_digits hd'.1.digits)
        (List.append_cancel_left hshape)).1
    have hfind := hd'.findChecksum_eq
    have hpos : checksumPosOf d = bodyStartOf d + body.length := by
      rw [checksumPosOf, h.declared, wrapAdd_eq (by omega)]
    rw [hpos, wrapAdd_eq hfits, if_pos (by omega)] at hfind
    exact parse_of_findChecksum_error hfind
  · exact parse_of_findChecksum_error hcut
  · have hfind := h.findChecksum_eq hfits
    rw [hclash x] at hfind
    cases hfind

/-- What the message of these fields is parsed as. -/
def builtFields (fields : List Field) : List Field :=
  headFields (Builder.six (bodyOf fields).length) ++ fields ++
    [checksumField (Builder.three (checksum (summed (Builder.six (bodyOf fields).length)
      (bodyOf fields))))]

/-- A text has one reading as fields. -/
theorem Spelled.unique {x : Text} {fs gs : List Field} (h : Spelled x fs) (h' : Spelled x gs) :
    fs = gs := by
  induction h generalizing gs with
  | nil =>
    generalize hnil : ([] : Text) = text at h'
    cases h' with
    | nil => rfl
    | cons _ _ _ => simp at hnil
  | cons htag hvalue _ ih =>
    obtain ⟨gs', rfl, hgs'⟩ := (spelled_cons_iff htag hvalue).mp h'
    rw [ih hgs']

section Built

variable {cap : Nat} {fields : List Field} (hbody : (bodyOf fields).length ≤ 999999)
  (hcap : messageLength fields ≤ cap)

include hbody hcap

/-- The message is framed, with its length and its checksum. -/
theorem framed_message (rest : Text) :
    Framed (Builder.message cap fields ++ rest) (Builder.six (bodyOf fields).length) (bodyOf fields)
        (Builder.three (checksum (summed (Builder.six (bodyOf fields).length) (bodyOf fields))))
        rest ∧
      bodyStartOf (Builder.six (bodyOf fields).length) + (bodyOf fields).length + checksumFieldLen <
        2 ^ 64 := by
  obtain ⟨hlen, hlength, hvalue⟩ := six_spec hbody
  have hlt := checksum_lt (summed (Builder.six (bodyOf fields).length) (bodyOf fields))
  obtain ⟨hthree, hall, -⟩ := three_spec _ (Nat.lt_trans hlt (by decide))
  rw [message_eq, if_neg (Nat.not_lt.mpr hcap)]
  refine ⟨⟨hlength, hvalue, ⟨hthree, hall⟩, ?_⟩, ?_⟩
  · rw [wholeOf, summed]
    simp
  · unfold bodyStartOf checksumFieldLen
    omega

/-- It is parsed, as its fields, if the parser has room for them and the three around them. -/
theorem message_parse_iff (hsound : ∀ f ∈ fields, f.Sound) (rest : Text) {m : Message}
    {c : Nat} :
    Message.parse (Builder.message cap fields ++ rest) = .ok (m, c) ↔
      fields.length + 3 ≤ FixMessage.maxFields ∧
        m = ⟨builtFields fields, Builder.message cap fields⟩ ∧
        c = (Builder.message cap fields).length := by
  obtain ⟨hframed, hfits⟩ := framed_message hbody hcap rest
  have hwhole : Builder.message cap fields = wholeOf (Builder.six (bodyOf fields).length)
      (bodyOf fields) (Builder.three (checksum (summed (Builder.six (bodyOf fields).length)
        (bodyOf fields)))) := by
    rw [message_eq, if_neg (Nat.not_lt.mpr hcap)]
  have hlt := checksum_lt (summed (Builder.six (bodyOf fields).length) (bodyOf fields))
  obtain ⟨-, hall, hstated⟩ := three_spec _ (Nat.lt_trans hlt (by decide))
  have hspelled := (spelled_bodyOf hsound).append ((spelled_trailer_iff hall).mpr rfl)
  rw [hframed.parse_iff hfits, ← hwhole, hstated, Nat.mod_eq_of_lt hlt]
  unfold builtFields
  constructor
  · rintro ⟨-, ⟨fs, rfl, hfs, hle⟩, rfl⟩
    rw [hfs.unique hspelled, List.length_append, List.length_singleton] at hle
    rw [hfs.unique hspelled, List.append_assoc]
    exact ⟨by omega, rfl, rfl⟩
  · rintro ⟨hle, rfl, rfl⟩
    refine ⟨rfl, ⟨_, by rw [List.append_assoc], hspelled, ?_⟩, rfl⟩
    rw [List.length_append, List.length_singleton]
    omega

end Built

/-- **What is built is what is parsed**, and nothing is built of what does not fit. -/
theorem built_parses :
    (∀ cap fields, Builder.message cap fields = [] ↔ cap < messageLength fields) ∧
    ∀ cap fields, fields.length ≤ 253 → (∀ f ∈ fields, f.Sound) → (bodyOf fields).length ≤ 999999 →
      messageLength fields ≤ cap →
        (∀ rest, Message.parse (Builder.message cap fields ++ rest) =
          .ok (⟨builtFields fields, Builder.message cap fields⟩,
            (Builder.message cap fields).length)) ∧
        ∀ p, p <+: Builder.message cap fields → p ≠ Builder.message cap fields →
          Message.parse p = .error (.error .incomplete) := by
  refine ⟨message_eq_nil_iff, fun cap fields hcount hsound hbody hcap => ⟨fun rest => ?_, ?_⟩⟩
  · exact (message_parse_iff hbody hcap hsound rest).mpr
      ⟨Nat.add_le_add_right hcount 3, rfl, rfl⟩
  · intro p hp hne
    obtain ⟨hframed, hfits⟩ := framed_message hbody hcap []
    rw [List.append_nil] at hframed
    exact hframed.cut_short hfits hp hne

/-- A tag twice over, a value that looks like a checksum field, and one that is empty. -/
def someFields : List Field := [⟨35, ['D']⟩, ⟨58, ['1', '0', '=', '0', '0', '0']⟩, ⟨58, []⟩]

theorem built_parses_some :
    Message.parse (Builder.message 64 someFields ++ ['8', '=', 'F']) =
      .ok (⟨builtFields someFields, Builder.message 64 someFields⟩,
        (Builder.message 64 someFields).length) :=
  (built_parses.2 64 someFields (by decide) (by decide) (by decide) (by decide)).1 _

/-! ## The session's messages

The session layer is modelled over messages that are lists of fields; whether one fits a buffer and
whether it is parsed back is counted there (`FixMessage.size`, `FixMessage.reparse`). -/

/-- The fields as `Builder` is given them. -/
def fieldsOf (m : FixMessage) : List Field := m.fields.map fun f => ⟨f.1, f.2⟩

theorem messageLength_fieldsOf (m : FixMessage) : messageLength (fieldsOf m) = m.size := by
  unfold messageLength FixMessage.size fieldsOf bodyOf
  rw [List.flatMap_map, List.length_flatMap]
  congr 2
  refine List.map_congr_left fun f _ => ?_
  simp [fieldText]
  omega

/-- **A message fits as the session layer counts it** exactly when `Builder` finishes it. -/
theorem fits_iff (m : FixMessage) (cap : Nat) :
    m.fits cap = true ↔ Builder.message cap (fieldsOf m) ≠ [] := by
  rw [ne_eq, message_eq_nil_iff, messageLength_fieldsOf, FixMessage.fits, decide_eq_true_iff,
    Nat.not_lt]

/-- **And it is read back** as the session layer has it exactly when it is parsed. -/
theorem reparse_iff {m : FixMessage} {cap : Nat} (hfits : m.fits cap = true)
    (hsound : ∀ f ∈ fieldsOf m, f.Sound) (hbody : (bodyOf (fieldsOf m)).length ≤ 999999) :
    m.reparse = some m ↔
      ∃ consumed, Message.parse (Builder.message cap (fieldsOf m)) =
        .ok (⟨builtFields (fieldsOf m), Builder.message cap (fieldsOf m)⟩, consumed) := by
  have hcap : messageLength (fieldsOf m) ≤ cap := by
    rw [messageLength_fieldsOf]
    exact of_decide_eq_true hfits
  have hparse := fun consumed => message_parse_iff hbody hcap hsound []
    (m := ⟨builtFields (fieldsOf m), Builder.message cap (fieldsOf m)⟩) (c := consumed)
  have hlen : (fieldsOf m).length = m.fields.length := List.length_map _
  simp only [List.append_nil, hlen, true_and] at hparse
  simp only [hparse, exists_and_left, exists_eq, and_true]
  unfold FixMessage.reparse
  split
  · rename_i hle
    simp [hle]
  · rename_i hmany
    simp [hmany]

end MarketData.Gateway.Fix
