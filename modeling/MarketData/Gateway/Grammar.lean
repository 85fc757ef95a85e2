import Mathlib.Tactic.IntervalCases
import MarketData.Gateway.Transport
import MarketData.Lib.Split

/-!
# `Gateway/Grammar.lean` — the messages that are accepted

A message is `8=FIX.4.4`, `9=` and a length, a body of that many bytes made of fields, and `10=`
with the three digits of the checksum, every field with its separator (`Grammar`). `Message::parse`
accepts more: the three digits are compared modulo 256, and a body whose last field lacks its
separator is read on into the checksum field (`parse_ok_iff`).

## Texts on one side, positions on the other

`Grammar` is about how a buffer is *made*: it is the concatenation of named texts, and nothing in it
counts. `parse` is about where things *stand*. `Framed` is the bridge: the same concatenation with
the lengths known, from which each position of the parse is a sum that can be computed. From there
`parse_iff` goes forward and `framed_of_parse` back, and the grammar is only met at the end.

`Accepted` is what the parser accepts, in the grammar's own terms: a checksum that is right modulo
256, and fields that go on through the checksum field. Between it and `Grammar` stand the two slips
and nothing else, which is what `Strict` and `Lax` say of a buffer.

The theorem asks that the buffer fit the address space. A declared length whose position wraps is in
no such buffer's grammar, and what the parser does with it is the subject of
`Gateway/Totality.lean`.
-/

set_option autoImplicit false

namespace MarketData.Gateway.Fix

open MarketData.Words MarketData.Split

/-! ## Fields -/

/-- The text of fields, each with its separator. -/
inductive Spelled : Text → List Field → Prop
  | nil : Spelled [] []
  | cons {tagText value rest : Text} {tag : Int} {fields : List Field}
      (htag : tagOf tagText = some tag) (hvalue : soh ∉ value) (hrest : Spelled rest fields) :
      Spelled (tagText ++ '=' :: value ++ soh :: rest) (⟨tag, value⟩ :: fields)

/-- The text of a tag is a sign and digits at the most. -/
theorem tagOf_chars {t : Text} {n : Int} (h : tagOf t = some n) :
    ∀ c ∈ t, c = '-' ∨ c.isDigit = true := by
  unfold tagOf at h
  intro c hc
  split at h
  · split at h
    · rename_i digits hcond
      cases hc with
      | head => exact .inl rfl
      | tail _ hmem => exact .inr (List.all_eq_true.mp hcond.2.1 c hmem)
    · cases h
  · split at h
    · rename_i hcond
      exact .inr (List.all_eq_true.mp hcond.2.1 c hc)
    · cases h

theorem eq_not_mem_tag {t : Text} {n : Int} (h : tagOf t = some n) : '=' ∉ t := by
  intro hmem
  have := tagOf_chars h _ hmem
  revert this
  decide

theorem soh_not_mem_tag {t : Text} {n : Int} (h : tagOf t = some n) : soh ∉ t := by
  intro hmem
  have := tagOf_chars h _ hmem
  revert this
  decide

theorem parseField_iff {text : Text} {f : Field} :
    parseField text = .ok f ↔
      ∃ tagText, text = tagText ++ '=' :: f.value ∧ tagOf tagText = some f.tag := by
  unfold parseField
  constructor
  · intro h
    split at h
    · cases h
    rename_i c value hdrop
    obtain ⟨-, -, hcut⟩ := dropWhile_eq_cons hdrop
    split at h
    · cases h
    rename_i tag htag
    obtain rfl := Except.ok.inj h
    exact ⟨_, hcut, htag⟩
  · rintro ⟨tagText, rfl, htag⟩
    rw [dropWhile_sep (eq_not_mem_tag htag), takeWhile_sep (eq_not_mem_tag htag)]
    dsimp only
    rw [htag]

/-- **Splitting a message into its fields** is reading their text. -/
theorem parseFields_iff (fuel count : Nat) {raw : Text} (fields : List Field)
    (hfuel : raw.length < fuel) (hcount : count ≤ FixMessage.maxFields) :
    parseFields fuel count raw = .ok fields ↔
      Spelled raw fields ∧ count + fields.length ≤ FixMessage.maxFields := by
  induction fuel generalizing count raw fields with
  | zero => omega
  | succ fuel ih =>
    rw [parseFields]
    by_cases hraw : raw = []
    · subst hraw
      rw [if_pos rfl]
      constructor
      · intro h
        obtain rfl := Except.ok.inj h
        exact ⟨.nil, hcount⟩
      · rintro ⟨hspelled, -⟩
        generalize hnil : ([] : Text) = text at hspelled
        cases hspelled with
        | nil => rfl
        | cons _ _ _ => simp at hnil
    rw [if_neg hraw]
    constructor
    · intro h
      split at h
      · cases h
      rename_i c rest hdrop
      obtain ⟨-, hfree, hcut⟩ := dropWhile_eq_cons hdrop
      obtain ⟨f, hf, h⟩ := bind_eq_ok h
      split at h
      · cases h
      rename_i hroom
      obtain ⟨fs, hfs, h⟩ := bind_eq_ok h
      obtain rfl := Except.ok.inj h
      have hshort : rest.length < fuel := by
        have hlen := congrArg List.length hcut
        rw [List.length_append, List.length_cons] at hlen
        omega
      obtain ⟨hspelled, hle⟩ := (ih _ _ hshort (by omega)).mp hfs
      obtain ⟨tagText, htext, htag⟩ := parseField_iff.mp hf
      rw [htext] at hcut hfree
      refine ⟨?_, by rw [List.length_cons]; omega⟩
      rw [hcut]
      exact .cons htag (fun hmem => hfree (by simp [hmem])) hspelled
    · rintro ⟨hspelled, hle⟩
      cases hspelled with
      | nil => exact absurd rfl hraw
      | @cons tagText value rest tag fields htag hvalue hrest =>
        rw [List.length_cons] at hle
        have hfree : soh ∉ tagText ++ '=' :: value := by
          rw [List.mem_append, List.mem_cons, not_or, not_or]
          exact ⟨soh_not_mem_tag htag, by decide, hvalue⟩
        have hshort : rest.length < fuel := by
          rw [List.length_append, List.length_cons] at hfuel
          omega
        rw [dropWhile_sep hfree, takeWhile_sep hfree]
        have hfield : parseField (tagText ++ '=' :: value) = .ok ⟨tag, value⟩ :=
          parseField_iff.mpr ⟨tagText, rfl, htag⟩
        have hfields := (ih (count + 1) fields hshort (by omega)).mpr
          ⟨hrest, by omega⟩
        dsimp only
        rw [hfield]
        show (if count = FixMessage.maxFields then _ else _) = _
        rw [if_neg (by omega), hfields]
        rfl

/-- A first field has one reading. -/
theorem spelled_cons_iff {tagText value rest : Text} {tag : Int} {fields : List Field}
    (htag : tagOf tagText = some tag) (hvalue : soh ∉ value) :
    Spelled (tagText ++ '=' :: value ++ soh :: rest) fields ↔
      ∃ fs, fields = ⟨tag, value⟩ :: fs ∧ Spelled rest fs := by
  constructor
  · intro h
    have hfree : soh ∉ tagText ++ '=' :: value := by
      rw [List.mem_append, List.mem_cons, not_or, not_or]
      exact ⟨soh_not_mem_tag htag, by decide, hvalue⟩
    generalize htext : tagText ++ '=' :: value ++ soh :: rest = text at h
    cases h with
    | nil => simp at htext
    | @cons tagText' value' rest' tag' fields' htag' hvalue' hrest' =>
      have hfree' : soh ∉ tagText' ++ '=' :: value' := by
        rw [List.mem_append, List.mem_cons, not_or, not_or]
        exact ⟨soh_not_mem_tag htag', by decide, hvalue'⟩
      obtain ⟨hfield, rfl⟩ := sep_inj hfree hfree' htext
      obtain ⟨rfl, rfl⟩ := sep_inj (eq_not_mem_tag htag) (eq_not_mem_tag htag') hfield
      rw [htag] at htag'
      cases htag'
      exact ⟨fields', rfl, hrest'⟩
  · rintro ⟨fs, rfl, hrest⟩
    exact .cons htag hvalue hrest

theorem Spelled.append {x y : Text} {fs gs : List Field} (hx : Spelled x fs) (hy : Spelled y gs) :
    Spelled (x ++ y) (fs ++ gs) := by
  induction hx with
  | nil => exact hy
  | cons htag hvalue _ ih =>
    have hcons := Spelled.cons htag hvalue ih
    simpa using hcons

/-- The text of fields ends with a separator, if there is any. -/
theorem Spelled.getLast? {x : Text} {fs : List Field} (h : Spelled x fs) :
    x = [] ∨ x.getLast? = some soh := by
  induction h with
  | nil => exact .inl rfl
  | cons _ _ _ ih =>
    refine .inr ?_
    rcases ih with rfl | hlast
    · rw [List.getLast?_append, List.getLast?_singleton]
      rfl
    · rw [List.getLast?_append, List.getLast?_cons, hlast]
      rfl

/-- Behind a separator, fields begin anew. -/
theorem Spelled.split {x y : Text} {fs : List Field} (h : Spelled (x ++ y) fs)
    (hx : x = [] ∨ x.getLast? = some soh) :
    ∃ gs hs, fs = gs ++ hs ∧ Spelled x gs ∧ Spelled y hs := by
  generalize hxy : x ++ y = text at h
  induction h generalizing x with
  | nil =>
    obtain ⟨rfl, rfl⟩ := List.append_eq_nil_iff.mp hxy
    exact ⟨[], [], rfl, .nil, .nil⟩
  | @cons tagText value rest tag fields htag hvalue hrest ih =>
    rcases hx with rfl | hlast
    · rw [List.nil_append] at hxy
      rw [hxy]
      exact ⟨[], _, rfl, .nil, .cons htag hvalue hrest⟩
    · have hfree : soh ∉ tagText ++ '=' :: value := by
        rw [List.mem_append, List.mem_cons, not_or, not_or]
        exact ⟨soh_not_mem_tag htag, by decide, hvalue⟩
      -- the text `x` reaches its separator no earlier than the field does
      obtain ⟨x₁, x₂, rfl, hx₁⟩ : ∃ x₁ x₂, x = x₁ ++ soh :: x₂ ∧ soh ∉ x₁ := by
        have hmem : soh ∈ x := List.mem_of_getLast? hlast
        cases hdrop : x.dropWhile (· ≠ soh) with
        | nil => exact absurd hmem (dropWhile_eq_nil hdrop)
        | cons c r =>
          obtain ⟨-, hnot, hcut⟩ := dropWhile_eq_cons hdrop
          exact ⟨_, r, hcut, hnot⟩
      rw [List.append_assoc, List.cons_append] at hxy
      obtain ⟨rfl, hrest'⟩ := sep_inj hx₁ hfree hxy
      have hx₂ : x₂ = [] ∨ x₂.getLast? = some soh := by
        cases x₂ with
        | nil => exact .inl rfl
        | cons c cs =>
          right
          rw [List.getLast?_append, List.getLast?_cons_cons] at hlast
          cases hl : (c :: cs).getLast? with
          | none => simp at hl
          | some l =>
            rw [hl] at hlast
            exact hlast
      obtain ⟨gs, hs, rfl, hgs, hhs⟩ := ih hx₂ hrest'
      exact ⟨⟨tag, value⟩ :: gs, hs, rfl, .cons htag hvalue hgs, hhs⟩

/-! ## The frame -/

/-- The checksum field, with the separator it ends in. -/
def trailer (ccc : Text) : Text := '1' :: '0' :: '=' :: ccc ++ [soh]

/-- The buffer begins with a header that declares the length of `body`, then `body`, then a
checksum field of three digits. -/
structure Framed (b d body ccc rest : Text) : Prop where
  isLength : IsLength d
  declared : decimal d = body.length
  digits : ccc.length = 3 ∧ ccc.all Char.isDigit = true
  shape : b = header ++ d ++ soh :: (body ++ trailer ccc ++ rest)

/-- What the checksum is over. -/
def summed (d body : Text) : Text := header ++ d ++ soh :: body

/-- The whole message. -/
def wholeOf (d body ccc : Text) : Text := summed d body ++ trailer ccc

theorem length_summed (d body : Text) : (summed d body).length = bodyStartOf d + body.length := by
  have hheader : header.length = 12 := rfl
  unfold summed bodyStartOf
  rw [List.length_append, List.length_append, List.length_cons, hheader]
  omega

namespace Framed

variable {b d body ccc rest : Text}

theorem eq_whole (h : Framed b d body ccc rest) : b = wholeOf d body ccc ++ rest := by
  rw [h.shape, wholeOf, summed]
  simp

theorem length_trailer (h : Framed b d body ccc rest) : (trailer ccc).length = checksumFieldLen := by
  rw [trailer, List.length_append, List.length_cons, List.length_cons, List.length_cons, h.digits.1]
  rfl

theorem length_whole (h : Framed b d body ccc rest) :
    (wholeOf d body ccc).length = bodyStartOf d + body.length + checksumFieldLen := by
  rw [wholeOf, List.length_append, length_summed, h.length_trailer]

theorem declares (h : Framed b d body ccc rest) : Declares b d (body ++ trailer ccc ++ rest) :=
  ⟨h.isLength, h.shape⟩

theorem fromChars_eq (h : Framed b d body ccc rest) :
    fromChars ccc = some (UInt64.ofNat (decimal ccc)) := by
  have hlt := decimal_lt h.digits.2
  rw [h.digits.1] at hlt
  have hne : ccc ≠ [] := by
    rintro rfl
    cases h.digits.1
  have heq : fromChars (ccc ++ []) = _ := fromChars_digits h.digits.2 (by simp [Ends])
  rw [List.append_nil, if_neg (not_or.mpr ⟨hne, by omega⟩)] at heq
  exact heq

/-- Where nothing wraps, the checksum field is found at the end of the body. -/
theorem findChecksum_eq (h : Framed b d body ccc rest)
    (hfits : bodyStartOf d + body.length + checksumFieldLen < 2 ^ 64) :
    findChecksum b = .ok (summed d body).length := by
  have hseven : checksumFieldLen = 7 := rfl
  have hpos : checksumPosOf d = bodyStartOf d + body.length := by
    rw [checksumPosOf, h.declared, wrapAdd_eq (by omega)]
  have hlen : ¬ b.length < wrapAdd (checksumPosOf d) checksumFieldLen := by
    rw [hpos, wrapAdd_eq hfits, h.eq_whole, List.length_append, h.length_whole]
    omega
  rw [h.declares.findChecksum_eq, if_neg hlen, hpos, length_summed]

theorem verifyChecksum_eq (h : Framed b d body ccc rest) :
    verifyChecksum b (summed d body).length =
      if checksum (summed d body) ≠ decimal ccc % 256 then .error (.error .badCheckSum)
      else .ok () := by
  have hstated := h.fromChars_eq
  have hvalue : (UInt64.ofNat (decimal ccc)).toNat = decimal ccc := by
    have hlt := decimal_lt h.digits.2
    have hsize : UInt64.size = 2 ^ 64 := rfl
    rw [h.digits.1] at hlt
    exact UInt64.toNat_ofNat_of_lt (by omega)
  have hall : ccc.dropWhile Char.isDigit = [] :=
    List.dropWhile_eq_nil_iff.mpr (List.all_eq_true.mp h.digits.2)
  obtain ⟨c₀, c₁, c₂, rfl⟩ := List.length_eq_three.mp h.digits.1
  have hb : b = summed d body ++ ('1' :: '0' :: '=' :: c₀ :: c₁ :: c₂ :: soh :: rest) := by
    rw [h.eq_whole, wholeOf, List.append_assoc]
    rfl
  have hten : substr b (summed d body).length 3 = .ok ['1', '0', '='] := by
    rw [substr, if_pos (by rw [hb, List.length_append]; omega), hb, List.drop_left]
    rfl
  have hsoh : b[(summed d body).length + 6]? = some soh := by
    rw [hb, List.getElem?_append_right (by omega), Nat.add_sub_cancel_left]
    rfl
  have hdeclared : substr b ((summed d body).length + 3) 3 = .ok [c₀, c₁, c₂] := by
    rw [substr, if_pos (by rw [hb, List.length_append, List.length_cons]; simp), hb,
      List.drop_append, List.drop_eq_nil_of_le (by omega), Nat.add_sub_cancel_left]
    rfl
  have htake : b.take (summed d body).length = summed d body := by rw [hb, List.take_left]
  unfold verifyChecksum
  rw [hten, hdeclared, htake]
  simp only [bind, Except.bind, ne_eq, not_true_eq_false, if_false, hsoh, hstated, hall, hvalue]

end Framed

/-- The two fields in front of the body. -/
def headFields (d : Text) : List Field := [⟨8, beginString44⟩, ⟨9, d⟩]

theorem soh_not_mem_digits {d : Text} (h : d.all Char.isDigit = true) : soh ∉ d := by
  intro hmem
  have hdigit := List.all_eq_true.mp h soh hmem
  rw [soh_not_digit] at hdigit
  cases hdigit

/-- The fields of a message are those of its header and what the rest is read as. -/
theorem spelled_header_iff {d text : Text} {fields : List Field} (hd : IsLength d) :
    Spelled (header ++ d ++ soh :: text) fields ↔
      ∃ fs, fields = headFields d ++ fs ∧ Spelled text fs := by
  have hshape : header ++ d ++ soh :: text =
      ['8'] ++ '=' :: beginString44 ++ soh :: (['9'] ++ '=' :: d ++ soh :: text) := by
    simp [header, opening]
  have height : tagOf ['8'] = some 8 := rfl
  have hnine : tagOf ['9'] = some 9 := rfl
  rw [hshape, spelled_cons_iff height (by decide)]
  simp only [spelled_cons_iff hnine (soh_not_mem_digits hd.digits)]
  constructor
  · rintro ⟨_, rfl, fs, rfl, hfs⟩
    exact ⟨fs, rfl, hfs⟩
  · rintro ⟨fs, rfl, hfs⟩
    exact ⟨_, rfl, fs, rfl, hfs⟩

namespace Framed

variable {b d body ccc rest : Text}

/-- **What `parse` makes of a framed message.** -/
theorem parse_iff (h : Framed b d body ccc rest)
    (hfits : bodyStartOf d + body.length + checksumFieldLen < 2 ^ 64) {m : Message}
    {consumed : Nat} :
    Message.parse b = .ok (m, consumed) ↔
      checksum (summed d body) = decimal ccc % 256 ∧
        (∃ fs, m = ⟨headFields d ++ fs, wholeOf d body ccc⟩ ∧ Spelled (body ++ trailer ccc) fs ∧
          2 + fs.length ≤ FixMessage.maxFields) ∧
        consumed = (wholeOf d body ccc).length := by
  have hraw : b.take (wholeOf d body ccc).length = wholeOf d body ccc := by
    rw [h.eq_whole, List.take_left]
  have hwhole : wholeOf d body ccc = header ++ d ++ soh :: (body ++ trailer ccc) := by
    rw [wholeOf, summed]
    simp
  have hlen : (wholeOf d body ccc).length = (summed d body).length + checksumFieldLen := by
    rw [wholeOf, List.length_append, h.length_trailer]
  unfold Message.parse
  rw [h.findChecksum_eq hfits]
  simp only [bind, Except.bind, h.verifyChecksum_eq, ← hlen, hraw]
  by_cases hsum : checksum (summed d body) = decimal ccc % 256
  · rw [if_neg (not_not.mpr hsum)]
    dsimp only
    have hfields : ∀ fs, parseFields ((wholeOf d body ccc).length + 1) 0 (wholeOf d body ccc) =
        .ok fs ↔ Spelled (wholeOf d body ccc) fs ∧ 0 + fs.length ≤ FixMessage.maxFields :=
      fun fs => parseFields_iff _ _ fs (Nat.lt_succ_self _) (Nat.zero_le _)
    simp only [hsum, true_and]
    constructor
    · intro hok
      cases hparsed : parseFields ((wholeOf d body ccc).length + 1) 0 (wholeOf d body ccc) with
      | error e =>
        rw [hparsed] at hok
        cases hok
      | ok fields =>
        rw [hparsed] at hok
        obtain ⟨hspelled, hle⟩ := (hfields fields).mp hparsed
        rw [hwhole, spelled_header_iff h.isLength] at hspelled
        obtain ⟨fs, rfl, hfs⟩ := hspelled
        obtain ⟨rfl, rfl⟩ := Prod.mk.inj (Except.ok.inj hok)
        refine ⟨⟨fs, rfl, hfs, ?_⟩, rfl⟩
        rw [List.length_append] at hle
        exact Nat.le_trans (Nat.le_of_eq (by rw [headFields]; simp)) hle
    · rintro ⟨⟨fs, rfl, hfs, hle⟩, rfl⟩
      have hspelled : Spelled (wholeOf d body ccc) (headFields d ++ fs) := by
        rw [hwhole, spelled_header_iff h.isLength]
        exact ⟨fs, rfl, hfs⟩
      have hparsed := (hfields (headFields d ++ fs)).mpr ⟨hspelled, by
        rw [List.length_append, headFields]
        simpa using hle⟩
      rw [hparsed]
  · rw [if_pos hsum]
    simp [hsum]

end Framed

/-! ## What is accepted -/

/-- No checksum field starts inside the header. -/
theorem not_ten_in_header {d t : Text} (hd : d.all Char.isDigit = true) {pos : Nat}
    (hpos : pos < bodyStartOf d) :
    ((header ++ d ++ soh :: t).drop pos).take 3 ≠ ['1', '0', '='] := by
  by_cases hlow : pos < 12
  · interval_cases pos <;> exact fun h => absurd (List.cons.inj h).1 (by decide)
  · obtain ⟨k, rfl⟩ := Nat.exists_eq_add_of_le (Nat.le_of_not_lt hlow)
    have hdrop : (header ++ d ++ soh :: t).drop (12 + k) = d.drop k ++ soh :: t := by
      have hk : k ≤ d.length := by
        unfold bodyStartOf at hpos
        omega
      rw [← List.drop_drop, List.append_assoc]
      exact List.drop_append_of_le_length hk
    have hdigits : ∀ c ∈ d.drop k, c.isDigit = true := fun c hc =>
      List.all_eq_true.mp hd c (List.mem_of_mem_drop hc)
    rw [hdrop]
    intro h
    -- the third character of `10=` is no digit, and the other two are no separator
    match hsuffix : d.drop k with
    | [] =>
      rw [hsuffix] at h
      exact absurd (List.cons.inj h).1 (by decide)
    | [c] =>
      rw [hsuffix] at h
      exact absurd (List.cons.inj (List.cons.inj h).2).1 (by decide)
    | [c, c'] =>
      rw [hsuffix] at h
      exact absurd (List.cons.inj (List.cons.inj (List.cons.inj h).2).2).1 (by decide)
    | c :: c' :: c'' :: cs =>
      rw [hsuffix] at h hdigits
      have heq : c'' = '=' := (List.cons.inj (List.cons.inj (List.cons.inj h).2).2).1
      have hdigit := hdigits c'' (by simp)
      rw [heq] at hdigit
      exact absurd hdigit (by decide)

/-- What a verified checksum field looks like. -/
theorem verifyChecksum_ok {b : Text} {pos : Nat} (h : verifyChecksum b pos = .ok ()) :
    ∃ ccc rest, b.drop pos = trailer ccc ++ rest ∧ ccc.length = 3 ∧ ccc.all Char.isDigit = true := by
  have hlen := length_of_verifyChecksum h
  have hdropped : (b.drop pos).length = b.length - pos := List.length_drop
  have hseven : checksumFieldLen = 7 := rfl
  have hfirst : substr b pos 3 = .ok ((b.drop pos).take 3) := if_pos (by omega)
  have hthird : substr b (pos + 3) 3 = .ok (((b.drop pos).drop 3).take 3) := by
    rw [List.drop_drop]
    exact if_pos (by omega)
  have hsixth : b[pos + 6]? = (b.drop pos)[6]? := by rw [List.getElem?_drop]
  unfold verifyChecksum at h
  rw [hfirst, hthird, hsixth] at h
  simp only [bind, Except.bind] at h
  generalize b.drop pos = u at h hdropped
  match u, hdropped with
  | u₀ :: u₁ :: u₂ :: u₃ :: u₄ :: u₅ :: u₆ :: rest, _ =>
    split at h
    · cases h
    rename_i hten
    split at h
    · cases h
    rename_i hsoh
    split at h
    · cases h
    split at h
    · cases h
    rename_i hdigits
    have hten' : [u₀, u₁, u₂] = ['1', '0', '='] := not_not.mp hten
    have hsoh' : u₆ = soh := Option.some.inj (not_not.mp hsoh)
    have hdigits' : [u₃, u₄, u₅].dropWhile Char.isDigit = [] := not_not.mp hdigits
    simp only [List.cons.injEq, and_true] at hten'
    obtain ⟨rfl, rfl, rfl⟩ := hten'
    subst hsoh'
    refine ⟨[u₃, u₄, u₅], rest, rfl, rfl, ?_⟩
    exact List.all_eq_true.mpr (List.dropWhile_eq_nil_iff.mp hdigits')
  | [], h' | [_], h' | [_, _], h' | [_, _, _], h' | [_, _, _, _], h' | [_, _, _, _, _], h'
  | [_, _, _, _, _, _], h' =>
    simp only [List.length_cons, List.length_nil] at h'
    omega

/-- **A message that is accepted is framed**, and its positions did not wrap. -/
theorem framed_of_parse {b : Text} {m : Message} {consumed : Nat} (hsize : b.length < 2 ^ 64)
    (h : Message.parse b = .ok (m, consumed)) :
    ∃ d body ccc rest, Framed b d body ccc rest ∧
      bodyStartOf d + body.length + checksumFieldLen < 2 ^ 64 := by
  have hnot : ∀ {e : Fault}, findChecksum b ≠ .error e := by
    intro e he
    rw [parse_of_findChecksum_error he] at h
    cases h
  rcases header_cases b with ⟨d, t, hd⟩ | ⟨-, hcut⟩ | ⟨e, -, hclash⟩
  · have hfind := hd.findChecksum_eq
    by_cases hshort : b.length < wrapAdd (checksumPosOf d) checksumFieldLen
    · rw [if_pos hshort] at hfind
      exact absurd hfind hnot
    rw [if_neg hshort] at hfind
    unfold Message.parse at h
    rw [hfind] at h
    obtain ⟨⟨⟩, hverify, -⟩ := bind_eq_ok (x := verifyChecksum b (checksumPosOf d)) h
    obtain ⟨ccc, rest, hdrop, hccc⟩ := verifyChecksum_ok hverify
    have hlen := length_of_verifyChecksum hverify
    obtain ⟨hlength, rfl⟩ := hd
    have hlt := hlength.lt
    have hpos : checksumPosOf d = bodyStartOf d + decimal d := by
      refine wrapAdd_eq (Nat.lt_of_not_le fun hwraps => ?_)
      have hback : checksumPosOf d < bodyStartOf d := by
        unfold checksumPosOf wrapAdd
        omega
      refine not_ten_in_header (t := t) hlength.digits hback ?_
      rw [hdrop]
      rfl
    have hseven : checksumFieldLen = 7 := rfl
    have hstart : (header ++ d ++ [soh]).length = bodyStartOf d := by
      unfold bodyStartOf
      rw [List.length_append, List.length_append]
      show 12 + d.length + 1 = 13 + d.length
      omega
    have hbuffer : header ++ d ++ soh :: t = (header ++ d ++ [soh]) ++ t := by simp
    have htail : t.drop (decimal d) = trailer ccc ++ rest := by
      rw [hpos, hbuffer, ← List.drop_drop, List.drop_left' hstart] at hdrop
      exact hdrop
    have htlen : t.length + bodyStartOf d = (header ++ d ++ soh :: t).length := by
      rw [hbuffer, List.length_append, hstart]
      omega
    refine ⟨d, t.take (decimal d), ccc, rest, ⟨hlength, ?_, hccc, ?_⟩, ?_⟩
    · rw [List.length_take]
      omega
    · rw [List.append_assoc (t.take _), ← htail, List.take_append_drop]
    · rw [List.length_take]
      omega
  · exact absurd hcut hnot
  · have hbare := hclash []
    rw [List.append_nil] at hbare
    exact absurd hbare hnot

/-- A buffer is framed in one way. -/
theorem Framed.unique {b d body ccc rest d' body' ccc' rest' : Text}
    (h : Framed b d body ccc rest) (h' : Framed b d' body' ccc' rest') :
    d = d' ∧ body = body' ∧ ccc = ccc' := by
  have hshape := h.shape.symm.trans h'.shape
  rw [List.append_assoc, List.append_assoc header] at hshape
  obtain ⟨rfl, htail⟩ := sep_inj (soh_not_mem_digits h.isLength.digits)
    (soh_not_mem_digits h'.isLength.digits) (List.append_cancel_left hshape)
  rw [List.append_assoc, List.append_assoc body'] at htail
  obtain ⟨rfl, htrailer⟩ := List.append_inj htail (h.declared.symm.trans h'.declared)
  obtain ⟨hsame, -⟩ := List.append_inj htrailer (h.length_trailer.trans h'.length_trailer.symm)
  have hccc : '1' :: '0' :: '=' :: ccc = '1' :: '0' :: '=' :: ccc' :=
    List.append_cancel_right hsame
  exact ⟨rfl, rfl, (List.cons.inj (List.cons.inj (List.cons.inj hccc).2).2).2⟩

/-- The message that the buffer begins with, as `parse` reads it: the checksum is what the bytes
add up to, modulo 256 on both sides, and the fields go on through the checksum field. -/
structure Accepted (b d body ccc rest : Text) (m : Message) (consumed : Nat) : Prop where
  framed : Framed b d body ccc rest
  sum : checksum (summed d body) = decimal ccc % 256
  fields : ∃ fs, m = ⟨headFields d ++ fs, wholeOf d body ccc⟩ ∧ Spelled (body ++ trailer ccc) fs ∧
    2 + fs.length ≤ FixMessage.maxFields
  consumed : consumed = (wholeOf d body ccc).length

/-- **What `parse` accepts**, in buffers that fit the address space. -/
theorem parse_ok_iff {b : Text} (hsize : b.length < 2 ^ 64) {m : Message} {consumed : Nat} :
    Message.parse b = .ok (m, consumed) ↔
      ∃ d body ccc rest, Accepted b d body ccc rest m consumed := by
  constructor
  · intro h
    obtain ⟨d, body, ccc, rest, hframed, hfits⟩ := framed_of_parse hsize h
    obtain ⟨hsum, hfields, hconsumed⟩ := (hframed.parse_iff hfits).mp h
    exact ⟨d, body, ccc, rest, hframed, hsum, hfields, hconsumed⟩
  · rintro ⟨d, body, ccc, rest, hframed, hsum, hfields, hconsumed⟩
    refine (hframed.parse_iff ?_).mpr ⟨hsum, hfields, hconsumed⟩
    have hlen := congrArg List.length hframed.eq_whole
    rw [List.length_append, hframed.length_whole] at hlen
    omega

/-! ## The grammar -/

/-- The last field of a message. -/
def checksumField (ccc : Text) : Field := ⟨10, ccc⟩

/-- A message of the grammar at the front of the buffer: the length is that of the body, the body is
fields, and the three digits are those of the checksum. -/
def Grammar (b : Text) (m : Message) (consumed : Nat) : Prop :=
  ∃ d body fs rest, IsLength d ∧ decimal d = body.length ∧ Spelled body fs ∧
    fs.length + 3 ≤ FixMessage.maxFields ∧
    m = ⟨headFields d ++ fs ++ [checksumField (Builder.three (checksum (summed d body)))],
      wholeOf d body (Builder.three (checksum (summed d body)))⟩ ∧
    b = m.raw ++ rest ∧ consumed = m.raw.length

/-- The checksum is stated as a byte, and the body ends with a separator or is empty. -/
def Strict (body ccc : Text) : Prop :=
  decimal ccc < 256 ∧ (body = [] ∨ body.getLast? = some soh)

theorem checksum_lt (bytes : Text) : checksum bytes < 256 := Nat.mod_lt _ (by decide)

/-- The digits of a number below a thousand. -/
theorem three_spec : ∀ n < 1000, (Builder.three n).length = 3 ∧
    (Builder.three n).all Char.isDigit = true ∧ decimal (Builder.three n) = n := by
  decide +kernel

theorem three_decimal {ccc : Text} (hlen : ccc.length = 3) (hall : ccc.all Char.isDigit = true) :
    Builder.three (decimal ccc) = ccc := by
  obtain ⟨a, b, c, rfl⟩ := List.length_eq_three.mp hlen
  have hzero : '0'.toNat = 48 := rfl
  have hdigit : ∀ x : Char, x.isDigit = true → 48 ≤ x.toNat ∧ x.toNat ≤ 57 := by
    intro x hx
    simp only [Char.isDigit, Bool.and_eq_true, decide_eq_true_eq] at hx
    exact ⟨hx.1, hx.2⟩
  have hchar : ∀ (x : Char) (n : Nat), n = x.toNat → Char.ofNat n = x := by
    rintro x n rfl
    exact Char.ofNat_toNat x
  simp only [List.all_cons, List.all_nil, Bool.and_true, Bool.and_eq_true] at hall
  obtain ⟨ha, hb, hc⟩ := hall
  have hbounds := And.intro (hdigit a ha) (And.intro (hdigit b hb) (hdigit c hc))
  have hvalue : decimal [a, b, c] =
      (a.toNat - 48) * 100 + (b.toNat - 48) * 10 + (c.toNat - 48) := by
    show ((0 * 10 + (a.toNat - 48)) * 10 + (b.toNat - 48)) * 10 + (c.toNat - 48) = _
    omega
  unfold Builder.three
  rw [hvalue, hzero, hchar a _ (by omega), hchar b _ (by omega), hchar c _ (by omega)]

theorem spelled_trailer_iff {ccc : Text} (hall : ccc.all Char.isDigit = true) {fs : List Field} :
    Spelled (trailer ccc) fs ↔ fs = [checksumField ccc] := by
  have hshape : trailer ccc = ['1', '0'] ++ '=' :: ccc ++ soh :: [] := rfl
  have hten : tagOf ['1', '0'] = some 10 := rfl
  rw [hshape, spelled_cons_iff hten (soh_not_mem_digits hall)]
  constructor
  · rintro ⟨gs, rfl, hgs⟩
    generalize hnil : ([] : Text) = text at hgs
    cases hgs with
    | nil => rfl
    | cons _ _ _ => simp at hnil
  · rintro rfl
    exact ⟨[], rfl, .nil⟩

/-- The grammar is what is accepted and strict. -/
theorem grammar_iff {b : Text} {m : Message} {consumed : Nat} :
    Grammar b m consumed ↔
      ∃ d body ccc rest, Accepted b d body ccc rest m consumed ∧ Strict body ccc := by
  constructor
  · rintro ⟨d, body, fs, rest, hd, hdeclared, hspelled, hle, rfl, hb, rfl⟩
    have hlt := checksum_lt (summed d body)
    obtain ⟨hlen, hall, hvalue⟩ := three_spec (checksum (summed d body)) (by omega)
    generalize hccc : Builder.three (checksum (summed d body)) = ccc at *
    refine ⟨d, body, ccc, rest, ⟨⟨hd, hdeclared, ⟨hlen, hall⟩, ?_⟩, ?_, ?_, rfl⟩, ?_,
      hspelled.getLast?⟩
    · rw [hb, wholeOf, summed]
      simp
    · rw [hvalue]
      omega
    · refine ⟨fs ++ [checksumField ccc], by rw [List.append_assoc], ?_, ?_⟩
      · exact hspelled.append ((spelled_trailer_iff hall).mpr rfl)
      · rw [List.length_append, List.length_singleton]
        omega
    · rw [hvalue]
      exact hlt
  · rintro ⟨d, body, ccc, rest, ⟨hframed, hsum, ⟨fs, rfl, hspelled, hle⟩, rfl⟩, hlt, hlast⟩
    obtain ⟨gs, hs, rfl, hgs, hhs⟩ := hspelled.split hlast
    rw [spelled_trailer_iff hframed.digits.2] at hhs
    subst hhs
    have hccc : Builder.three (checksum (summed d body)) = ccc := by
      rw [hsum, Nat.mod_eq_of_lt hlt, three_decimal hframed.digits.1 hframed.digits.2]
    refine ⟨d, body, gs, rest, hframed.isLength, hframed.declared, hgs, ?_, ?_, hframed.eq_whole, rfl⟩
    · rw [List.length_append, List.length_singleton] at hle
      omega
    · rw [hccc, List.append_assoc]

/-- The buffer begins with a message that only the lax checks let through. -/
def Lax (b : Text) : Prop :=
  ∃ d body ccc rest, Framed b d body ccc rest ∧ checksum (summed d body) = decimal ccc % 256 ∧
    (∃ fs, Spelled (body ++ trailer ccc) fs ∧ 2 + fs.length ≤ FixMessage.maxFields) ∧
    ¬ Strict body ccc

/-- **Exactly the grammar is accepted**, and read as it says, of every buffer that does not begin
with a lax message. -/
theorem accepts_grammar_iff {b : Text} (hsize : b.length < 2 ^ 64) :
    (∀ m consumed, Message.parse b = .ok (m, consumed) ↔ Grammar b m consumed) ↔ ¬ Lax b := by
  simp only [parse_ok_iff hsize, grammar_iff]
  constructor
  · rintro hiff ⟨d, body, ccc, rest, hframed, hsum, ⟨fs, hfields⟩, hlax⟩
    obtain ⟨d', body', ccc', rest', haccepted, hstrict⟩ :=
      (hiff _ _).mp ⟨d, body, ccc, rest, hframed, hsum, ⟨fs, rfl, hfields⟩, rfl⟩
    obtain ⟨-, rfl, rfl⟩ := hframed.unique haccepted.framed
    exact hlax hstrict
  · intro hnot m consumed
    constructor
    · rintro ⟨d, body, ccc, rest, haccepted⟩
      obtain ⟨fs, -, hfields⟩ := haccepted.fields
      refine ⟨d, body, ccc, rest, haccepted, by_contra fun hlax => hnot ?_⟩
      exact ⟨d, body, ccc, rest, haccepted.framed, haccepted.sum, ⟨fs, hfields⟩, hlax⟩
    · rintro ⟨d, body, ccc, rest, haccepted, -⟩
      exact ⟨d, body, ccc, rest, haccepted⟩

/-- A buffer of one message, with the length `d` declared and the digits `ccc` stated. -/
def oneMessage (d body ccc : Text) : Text := header ++ d ++ soh :: (body ++ trailer ccc)

theorem framed_oneMessage {d body ccc : Text} (hd : IsLength d) (hdeclared : decimal d = body.length)
    (hccc : ccc.length = 3 ∧ ccc.all Char.isDigit = true) :
    Framed (oneMessage d body ccc) d body ccc [] :=
  ⟨hd, hdeclared, hccc, by rw [List.append_nil]; rfl⟩

/-- A heartbeat: a body of one field. -/
def heartbeatBody : Text := ['3', '5', '=', '0', soh]

theorem accepts_grammar_heartbeat :
    (Message.parse (oneMessage ['5'] heartbeatBody ['1', '6', '3'])).toBool = true ∧
    ∀ m consumed, Message.parse (oneMessage ['5'] heartbeatBody ['1', '6', '3']) =
      .ok (m, consumed) ↔
        Grammar (oneMessage ['5'] heartbeatBody ['1', '6', '3']) m consumed := by
  refine ⟨by decide +kernel, (accepts_grammar_iff (by decide)).mpr ?_⟩
  rintro ⟨d, body, ccc, rest, hframed, -, -, hlax⟩
  have hone : Framed _ ['5'] heartbeatBody ['1', '6', '3'] [] := framed_oneMessage
    ⟨by decide, by decide, by decide⟩ (by decide) (by decide)
  obtain ⟨-, rfl, rfl⟩ := hframed.unique hone
  exact hlax ⟨by decide, .inr rfl⟩

/-- A body of one field that lacks its separator. The field is read on to the end of the message. -/
def unendedBody : Text := ['5', '8', '=', 'x']

theorem lax_unended :
    Message.parse (oneMessage ['4'] unendedBody ['2', '3', '8']) =
      .ok (⟨headFields ['4'] ++ [⟨58, ['x', '1', '0', '=', '2', '3', '8']⟩],
        oneMessage ['4'] unendedBody ['2', '3', '8']⟩, 25) ∧
    (∀ m consumed, ¬ Grammar (oneMessage ['4'] unendedBody ['2', '3', '8']) m consumed) := by
  refine ⟨by decide +kernel, fun m consumed hgrammar => ?_⟩
  obtain ⟨d, body, ccc, rest, haccepted, hstrict⟩ := grammar_iff.mp hgrammar
  have hone : Framed _ ['4'] unendedBody ['2', '3', '8'] [] := framed_oneMessage
    ⟨by decide, by decide, by decide⟩ (by decide) (by decide)
  obtain ⟨-, rfl, rfl⟩ := haccepted.framed.unique hone
  revert hstrict
  unfold Strict
  decide

end MarketData.Gateway.Fix
