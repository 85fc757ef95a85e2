import MarketData.Gateway.Header
import MarketData.Lib.Stream

/-!
# `Gateway/Transport.lean` — messages off a connection

`Connection` of `cpp/gateway/src/transport.cpp`: what arrives is appended to the inbox, and
messages are parsed off its front until the rest is cut off, or is no message at all. What
`Message::parse` answers for a buffer it answers for every longer one, unless it asked for more;
so how TCP cut the stream does not show.

## Cutting as a fold

A connection is the list of chunks that arrived, and `receive` drains after each. That all cuttings
of one stream deliver the same messages, and end in the same error or with the same rest, comes down
to two chunks against their concatenation, by induction over the list; and that comes down to
`parse_append`, which in turn is the fact about headers (`Gateway/Header.lean`) carried through the
checksum and the fields.

The loop needs no fuel argument from the source: a message consumes at least one character of the
inbox, and the length of the inbox bounds the turns. Reads that fail or would block bring no bytes
and are no chunks here; writes are not modelled.
-/

set_option autoImplicit false

namespace MarketData.Gateway.Fix

open MarketData.Words MarketData.Stream

namespace Connection

/-- What `drain` makes of an answer: wait for the rest, give the session up, or deliver. -/
def verdict (inbox : Text) : Verdict Fault Message :=
  match Message.parse inbox with
  | .error (.error .incomplete) => .more
  | .error e => .bad e
  | .ok (m, consumed) => .good m consumed

/-- `drain`: the messages delivered, and the inbox they leave or the error that ends it. -/
def drain (inbox : Text) : List Message × Ending Char Fault :=
  Stream.drain verdict inbox.length inbox

/-- The chunks that arrive one after another on a new connection, each drained as it comes. -/
def receive (chunks : List Text) : List Message × Ending Char Fault :=
  Stream.receive verdict [] chunks

end Connection

/-! ## An answer stands -/

theorem substr_append {b : Text} {pos n : Nat} (h : pos + n ≤ b.length) (x : Text) :
    substr (b ++ x) pos n = substr b pos n := by
  unfold substr
  rw [if_pos (by rw [List.length_append]; omega), if_pos (by omega),
    List.drop_append_of_le_length (by omega),
    List.take_append_of_le_length (by rw [List.length_drop]; omega)]

theorem verifyChecksum_append {b : Text} {pos : Nat} (h : pos + checksumFieldLen ≤ b.length)
    (x : Text) : verifyChecksum (b ++ x) pos = verifyChecksum b pos := by
  unfold checksumFieldLen at h
  unfold verifyChecksum
  rw [substr_append (by omega), substr_append (by omega), List.getElem?_append_left (by omega),
    List.take_append_of_le_length (by omega)]

theorem verifyChecksum_outOfRange {b : Text} {pos : Nat} (h : b.length < pos) :
    verifyChecksum b pos = .error .outOfRange := by
  unfold verifyChecksum substr
  rw [if_neg (by omega)]
  rfl

/-- A checksum that was verified lies in the buffer. -/
theorem length_of_verifyChecksum {b : Text} {pos : Nat} (h : verifyChecksum b pos = .ok ()) :
    pos + checksumFieldLen ≤ b.length := by
  unfold verifyChecksum at h
  obtain ⟨three, -, h⟩ := bind_eq_ok h
  split at h
  · cases h
  split at h
  · cases h
  rename_i hsoh
  have hat : b[pos + 6]? = some soh := not_not.mp hsoh
  obtain ⟨hlt, -⟩ := List.getElem?_eq_some_iff.mp hat
  unfold checksumFieldLen
  omega

theorem parse_of_findChecksum_error {b : Text} {e : Fault} (h : findChecksum b = .error e) :
    Message.parse b = .error e := by
  unfold Message.parse
  rw [h]
  rfl

/-- **An answer stands**, whatever arrives after it. -/
theorem parse_append {b x : Text} (hsize : (b ++ x).length + checksumFieldLen < 2 ^ 64)
    (h : Message.parse b ≠ .error (.error .incomplete)) :
    Message.parse (b ++ x) = Message.parse b := by
  rw [List.length_append] at hsize
  rcases header_cases b with ⟨d, t, hd⟩ | ⟨-, hcut⟩ | ⟨e, -, hclash⟩
  · have hfind := hd.findChecksum_eq
    have hfind' := (hd.append x).findChecksum_eq
    have hpos : checksumPosOf d < 2 ^ 64 := Nat.mod_lt _ (by decide)
    by_cases hshort : b.length < wrapAdd (checksumPosOf d) checksumFieldLen
    · rw [if_pos hshort] at hfind
      exact absurd (parse_of_findChecksum_error hfind) h
    rw [if_neg hshort] at hfind
    rw [if_neg (by rw [List.length_append]; omega)] at hfind'
    unfold Message.parse
    rw [hfind, hfind']
    show Except.bind (verifyChecksum (b ++ x) _) _ = Except.bind (verifyChecksum b _) _
    have hseven : checksumFieldLen = 7 := rfl
    by_cases hwrap : checksumPosOf d + checksumFieldLen < 2 ^ 64
    · rw [wrapAdd_eq hwrap] at hshort
      dsimp only
      rw [verifyChecksum_append (by omega), List.take_append_of_le_length (by omega)]
    · -- a position this far out is past both buffers
      have hgrown : (b ++ x).length < checksumPosOf d := by
        rw [List.length_append]
        omega
      rw [verifyChecksum_outOfRange hgrown, verifyChecksum_outOfRange (b := b) (by omega)]
      rfl
  · exact absurd (parse_of_findChecksum_error hcut) h
  · have hbare := hclash []
    rw [List.append_nil] at hbare
    rw [parse_of_findChecksum_error hbare, parse_of_findChecksum_error (hclash x)]

/-- A message takes a byte at least, and none that has not arrived. -/
theorem consumed_le {b : Text} {m : Message} {consumed : Nat}
    (h : Message.parse b = .ok (m, consumed)) : 0 < consumed ∧ consumed ≤ b.length := by
  unfold Message.parse at h
  obtain ⟨pos, -, h⟩ := bind_eq_ok h
  obtain ⟨⟨⟩, hverify, h⟩ := bind_eq_ok h
  obtain ⟨fields, -, h⟩ := bind_eq_ok h
  have hlen := length_of_verifyChecksum hverify
  have hconsumed := (Prod.mk.inj (Except.ok.inj h)).2
  rw [← hconsumed]
  exact ⟨Nat.add_pos_right _ (by decide), hlen⟩

/-- The verdicts on one connection stand while the stream fits the address space. -/
theorem stable_verdict : Stable Connection.verdict (2 ^ 64 - checksumFieldLen) where
  nil := rfl
  takes {b m n} h := by
    unfold Connection.verdict at h
    split at h
    · cases h
    · cases h
    · rename_i hp
      cases h
      exact consumed_le hp
  good {b x m n} hlt h := by
    unfold Connection.verdict at h ⊢
    rw [parse_append (by omega) fun hp => by rw [hp] at h; cases h]
    exact h
  bad {b x e} hlt h := by
    unfold Connection.verdict at h ⊢
    rw [parse_append (by omega) fun hp => by rw [hp] at h; cases h]
    exact h

/-- **Delivery does not depend on how the stream was cut.** -/
theorem chunking_invisible {chunks chunks' : List Text} (hsame : chunks.flatten = chunks'.flatten)
    (hsize : chunks.flatten.length + checksumFieldLen < 2 ^ 64) :
    Connection.receive chunks = Connection.receive chunks' ∧
      Connection.receive chunks = Connection.drain chunks.flatten := by
  have hreceive : ∀ cs : List Text, cs.flatten.length + checksumFieldLen < 2 ^ 64 →
      Connection.receive cs = Connection.drain cs.flatten := fun cs hcs =>
    stable_verdict.receive_eq rfl (by rw [List.nil_append]; omega)
  rw [hreceive chunks hsize, hreceive chunks' (by rw [← hsame]; exact hsize), hsame]
  exact ⟨rfl, rfl⟩

/-- A heartbeat, cut inside its header and cut inside its body. -/
theorem chunking_invisible_heartbeat :
    Connection.receive [opening, [soh, '9', '=', '5', soh, '3', '5', '=', '0', soh, '1', '0', '=',
        '1', '6', '3', soh]] =
      Connection.receive [opening ++ [soh, '9', '=', '5', soh, '3', '5'], [], ['=', '0', soh, '1',
        '0', '=', '1', '6', '3', soh]] ∧
    Connection.receive [opening, [soh, '9', '=', '5', soh, '3', '5', '=', '0', soh, '1', '0', '=',
        '1', '6', '3', soh]] =
      Connection.drain (opening ++ [soh, '9', '=', '5', soh, '3', '5', '=', '0', soh, '1', '0', '=',
        '1', '6', '3', soh]) :=
  chunking_invisible rfl (by decide)

end MarketData.Gateway.Fix
