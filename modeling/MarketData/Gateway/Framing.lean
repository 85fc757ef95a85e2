import MarketData.Gateway.Fix
import MarketData.Lib.Results
import MarketData.Lib.Words

/-!
# `Gateway/Framing.lean` — FIX messages on the wire

`Message::parse` and `Builder` of `cpp/gateway/src/message.cpp`. A buffer is its characters, read
by position. Positions are 64-bit and wrap; a view that would start past the end of the buffer is
an exception in a function that may not throw, and ends the process (`outOfRange`).

## Why positions and not suffixes

A parser over a list would drop what it has read and go on with the rest, and could not go wrong
where the source does: **the position of the checksum field is the sum of two numbers, one of which
the counterparty chose**. So `findChecksum` adds 64-bit numbers, compares them as the source does
and takes `substr` at the result, and `substr` has the source's third outcome besides text and end.
The parts before that sum read by position too, so that each can be held against its lines.

Each step of the parse is a function of its own, with `Fault` for what ends it: one of the errors,
`incomplete` for a buffer that may still become a message, or the exception. `parseFields` counts
the fields it has read, because the source has room for so many and no more.

`Builder` is the text written so far and whether a write has not fitted. What it writes into is as
long as it is declared; nothing else about the memory is modelled.
-/

set_option autoImplicit false

namespace MarketData.Gateway.Fix

open MarketData.Words

/-- The field separator. -/
def soh : Char := Char.ofNat 1

/-- `BEGIN_STRING_44` -/
def beginString44 : Text := ['F', 'I', 'X', '.', '4', '.', '4']

/-- Why a buffer was not a message. -/
inductive ParseError where
  | incomplete
  | badBeginString
  | badBodyLength
  | badCheckSum
  | tooManyFields
  | malformedField
  deriving DecidableEq, Repr

/-- What a parse that yields no message comes to. -/
inductive Fault where
  | error (e : ParseError)
  | outOfRange
  deriving DecidableEq, Repr

structure Field where
  tag : Int
  value : Text
  deriving DecidableEq, Repr

/-- One parsed message: its fields in wire order, and the whole of it as it appeared. -/
structure Message where
  fields : List Field
  raw : Text
  deriving DecidableEq, Repr

/-- Every byte summed, modulo 256. -/
def checksum (bytes : Text) : Nat := (bytes.map fun c => c.toNat % 256).sum % 256

/-- `buffer.substr(pos, n)` -/
def substr (b : Text) (pos n : Nat) : Except Fault Text :=
  if pos ≤ b.length then .ok ((b.drop pos).take n) else .error .outOfRange

/-! ## Parsing -/

def opening : Text := '8' :: '=' :: beginString44

/-- The BeginString, at the front of the buffer. -/
def parseBegin (b : Text) : Except Fault Unit :=
  if b.length < 10 then
    -- what is there disagrees already, or it is cut off
    if b.take (min b.length 9) ≠ opening.take (min b.length 9) then .error (.error .badBeginString)
    else .error (.error .incomplete)
  else if b.take 9 ≠ opening ∨ b[9]? ≠ some soh then .error (.error .badBeginString)
  else .ok ()

/-- `9=`, from its position on. -/
def parseNine (b : Text) : Except Fault Unit :=
  let have' := b.take 2
  if have'.length < 2 then
    if have'.isPrefixOf ['9', '='] then .error (.error .incomplete)
    else .error (.error .badBodyLength)
  else if have' ≠ ['9', '='] then .error (.error .badBodyLength)
  else .ok ()

/-- The declared length and how many bytes it takes with its separator. -/
def parseBodyLength (b : Text) : Except Fault (Nat × Nat) :=
  match fromChars b with
  | none =>
    -- no digits, or more than 64 bits of them
    if b = [] then .error (.error .incomplete) else .error (.error .badBodyLength)
  | some bodyLen =>
    match b.dropWhile Char.isDigit with
    | [] => .error (.error .incomplete)
    | c :: _ =>
      if c ≠ soh then .error (.error .badBodyLength)
      else .ok (bodyLen.toNat, (b.takeWhile Char.isDigit).length + 1)

/-- `10=xxx` and its separator. -/
def checksumFieldLen : Nat := 7

/-- Where the checksum field starts, by the declared length; all of the field has arrived. -/
def findChecksum (b : Text) : Except Fault Nat := do
  parseBegin b
  parseNine (b.drop 10)
  let (bodyLen, used) ← parseBodyLength (b.drop 12)
  let bodyStart := 12 + used
  let checksumPos := wrapAdd bodyStart bodyLen
  if b.length < wrapAdd checksumPos checksumFieldLen then .error (.error .incomplete)
  else .ok checksumPos

/-- The checksum field is one, and states what the bytes before it add up to. -/
def verifyChecksum (b : Text) (checksumPos : Nat) : Except Fault Unit := do
  if (← substr b checksumPos 3) ≠ ['1', '0', '='] then .error (.error .badBodyLength)
  else if b[checksumPos + 6]? ≠ some soh then .error (.error .badCheckSum)
  else
    let declared ← substr b (checksumPos + 3) 3
    match fromChars declared with
    | none => .error (.error .badCheckSum)
    | some stated =>
      if declared.dropWhile Char.isDigit ≠ [] then .error (.error .badCheckSum)
      else if checksum (b.take checksumPos) ≠ stated.toNat % 256 then .error (.error .badCheckSum)
      else .ok ()

/-- `std::from_chars` for an `int`, where all of the text has to be one. -/
def tagOf (t : Text) : Option Int :=
  match t with
  | '-' :: digits =>
    if digits ≠ [] ∧ digits.all Char.isDigit ∧ decimal digits ≤ 2 ^ 31 then
      some (-(decimal digits : Int))
    else none
  | digits =>
    if digits ≠ [] ∧ digits.all Char.isDigit ∧ decimal digits < 2 ^ 31 then
      some (decimal digits : Int)
    else none

/-- One field, without its separator. -/
def parseField (field : Text) : Except Fault Field :=
  match field.dropWhile (· ≠ '=') with
  | [] => .error (.error .malformedField)
  | _ :: value =>
    match tagOf (field.takeWhile (· ≠ '=')) with
    | none => .error (.error .malformedField)
    | some tag => .ok ⟨tag, value⟩

/-- The fields of what is left of the message, `count` of them read already. -/
def parseFields : (fuel count : Nat) → Text → Except Fault (List Field)
  | 0, _, _ => .ok []
  | fuel + 1, count, raw =>
    if raw = [] then .ok []
    else
      match raw.dropWhile (· ≠ soh) with
      | [] => .error (.error .malformedField)
      | _ :: rest => do
        let field ← parseField (raw.takeWhile (· ≠ soh))
        if count = FixMessage.maxFields then .error (.error .tooManyFields)
        else
          let fields ← parseFields fuel (count + 1) rest
          .ok (field :: fields)

/-- `Message::parse`: a message from the front of the buffer, and how much of it was consumed. -/
def Message.parse (b : Text) : Except Fault (Message × Nat) := do
  let checksumPos ← findChecksum b
  verifyChecksum b checksumPos
  let consumed := checksumPos + checksumFieldLen
  let raw := b.take consumed
  -- every field takes a byte at least
  let fields ← parseFields (consumed + 1) 0 raw
  .ok (⟨fields, raw⟩, consumed)

/-! ## Building -/

/-- `Builder`: the bytes written so far into a buffer of `cap`. -/
structure Builder where
  cap : Nat
  buf : Text := []
  bodyLengthPos : Nat := 0
  bodyStart : Nat := 0
  overflow : Bool := false
  begun : Bool := false

namespace Builder

def put (b : Builder) (s : Text) : Builder :=
  if b.overflow ∨ b.cap < b.buf.length + s.length then { b with overflow := true }
  else { b with buf := b.buf ++ s }

/-- `begin`: `8=` and `9=`, with the length left blank. -/
def start (b : Builder) (beginString : Text) : Builder :=
  let b := { b with buf := [], overflow := false }
  let b := (((b.put ['8', '=']).put beginString).put [soh]).put ['9', '=']
  let b := { b with bodyLengthPos := b.buf.length }
  let b := (b.put ['0', '0', '0', '0', '0', '0']).put [soh]
  let b := { b with bodyStart := b.buf.length }
  { b with begun := !b.overflow }

def add (b : Builder) (tag : Int) (value : Text) : Builder :=
  (((b.put (intText tag)).put ['=']).put value).put [soh]

/-- `write_six`: six digits, zero-padded. -/
def six (value : Nat) : Text :=
  [100000, 10000, 1000, 100, 10, 1].map fun div => Char.ofNat ('0'.toNat + value / div % 10)

def three (ck : Nat) : Text :=
  [Char.ofNat ('0'.toNat + ck / 100), Char.ofNat ('0'.toNat + ck / 10 % 10),
    Char.ofNat ('0'.toNat + ck % 10)]

/-- `finish`: fills the length in and appends the checksum. -/
def finish (b : Builder) : Text :=
  if b.begun = false ∨ b.overflow then []
  else
    let filled := b.buf.take b.bodyLengthPos ++ six (b.buf.length - b.bodyStart) ++
      b.buf.drop (b.bodyLengthPos + 6)
    let b := { b with buf := filled }
    let ck := checksum b.buf
    let b := ((b.put ['1', '0', '=']).put (three ck)).put [soh]
    if b.overflow then [] else b.buf

/-- A message built from its fields. -/
def message (cap : Nat) (fields : List Field) : Text :=
  (fields.foldl (fun b f => b.add f.tag f.value) (start { cap } beginString44)).finish

end Builder

end MarketData.Gateway.Fix
