import MarketData.Wire.OrderPath

/-!
# `Gateway/Fix.lean` — the text side of the gateway

What the order router reads from a FIX message and writes into one: `find` and `find_int` of
`cpp/gateway/include/fix/message.hpp`, and the conversions at the top of
`cpp/gateway/src/orderpath.cpp`. A value is the characters between `=` and the separator.

## Fields, not bytes

A message is its fields in wire order, and a tag that occurs twice is there twice: `find` takes the
first. How a text is cut into fields is `Gateway/Framing.lean`; whether one fits its buffer and how
it comes back from the parser are the two things the session layer asks of the text, and `fits` and
`reparse` answer them by counting characters. `Gateway/Building.lean` proves that these counts are
those of `Builder` and of the parser.

## Numbers

`fromChars` takes the digits at the front and stops at the first character that is none, and only an
overflow or no digit at all is refused; `findInt` wants all of the value. Their results are fixed
width, because the callers store them in 64 bits and cut them down to 32. `parsePrice` computes in
signed 64-bit arithmetic as the source does, without a check, and is taken modulo `2 ^ 64`: that is
what the machine's arithmetic makes of a sum the language leaves undefined.
-/

set_option autoImplicit false

namespace MarketData.Gateway

open MarketData.Wire

abbrev Text := List Char

/-- A parsed message: its fields in wire order. -/
structure FixMessage where
  fields : List (Nat × Text)
  deriving DecidableEq, Repr

namespace Tag

def beginString : Nat := 8
def bodyLength : Nat := 9
def checkSum : Nat := 10
def clOrdId : Nat := 11
def origClOrdId : Nat := 41
def orderId : Nat := 37
def execId : Nat := 17
def execType : Nat := 150
def ordStatus : Nat := 39
def ordRejReason : Nat := 103
def symbol : Nat := 55
def side : Nat := 54
def orderQty : Nat := 38
def price : Nat := 44
def leavesQty : Nat := 151
def cumQty : Nat := 14
def avgPx : Nat := 6
def lastPx : Nat := 31
def lastQty : Nat := 32
def msgType : Nat := 35
def text : Nat := 58
def senderCompId : Nat := 49
def targetCompId : Nat := 56
def msgSeqNum : Nat := 34
def sendingTime : Nat := 52
def possDupFlag : Nat := 43
def origSendingTime : Nat := 122
def heartBtInt : Nat := 108
def testReqId : Nat := 112
def resetSeqNumFlag : Nat := 141
def encryptMethod : Nat := 98
def beginSeqNo : Nat := 7
def endSeqNo : Nat := 16
def newSeqNo : Nat := 36
def gapFillFlag : Nat := 123
def refSeqNum : Nat := 45

end Tag

namespace MsgType

def heartbeat : Text := ['0']
def testRequest : Text := ['1']
def resendRequest : Text := ['2']
def reject : Text := ['3']
def sequenceReset : Text := ['4']
def logout : Text := ['5']
def logon : Text := ['A']
def executionReport : Text := ['8']

end MsgType

/-! ## Reading -/

/-- The number a run of decimal digits stands for. -/
def decimal (digits : Text) : Nat := digits.foldl (fun n c => n * 10 + (c.toNat - '0'.toNat)) 0

/-- `std::from_chars` for an unsigned 64-bit integer: the digits at the front, whatever follows
them. -/
def fromChars (v : Text) : Option UInt64 :=
  let digits := v.takeWhile Char.isDigit
  if digits = [] ∨ 2 ^ 64 ≤ decimal digits then none else some (UInt64.ofNat (decimal digits))

namespace FixMessage

/-- The first value for `t`. -/
def find (m : FixMessage) (t : Nat) : Option Text := (m.fields.find? fun f => f.1 = t).map (·.2)

/-- The first value for `t` as an integer, if all of it is one. -/
def findInt (m : FixMessage) (t : Nat) : Option Int64 :=
  match m.find t with
  | none => none
  | some ('-' :: digits) =>
    if digits ≠ [] ∧ digits.all Char.isDigit ∧ decimal digits ≤ 2 ^ 63 then
      some (Int64.ofInt (-(decimal digits : Int)))
    else none
  | some digits =>
    if digits ≠ [] ∧ digits.all Char.isDigit ∧ decimal digits < 2 ^ 63 then
      some (Int64.ofNat (decimal digits))
    else none

def msgType (m : FixMessage) : Text := (m.find Tag.msgType).getD []

/-- Whether `t` is there and says `Y`. -/
def flag (m : FixMessage) (t : Nat) : Bool := m.find t = some ['Y']

def seqNum (m : FixMessage) : Option Int64 := m.findInt Tag.msgSeqNum

end FixMessage

/-- FIX `Side`: 1 = Buy, 2 = Sell. -/
def parseSide : Text → Option Side
  | ['1'] => some .bid
  | ['2'] => some .ask
  | _ => none

/-- The decimals of a price. A fifth that is not zero cannot be represented. -/
def parseFraction : Text → (frac : Int64) → (digits : Nat) → Option Int64
  | [], frac, digits => some (frac * Int64.ofNat (10 ^ (4 - digits)))
  | c :: cs, frac, digits =>
    if digits < 4 then parseFraction cs (frac * 10 + Int64.ofNat (c.toNat - '0'.toNat)) (digits + 1)
    else if c = '0' then parseFraction cs frac digits
    else none

/-- A decimal string as a scaled integer, in 64-bit arithmetic. -/
def parsePrice (v : Text) : Option Int64 :=
  let (negative, v) := match v with
    | '-' :: v => (true, v)
    | '+' :: v => (false, v)
    | v => (false, v)
  let whole := v.takeWhile Char.isDigit
  let rest := v.dropWhile Char.isDigit
  let decimals := match rest with
    | '.' :: rest => rest.takeWhile Char.isDigit
    | _ => []
  let rest := match rest with
    | '.' :: rest => rest.dropWhile Char.isDigit
    | rest => rest
  match parseFraction decimals 0 0 with
  | none => none
  | some frac =>
    if (whole = [] ∧ decimals = []) ∨ rest ≠ [] then none
    else
      let scaled := Int64.ofNat (decimal whole) * 10000 + frac
      some (if negative then -scaled else scaled)

/-! ## Writing -/

def fixSide : Side → Char
  | .bid => '1'
  | .ask => '2'

def intText (i : Int) : Text := (toString i).toList

namespace FixMessage

/-- Bytes of the message on the wire: the fields as `tag=value` and a separator, and the 26 bytes
`Builder` puts around them (`8=`, a `9=` of six digits, `10=`). -/
def size (m : FixMessage) : Nat :=
  26 + (m.fields.map fun f => (intText f.1).length + f.2.length + 2).sum

/-- Whether `Builder` can finish the message in a buffer of `cap` bytes. -/
def fits (m : FixMessage) (cap : Nat) : Bool := m.size ≤ cap

/-- `MAX_FIELDS` -/
def maxFields : Nat := 256

/-- The message parsed back from its bytes. The parser counts the three framing fields too. -/
def reparse (m : FixMessage) : Option FixMessage :=
  if m.fields.length + 3 ≤ maxFields then some m else none

end FixMessage

/-! A number that was written is read back. -/

theorem intText_eq (i : Int) :
    intText i = if 0 ≤ i then Nat.toDigits 10 i.toNat else '-' :: Nat.toDigits 10 (-i).toNat := by
  unfold intText
  rw [Int.toString_eq_repr, Int.repr_eq_if]
  split
  · rw [Nat.toList_repr]
  · rw [String.toList_append, Nat.toList_repr]
    rfl

theorem decimal_toDigits (n : Nat) : decimal (Nat.toDigits 10 n) = n := by
  have h : decimal (Nat.toDigits 10 n) = Nat.ofDigitChars 10 (Nat.toDigits 10 n) 0 := by
    unfold decimal Nat.ofDigitChars
    congr 1
    funext k c
    rw [Nat.mul_comm]
  rw [h, Nat.ofDigitChars_toDigits (by decide) (by decide)]

theorem toDigits_all_isDigit (n : Nat) : (Nat.toDigits 10 n).all Char.isDigit = true :=
  List.all_eq_true.mpr fun _ hc => Nat.isDigit_of_mem_toDigits (by decide) (by decide) hc

theorem FixMessage.findInt_of_find {m : FixMessage} {t : Nat} {i : Int64}
    (h : m.find t = some (intText i.toInt)) : m.findInt t = some i := by
  have hlo := i.le_toInt
  have hhi := i.toInt_lt
  unfold findInt
  rw [h, intText_eq]
  by_cases hi : 0 ≤ i.toInt
  · rw [if_pos hi]
    split
    · rename_i heq
      cases heq
    · -- a digit is not a sign
      rename_i digits heq
      have hall := toDigits_all_isDigit i.toInt.toNat
      rw [Option.some.inj heq] at hall
      simp at hall
    · rename_i digits _ heq
      obtain rfl := Option.some.inj heq
      rw [if_pos ⟨Nat.toDigits_ne_nil, toDigits_all_isDigit _, by rw [decimal_toDigits]; omega⟩,
        decimal_toDigits]
      congr 1
      apply Int64.toInt_inj.mp
      rw [Int64.toInt_ofNat_of_lt (by omega)]
      omega
  · rw [if_neg hi]
    show (if Nat.toDigits 10 (-i.toInt).toNat ≠ [] ∧ _ ∧ _ then _ else _) = _
    rw [if_pos ⟨Nat.toDigits_ne_nil, toDigits_all_isDigit _, by rw [decimal_toDigits]; omega⟩,
      decimal_toDigits]
    congr 1
    apply Int64.toInt_inj.mp
    rw [Int64.toInt_ofInt_of_le (by omega) (by omega)]
    omega

/-- A 64-bit number takes no more than 20 characters. -/
theorem length_intText_le (i : Int64) : (intText i.toInt).length ≤ 20 := by
  have hlo := i.le_toInt
  have hhi := i.toInt_lt
  have hdigits : ∀ n : Nat, n ≤ 2 ^ 63 → (Nat.toDigits 10 n).length ≤ 19 := by
    intro n hn
    rw [Nat.length_toDigits_le_iff (by decide) (by decide)]
    omega
  rw [intText_eq]
  split
  · have h := hdigits i.toInt.toNat (by omega)
    omega
  · have h := hdigits (-i.toInt).toNat (by omega)
    rw [List.length_cons]
    omega

/-- The scaled integer back to a decimal string. -/
def formatPrice (p : Int64) : Text :=
  let mag := p.toInt.natAbs
  let frac := mag % 10000
  (if p < 0 then ['-'] else []) ++ intText (mag / 10000) ++ ['.'] ++
    [1000, 100, 10, 1].map fun div => Char.ofNat ('0'.toNat + frac / div % 10)

def ordStatus (t : ExecType) (leaves : UInt32) : Char :=
  match t with
  | .acknowledged => '0'
  | .partialFill => '1'
  | .fill => if leaves = 0 then '2' else '1'
  | .canceled => '4'
  | .rejected => '8'
  | .orderStatus => if leaves = 0 then '2' else '0'
  | .statusComplete => '0'

def execTypeChar : ExecType → Char
  | .acknowledged => '0'
  | .partialFill => 'F'
  | .fill => 'F'
  | .canceled => '4'
  | .rejected => '8'
  | .orderStatus => 'I'
  | .statusComplete => 'I'

/-- FIX `OrdRejReason`. -/
def ordRejReason : RejectReason → Int
  | .unknownSymbol => 1
  | .maxOrderQuantity => 13
  | .invalidQuantity => 13
  | .maxNotional => 13
  | .priceCollar => 16
  | .openOrderLimit => 3
  | .positionLimit => 3
  | .duplicateClientOrderId => 6
  | .unknownOrder => 5
  | .queueFull => 0
  | .notRejected => 0

def reasonText : RejectReason → String
  | .notRejected => ""
  | .unknownSymbol => "unknown symbol"
  | .maxOrderQuantity => "order quantity above the limit"
  | .maxNotional => "order notional above the limit"
  | .priceCollar => "price outside the collar"
  | .openOrderLimit => "too many live orders"
  | .positionLimit => "position limit"
  | .duplicateClientOrderId => "duplicate ClOrdID"
  | .unknownOrder => "unknown order"
  | .queueFull => "the risk queue was full"
  | .invalidQuantity => "invalid quantity"

end MarketData.Gateway
