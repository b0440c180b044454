import ExpenseEngine.Accounts
import ExpenseEngine.Num.Number
import ExpenseEngine.Time.Calendar

/-!
# The rate jobs

The daily fetch and the backfill store the provider's rates, one row for each
currency and day. A rate that is not positive, or that moves too far from the
last one before it, is refused. The first rate of a day stands.
-/

namespace ExpenseEngine

open Num Sql

/-! ## Provider values -/

/-- A value of the payload, as `json.loads(…, parse_float=Decimal)` parses it. -/
inductive JsonValue where
  | null
  | boolean (value : Bool)
  | integer (value : Int)
  | decimal (value : Rat)
  | notANumber
  | infinite (negative : Bool)
  | string (value : Text)
  | list (values : List JsonValue)
  | object (entries : List (Text × JsonValue))

/-- Why a rate is not stored. -/
inductive Refusal where
  | malformed
  | nonPositive (target : Text) (rateDate : Date) (rate : Number)
  | implausibleMove (target : Text) (rateDate : Date) (rate move baselineRate : Number)
      (baselineDate : Date)
  | unstorable
  deriving DecidableEq

/-- The exceptions of a call. Only a `ValueError` is caught. -/
inductive Raised where
  | valueError (reason : Refusal)
  | typeError
  | overflowError
  | arithmetic (signal : Signal)
  | database
  deriving DecidableEq

/-- What the jobs have from elsewhere: the value of a Unicode decimal digit, and
what the driver and the other constraints of the table say to a row. -/
class RateStore where
  toDecimal : Char → Option (Fin 10)
  reject : Text → Date → Number → Option Raised

/-- The context of a `decimal` operation raises what it signals. -/
def trap {α : Type} (result : Except Signal α) : Except Raised α := result.mapError .arithmetic

/-! ## `Decimal(value)` -/

section Conversion

/-- An `int`, which a `bool` is too. -/
def JsonValue.asInt : JsonValue → Option Int
  | .boolean b => some (if b then 1 else 0)
  | .integer n => some n
  | _ => none

/-- `PyLong_AsLong` of what must be an `int`. -/
def toLong (value : JsonValue) : Except Raised Int :=
  match value.asInt with
  | none => .error (.valueError .malformed)
  | some n => if inInt8 n then .ok n else .error .overflowError

/-- The first item of a sequence. -/
def signOf (value : JsonValue) : Except Raised Bool := do
  let n ← toLong value
  if n = 0 then return false
  else if n = 1 then return true
  else throw (.valueError .malformed)

def digitOf (value : JsonValue) : Except Raised Nat := do
  let n ← toLong value
  if 0 ≤ n ∧ n ≤ 9 then return n.toNat else throw (.valueError .malformed)

/-- The second item. -/
def digitsOf : JsonValue → Except Raised (List Nat)
  | .list values => values.mapM digitOf
  | _ => .error (.valueError .malformed)

/-- The third item: an exponent, or what stands for a special value. -/
def exponentOf (value : JsonValue) : Except Raised (Int ⊕ (Bool → Number)) :=
  match value with
  | .string s =>
    if s = "F".toList then .ok (.inr .infinity)
    else if s = "n".toList then .ok (.inr fun _ => .nan false)
    else if s = "N".toList then .ok (.inr fun _ => .nan true)
    else .error (.valueError .malformed)
  | value => (toLong value).map .inl

/-- A sequence is a sign, the digits and an exponent. -/
def decimalFromSequence : List JsonValue → Except Raised Number
  | [sign, digits, exponent] => do
    let negative ← signOf sign
    let kind ← exponentOf exponent
    let coefficient ← digitsOf digits
    match kind with
    | .inl e => trap (exact negative (coefficient.foldl (fun n d => 10 * n + d) 0) e)
    | .inr special => return special negative
  | _ => .error (.valueError .malformed)

variable [RateStore]

/-- One character of a text without underscores, as ASCII. -/
def toAscii (c : Char) : Option Char :=
  if c.toNat ≤ 127 then some c
  else if isSpace c then some ' '
  else (RateStore.toDecimal c).map fun d => Char.ofNat (48 + d)

/-- White space around the text and underscores inside it do not count. -/
def decimalFromString (s : Text) : Except Signal Number :=
  match ((strip s).filter fun c => c ≠ '_').mapM toAscii with
  | none => .error .invalidOperation
  | some text => ofAscii text

def decimalOf : JsonValue → Except Raised Number
  | .null => .error .typeError
  | .boolean b => .ok (.finite (if b then 1 else 0))
  | .integer n => .ok (.finite n)
  | .decimal q => .ok (.finite q)
  | .notANumber => .ok (.nan false)
  | .infinite negative => .ok (.infinity negative)
  | .string s => trap (decimalFromString s)
  | .list values => decimalFromSequence values
  | .object _ => .error .typeError

end Conversion

/-! ## The table -/

/-- A row of `exchange_rates`, whose base currency is `USD`. -/
structure StoredRate where
  target : Text
  rateDate : Date
  rate : Number
  deriving DecidableEq

abbrev RateTable := List StoredRate

def maxRateMoveFraction : Rat := 1 / 10

def maxBaselineGapDays : Int := 7

def dateMin : Date := Time.dayNumber 1 1 1

/-- `WHERE target_currency = $1 AND rate_date < $2 AND rate_date >= $3` -/
def inBaselineWindow (target : Text) (rateDate : Date) (row : StoredRate) : Bool :=
  decide (row.target = target ∧ row.rateDate < rateDate ∧
    rateDate - maxBaselineGapDays ≤ row.rateDate)

/-- A `date` has no week before the first one. -/
def baselineRate (table : RateTable) (target : Text) (rateDate : Date) :
    Except Raised (Option StoredRate) :=
  if rateDate - maxBaselineGapDays < dateMin then .error .overflowError
  else .ok (latestBy StoredRate.rateDate (table.filter (inBaselineWindow target rateDate)))

/-- `abs(rate - baseline_rate) / baseline_rate` -/
def moveOf (rate baselineRate : Number) : Except Signal Number := do
  let difference ← defaultContext.sub rate baselineRate
  defaultContext.div difference.abs baselineRate

/-- The row of the target and the day is there. -/
def taken (table : RateTable) (target : Text) (rateDate : Date) : Bool :=
  table.any fun row => decide (row.target = target ∧ row.rateDate = rateDate)

/-- The check against the baseline. -/
def checkMove (target : Text) (rateDate : Date) (rate : Number) (baseline : StoredRate) :
    Except Raised Unit := do
  let move ← trap (moveOf rate baseline.rate)
  if !(← trap (move.le (.finite maxRateMoveFraction))) then
    throw (.valueError (.implausibleMove target rateDate rate move baseline.rate baseline.rateDate))

/-- The checks before the INSERT. -/
def checkRate (table : RateTable) (target : Text) (rateDate : Date) (rate : Number) :
    Except Raised Unit := do
  if ← trap (rate.le (.finite 0)) then throw (.valueError (.nonPositive target rateDate rate))
  match ← baselineRate table target rateDate with
  | none => return ()
  | some baseline => checkMove target rateDate rate baseline

variable [RateStore]

/-- True with the table that has the row, if one was written. -/
def upsertRate (table : RateTable) (target : Text) (rateDate : Date) (rate : Number) :
    Except Raised (Bool × RateTable) := do
  checkRate table target rateDate rate
  match RateStore.reject target rateDate rate with
  | some raised => throw raised
  | none =>
    if taken table target rateDate then return (false, table)
    else return (true, ⟨target, rateDate, rate⟩ :: table)

/-! ## The rates of a date -/

structure Tally where
  inserted : List Text
  skipped : List Text
  missing : List Text
  failed : List (Text × Refusal)
  deriving DecidableEq

def Tally.empty : Tally := ⟨[], [], [], []⟩

/-- The loop over the targets; what is written before an exception stays. -/
def applyRatesFrom (rates : Text → Option JsonValue) (rateDate : Date) :
    List Text → Tally → RateTable → Except Raised Tally × RateTable
  | [], tally, table => (.ok tally, table)
  | target :: targets, tally, table =>
    match rates target with
    | none =>
      applyRatesFrom rates rateDate targets { tally with missing := tally.missing ++ [target] }
        table
    | some value =>
      match decimalOf value >>= upsertRate table target rateDate with
      | .ok (true, table') =>
        applyRatesFrom rates rateDate targets
          { tally with inserted := tally.inserted ++ [target] } table'
      | .ok (false, table') =>
        applyRatesFrom rates rateDate targets
          { tally with skipped := tally.skipped ++ [target] } table'
      | .error (.valueError reason) =>
        applyRatesFrom rates rateDate targets
          { tally with failed := tally.failed ++ [(target, reason)] } table
      | .error raised => (.error raised, table)

def applyRates (table : RateTable) (targets : List Text) (rates : Text → Option JsonValue)
    (rateDate : Date) : Except Raised Tally × RateTable :=
  applyRatesFrom rates rateDate targets .empty table

namespace Ascii

/-- ASCII digits only, and every row is stored. -/
scoped instance rateStore : RateStore where
  toDecimal _ := none
  reject _ _ _ := none

end Ascii

end ExpenseEngine
