import StableSwap.Amount
import StableSwap.Text

/-!
# Written amounts

Amounts are read as decimal digits and written as decimal digits or as hexadecimal digits behind
`0x`.

* `Amount.ofDigits` reads digits from the left and stops at the first one that is no digit or that
  takes the value read so far out of range, so of two faults the one further left is named. No
  digits at all are the amount zero, and leading zeros are allowed.
* `Amount.toDecimal` and `Amount.toHex` write no leading zeros.
-/

namespace StableSwap

/-- Why a text is not the decimal form of an amount. -/
inductive DecimalError where
  /-- A character is no digit. -/
  | notADigit
  /-- The digits read so far are no amount. -/
  | tooLarge
  deriving DecidableEq

/-- The wording of a cause. -/
def DecimalError.message : DecimalError → String
  | .notADigit => "a character is not in the range 0-9"
  | .tooLarge => "the number is too large for the type"

/-- The name of a cause, as it is given behind a refused amount. -/
def DecimalError.name : DecimalError → String
  | .notADigit => "InvalidCharacter"
  | .tooLarge => "InvalidLength"

namespace Amount

/-- The amount whose digits are those of `a` followed by `c`. -/
def appendDigit (a : Amount) (c : Char) : Except DecimalError Amount :=
  if c.isDigit then
    match ofNat? (10 * a.val + Text.digitValue c) with
    | some b => .ok b
    | none => .error .tooLarge
  else
    .error .notADigit

/-- Reads decimal digits from the left. -/
def ofDigits (digits : List Char) : Except DecimalError Amount :=
  digits.foldlM appendDigit 0

/-- Reads the decimal form of an amount. -/
def ofDecimal (text : String) : Except DecimalError Amount := ofDigits text.toList

/-- The decimal form of an amount. -/
def toDecimal (a : Amount) : String := String.ofList (Nat.toDigits 10 a.val)

/-- The hexadecimal form of an amount, in lower case behind `0x`. -/
def toHex (a : Amount) : String := String.ofList ('0' :: 'x' :: Nat.toDigits 16 a.val)

end Amount

end StableSwap
