import StableSwap.Amount.Text
import StableSwap.Fixed

/-!
# Written fixed point numbers

A number is written as its whole part, a point and exactly eighteen decimals (`Fixed.toText`). It
is read with at most eighteen decimals; the point may be missing, but where it stands there are
digits on both sides (`Fixed.ofText`).
-/

namespace StableSwap

/-- Why a text is not a fixed point number. -/
inductive FixedTextError where
  /-- There is nothing before or nothing after the point. -/
  | emptyPart
  /-- The decimals take this many bytes, which is more than eighteen. -/
  | tooPrecise (bytes : Nat)
  /-- One of the two parts is no decimal amount. -/
  | part (cause : DecimalError)
  /-- Each part is an amount, but the number is out of range. -/
  | tooLarge
  deriving DecidableEq

/-- The wording of a cause. -/
def FixedTextError.message : FixedTextError → String
  | .emptyPart => "Invalid decimal representation"
  | .tooPrecise bytes => s!"Decimal precision {bytes} exceeds the supported 18 decimals"
  | .part cause => cause.message
  | .tooLarge => "Number too large for 18 decimal fixed point"

namespace Fixed

/-- The parts before and after the first point; without a point the decimals are `0`. -/
def splitAtPoint (text : List Char) : List Char × List Char :=
  match text.dropWhile (· != '.') with
  | [] => (text, ['0'])
  | _ :: decimals => (text.takeWhile (· != '.'), decimals)

/-- The length of a text in bytes. -/
def byteLength : List Char → Nat
  | [] => 0
  | c :: rest => c.utf8Size + byteLength rest

/-- The decimals filled up with zeros to eighteen places. -/
def padded (text : List Char) : List Char := text ++ List.replicate (decimals - text.length) '0'

/-- The number with the given whole part and units of 10⁻¹⁸. -/
def ofParts (whole units : Amount) : Except FixedTextError Fixed :=
  match Amount.ofNat? (unit.val * whole.val + units.val) with
  | some wei => .ok ⟨wei⟩
  | none => .error .tooLarge

/-- Reads a number from its characters. -/
def ofChars (text : List Char) : Except FixedTextError Fixed :=
  let parts := splitAtPoint text
  if parts.1 = [] ∨ parts.2 = [] then
    .error .emptyPart
  else if decimals < byteLength parts.2 then
    .error (.tooPrecise (byteLength parts.2))
  else do
    let whole ← (Amount.ofDigits parts.1).mapError .part
    let units ← (Amount.ofDigits (padded parts.2)).mapError .part
    ofParts whole units

/-- Reads a number. -/
def ofText (text : String) : Except FixedTextError Fixed := ofChars text.toList

/-- The units after the point as exactly eighteen digits. -/
def decimalDigits (units : Nat) : List Char :=
  let digits := Nat.toDigits 10 units
  List.replicate (decimals - digits.length) '0' ++ digits

/-- The characters of a written number. -/
def toChars (a : Fixed) : List Char :=
  Nat.toDigits 10 (a.wei.val / unit.val) ++ '.' :: decimalDigits (a.wei.val % unit.val)

/-- Writes a number. -/
def toText (a : Fixed) : String := String.ofList a.toChars

end Fixed

end StableSwap
