import StableSwap.Text

/-!
# Durations

A length of time in whole seconds and nanoseconds. Rates are kept for whole seconds only, but a
duration shorter than a second is not zero.

A duration is written as a sequence of numbers with units, such as `1h 30m`, `90 min` or `1.5h`; `0`
may stand alone. Blanks may stand anywhere but inside a unit. A unit is told from the next number by
the digit, so `1h30m` needs none.

A number has digits in front of its point, and behind it if it has one. A fraction is exact: of a
minute or a shorter unit it has to be whole nanoseconds, of an hour or a longer unit whole seconds.
A nanosecond has no fractions. Numbers, what they are counted in, and the sum fit 64 bits.

* `number?` reads one number and what follows it.
* `plus?` adds a number of a unit to a duration.
* `ofText` reads a duration.
-/

namespace StableSwap

/-- A length of time. -/
structure Duration where
  /-- The whole seconds. -/
  seconds : Nat
  /-- The nanoseconds beyond them. -/
  nanos : Nat
  deriving DecidableEq

namespace Duration

/-- No time at all. -/
def zero : Duration := ⟨0, 0⟩

/-- The nanoseconds in a second. -/
def nanosPerSecond : Nat := 1000000000

/-- A number of nanoseconds on top of a number of seconds. -/
def ofNanos (seconds nanos : Nat) : Duration :=
  ⟨seconds + nanos / nanosPerSecond, nanos % nanosPerSecond⟩

/-- A number of milliseconds. -/
def ofMillis (millis : Nat) : Duration := ofNanos 0 (millis * 1000000)

/-- A number that fits 64 bits. -/
def word64? (n : Nat) : Option Nat := if n < Nat.pow 2 64 then some n else none

/-! ### Units -/

/-- Whether a character can stand in a unit. -/
def isUnitChar (c : Char) : Bool := c.isAlpha || c = 'µ'

/-- The seconds and nanoseconds in one of a unit. -/
def unit? (name : String) : Option (Nat × Nat) :=
  match name with
  | "nanos" | "nsec" | "ns" => some (0, 1)
  | "usec" | "us" | "µs" => some (0, 1000)
  | "millis" | "msec" | "ms" => some (0, 1000000)
  | "seconds" | "second" | "secs" | "sec" | "s" => some (1, 0)
  | "minutes" | "minute" | "mins" | "min" | "m" => some (60, 0)
  | "hours" | "hour" | "hrs" | "hr" | "h" => some (3600, 0)
  | "days" | "day" | "d" => some (86400, 0)
  | "weeks" | "week" | "wks" | "wk" | "w" => some (604800, 0)
  | "months" | "month" | "M" => some (2630016, 0)
  | "years" | "year" | "yrs" | "yr" | "y" => some (31557600, 0)
  | _ => none

/-- A unit as its fractions are counted: in seconds from an hour up, else in nanoseconds. -/
def fractionUnit? : Nat × Nat → Option (Nat × Nat)
  | (0, 1) => none
  | (seconds, nanos) =>
    if 3600 ≤ seconds then some (seconds, 0) else some (0, seconds * nanosPerSecond + nanos)

/-! ### Numbers -/

/-- A number with a point or without. -/
structure Number where
  /-- What stands in front of the point. -/
  whole : Nat
  /-- What stands behind it, over a power of ten. -/
  fraction : Option (Nat × Nat)

/-- The number written by the digits among some characters. -/
def digits? (text : List Char) : Option Nat :=
  (text.filter Char.isDigit).foldlM (fun n c => word64? (10 * n + Text.digitValue c)) 0

/-- The fraction written by the digits among some characters, of which there has to be one. -/
def fraction? (text : List Char) : Option (Nat × Nat) := do
  let places := text.countP Char.isDigit
  guard (0 < places)
  let numerator ← digits? text
  let denominator ← word64? (Nat.pow 10 places)
  return (numerator, denominator)

/-- Whether a character can stand among the digits of a number. -/
def isNumberChar (c : Char) : Bool := c.isDigit || Text.isBlank c

/-- Reads a number. -/
def number? (text : List Char) : Option (Number × List Char) := do
  guard ((text.head?.map Char.isDigit).getD false)
  let whole ← digits? (text.takeWhile isNumberChar)
  match text.dropWhile isNumberChar with
  | '.' :: rest => do
    let fraction ← fraction? (rest.takeWhile isNumberChar)
    return (⟨whole, some fraction⟩, rest.dropWhile isNumberChar)
  | rest => return (⟨whole, none⟩, rest)

/-! ### Sums -/

/-- A duration and a number of seconds and nanoseconds. -/
def plusParts? (sum : Duration) (seconds nanos : Nat) : Option Duration := do
  let nanos ← word64? (sum.nanos + nanos)
  let seconds ← word64? (sum.seconds + seconds + nanos / nanosPerSecond)
  return ⟨seconds, nanos % nanosPerSecond⟩

/-- A fraction of a count, if it is whole. -/
def portion? (fraction : Nat × Nat) (count : Nat) : Option Nat := do
  let product ← word64? (fraction.1 * count)
  guard (product % fraction.2 = 0)
  return product / fraction.2

/-- A duration and a number of a unit. -/
def plus? (sum : Duration) (n : Number) (unit : Nat × Nat) : Option Duration := do
  let seconds ← word64? (n.whole * unit.1)
  let nanos ← word64? (n.whole * unit.2)
  let sum ← plusParts? sum seconds nanos
  match n.fraction with
  | none => return sum
  | some fraction => do
    let unit ← fractionUnit? unit
    let seconds ← portion? fraction unit.1
    let nanos ← portion? fraction unit.2
    plusParts? sum seconds nanos

/-! ### Durations -/

/-- Reads numbers with units, of which there may be at most `items`, and adds them to a duration. -/
def sum? : Nat → Duration → List Char → Option Duration
  | 0, _, _ => none
  | items + 1, sum, text => do
    let text := text.dropWhile Text.isBlank
    if text.isEmpty then
      return sum
    else do
      let (n, rest) ← number? text
      let unit ← unit? (String.ofList (rest.takeWhile isUnitChar))
      let sum ← plus? sum n unit
      sum? items sum (rest.dropWhile isUnitChar)

/-- Reads a duration from its characters. -/
def ofChars (text : List Char) : Option Duration :=
  if text = ['0'] then some .zero
  else if text.all Text.isBlank then none
  else sum? (text.length + 1) .zero text

/-- Reads a duration. -/
def ofText (text : String) : Option Duration := ofChars text.toList

end Duration

end StableSwap
