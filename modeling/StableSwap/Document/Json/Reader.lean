import StableSwap.Document
import StableSwap.Text

/-!
# Documents in JSON

Members of an object are a set of names with values, so they are put in ascending order of their
names; of members with one name the last stands. A number is whole only if it is written without
point and exponent and fits 64 bits, and minus zero is not whole.
-/

namespace StableSwap.Document.Json

open Text Text.Reader

/-- Puts a member into its place in an ascending list; it replaces one of the same name. -/
def insertMember (name : String) (value : Value) : List (String × Value) → List (String × Value)
  | [] => [(name, value)]
  | (other, v) :: rest =>
    if name < other then (name, value) :: (other, v) :: rest
    else if name = other then (name, value) :: rest
    else (other, v) :: insertMember name value rest

/-- Skips blanks and line ends. -/
def skipBlanks : Reader Unit :=
  skipWhile fun c => c = ' ' || c = '\t' || c = '\n' || c = '\r'

/-! ### Numbers -/

/-- The number written by a sign, digits, and whatever follows them. -/
def numberOf (negative : Bool) (digits rest : List Char) : Value :=
  let written := Value.number (String.ofList ((if negative then ['-'] else []) ++ digits ++ rest))
  match ofDigits? 10 digits with
  | none => written
  | some n =>
    if ¬ rest.isEmpty then written
    else if negative then
      if n = 0 ∨ Nat.pow 2 63 < n then written else .integer (-(n : Int))
    else
      if n < Nat.pow 2 64 then .integer n else written

/-- The digits after a point, with the point. -/
def fraction : Reader (List Char) := do
  if ← accept '.' then
    return '.' :: (← takeWhile1 Char.isDigit)
  else
    return []

/-- The sign of an exponent. -/
def exponentSign : Reader (List Char) := do
  if ← accept '+' then return ['+']
  else if ← accept '-' then return ['-']
  else return []

/-- Whether a character begins an exponent. -/
def isExponentMark (c : Char) : Bool := c = 'e' || c = 'E'

/-- The exponent, with its letter. -/
def exponent : Reader (List Char) := do
  match ← peek? with
  | some c =>
    if isExponentMark c then do
      expect c
      let sign ← exponentSign
      return c :: (sign ++ (← takeWhile1 Char.isDigit))
    else
      return []
  | none => return []

/-- The digits before a point, which have no leading zeros. -/
def wholeDigits : Reader (List Char) := do
  if ← accept '0' then return ['0'] else takeWhile1 Char.isDigit

/-- A number. -/
def number : Reader Value := do
  let negative ← accept '-'
  let digits ← wholeDigits
  let fraction ← fraction
  let exponent ← exponent
  return numberOf negative digits (fraction ++ exponent)

/-! ### Texts -/

/-- Four hexadecimal digits. -/
def unit16 : Reader Nat := do
  let a ← next
  let b ← next
  let c ← next
  let d ← next
  ofOption (ofDigits? 16 [a, b, c, d])

/-- The character of an escape by number. Characters beyond the first plane are written as a pair
of numbers. -/
def escapedUnit : Reader Char := do
  let high ← unit16
  if 0xD800 ≤ high ∧ high < 0xDC00 then do
    expect '\\'
    expect 'u'
    let low ← unit16
    if 0xDC00 ≤ low ∧ low < 0xE000 then
      ofOption (charOf? (0x10000 + (high - 0xD800) * 0x400 + (low - 0xDC00)))
    else
      refuse
  else
    ofOption (charOf? high)

/-- The character of an escape, after the backslash. -/
def escaped : Reader Char := do
  match ← next with
  | '"' => return '"'
  | '\\' => return '\\'
  | '/' => return '/'
  | 'b' => return '\x08'
  | 'f' => return '\x0c'
  | 'n' => return '\n'
  | 'r' => return '\r'
  | 't' => return '\t'
  | 'u' => escapedUnit
  | _ => refuse

/-- The rest of a text, after the opening quote, behind the characters read so far in reverse. -/
def textTail : Nat → List Char → Reader String
  | 0, _ => refuse
  | fuel + 1, reversed => do
    match ← next with
    | '"' => return String.ofList reversed.reverse
    | '\\' => do
      let c ← escaped
      textTail fuel (c :: reversed)
    | c => if c < ' ' then refuse else textTail fuel (c :: reversed)

/-- A text. -/
def text : Reader String := do
  expect '"'
  textTail (← budget) []

/-! ### Values -/

mutual

/-- A value. -/
def value : Nat → Reader Value
  | 0 => refuse
  | fuel + 1 => do
    match ← peek? with
    | some '"' => return .text (← text)
    | some '[' => do
      expect '['
      skipBlanks
      if ← accept ']' then return .list [] else return .list (← items fuel)
    | some '\x7b' => do
      expect '\x7b'
      skipBlanks
      if ← accept '\x7d' then return .table [] else return .table (← members fuel)
    | _ =>
      if ← acceptAll "null".toList then return .null
      else if ← acceptAll "true".toList then return .boolean true
      else if ← acceptAll "false".toList then return .boolean false
      else number

/-- The items of a list and its closing bracket. -/
def items : Nat → Reader (List Value)
  | 0 => refuse
  | fuel + 1 => do
    skipBlanks
    let item ← value fuel
    skipBlanks
    if ← accept ',' then
      return item :: (← items fuel)
    else do
      expect ']'
      return [item]

/-- The members of a table and its closing brace. -/
def members : Nat → Reader (List (String × Value))
  | 0 => refuse
  | fuel + 1 => do
    skipBlanks
    let name ← text
    skipBlanks
    expect ':'
    skipBlanks
    let member ← value fuel
    skipBlanks
    if ← accept ',' then
      let rest ← members fuel
      return if rest.any (·.1 = name) then rest else insertMember name member rest
    else do
      expect '\x7d'
      return [(name, member)]

end

/-- A document. -/
def document : Reader Value := do
  skipBlanks
  let v ← value (← budget)
  skipBlanks
  return v

/-- Reads a document. -/
def ofText? (text : String) : Option Value := readAll document text

end StableSwap.Document.Json
