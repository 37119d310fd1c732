/-!
# Reading text

What single characters stand for, and readers. A reader takes characters from the front of a text and
gives a value and the rest, or refuses. Readers of repeated parts count down from a budget, which is
twice the number of characters left.

* `ofDigits?` is the number that digits write.
* `isBlank` tells the characters with the Unicode property `White_Space`.
* `Reader` is the type of readers, `Reader.readAll` reads a whole text with one.
-/

namespace StableSwap.Text

/-! ### Digits -/

/-- The value of a decimal digit. -/
def digitValue (c : Char) : Nat := c.toNat - '0'.toNat

/-- The value of a hexadecimal digit of either case. -/
def hexValue? (c : Char) : Option Nat :=
  if '0' ≤ c ∧ c ≤ '9' then some (digitValue c)
  else if 'a' ≤ c ∧ c ≤ 'f' then some (c.toNat - 'a'.toNat + 10)
  else if 'A' ≤ c ∧ c ≤ 'F' then some (c.toNat - 'A'.toNat + 10)
  else none

/-- Whether a character is a hexadecimal digit of either case. -/
def isHexDigit (c : Char) : Bool := (hexValue? c).isSome

/-- The number whose digits in a base are those of `n` followed by `c`. -/
def appendDigit? (base n : Nat) (c : Char) : Option Nat :=
  match hexValue? c with
  | some d => if d < base then some (base * n + d) else none
  | none => none

/-- The number written by digits of a base up to sixteen. -/
def ofDigits? (base : Nat) (digits : List Char) : Option Nat :=
  digits.foldlM (appendDigit? base) 0

/-- The character with a code point. -/
def charOf? (n : Nat) : Option Char :=
  if n < 0xD800 ∨ 0xDFFF < n ∧ n < 0x110000 then some (Char.ofNat n) else none

/-! ### Blanks -/

/-- The code points of blank characters, as ranges with both ends included. -/
def blankRanges : List (Nat × Nat) :=
  [(0x09, 0x0D), (0x20, 0x20), (0x85, 0x85), (0xA0, 0xA0), (0x1680, 0x1680), (0x2000, 0x200A),
    (0x2028, 0x2029), (0x202F, 0x202F), (0x205F, 0x205F), (0x3000, 0x3000)]

/-- Whether a character is blank. -/
def isBlank (c : Char) : Bool :=
  blankRanges.any fun (first, last) => first ≤ c.toNat && c.toNat ≤ last

/-! ### Readers -/

/-- A reader of values from the front of a text. -/
structure Reader (α : Type) where
  /-- The value and the rest of the text, or nothing if the text is refused. -/
  run : List Char → Option (α × List Char)
  /-- Characters are taken from the front only. -/
  suffix : ∀ {text rest : List Char} {a : α}, run text = some (a, rest) → rest <:+ text

namespace Reader

instance : Monad Reader where
  pure a := ⟨fun text => some (a, text), by rintro _ _ _ ⟨⟩; exact List.suffix_rfl⟩
  bind reader next :=
    ⟨fun text =>
      match reader.run text with
      | some (a, rest) => (next a).run rest
      | none => none, by
      intro text rest b h
      split at h
      next a between ha => exact ((next a).suffix h).trans (reader.suffix ha)
      next => cases h⟩

/-- Refuses the text. -/
def refuse {α : Type} : Reader α := ⟨fun _ => none, nofun⟩

/-- All that is left of the text, which stays where it is. -/
def remaining : Reader (List Char) :=
  ⟨fun text => some (text, text), by rintro _ _ _ ⟨⟩; exact List.suffix_rfl⟩

/-- Goes on at a later place of the text. -/
def skipTo (place : List Char → List Char) (later : ∀ text, place text <:+ text) : Reader Unit :=
  ⟨fun text => some ((), place text), by rintro text _ _ ⟨⟩; exact later text⟩

/-- The next character, which stays where it is. -/
def peek? : Reader (Option Char) := do return (← remaining).head?

/-- Takes the next character. -/
def next : Reader Char where
  run
    | [] => none
    | c :: rest => some (c, rest)
  suffix {text rest c} h := by
    cases text with
    | nil => cases h
    | cons d tail => cases h; exact List.suffix_cons c rest

/-- Takes a character if it comes next. -/
def accept (c : Char) : Reader Bool := do
  if (← peek?) = some c then
    let _ ← next
    return true
  else
    return false

/-- Takes a character that has to come next. -/
def expect (c : Char) : Reader Unit := do
  if ← accept c then return () else refuse

/-- Takes given characters if they come next. -/
def acceptAll (cs : List Char) : Reader Bool := do
  if cs.isPrefixOf (← remaining) then
    skipTo (·.drop cs.length) (List.drop_suffix cs.length)
    return true
  else
    return false

/-- Takes all characters of a kind that come next. -/
def takeWhile (kind : Char → Bool) : Reader (List Char) := do
  let taken := (← remaining).takeWhile kind
  skipTo (·.dropWhile kind) fun _ => List.dropWhile_suffix kind
  return taken

/-- Takes all characters of a kind that come next, of which there has to be one. -/
def takeWhile1 (kind : Char → Bool) : Reader (List Char) := do
  let taken ← takeWhile kind
  if taken.isEmpty then refuse else return taken

/-- Skips all characters of a kind that come next. -/
def skipWhile (kind : Char → Bool) : Reader Unit := do
  let _ ← takeWhile kind
  return ()

/-- The value if there is one. -/
def ofOption {α : Type} : Option α → Reader α
  | some a => pure a
  | none => refuse

/-- Whether the text is at its end. -/
def atEnd : Reader Bool := do return (← remaining).isEmpty

/-- A budget for repetition: two rounds for each character, one for a value and one for its place
among the items of a list, and two for the end of the text. -/
def budget : Reader Nat := do return 2 * (← remaining).length + 2

/-- Reads a whole text. -/
def readAll {α : Type} (reader : Reader α) (text : String) : Option α :=
  match reader.run text.toList with
  | some (a, []) => some a
  | _ => none

end Reader

end StableSwap.Text
