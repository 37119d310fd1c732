import StableSwap.Text

/-!
# Addresses

Tokens, pools, rate providers and fee recipients are named by numbers below 2¹⁶⁰. They are ordered
as numbers, which is also the order of their written forms.

An address is written as `0x` and exactly forty hexadecimal digits in lower case
(`Address.toText`). It is read from digits of either case, with or without the `0x`. Gaps, which are
spaces, tabulators and line ends, are passed over behind the `0x`. There are two ways of reading.

* A word (`Address.ofWord`), as on a command line, has forty digits and any number of gaps.
* A field (`Address.ofField`), as in a document, has forty characters, gaps among them. Its digits
  make bytes in pairs from the front. The last digit counts for nothing if it has no partner, and
  the bytes that are missing behind them are zero.
-/

namespace StableSwap

/-- The least number that is no address. -/
def Address.bound : Nat := Nat.pow 2 160

/-- A number below 2¹⁶⁰. -/
@[ext] structure Address where
  /-- The number itself. -/
  val : Nat
  /-- It is below 2¹⁶⁰. -/
  val_lt : val < Address.bound
  deriving DecidableEq

namespace Address

theorem bound_pos : 0 < bound := Nat.two_pow_pos 160

/-- Literals are taken modulo the bound. -/
instance (n : Nat) : OfNat Address n := ⟨⟨n % bound, Nat.mod_lt _ bound_pos⟩⟩

instance : LE Address := ⟨fun a b => a.val ≤ b.val⟩

instance : LT Address := ⟨fun a b => a.val < b.val⟩

instance (a b : Address) : Decidable (a ≤ b) := inferInstanceAs (Decidable (a.val ≤ b.val))

instance (a b : Address) : Decidable (a < b) := inferInstanceAs (Decidable (a.val < b.val))

theorem le_def {a b : Address} : a ≤ b ↔ a.val ≤ b.val := Iff.rfl

/-- The address that belongs to nobody. -/
def nobody : Address := ⟨0, by decide⟩

instance : Inhabited Address := ⟨nobody⟩

/-- The address `n`, if `n` is below 2¹⁶⁰. -/
def ofNat? (n : Nat) : Option Address :=
  if h : n < bound then some ⟨n, h⟩ else none

/-- A number is the address with that value and no other. -/
theorem ofNat?_eq_some_iff {n : Nat} {a : Address} : ofNat? n = some a ↔ a.val = n := by
  unfold ofNat?
  split <;> rename_i h
  · rw [Option.some.injEq, Address.ext_iff]; exact eq_comm
  · constructor
    · intro h'; cases h'
    · rintro rfl; exact absurd a.val_lt h

/-! ### Digits -/

/-- How many digits an address has. -/
def digitCount : Nat := 40

/-- What follows a leading `0x`, or all of a text without one. -/
def withoutMark : List Char → List Char
  | '0' :: 'x' :: rest => rest
  | text => text

/-- Whether a character is passed over. -/
def isGap (c : Char) : Bool := c = ' ' || c = '\t' || c = '\n' || c = '\r'

/-- The characters that are no gaps. -/
def withoutGaps (text : List Char) : List Char := text.filter fun c => !isGap c

/-- The address with forty digits. -/
def ofDigits (digits : List Char) : Option Address :=
  if digits.length = digitCount then Text.ofDigits? 16 digits >>= ofNat? else none

/-! ### Words -/

/-- Reads an address from the characters of a word. -/
def ofWordChars (text : List Char) : Option Address := ofDigits (withoutGaps (withoutMark text))

/-- Reads an address from a word. -/
def ofWord (text : String) : Option Address := ofWordChars text.toList

/-! ### Fields -/

/-- The digits that have a partner, and zeros up to forty digits. -/
def filledUp (digits : List Char) : List Char :=
  let paired := digits.take (digits.length / 2 * 2)
  paired ++ List.replicate (digitCount - paired.length) '0'

/-- Reads an address from the characters of a field. -/
def ofFieldChars (text : List Char) : Option Address :=
  let characters := withoutMark text
  let digits := withoutGaps characters
  if characters.length = digitCount ∧ digits.all Text.isHexDigit then ofDigits (filledUp digits)
  else none

/-- Reads an address from a field. -/
def ofField (text : String) : Option Address := ofFieldChars text.toList

/-! ### Writing -/

/-- The characters of a written address. -/
def toChars (a : Address) : List Char :=
  let digits := Nat.toDigits 16 a.val
  '0' :: 'x' :: (List.replicate (digitCount - digits.length) '0' ++ digits)

/-- Writes an address. -/
def toText (a : Address) : String := String.ofList a.toChars

end Address

end StableSwap
