import StableSwap.Document.Toml.Lexical
import StableSwap.Document.Toml.Tree

/-!
# Documents in TOML

Whole numbers, truth values, texts, lists and tables are read. Numbers with fractions and dates are
refused, as no configuration has a place for one.
-/

namespace StableSwap.Document.Toml

open Text Text.Reader

/-! ### Numbers -/

/-- The digits among digits with single underscores between them. -/
def ungrouped? : List Char → Option (List Char)
  | [] => none
  | ['_'] => none
  | [c] => some [c]
  | '_' :: _ => none
  | c :: '_' :: rest => (ungrouped? rest).map (c :: ·)
  | c :: rest => (ungrouped? rest).map (c :: ·)

/-- A number that fits 64 bits with a sign. -/
def signed64? (n : Int) : Option Int :=
  if -(Nat.pow 2 63 : Int) ≤ n ∧ n < Nat.pow 2 63 then some n else none

/-- The number written by grouped digits of a base. -/
def grouped? (base : Nat) (digits : List Char) : Option Int := do
  let digits ← ungrouped? digits
  let n ← ofDigits? base digits
  return n

/-- The number written by decimal digits, which has no leading zeros. -/
def decimal? (digits : List Char) : Option Int :=
  match digits with
  | '0' :: _ :: _ => none
  | digits => grouped? 10 digits

/-- The whole number written by a word. -/
def integer? (word : List Char) : Option Int := do
  let n ←
    match word with
    | '0' :: 'x' :: digits => grouped? 16 digits
    | '0' :: 'o' :: digits => grouped? 8 digits
    | '0' :: 'b' :: digits => grouped? 2 digits
    | '+' :: digits => decimal? digits
    | '-' :: digits => (decimal? digits).map (- ·)
    | digits => decimal? digits
  signed64? n

/-- Whether a character may stand in a value that is a word. -/
def isWordChar (c : Char) : Bool :=
  c.isAlphanum || c = '_' || c = '+' || c = '-' || c = '.' || c = ':'

/-- A value that is a word. -/
def word : Reader Value := do
  let word ← takeWhile1 isWordChar
  if word = "true".toList then return .boolean true
  else if word = "false".toList then return .boolean false
  else return .integer (← ofOption (integer? word))

/-! ### Values -/

mutual

/-- A value. -/
def value : Nat → Reader Value
  | 0 => refuse
  | fuel + 1 => do
    match ← peek? with
    | some '"' => return .text (← text '"')
    | some '\'' => return .text (← text '\'')
    | some '[' => do
      expect '['
      return .list (← items fuel)
    | some '\x7b' => do
      expect '\x7b'
      skipLineBlanks
      if ← accept '\x7d' then return .table []
      else return .table (membersToValues (← members fuel []))
    | _ => word

/-- The items of a list and its closing bracket. A comma may stand behind the last one. -/
def items : Nat → Reader (List Value)
  | 0 => refuse
  | fuel + 1 => do
    skipSpace (← budget)
    if ← accept ']' then
      return []
    else do
      let item ← value fuel
      skipSpace (← budget)
      if ← accept ',' then
        return item :: (← items fuel)
      else do
        expect ']'
        return [item]

/-- The members of a table on one line, behind those read so far, and its closing brace. -/
def members : Nat → Tree → Reader Tree
  | 0, _ => refuse
  | fuel + 1, tree => do
    let (key, rest) ← dottedKey (← budget)
    expect '='
    skipLineBlanks
    let v ← value fuel
    skipLineBlanks
    let tree ← ofOption (tree.give v key rest)
    if ← accept ',' then
      members fuel tree
    else do
      expect '\x7d'
      return tree

end

/-! ### Lines -/

/-- The document read so far and the path of the table that keys go to. -/
structure Progress where
  /-- All tables. -/
  tree : Tree
  /-- The path of the last header. -/
  path : List String

/-- A header of a list of tables, after its first bracket pair. -/
def itemHeader (progress : Progress) : Reader Progress := do
  let (key, rest) ← dottedKey (← budget)
  expect ']'
  expect ']'
  return ⟨← ofOption (progress.tree.openItem key rest), key :: rest⟩

/-- A header of a table, after its bracket. -/
def tableHeader (progress : Progress) : Reader Progress := do
  let (key, rest) ← dottedKey (← budget)
  expect ']'
  return ⟨← ofOption (progress.tree.openTable key rest), key :: rest⟩

/-- A key with its value. -/
def keyValue (progress : Progress) : Reader Progress := do
  let (key, rest) ← dottedKey (← budget)
  expect '='
  skipLineBlanks
  let v ← value (← budget)
  let tree ← ofOption (progress.tree.changeAt (·.give v key rest) progress.path)
  return { progress with tree }

/-- What a line that is not empty says. -/
def statement (progress : Progress) : Reader Progress := do
  if ← acceptAll ['[', '['] then itemHeader progress
  else if ← accept '[' then tableHeader progress
  else keyValue progress

/-- All lines. -/
def lines : Nat → Progress → Reader Progress
  | 0, _ => refuse
  | fuel + 1, progress => do
    skipSpace (← budget)
    if ← atEnd then
      return progress
    else do
      let progress ← statement progress
      endLine
      lines fuel progress

/-- A document, behind a byte order mark if there is one. -/
def document : Reader Value := do
  let _ ← accept '\uFEFF'
  let progress ← lines (← budget) ⟨[], []⟩
  return .table (membersToValues progress.tree)

/-- Reads a document. -/
def ofText? (text : String) : Option Value := readAll document text

end StableSwap.Document.Toml
