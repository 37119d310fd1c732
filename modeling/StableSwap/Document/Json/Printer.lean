import StableSwap.Document

/-!
# Writing JSON

* `compact` writes a document on one line.
* `indented` writes it with one value to a line, indented by two blanks per level.
-/

namespace StableSwap.Document.Json

/-- A hexadecimal digit. -/
def hexDigit (n : Nat) : Char := (n % 16).digitChar

/-- The written form of a character in a text. -/
def escape (c : Char) : List Char :=
  match c with
  | '"' => ['\\', '"']
  | '\\' => ['\\', '\\']
  | '\n' => ['\\', 'n']
  | '\r' => ['\\', 'r']
  | '\t' => ['\\', 't']
  | '\x08' => ['\\', 'b']
  | '\x0c' => ['\\', 'f']
  | c =>
    if c < ' ' then ['\\', 'u', '0', '0', hexDigit (c.toNat / 16), hexDigit c.toNat] else [c]

/-- A text in quotes. -/
def quoted (s : String) : String := String.ofList ('"' :: (s.toList.flatMap escape ++ ['"']))

/-- Parts with a separator between them. -/
def joined (separator : String) : List String → String
  | [] => ""
  | [part] => part
  | part :: rest => part ++ separator ++ joined separator rest

mutual

/-- A document on one line. -/
def compact : Value → String
  | .null => "null"
  | .boolean b => if b then "true" else "false"
  | .integer n => toString n
  | .number text => text
  | .text s => quoted s
  | .list items => "[" ++ joined "," (compactItems items) ++ "]"
  | .table members => "\x7b" ++ joined "," (compactMembers members) ++ "\x7d"

/-- The items of a list. -/
def compactItems : List Value → List String
  | [] => []
  | item :: rest => compact item :: compactItems rest

/-- The members of a table. -/
def compactMembers : List (String × Value) → List String
  | [] => []
  | (name, member) :: rest => (quoted name ++ ":" ++ compact member) :: compactMembers rest

end

/-- A line end and the blanks of a level. -/
def lineStart (level : Nat) : String :=
  String.ofList ('\n' :: List.replicate (2 * level) ' ')

/-- Parts on lines of their own between brackets. -/
def block (opening closing : String) (level : Nat) (parts : List String) : String :=
  if parts.isEmpty then opening ++ closing
  else
    opening ++ lineStart (level + 1) ++ joined ("," ++ lineStart (level + 1)) parts ++
      lineStart level ++ closing

mutual

/-- A document with one value to a line, from a level of indentation on. -/
def indentedFrom : Nat → Value → String
  | _, .null => "null"
  | _, .boolean b => if b then "true" else "false"
  | _, .integer n => toString n
  | _, .number text => text
  | _, .text s => quoted s
  | level, .list items => block "[" "]" level (indentedItems (level + 1) items)
  | level, .table members => block "\x7b" "\x7d" level (indentedMembers (level + 1) members)

/-- The items of a list. -/
def indentedItems : Nat → List Value → List String
  | _, [] => []
  | level, item :: rest => indentedFrom level item :: indentedItems level rest

/-- The members of a table. -/
def indentedMembers : Nat → List (String × Value) → List String
  | _, [] => []
  | level, (name, member) :: rest =>
    (quoted name ++ ": " ++ indentedFrom level member) :: indentedMembers level rest

end

/-- A document with one value to a line. -/
def indented (v : Value) : String := indentedFrom 0 v

end StableSwap.Document.Json
