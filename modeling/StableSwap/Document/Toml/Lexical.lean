import StableSwap.Text

/-!
# Blanks, keys and texts in TOML

A text is in double quotes, with escapes, or in single quotes, without. Three quotes open and close
a text that may span lines. A key is bare or a text on one line; keys joined by points lead into
tables.
-/

namespace StableSwap.Document.Toml

open Text Text.Reader

/-! ### Between the parts -/

/-- Whether a character is a blank inside a line. -/
def isLineBlank (c : Char) : Bool := c = ' ' || c = '\t'

/-- Skips blanks inside a line. -/
def skipLineBlanks : Reader Unit := skipWhile isLineBlank

/-- Whether a character may stand in comments and texts: anything but control characters other than
the tabulator. -/
def isPrintable (c : Char) : Bool := c = '\t' || (' ' ≤ c && c.toNat ≠ 0x7F)

/-- Takes a line end if it comes next. -/
def lineEnd : Reader Bool := do
  if ← accept '\n' then return true else acceptAll ['\r', '\n']

/-- Skips a comment if one comes next. -/
def skipComment : Reader Unit := do
  if ← accept '#' then skipWhile isPrintable

/-- Skips what may stand behind the last part of a line, up to the next line. -/
def endLine : Reader Unit := do
  skipLineBlanks
  skipComment
  if ← lineEnd then return () else if ← atEnd then return () else refuse

/-- Skips blanks, comments and line ends. -/
def skipSpace : Nat → Reader Unit
  | 0 => refuse
  | fuel + 1 => do
    skipLineBlanks
    skipComment
    if ← lineEnd then skipSpace fuel

/-! ### Texts -/

/-- A number of hexadecimal digits. -/
def hexDigits : Nat → Reader (List Char)
  | 0 => return []
  | count + 1 => do
    let c ← next
    return c :: (← hexDigits count)

/-- The character with the code point written by a number of hexadecimal digits. -/
def codePoint (digits : Nat) : Reader Char := do
  let cs ← hexDigits digits
  ofOption (ofDigits? 16 cs >>= charOf?)

/-- The character of an escape, after the backslash. -/
def escaped : Reader Char := do
  match ← next with
  | 'b' => return '\x08'
  | 't' => return '\t'
  | 'n' => return '\n'
  | 'f' => return '\x0c'
  | 'r' => return '\r'
  | '"' => return '"'
  | '\\' => return '\\'
  | 'u' => codePoint 4
  | 'U' => codePoint 8
  | _ => refuse

/-- The rest of a text on one line, behind the characters read so far in reverse. -/
def lineTail (quote : Char) (escapes : Bool) : Nat → List Char → Reader String
  | 0, _ => refuse
  | fuel + 1, reversed => do
    let c ← next
    if c = quote then
      return String.ofList reversed.reverse
    else if c = '\\' ∧ escapes then
      let c ← escaped
      lineTail quote escapes fuel (c :: reversed)
    else if isPrintable c then
      lineTail quote escapes fuel (c :: reversed)
    else
      refuse

/-- What follows blanks and line ends. -/
def afterSpace : List Char → List Char
  | '\n' :: rest => afterSpace rest
  | '\r' :: '\n' :: rest => afterSpace rest
  | c :: rest => if isLineBlank c then afterSpace rest else c :: rest
  | [] => []

theorem afterSpace_suffix (text : List Char) : afterSpace text <:+ text := by
  fun_induction afterSpace text with
  | case1 rest ih => exact ih.trans (List.suffix_cons _ _)
  | case2 rest ih => exact ih.trans (List.suffix_append ['\r', '\n'] rest)
  | case3 c rest _ _ _ ih => exact ih.trans (List.suffix_cons c rest)
  | case4 => exact List.suffix_rfl
  | case5 => exact List.suffix_rfl

/-- Skips a line end that is escaped, with the blanks in front of it and all blanks and line ends
behind it. -/
def skipEscapedLine : Reader Bool := do
  let rest := (← remaining).dropWhile isLineBlank
  if rest.head? = some '\n' ∨ ['\r', '\n'].isPrefixOf rest then
    skipTo afterSpace afterSpace_suffix
    return true
  else
    return false

/-- The quotes at the end of a text over several lines that belong to it: of up to five quotes the
last three close it. -/
def closingQuotes (quote : Char) : Reader (Option (List Char)) := do
  if ← acceptAll (List.replicate 5 quote) then return some [quote, quote]
  else if ← acceptAll (List.replicate 4 quote) then return some [quote]
  else if ← acceptAll (List.replicate 3 quote) then return some []
  else return none

/-- The rest of a text over several lines, behind the characters read so far in reverse. -/
def blockTail (quote : Char) (escapes : Bool) : Nat → List Char → Reader String
  | 0, _ => refuse
  | fuel + 1, reversed => do
    match ← closingQuotes quote with
    | some own => return String.ofList (reversed.reverse ++ own)
    | none =>
      if ← lineEnd then
        blockTail quote escapes fuel ('\n' :: reversed)
      else do
        let c ← next
        if c = '\\' ∧ escapes then
          if ← skipEscapedLine then
            blockTail quote escapes fuel reversed
          else do
            let c ← escaped
            blockTail quote escapes fuel (c :: reversed)
        else if isPrintable c then
          blockTail quote escapes fuel (c :: reversed)
        else
          refuse

/-- A text on one line, after its opening quote. -/
def lineText (quote : Char) : Reader String := do
  lineTail quote (quote = '"') (← budget) []

/-- A text in either kind of quotes, on one line or over several. A line end directly after the
opening quotes is no part of it. -/
def text (quote : Char) : Reader String := do
  if ← acceptAll (List.replicate 3 quote) then
    let _ ← lineEnd
    blockTail quote (quote = '"') (← budget) []
  else do
    expect quote
    lineText quote

/-! ### Keys -/

/-- Whether a character may stand in a bare key. -/
def isBareKeyChar (c : Char) : Bool := c.isAlphanum || c = '_' || c = '-'

/-- One key. -/
def simpleKey : Reader String := do
  if ← accept '"' then lineText '"'
  else if ← accept '\'' then lineText '\''
  else return String.ofList (← takeWhile1 isBareKeyChar)

/-- Keys joined by points, the first apart. -/
def dottedKey : Nat → Reader (String × List String)
  | 0 => refuse
  | fuel + 1 => do
    skipLineBlanks
    let key ← simpleKey
    skipLineBlanks
    if ← accept '.' then
      let (second, rest) ← dottedKey fuel
      return (key, second :: rest)
    else
      return (key, [])

end StableSwap.Document.Toml
