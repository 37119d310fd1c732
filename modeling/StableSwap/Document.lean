import StableSwap.Config

/-!
# Documents

Configurations and reports are trees of named and listed values, whatever notation they are written
in (`Value`). Single values, lists and tables are read from them here. The members of a table are
read in their order, and the first that is unknown or cannot be read is named.
-/

namespace StableSwap.Document

/-- A value of a document. A whole number fits 64 bits, with or without a sign; any other number stands
as it was written. The members of a table are in the order in which they are read. -/
inductive Value where
  | null
  | boolean (b : Bool)
  | integer (n : Int)
  | number (text : String)
  | text (s : String)
  | list (items : List Value)
  | table (members : List (String × Value))

/-- Why a document is no configuration: a value is of the wrong kind or out of range, a text is not what
it has to be, a table has a member too many or too few, or a rule of the configuration is broken. -/
inductive ReadError where
  | wrongKind
  | malformed (text : String)
  | unknownMember (name : String)
  | missingMember (name : String)
  | fixed (cause : FixedTextError)
  | amount (text : String) (cause : DecimalError)
  | amplification (fault : AmplificationFault)
  | refused (cause : PoolError)
  deriving DecidableEq

def ReadError.message : ReadError → String
  | .wrongKind => "a value is of the wrong kind or out of range"
  | .malformed text => "invalid text " ++ text
  | .unknownMember name => "unknown field " ++ name
  | .missingMember name => "missing field " ++ name
  | .fixed cause => cause.message
  | .amount text cause => "invalid decimal amount " ++ text ++ ": " ++ cause.name
  | .amplification fault => fault.message
  | .refused cause => cause.message

/-! ### Single values -/

/-- A text. -/
def readText : Value → Except ReadError String
  | .text s => .ok s
  | _ => .error .wrongKind

/-- A truth value. -/
def readBool : Value → Except ReadError Bool
  | .boolean b => .ok b
  | _ => .error .wrongKind

/-- A whole number below a bound. -/
def readNat (bound : Nat) : Value → Except ReadError Nat
  | .integer (.ofNat n) => if n < bound then .ok n else .error .wrongKind
  | _ => .error .wrongKind

/-- An address, from its text. -/
def addressOfText (text : String) : Except ReadError Address :=
  match Address.ofField text with
  | some address => .ok address
  | none => .error (.malformed text)

/-- An address. -/
def readAddress (v : Value) : Except ReadError Address := readText v >>= addressOfText

/-- An address or nothing. -/
def readOptionalAddress : Value → Except ReadError (Option Address)
  | .null => .ok none
  | v => (readAddress v).map some

/-- A duration. -/
def readDuration (v : Value) : Except ReadError Duration := do
  let text ← readText v
  match Duration.ofText text with
  | some duration => .ok duration
  | none => .error (.malformed text)

/-- A fixed point number. -/
def readFixed (v : Value) : Except ReadError Fixed := do
  let text ← readText v
  (Fixed.ofText text).mapError .fixed

/-- An amount in decimal digits. -/
def readAmount (v : Value) : Except ReadError Amount := do
  let text ← readText v
  (Amount.ofDecimal text).mapError (.amount text)

/-- The document of an amount. -/
def ofAmount (a : Amount) : Value := .text a.toDecimal

/-- An amplification as a whole number. -/
def readAmplification (v : Value) : Except ReadError Amplification := do
  let n ← readNat (Nat.pow 2 64) v
  match Amount.ofNat? n with
  | some value => (Amplification.ofAmount value).mapError .amplification
  | none => .error .wrongKind

/-! ### Lists and tables -/

/-- A list of values. -/
def readList {α : Type} (read : Value → Except ReadError α) : Value → Except ReadError (List α)
  | .list items => items.mapM read
  | _ => .error .wrongKind

/-- Reads the members of a table in their order. -/
def readMembers {α : Type} (read : α → String → Value → Except ReadError α) (start : α) :
    Value → Except ReadError α
  | .table members => members.foldlM (fun sofar (name, v) => read sofar name v) start
  | _ => .error .wrongKind

/-- A member that has to be there. -/
def need {α : Type} (name : String) : Option α → Except ReadError α
  | some a => .ok a
  | none => .error (.missingMember name)

end StableSwap.Document
