import StableSwap.Liquidity

/-!
# Encoded requests

Joins and exits arrive as bytes in the ABI layout: 32-byte big-endian words, the first of which
names the kind. An amount fills a word; for a list of amounts the word holds the offset, from the
start of the data, of a word with its length, which the amounts follow. Offsets and lengths must be
below 2³². Offsets need not be aligned, may overlap other words, and trailing bytes are ignored.

* `wordAt?` and `wordsAt?` read one word and a list of words.
* `decodeJoin` and `decodeExit` read a request. Limits per token are not part of the data; they come
  from the caller.
-/

namespace StableSwap.UserData

/-- The bytes of a word. -/
def wordSize : Nat := 32

/-- The number written by big-endian bytes. -/
def ofBytes (bytes : List UInt8) : Nat := bytes.foldl (fun n b => 256 * n + b.toNat) 0

/-- The word that starts at a byte offset. -/
def wordAt? (data : List UInt8) (offset : Nat) : Option Amount :=
  if offset + wordSize ≤ data.length then
    Amount.ofNat? (ofBytes ((data.drop offset).take wordSize))
  else
    none

/-- An offset or length: a word below 2³². -/
def sizeAt? (data : List UInt8) (offset : Nat) : Option Nat :=
  match wordAt? data offset with
  | some word => if word.val < Nat.pow 2 32 then some word.val else none
  | none => none

/-- The list of words whose offset is in the word at a byte offset. -/
def wordsAt? (data : List UInt8) (offset : Nat) : Option (List Amount) := do
  let start ← sizeAt? data offset
  let length ← sizeAt? data start
  if start + wordSize + wordSize * length ≤ data.length then
    (List.range length).mapM fun i => wordAt? data (start + wordSize + wordSize * i)
  else
    none

/-! ### Parts of a request -/

/-- A part that has to be there. -/
def required {α : Type} : Option α → Except PoolError α
  | some a => .ok a
  | none => .error (.invalidUserData .malformed)

/-- The word that names the kind. -/
def kindWord (data : List UInt8) : Except PoolError Amount :=
  if data.length < wordSize then .error (.invalidUserData (.tooShort data.length))
  else required (wordAt? data 0)

/-- A token index, which fits 64 bits. -/
def tokenIndex (word : Amount) : Except PoolError Nat :=
  if word.val < Nat.pow 2 64 then .ok word.val else .error (.invalidUserData (.indexOutOfRange word))

/-- The limit for a token. -/
def limitAt (limits : List Amount) (index : Nat) : Except PoolError Amount :=
  match limits[index]? with
  | some limit => .ok limit
  | none => .error (.invalidTokenIndex (.index index))

/-- A list of amounts followed by one amount. -/
def amountsAndBound (data : List UInt8) : Except PoolError (List Amount × Amount) := do
  let amounts ← required (wordsAt? data 32)
  let bound ← required (wordAt? data 64)
  return (amounts, bound)

/-- Shares followed by a token index, and the limit for that token. -/
def sharesAndToken (data : List UInt8) (limits : List Amount) :
    Except PoolError (Amount × Nat × Amount) := do
  let shares ← required (wordAt? data 32)
  let word ← required (wordAt? data 64)
  let index ← tokenIndex word
  let limit ← limitAt limits index
  return (shares, index, limit)

/-! ### Requests -/

/-- Reads a join. The limits are the most the caller pays of each token. -/
def decodeJoin (data : List UInt8) (maxAmountsIn : List Amount) :
    Except PoolError LiquidityRequest := do
  let kind ← kindWord data
  match kind.val with
  | 0 => do
    let amounts ← required (wordsAt? data 32)
    return .init amounts
  | 1 => do
    let (amounts, minSharesOut) ← amountsAndBound data
    return .exactTokensInForShares amounts minSharesOut
  | 2 => do
    let (shares, index, maxAmountIn) ← sharesAndToken data maxAmountsIn
    return .tokenInForExactShares index shares maxAmountIn
  | 3 => do
    let shares ← required (wordAt? data 32)
    return .allTokensInForExactShares shares maxAmountsIn
  | _ => .error (.invalidUserData (.unknownJoinKind kind))

/-- Reads an exit. The limits are the least the caller receives of each token. -/
def decodeExit (data : List UInt8) (minAmountsOut : List Amount) :
    Except PoolError LiquidityRequest := do
  let kind ← kindWord data
  match kind.val with
  | 0 => do
    let (shares, index, minAmountOut) ← sharesAndToken data minAmountsOut
    return .exactSharesInForOneToken shares index minAmountOut
  | 1 => do
    let (amounts, maxSharesIn) ← amountsAndBound data
    return .sharesInForExactTokens amounts maxSharesIn
  | 2 => do
    let shares ← required (wordAt? data 32)
    return .exactSharesInForAllTokens shares minAmountsOut
  | _ => .error (.invalidUserData (.unknownExitKind kind))

end StableSwap.UserData
