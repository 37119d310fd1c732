import StableSwap.UserData

/-!
# The format of encoded requests

Which bytes are a request, said without reading them. An amount is at an offset when the bytes there
are its word (`HasWord`); a list of amounts is at an offset when the word there is the offset of its
length and its words (`HasWords`).

* `encode` is the canonical bytes of a request: the words of its kind and fields in order, with the
  lists of amounts behind them.
* `JoinFormat` and `ExitFormat` relate bytes and limits to the request that they are.
* `LacksLimit` says of bytes that they would be a request, were there a limit for its token.
* `Reads` says of a reader's answer that it is the request that the bytes are.
* `Encodable` says of a request that bytes and limits can be that request.
-/

namespace StableSwap.UserData

/-! ### Encoding -/

/-- The `width` big-endian bytes of a number; what lies above them is dropped. -/
def toBytes : Nat → Nat → List UInt8
  | 0, _ => []
  | width + 1, n => UInt8.ofNat (n / Nat.pow 256 width % 256) :: toBytes width n

/-- The word of a number. -/
def word (n : Nat) : List UInt8 := toBytes wordSize n

/-- The words of amounts. -/
def words (amounts : List Amount) : List UInt8 := amounts.flatMap fun a => word a.val

/-- The words of a list of amounts with its length in front. -/
def lengthAndWords (amounts : List Amount) : List UInt8 := word amounts.length ++ words amounts

/-- The bytes of a request. The limits per token are not part of them. -/
def encode : LiquidityRequest → List UInt8
  | .init amountsIn => word 0 ++ word 64 ++ lengthAndWords amountsIn
  | .exactTokensInForShares amountsIn minSharesOut =>
    word 1 ++ word 96 ++ word minSharesOut.val ++ lengthAndWords amountsIn
  | .tokenInForExactShares index sharesOut _ => word 2 ++ word sharesOut.val ++ word index
  | .allTokensInForExactShares sharesOut _ => word 3 ++ word sharesOut.val
  | .exactSharesInForOneToken sharesIn index _ => word 0 ++ word sharesIn.val ++ word index
  | .sharesInForExactTokens amountsOut maxSharesIn =>
    word 1 ++ word 96 ++ word maxSharesIn.val ++ lengthAndWords amountsOut
  | .exactSharesInForAllTokens sharesIn _ => word 2 ++ word sharesIn.val

/-! ### Words at offsets -/

/-- The bytes at an offset are the word of an amount. -/
def HasWord (data : List UInt8) (offset : Nat) (amount : Amount) : Prop :=
  (data.drop offset).take wordSize = word amount.val

/-- The word at an offset is that of a number, which fits so many bits. -/
def HasNumber (data : List UInt8) (offset bits n : Nat) : Prop :=
  ∃ amount, HasWord data offset amount ∧ amount.val = n ∧ n < Nat.pow 2 bits

/-- The word at an offset is the offset of a length, and so many words follow that. -/
def HasWords (data : List UInt8) (offset : Nat) (amounts : List Amount) : Prop :=
  ∃ start, HasNumber data offset 32 start ∧ HasNumber data start 32 amounts.length ∧
    start + wordSize + wordSize * amounts.length ≤ data.length ∧
    ∀ i amount, amounts[i]? = some amount →
      HasWord data (start + wordSize + wordSize * i) amount

/-- The words of a list of amounts and of a bound. -/
structure HasAmountsAndBound (data : List UInt8) (amounts : List Amount) (bound : Amount) :
    Prop where
  hamounts : HasWords data 32 amounts
  hbound : HasWord data 64 bound

/-- The words of shares and of a token index. An index fits 64 bits; no list has a limit for one
that does not. -/
structure HasSharesAndIndex (data : List UInt8) (shares : Amount) (index : Nat) : Prop where
  hshares : HasWord data 32 shares
  hindex : HasNumber data 64 64 index

/-! ### Requests -/

/-- The bytes are a join, whose limits per token are those of a list. -/
inductive JoinFormat (data : List UInt8) (limits : List Amount) : LiquidityRequest → Prop where
  | init {amounts : List Amount} (hkind : HasWord data 0 0) (hwords : HasWords data 32 amounts) :
      JoinFormat data limits (.init amounts)
  | exactTokensInForShares {amounts : List Amount} {bound : Amount} (hkind : HasWord data 0 1)
      (hwords : HasAmountsAndBound data amounts bound) :
      JoinFormat data limits (.exactTokensInForShares amounts bound)
  | tokenInForExactShares {shares : Amount} {index : Nat} {limit : Amount}
      (hkind : HasWord data 0 2) (hwords : HasSharesAndIndex data shares index)
      (hlimit : limits[index]? = some limit) :
      JoinFormat data limits (.tokenInForExactShares index shares limit)
  | allTokensInForExactShares {shares : Amount} (hkind : HasWord data 0 3)
      (hwords : HasWord data 32 shares) :
      JoinFormat data limits (.allTokensInForExactShares shares limits)

/-- The bytes are an exit, whose limits per token are those of a list. -/
inductive ExitFormat (data : List UInt8) (limits : List Amount) : LiquidityRequest → Prop where
  | exactSharesInForOneToken {shares : Amount} {index : Nat} {limit : Amount}
      (hkind : HasWord data 0 0) (hwords : HasSharesAndIndex data shares index)
      (hlimit : limits[index]? = some limit) :
      ExitFormat data limits (.exactSharesInForOneToken shares index limit)
  | sharesInForExactTokens {amounts : List Amount} {bound : Amount} (hkind : HasWord data 0 1)
      (hwords : HasAmountsAndBound data amounts bound) :
      ExitFormat data limits (.sharesInForExactTokens amounts bound)
  | exactSharesInForAllTokens {shares : Amount} (hkind : HasWord data 0 2)
      (hwords : HasWord data 32 shares) :
      ExitFormat data limits (.exactSharesInForAllTokens shares limits)

/-- The bytes have the kind of a request for one token, whose index has no limit. -/
structure LacksLimit (data : List UInt8) (limits : List Amount) (kind : Amount) (index : Nat) :
    Prop where
  hkind : HasWord data 0 kind
  hwords : ∃ shares, HasSharesAndIndex data shares index
  noLimit : limits.length ≤ index

/-- A reader answers what the bytes are; it misses the limits that are lacking; and otherwise it
finds fault with the bytes. -/
structure Reads {α : Type} (answer : Except PoolError α) (format : α → Prop)
    (lacking : Nat → Prop) : Prop where
  ok_iff : ∀ a, answer = .ok a ↔ format a
  lacking_iff : ∀ index, answer = .error (.invalidTokenIndex (.index index)) ↔ lacking index
  error : ∀ cause, answer = .error cause →
    (∃ index, cause = .invalidTokenIndex (.index index)) ∨ ∃ fault, cause = .invalidUserData fault

/-- A request fits its encoding: its lists are not too long, and its limits are those of a list. -/
def Encodable (limits : List Amount) : LiquidityRequest → Prop
  | .init amounts => amounts.length < Nat.pow 2 32
  | .exactTokensInForShares amounts _ => amounts.length < Nat.pow 2 32
  | .tokenInForExactShares index _ limit => index < Nat.pow 2 64 ∧ limits[index]? = some limit
  | .allTokensInForExactShares _ perToken => perToken = limits
  | .exactSharesInForOneToken _ index limit => index < Nat.pow 2 64 ∧ limits[index]? = some limit
  | .exactSharesInForAllTokens _ perToken => perToken = limits
  | .sharesInForExactTokens amounts _ => amounts.length < Nat.pow 2 32

end StableSwap.UserData
