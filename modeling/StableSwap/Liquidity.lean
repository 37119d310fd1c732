import StableSwap.Curve.Shares
import StableSwap.Settlement

/-!
# Joins and exits

A join brings tokens and receives pool shares; an exit returns shares and receives tokens. A
request fixes one side and bounds the other; computing it gives the movement of the ledger
(`Delta`). Every rounding goes the pool's way, and a movement never has zero shares.
-/

namespace StableSwap

/-- A join or exit. Token indices and amounts refer to the tradable tokens in index order. -/
inductive LiquidityRequest where
  /-- The first join of a pool. -/
  | init (amountsIn : List Amount)
  /-- A join that pays given amounts of all tokens. -/
  | exactTokensInForShares (amountsIn : List Amount) (minSharesOut : Amount)
  /-- A join that pays one token for given shares. -/
  | tokenInForExactShares (tokenIndex : Nat) (sharesOut maxAmountIn : Amount)
  /-- A join that pays all tokens in proportion for given shares. -/
  | allTokensInForExactShares (sharesOut : Amount) (maxAmountsIn : List Amount)
  /-- An exit that receives one token for given shares. -/
  | exactSharesInForOneToken (sharesIn : Amount) (tokenIndex : Nat) (minAmountOut : Amount)
  /-- An exit that receives all tokens in proportion for given shares. -/
  | exactSharesInForAllTokens (sharesIn : Amount) (minAmountsOut : List Amount)
  /-- An exit that receives given amounts of all tokens. -/
  | sharesInForExactTokens (amountsOut : List Amount) (maxSharesIn : Amount)
  deriving DecidableEq

namespace LiquidityRequest

/-- The direction of a request. -/
def flow : LiquidityRequest → Flow
  | init .. | exactTokensInForShares .. | tokenInForExactShares .. |
    allTokensInForExactShares .. => .inward
  | exactSharesInForOneToken .. | exactSharesInForAllTokens .. | sharesInForExactTokens .. =>
    .outward

/-- The name of a request's kind. -/
def kindName : LiquidityRequest → String
  | init .. => "init"
  | exactTokensInForShares .. => "exact_tokens_in_for_bpt_out"
  | tokenInForExactShares .. => "token_in_for_exact_bpt_out"
  | allTokensInForExactShares .. => "all_tokens_in_for_exact_bpt_out"
  | exactSharesInForOneToken .. => "exact_bpt_in_for_one_token_out"
  | exactSharesInForAllTokens .. => "exact_bpt_in_for_tokens_out"
  | sharesInForExactTokens .. => "bpt_in_for_exact_tokens_out"

end LiquidityRequest

/-! ### Checks -/

/-- Refuses a list without exactly one amount per token. -/
def checkCount (expected : Nat) (amounts : List Amount) : Except PoolError Unit :=
  if amounts.length = expected then .ok ()
  else .error (.inputLengthMismatch expected amounts.length)

/-- Refuses an index that no token has. -/
def checkTokenIndex (tokenCount index : Nat) : Except PoolError Unit :=
  if index < tokenCount then .ok () else .error (.invalidTokenIndex (.index index))

/-- Refuses an amount below a bound. -/
def checkAtLeast (minimum actual : Amount) : Except PoolError Unit :=
  if actual < minimum then .error (.belowMinimum actual minimum) else .ok ()

/-- Refuses an amount above a bound. -/
def checkAtMost (maximum actual : Amount) : Except PoolError Unit :=
  if maximum < actual then .error (.aboveMaximum actual maximum) else .ok ()

/-- Refuses to burn locked shares. -/
def checkBurnable (supply shares : Amount) : Except PoolError Unit :=
  if supply.monus lockedShares < shares then .error (.insufficientBalance .shareSupply)
  else .ok ()

/-- Refuses amounts that are all zero. -/
def checkSomePaid (amounts : List Amount) : Except PoolError Unit :=
  if amounts.all (· = 0) then .error (.belowMinimum 0 1) else .ok ()

/-- The amounts of a movement of one token. -/
def singleAmount (tokenCount index : Nat) (amount : Amount) : List Amount :=
  (List.replicate tokenCount 0).set index amount

/-! ### The first join -/

/-- The movement of a first join: one share per unit of the invariant, which must exceed the shares
that get locked. -/
def firstJoin (amountsIn : List Amount) (amplification : Amount) (scaling : Scaling) :
    Except PoolError Delta := do
  checkCount scaling.tokenCount amountsIn
  if 0 ∈ amountsIn then
    throw (.belowMinimum 0 1)
  let scaled ← (scaling.upscaleAll amountsIn).mapError .ofMath
  let invariant ← (Curve.invariant amplification scaled).mapError .ofMath
  if invariant ≤ lockedShares then
    throw (.belowMinimum invariant 1000001)
  return ⟨.inward, amountsIn, invariant⟩

/-! ### Later joins and exits -/

/-- The pool a join or exit is computed against, with all protocol fees settled. -/
structure LiquidityBasis where
  /-- The amplification as the curve takes it. -/
  amplification : Amount
  /-- The fee on the part of a join or exit that is a trade. -/
  swapFee : Fixed
  scaling : Scaling
  balances : List Amount
  /-- The balances in the common unit. -/
  scaled : List Fixed
  supply : Amount
  invariant : Amount

namespace LiquidityBasis

/-- A token's part of a proportional join, rounded up and within its bound. -/
def proportionalIn (b : LiquidityBasis) (sharesOut : Amount) (balance maximum : Amount) :
    Except PoolError Amount := do
  let amount ← (Amount.mulDivUp balance sharesOut b.supply).mapError .ofMath
  checkAtMost maximum amount
  return amount

/-- A token's part of a proportional exit, rounded down and within its bound. -/
def proportionalOut (b : LiquidityBasis) (sharesIn : Amount) (balance minimum : Amount) :
    Except PoolError Amount := do
  let amount ← (Amount.mulDivDown balance sharesIn b.supply).mapError .ofMath
  checkAtLeast minimum amount
  return amount

/-- Failed arithmetic of an exit with given amounts: a negative difference means that the pool
holds less than is asked for. -/
def exitError (cause : MathError) : PoolError :=
  if cause = .subtractionOverflow then .insufficientBalance .tokenBalance else .ofMath cause

/-- The movement of a join that pays given amounts of all tokens. -/
def exactTokensIn (b : LiquidityBasis) (amountsIn : List Amount) (minSharesOut : Amount) :
    Except PoolError Delta := do
  checkCount b.balances.length amountsIn
  let scaledIn ← (b.scaling.upscaleAll amountsIn).mapError .ofMath
  let shares ← (Curve.sharesOutForExactIn b.amplification b.scaled scaledIn b.supply b.invariant
    b.swapFee).mapError .ofMath
  checkAtLeast (max minSharesOut 1) shares
  return ⟨.inward, amountsIn, shares⟩

/-- The movement of a join that pays one token for given shares. -/
def tokenIn (b : LiquidityBasis) (index : Nat) (sharesOut maxAmountIn : Amount) :
    Except PoolError Delta := do
  checkTokenIndex b.balances.length index
  checkAtLeast 1 sharesOut
  let scaledIn ← (Curve.tokenInForExactShares b.amplification b.scaled index sharesOut b.supply
    b.invariant b.swapFee).mapError .ofMath
  let amount ← (b.scaling.downscaleUp index scaledIn).mapError .ofMath
  checkAtMost maxAmountIn amount
  return ⟨.inward, singleAmount b.balances.length index amount, sharesOut⟩

/-- The movement of a proportional join. -/
def allTokensIn (b : LiquidityBasis) (sharesOut : Amount) (maxAmountsIn : List Amount) :
    Except PoolError Delta := do
  checkCount b.balances.length maxAmountsIn
  checkAtLeast 1 sharesOut
  let amounts ← (b.balances.zip maxAmountsIn).mapM fun (balance, maximum) =>
    b.proportionalIn sharesOut balance maximum
  return ⟨.inward, amounts, sharesOut⟩

/-- The movement of an exit that receives one token for given shares. -/
def oneTokenOut (b : LiquidityBasis) (sharesIn : Amount) (index : Nat) (minAmountOut : Amount) :
    Except PoolError Delta := do
  checkTokenIndex b.balances.length index
  checkAtLeast 1 sharesIn
  checkBurnable b.supply sharesIn
  let scaledOut ← (Curve.tokenOutForExactShares b.amplification b.scaled index sharesIn b.supply
    b.invariant b.swapFee).mapError .ofMath
  let amount ← (b.scaling.downscaleDown index scaledOut).mapError .ofMath
  checkAtLeast (max minAmountOut 1) amount
  return ⟨.outward, singleAmount b.balances.length index amount, sharesIn⟩

/-- The movement of a proportional exit. -/
def allTokensOut (b : LiquidityBasis) (sharesIn : Amount) (minAmountsOut : List Amount) :
    Except PoolError Delta := do
  checkCount b.balances.length minAmountsOut
  checkAtLeast 1 sharesIn
  checkBurnable b.supply sharesIn
  let amounts ← (b.balances.zip minAmountsOut).mapM fun (balance, minimum) =>
    b.proportionalOut sharesIn balance minimum
  checkSomePaid amounts
  return ⟨.outward, amounts, sharesIn⟩

/-- The movement of an exit that receives given amounts of all tokens. -/
def exactTokensOut (b : LiquidityBasis) (amountsOut : List Amount) (maxSharesIn : Amount) :
    Except PoolError Delta := do
  checkCount b.balances.length amountsOut
  checkSomePaid amountsOut
  let scaledOut ← (b.scaling.upscaleAllUp amountsOut).mapError .ofMath
  let shares ← (Curve.sharesInForExactOut b.amplification b.scaled scaledOut b.supply b.invariant
    b.swapFee).mapError exitError
  checkAtLeast 1 shares
  checkAtMost maxSharesIn shares
  checkBurnable b.supply shares
  return ⟨.outward, amountsOut, shares⟩

/-- The movement of a join or exit of a pool that has had its first join. -/
def compute (b : LiquidityBasis) : LiquidityRequest → Except PoolError Delta
  | .init _ => .error .alreadyInitialized
  | .exactTokensInForShares amountsIn minSharesOut => b.exactTokensIn amountsIn minSharesOut
  | .tokenInForExactShares index sharesOut maxAmountIn => b.tokenIn index sharesOut maxAmountIn
  | .allTokensInForExactShares sharesOut maxAmountsIn => b.allTokensIn sharesOut maxAmountsIn
  | .exactSharesInForOneToken sharesIn index minAmountOut =>
    b.oneTokenOut sharesIn index minAmountOut
  | .exactSharesInForAllTokens sharesIn minAmountsOut => b.allTokensOut sharesIn minAmountsOut
  | .sharesInForExactTokens amountsOut maxSharesIn => b.exactTokensOut amountsOut maxSharesIn

end LiquidityBasis

end StableSwap
