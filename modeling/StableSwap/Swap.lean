import StableSwap.Curve.Trade
import StableSwap.Settlement

/-!
# Trades

A trade fixes the amount of one token and computes that of the other at constant invariant. The
swap fee is taken from the input: from the given one before pricing, or on top of the computed one.
Every rounding goes the pool's way.
-/

namespace StableSwap

/-- Which amount of a trade is fixed. -/
inductive SwapKind where
  /-- The input; the output is computed. -/
  | givenIn
  /-- The output; the input is computed. -/
  | givenOut
  deriving DecidableEq

/-- A request for a trade of a raw amount between two tokens, given by their indices. -/
structure SwapRequest where
  kind : SwapKind
  tokenIn : Nat
  tokenOut : Nat
  amount : Amount
  /-- The least output, or the greatest input, that the caller accepts. -/
  limit : Option Amount
  deriving DecidableEq

/-- The raw amounts of a trade. -/
structure SwapAmounts where
  /-- What is paid in, the fee included. -/
  amountIn : Amount
  amountOut : Amount
  /-- The fee, in the token paid in. -/
  fee : Amount
  deriving DecidableEq

/-- The least input whose rest after the fee covers an amount. -/
def addSwapFee (amount : Amount) (fee : Fixed) : Except MathError Amount :=
  (Fixed.divUp ⟨amount⟩ fee.complement).map Fixed.wei

/-- What remains of an input after the fee. -/
def subtractSwapFee (amount : Amount) (fee : Fixed) : Except MathError Amount := do
  let charged ← Fixed.mulUp ⟨amount⟩ fee
  amount.sub charged.wei

/-- What a trade is computed against: the raw balances, the factors of their tokens and the fee. -/
structure SwapBasis where
  /-- The amplification as the curve takes it. -/
  amplification : Amount
  swapFee : Fixed
  scaling : Scaling
  balances : List Amount
  /-- The balances in the common unit. -/
  scaled : List Fixed

namespace SwapBasis

/-- The output, in the common unit, for an input of which the fee was taken. -/
def scaledOut (b : SwapBasis) (tokenIn tokenOut : Nat) (net : Amount) :
    Except MathError Fixed := do
  let scaledIn ← b.scaling.upscale tokenIn net
  ((Curve.outGivenIn b.amplification tokenIn tokenOut scaledIn).run b.scaled).1

/-- The input, in the common unit and before the fee, for an output. -/
def scaledIn (b : SwapBasis) (tokenIn tokenOut : Nat) (amountOut : Amount) :
    Except MathError Fixed := do
  let scaledOut ← b.scaling.upscaleUp tokenOut amountOut
  ((Curve.inGivenOut b.amplification tokenIn tokenOut scaledOut).run b.scaled).1

/-- The trade with a fixed input. -/
def givenIn (b : SwapBasis) (tokenIn tokenOut : Nat) (amount : Amount) (least : Option Amount) :
    Except PoolError SwapAmounts := do
  let net ← (subtractSwapFee amount b.swapFee).mapError .ofMath
  if net = 0 then
    throw (.invalidSwap .nothingAfterFee)
  let scaledOut ← (b.scaledOut tokenIn tokenOut net).mapError .ofMath
  let amountOut ← (b.scaling.downscaleDown tokenOut scaledOut).mapError .ofMath
  if amountOut = 0 then
    throw (.invalidSwap .nothingOut)
  let minimum := least.getD 0
  if amountOut < minimum then
    throw (.belowMinimum amountOut minimum)
  return ⟨amount, amountOut, amount.monus net⟩

/-- The trade with a fixed output. -/
def givenOut (b : SwapBasis) (tokenIn tokenOut : Nat) (amount : Amount) (most : Option Amount) :
    Except PoolError SwapAmounts := do
  if b.balances.getD tokenOut 0 ≤ amount then
    throw (.insufficientBalance .tokenBalance)
  let scaledIn ← (b.scaledIn tokenIn tokenOut amount).mapError .ofMath
  let net ← (b.scaling.downscaleUp tokenIn scaledIn).mapError .ofMath
  let amountIn ← (addSwapFee net b.swapFee).mapError .ofMath
  let maximum := most.getD .greatest
  if maximum < amountIn then
    throw (.aboveMaximum amountIn maximum)
  return ⟨amountIn, amount, amountIn.monus net⟩

/-- The amounts of a requested trade. -/
def compute (b : SwapBasis) (request : SwapRequest) : Except PoolError SwapAmounts := do
  if request.tokenIn = request.tokenOut then
    throw (.invalidSwap .sameToken)
  if request.amount = 0 then
    throw (.invalidSwap .zeroAmount)
  match request.kind with
  | .givenIn => b.givenIn request.tokenIn request.tokenOut request.amount request.limit
  | .givenOut => b.givenOut request.tokenIn request.tokenOut request.amount request.limit

end SwapBasis

end StableSwap
