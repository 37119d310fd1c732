import StableSwap.Curve.Balance

/-!
# Shares of unbalanced joins and exits

A join or exit that moves the tokens in other proportions than the pool holds them is in part a
trade. That part, the taxable one, pays the swap fee; the proportional part does not.

* `sharesOutForExactIn`, `sharesInForExactOut`: all amounts are given, the shares follow from the
  invariant of the balances after the fee (`balancesAfterJoin`, `balancesAfterExit`).
* `tokenInForExactShares`, `tokenOutForExactShares`: the shares are given, the amount of one token
  follows from the invariant they stand for (`invariantAfterJoin`, `invariantAfterExit`).
-/

namespace StableSwap.Curve

/-! ### All amounts given -/

/-- For each balance and the amount added to it, the ratio of the balance after to the balance
before; and their mean, weighted by the shares of the balances in `sum`, added to `mean`. -/
def joinRatios (sum : Fixed) : Fixed → List (Fixed × Fixed) →
    Except MathError (Fixed × List Fixed)
  | mean, [] => .ok (mean, [])
  | mean, (balance, amountIn) :: rest => do
    let weight ← balance.divDown sum
    let after ← balance.add amountIn
    let ratio ← after.divDown balance
    let part ← ratio.mulDown weight
    let mean ← mean.add part
    let (mean, ratios) ← joinRatios sum mean rest
    return (mean, ratio :: ratios)

/-- The balance after a join: the fee is withheld on what the token grew beyond the mean ratio. -/
def balanceAfterJoin (mean fee : Fixed) (balance amountIn ratio : Fixed) :
    Except MathError Fixed := do
  let net ←
    if mean < ratio then do
      let nonTaxable ←
        if 1 < mean then do
          let growth ← mean.sub 1
          balance.mulDown growth
        else
          Except.ok 0
      let taxable ← amountIn.sub nonTaxable
      let withheld ← taxable.mulUp fee
      amountIn.sub withheld
    else
      Except.ok amountIn
  balance.add net

/-- The balances after a join with all amounts given, less the fee. -/
def balancesAfterJoin (balances amountsIn : List Fixed) (fee : Fixed) :
    Except MathError (List Fixed) := do
  let sum ← total balances
  let pairs := balances.zip amountsIn
  let (mean, ratios) ← joinRatios sum 0 pairs
  (pairs.zip ratios).mapM fun ((balance, amountIn), ratio) =>
    balanceAfterJoin mean fee balance amountIn ratio

/-- The shares minted for given amounts of all tokens, rounded down. -/
def sharesOutForExactIn (amplification : Amount) (balances amountsIn : List Fixed)
    (supply D : Amount) (fee : Fixed) : Except MathError Amount := do
  let after ← balancesAfterJoin balances amountsIn fee
  let D' ← invariant amplification after
  let ratio ← Fixed.divDown ⟨D'⟩ ⟨D⟩
  if 1 < ratio then do
    let growth ← ratio.sub 1
    let shares ← Fixed.mulDown ⟨supply⟩ growth
    return shares.wei
  else
    return 0

/-- For each balance and the amount taken from it, the ratio of the balance after to the balance
before; and their mean, weighted by the shares of the balances in `sum`, added to `mean`. -/
def exitRatios (sum : Fixed) : Fixed → List (Fixed × Fixed) →
    Except MathError (Fixed × List Fixed)
  | mean, [] => .ok (mean, [])
  | mean, (balance, amountOut) :: rest => do
    let weight ← balance.divUp sum
    let after ← balance.sub amountOut
    let ratio ← after.divUp balance
    let part ← ratio.mulUp weight
    let mean ← mean.add part
    let (mean, ratios) ← exitRatios sum mean rest
    return (mean, ratio :: ratios)

/-- What an exit costs a balance: the fee is charged on what the token shrank beyond the mean
ratio. -/
def amountWithFee (mean fee : Fixed) (balance amountOut ratio : Fixed) :
    Except MathError Fixed :=
  if ratio < mean then do
    let nonTaxable ← balance.mulDown mean.complement
    let taxable ← amountOut.sub nonTaxable
    let charged ← taxable.divUp fee.complement
    nonTaxable.add charged
  else
    .ok amountOut

/-- The balance after an exit. -/
def balanceAfterExit (mean fee : Fixed) (balance amountOut ratio : Fixed) :
    Except MathError Fixed := do
  let gross ← amountWithFee mean fee balance amountOut ratio
  balance.sub gross

/-- The balances after an exit with all amounts given, less the fee. -/
def balancesAfterExit (balances amountsOut : List Fixed) (fee : Fixed) :
    Except MathError (List Fixed) := do
  let sum ← total balances
  let pairs := balances.zip amountsOut
  let (mean, ratios) ← exitRatios sum 0 pairs
  (pairs.zip ratios).mapM fun ((balance, amountOut), ratio) =>
    balanceAfterExit mean fee balance amountOut ratio

/-- The shares burned for given amounts of all tokens, rounded up. -/
def sharesInForExactOut (amplification : Amount) (balances amountsOut : List Fixed)
    (supply D : Amount) (fee : Fixed) : Except MathError Amount := do
  let after ← balancesAfterExit balances amountsOut fee
  let D' ← invariant amplification after
  let ratio ← Fixed.divDown ⟨D'⟩ ⟨D⟩
  let shares ← Fixed.mulUp ⟨supply⟩ ratio.complement
  return shares.wei

/-! ### Shares given -/

/-- The invariant the pool has to reach for minting `shares` on top of `supply`, rounded up. -/
def invariantAfterJoin (shares supply D : Amount) : Except MathError Amount := do
  let after ← Fixed.add ⟨supply⟩ ⟨shares⟩
  let ratio ← after.divUp ⟨supply⟩
  let D' ← ratio.mulUp ⟨D⟩
  return D'.wei

/-- The invariant the pool has to keep for burning `shares` of `supply`, rounded up. -/
def invariantAfterExit (shares supply D : Amount) : Except MathError Amount := do
  let after ← Fixed.sub ⟨supply⟩ ⟨shares⟩
  let ratio ← after.divUp ⟨supply⟩
  let D' ← ratio.mulUp ⟨D⟩
  return D'.wei

/-- The part of an amount of one token that is a trade: all but the share of its balance in the sum
of the balances. The rest is returned first. -/
def splitTaxable (balances : List Fixed) (index : Nat) (amount : Fixed) :
    Except MathError (Fixed × Fixed) := do
  let sum ← total balances
  let weight ← (balances.getD index 0).divDown sum
  let taxable ← amount.mulUp weight.complement
  let nonTaxable ← amount.sub taxable
  return (nonTaxable, taxable)

/-- What a join pays of one token for given shares. -/
def tokenInForExactShares (amplification : Amount) (balances : List Fixed) (index : Nat)
    (shares supply D : Amount) (fee : Fixed) : Except MathError Fixed := do
  let D' ← invariantAfterJoin shares supply D
  let after ← missingBalance amplification balances D' index
  let net ← after.sub (balances.getD index 0)
  let (nonTaxable, taxable) ← splitTaxable balances index net
  let charged ← taxable.divUp fee.complement
  nonTaxable.add charged

/-- What an exit receives of one token for given shares. -/
def tokenOutForExactShares (amplification : Amount) (balances : List Fixed) (index : Nat)
    (shares supply D : Amount) (fee : Fixed) : Except MathError Fixed := do
  let D' ← invariantAfterExit shares supply D
  let after ← missingBalance amplification balances D' index
  let gross ← (balances.getD index 0).sub after
  let (nonTaxable, taxable) ← splitTaxable balances index gross
  let paid ← taxable.mulDown fee.complement
  nonTaxable.add paid

end StableSwap.Curve
