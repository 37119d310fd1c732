import StableSwap.Fixed

/-!
# The invariant

Balances `x₁ … xₙ`, scaled to a common unit, lie on the curve with invariant `D` and amplification
`A` when

    A·n·(x₁ + … + xₙ) + D = A·n·D + Dⁿ⁺¹ / (nⁿ·x₁ ⋯ xₙ).

The amplification is given at the precision `precision`, so `Ann / precision` below is `A·n`.

`invariant` solves the equation for `D` by Newton's method, starting from the sum of the balances
and rounding down. It repeats a step until two successive values differ by at most one (`iterate`).
The number of rounds is bounded; running out of them is a failure of its own.
-/

namespace StableSwap.Curve

/-- The rounds an iteration may take. -/
def maxRounds : Nat := 255

/-- Repeats `step` from `x` until it moves by at most one, for at most the given number of
rounds. -/
def iterate (step : Amount → Except MathError Amount) (failure : MathError) :
    Nat → Amount → Except MathError Amount
  | 0, _ => .error failure
  | rounds + 1, x => do
    let next ← step x
    if next.dist x ≤ 1 then
      return next
    else
      iterate step failure rounds next

/-- The denominator of an amplification as the curve takes it. -/
def precision : Amount := 1000

/-- The sum of balances. -/
def total (balances : List Fixed) : Except MathError Fixed :=
  balances.foldlM Fixed.add 0

/-- `Dⁿ⁺¹ / (nⁿ·x₁ ⋯ xₙ)`: the value `D` multiplied by `D / (n·xᵢ)` for each balance in turn, each
product rounded down. -/
def productTerm (n D : Amount) (balances : List Fixed) : Except MathError Amount :=
  balances.foldlM (fun term balance => do
    let divisor ← balance.wei.mul n
    Amount.mulDivDown term D divisor) D

/-- One step of Newton's method from `D`, for the amplification `Ann` of all `n` tokens and the sum
`S` of the balances. -/
def invariantStep (Ann n S : Amount) (balances : List Fixed) (D : Amount) :
    Except MathError Amount := do
  let term ← productTerm n D balances
  let amplifiedSum ← Amount.mulDivDown Ann S precision
  let weightedTerm ← term.mul n
  let numerator ← amplifiedSum.add weightedTerm
  let excess ← Ann.sub precision
  let amplifiedD ← Amount.mulDivDown excess D precision
  let next ← n.add 1
  let heavierTerm ← next.mul term
  let denominator ← amplifiedD.add heavierTerm
  Amount.mulDivDown numerator D denominator

/-- The invariant of balances at an amplification. It is zero where some balance is zero, and the
balance itself where there is one token only. -/
def invariant (amplification : Amount) (balances : List Fixed) : Except MathError Amount := do
  let sum ← total balances
  if sum = 0 ∨ 0 ∈ balances then
    return 0
  else if balances.length = 1 then
    return sum.wei
  else do
    let n ← Amount.count balances.length
    let Ann ← amplification.mul n
    iterate (invariantStep Ann n sum.wei balances) .invariantDidNotConverge maxRounds sum.wei

end StableSwap.Curve
