import StableSwap.Curve.Invariant

/-!
# One balance from the others

With the invariant `D` and all balances but one known, the missing balance `y` solves the quadratic
`y² + b·y = c + D·y`. The coefficients (`coefficients`) and every step of Newton's method
(`balanceStep`) are rounded so that the answer is not below the exact one.
-/

namespace StableSwap.Curve

/-- The coefficients of the quadratic `y² + b·y = c + D·y` of a missing balance. -/
structure Quadratic where
  /-- The sum of the other balances and `D / (A·n)`. -/
  b : Amount
  /-- `Dⁿ⁺¹ / (A·n·nⁿ)`, divided by the product of the other balances. -/
  c : Amount
  deriving DecidableEq

/-- `Dⁿ / nⁿ⁻¹` divided by the product of the other balances, each product rounded up, and their
sum. -/
def otherTerms (n D : Amount) : Amount → Amount → List Fixed → Except MathError (Amount × Amount)
  | term, sum, [] => .ok (term, sum)
  | term, sum, balance :: rest => do
    let divisor ← balance.wei.mul n
    let term ← Amount.mulDivUp term D divisor
    let sum ← sum.add balance.wei
    otherTerms n D term sum rest

/-- The quadratic of the balance at an index. An index outside of the list names a balance besides
all of those listed. -/
def coefficients (amplification : Amount) (balances : List Fixed) (D : Amount) (index : Nat) :
    Except MathError Quadratic := do
  let n ← Amount.count balances.length
  let Ann ← amplification.mul n
  let (term, sum) ← otherTerms n D D 0 (balances.eraseIdx index)
  let scaledD ← D.mul precision
  let divisor ← Ann.mul n
  let c ← Amount.mulDivUp term scaledD divisor
  let share ← Amount.mulDivDown D precision Ann
  let b ← sum.add share
  return ⟨b, c⟩

/-- The value the iteration starts from. -/
def balanceStart (q : Quadratic) (D : Amount) : Except MathError Amount := do
  let square ← D.mul D
  let numerator ← square.add q.c
  let denominator ← D.add q.b
  numerator.divUp denominator

/-- One step of Newton's method from `y`. -/
def balanceStep (q : Quadratic) (D y : Amount) : Except MathError Amount := do
  let square ← y.mul y
  let numerator ← square.add q.c
  let double ← y.mul 2
  let sum ← double.add q.b
  let denominator ← sum.sub D
  numerator.divUp denominator

/-- The balance at an index that, with the other balances, has the invariant `D`. -/
def missingBalance (amplification : Amount) (balances : List Fixed) (D : Amount) (index : Nat) :
    Except MathError Fixed :=
  if balances.length = 1 then
    .ok ⟨D⟩
  else do
    let q ← coefficients amplification balances D index
    let start ← balanceStart q D
    let y ← iterate (balanceStep q D) .balanceDidNotConverge maxRounds start
    return ⟨y⟩

end StableSwap.Curve
