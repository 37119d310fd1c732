import StableSwap.Rates

/-!
# Scaling

The curve works on amounts in a common unit with eighteen decimals. A raw amount of a token is
brought there by the token's factor, `10^(18 - decimals) · rate`, and back by dividing by it. The
direction of rounding is in the name of each function; the ones the pool uses round in its favour.

Nothing here is meant for a token of more than eighteen decimals, which no configuration has, or for
an index or an amount that has no factor. There the functions are total by truncation, and their
answers mean nothing: the difference of decimals stops at zero (`factor`), the factor is zero
(`factorAt`), and the amount is left out (`upscaleAll`, `upscaleAllUp`).
-/

namespace StableSwap

/-- The factor of each token, in index order. -/
structure Scaling where
  factors : List Fixed
  deriving DecidableEq

namespace Scaling

/-- The factor of a token at a rate. More than eighteen decimals count as eighteen. -/
def factor (token : Token) (rate : Fixed) : Except MathError Fixed :=
  (Fixed.tenPow ⟨maxDecimals - token.decimals, by unfold maxDecimals; omega⟩).mulDown rate

/-- The factors of tokens at their rates. -/
def ofRates (tokens : List Token) (rates : List Fixed) : Except MathError Scaling :=
  ((tokens.zip rates).mapM fun (token, rate) => factor token rate).map mk

/-- The number of tokens. -/
def tokenCount (s : Scaling) : Nat := s.factors.length

/-- The factor at an index, and zero where there is none. -/
def factorAt (s : Scaling) (index : Nat) : Fixed := s.factors.getD index 0

/-- A raw amount in the common unit, rounded down. -/
def upscale (s : Scaling) (index : Nat) (amount : Amount) : Except MathError Fixed :=
  Fixed.mulDown ⟨amount⟩ (s.factorAt index)

/-- A raw amount in the common unit, rounded up. -/
def upscaleUp (s : Scaling) (index : Nat) (amount : Amount) : Except MathError Fixed :=
  Fixed.mulUp ⟨amount⟩ (s.factorAt index)

/-- Raw amounts of all tokens in the common unit, rounded down. Amounts beyond the last factor are left
out. -/
def upscaleAll (s : Scaling) (amounts : List Amount) : Except MathError (List Fixed) :=
  (amounts.zip s.factors).mapM fun (amount, factor) => Fixed.mulDown ⟨amount⟩ factor

/-- Raw amounts of all tokens in the common unit, rounded up. Amounts beyond the last factor are left
out. -/
def upscaleAllUp (s : Scaling) (amounts : List Amount) : Except MathError (List Fixed) :=
  (amounts.zip s.factors).mapM fun (amount, factor) => Fixed.mulUp ⟨amount⟩ factor

/-- The raw amount for an amount in the common unit, rounded up. -/
def downscaleUp (s : Scaling) (index : Nat) (amount : Fixed) : Except MathError Amount :=
  (amount.divUp (s.factorAt index)).map Fixed.wei

/-- The raw amount for an amount in the common unit, rounded down. -/
def downscaleDown (s : Scaling) (index : Nat) (amount : Fixed) : Except MathError Amount :=
  (amount.divDown (s.factorAt index)).map Fixed.wei

end Scaling

/-- Raw balances in the common unit at the current rates. -/
def scaledBalances (balances : List Amount) (tokens : List Token) (caches : List RateCache)
    (now : Nat) : Except PoolError (List Fixed) := do
  let rates ← currentRates tokens caches now
  let scaling ← (Scaling.ofRates tokens rates).mapError .ofMath
  (scaling.upscaleAll balances).mapError .ofMath

end StableSwap
