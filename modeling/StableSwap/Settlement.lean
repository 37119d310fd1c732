import StableSwap.Ledger
import StableSwap.Scaling

/-!
# Settlement of protocol fees

Between two settlements the invariant grows through fees paid by trades and through rising rates.
The protocol takes its share of both in newly minted pool shares, which dilute the other holders.

* `Snapshot.growth` computes the invariant of the balances under three sets of rates: the old ones,
  the current ones of tokens that owe yield fees, and all current ones. What the first exceeds the
  snapshot by came from trades, what the second adds to that is yield that owes fees.
* `Snapshot.settle` mints for the growth and takes a new snapshot. Where nothing grew, nothing is
  minted and the old snapshot stays, so a later recovery is not charged twice.
-/

namespace StableSwap

/-- The pool at its last settlement. -/
structure Snapshot where
  invariant : Amount
  supply : Amount
  /-- The amplification the invariant was computed with. -/
  amplification : Amount
  rates : List Fixed
  deriving DecidableEq

/-- The invariants of the same balances under three sets of rates. -/
structure Growth where
  /-- At the rates of the snapshot. -/
  swapFee : Amount
  /-- At the current rates, those of exempt tokens excepted. -/
  nonExempt : Amount
  /-- At the current rates. -/
  total : Amount
  deriving DecidableEq

/-- What a settlement does. -/
structure Settlement where
  minted : Amount
  snapshot : Snapshot
  deriving DecidableEq

/-- The rate of a token without the yield that is free of fees. -/
def Token.chargedRate (token : Token) (old current : Fixed) : Fixed :=
  if token.exemptFromYieldFee then old else current

/-- The rates of tokens without the yield that is free of fees. -/
def chargedRates (tokens : List Token) (old current : List Fixed) : List Fixed :=
  (tokens.zip (old.zip current)).map fun (token, old, current) => token.chargedRate old current

/-- The invariant of raw balances at given rates. -/
def invariantAt (amplification : Amount) (tokens : List Token) (balances : List Amount)
    (rates : List Fixed) : Except MathError Amount := do
  let scaling ← Scaling.ofRates tokens rates
  let scaled ← scaling.upscaleAll balances
  Curve.invariant amplification scaled

namespace Snapshot

/-- The invariants of the balances under the three sets of rates. -/
def growth (s : Snapshot) (tokens : List Token) (balances : List Amount)
    (currentRates : List Fixed) : Except MathError Growth := do
  let swapFee ← invariantAt s.amplification tokens balances s.rates
  let nonExempt ←
    invariantAt s.amplification tokens balances (chargedRates tokens s.rates currentRates)
  let total ← invariantAt s.amplification tokens balances currentRates
  return ⟨swapFee, nonExempt, total⟩

end Snapshot

namespace Growth

/-- The growth that came from trades. -/
def fromSwaps (g : Growth) (previous : Amount) : Amount := g.swapFee.monus previous

/-- The growth that came from yield that owes fees. -/
def fromYield (g : Growth) (previous : Amount) : Amount :=
  g.nonExempt.monus (max g.swapFee previous)

/-- What the protocol is owed, in units of the invariant. -/
def protocolValue (g : Growth) (fees : ProtocolFees) (previous : Amount) :
    Except MathError Fixed := do
  let fromSwaps ← Fixed.mulDown ⟨g.fromSwaps previous⟩ fees.swapShare
  let fromYield ← Fixed.mulDown ⟨g.fromYield previous⟩ fees.yieldShare
  fromSwaps.add fromYield

/-- The share of the pool the protocol is owed. -/
def ownership (g : Growth) (fees : ProtocolFees) (previous : Amount) :
    Except MathError Fixed := do
  let value ← g.protocolValue fees previous
  value.divDown ⟨g.total⟩

/-- The shares to mint on top of `supply` so that the protocol owns what it is owed: with an
ownership `p`, these are `supply · p / (1 - p)`. -/
def sharesOwed (g : Growth) (fees : ProtocolFees) (previous supply : Amount) :
    Except MathError Amount := do
  let p ← g.ownership fees previous
  if p = 0 then
    return 0
  else do
    let part ← Fixed.mulDown ⟨supply⟩ p
    let shares ← part.divDown p.complement
    return shares.wei

end Growth

/-- Failed arithmetic as a failed settlement: only an iteration that ran out of rounds keeps its
cause. -/
def feeError (cause : MathError) : PoolError :=
  if cause.isConvergence then .convergenceFailure cause else .feeOverflow

/-- Settles the fees since a snapshot, for the balances and shares the pool has now. -/
def Snapshot.settle (s : Snapshot) (tokens : List Token) (fees : ProtocolFees)
    (balances : List Amount) (currentRates : List Fixed) (supply : Amount) :
    Except PoolError Settlement := do
  let growth ← (s.growth tokens balances currentRates).mapError feeError
  if growth.total ≤ s.invariant then
    return ⟨0, s⟩
  else do
    let minted ←
      if fees.isZero then Except.ok 0
      else (growth.sharesOwed fees s.invariant supply).mapError feeError
    let supply ← (supply.add minted).mapError fun _ => PoolError.feeOverflow
    return ⟨minted, ⟨growth.total, supply, s.amplification, currentRates⟩⟩

end StableSwap
