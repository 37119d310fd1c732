import StableSwap.Liquidity
import StableSwap.Mutation
import StableSwap.Swap

/-!
# The pool

A pool is its configuration, the rates known of its tokens, its ledger, and the snapshot of its last
settlement. An operation is a change of the pool (`Change`): it answers an outcome and replaces parts
of the pool, or fails. `Pool.refresh`, `Pool.joinExit` and `Pool.swap` are the outcome of a change
together with the pool after it.

* `Change.refresh` asks for the rate of a token.
* `Change.joinExit` and `Change.swap` settle protocol fees, compute a movement, and book it. A join
  or exit takes a new snapshot afterwards, so its own change of the invariant is no growth.
* `Pool.invariant`, `Pool.actualSupply` and `Pool.shareRate` only look.
-/

namespace StableSwap

/-- What an operation depends on besides the pool. -/
structure Context where
  /-- The time in seconds. -/
  timestamp : Nat
  amplification : Amplification
  protocolFees : ProtocolFees

/-- Shares minted to the recipient of protocol fees. -/
structure FeeMint where
  recipient : Address
  amount : Amount
  deriving DecidableEq

/-- The result of a trade. -/
structure SwapOutcome where
  amounts : SwapAmounts
  /-- The protocol fee settled before. -/
  protocolFee : FeeMint
  deriving DecidableEq

/-- The result of a join or exit. -/
structure LiquidityOutcome where
  kind : String
  flow : Flow
  /-- The shares minted to or burned from the caller. -/
  shares : Amount
  amounts : List Amount
  /-- The protocol fee settled before. -/
  protocolFee : FeeMint
  deriving DecidableEq

/-- A pool: its configuration, what it holds, and what it remembers. -/
structure Pool where
  config : Config
  /-- What is known of each token's rate. -/
  caches : List RateCache
  ledger : Ledger
  /-- The last settlement, if the pool was ever joined. -/
  snapshot : Option Snapshot

namespace Pool

/-- A pool that nobody joined. -/
def ofConfig (config : Config) : Pool where
  config := config
  caches := config.tokens.map RateCache.ofToken
  ledger := .empty config.tokenCount
  snapshot := none

/-- A change of a pool. What it replaced stays replaced when it fails. -/
abbrev Change (α : Type) : Type := Mutation PoolError Pool α

/-- The rates of all tokens, which must be fresh. -/
def rates (p : Pool) (now : Nat) : Except PoolError (List Fixed) :=
  currentRates p.config.tokens p.caches now

/-- The factors of the tokens at given rates. -/
def scaling (p : Pool) (rates : List Fixed) : Except PoolError Scaling :=
  (Scaling.ofRates p.config.tokens rates).mapError .ofMath

/-! ### Refreshing rates -/

/-- The token and what is known of its rate at an index. -/
def tokenAt (p : Pool) (index : Nat) : Except PoolError (Token × RateCache) :=
  match p.config.tokens[index]?, p.caches[index]? with
  | some token, some cache => .ok (token, cache)
  | _, _ => .error (.invalidTokenIndex (.index index))

/-- Records what the provider of the token at an index answered. The result is the rate that is now
in use, which is zero if a rate is never fresh. -/
def Change.refresh (index : Nat) (answer : ProviderAnswer) (now : Nat) : Change Fixed := do
  let (token, cache) ← Mutation.query (·.tokenAt index)
  let cache ← (cache.refreshed token answer now : Except PoolError RateCache)
  let rate := (cache.rateAt now).getD 0
  modify fun p => { p with caches := p.caches.set index cache }
  return rate

/-- The rate in use after a refresh, and the pool. -/
def refresh (p : Pool) (index : Nat) (answer : ProviderAnswer) (now : Nat) :
    Except PoolError (Fixed × Pool) := (Change.refresh index answer now).result p

/-! ### Settling protocol fees -/

/-- A pool's ledger and snapshot after settling, and what was minted. -/
structure Settled where
  /-- The ledger with the minted shares. -/
  ledger : Ledger
  snapshot : Snapshot
  protocolFee : FeeMint

/-- Settles the protocol fees at given rates. -/
def settle (p : Pool) (rates : List Fixed) (ctx : Context) : Except PoolError Settled :=
  match p.snapshot with
  | none => .error .notInitialized
  | some snapshot => do
    let settlement ← snapshot.settle p.config.tokens ctx.protocolFees p.ledger.balances rates
      p.ledger.supply
    let ledger ← p.ledger.mint settlement.minted
    return ⟨ledger, settlement.snapshot, ⟨ctx.protocolFees.recipient, settlement.minted⟩⟩

/-! ### Joins and exits -/

/-- A booked join or exit, before the new snapshot. -/
structure Booking where
  ledger : Ledger
  /-- The shares minted to or burned from the caller. -/
  shares : Amount
  amounts : List Amount
  /-- The protocol fee settled before. -/
  protocolFee : FeeMint

/-- Books the first join. The locked shares are minted to nobody. -/
def bookFirst (p : Pool) (amountsIn : List Amount) (scaling : Scaling) (ctx : Context) :
    Except PoolError Booking :=
  if p.ledger.isInitialized then
    .error .alreadyInitialized
  else do
    let delta ← firstJoin amountsIn ctx.amplification.scaled scaling
    let ledger ← p.ledger.apply delta
    return ⟨ledger, delta.shares.monus lockedShares, delta.amounts,
      ⟨ctx.protocolFees.recipient, 0⟩⟩

/-- What a join or exit is computed against once the fees are settled. -/
def liquidityBasis (p : Pool) (settled : Settled) (scaling : Scaling) (ctx : Context) :
    Except PoolError LiquidityBasis := do
  let scaled ← (scaling.upscaleAll settled.ledger.balances).mapError .ofMath
  let invariant ← (Curve.invariant ctx.amplification.scaled scaled).mapError .ofMath
  return {
    amplification := ctx.amplification.scaled
    swapFee := p.config.swapFee
    scaling := scaling
    balances := settled.ledger.balances
    scaled := scaled
    supply := settled.ledger.supply
    invariant := invariant }

/-- Books a join or exit other than the first. -/
def bookLater (p : Pool) (request : LiquidityRequest) (rates : List Fixed) (scaling : Scaling)
    (ctx : Context) : Except PoolError Booking := do
  let settled ← p.settle rates ctx
  let basis ← p.liquidityBasis settled scaling ctx
  let delta ← basis.compute request
  let ledger ← settled.ledger.apply delta
  return ⟨ledger, delta.shares, delta.amounts, settled.protocolFee⟩

/-- Books a join or exit. -/
def book (p : Pool) (request : LiquidityRequest) (rates : List Fixed) (scaling : Scaling)
    (ctx : Context) : Except PoolError Booking :=
  match request with
  | .init amountsIn => p.bookFirst amountsIn scaling ctx
  | request => p.bookLater request rates scaling ctx

/-- The snapshot of a ledger at given rates. -/
def snapshotOf (ledger : Ledger) (rates : List Fixed) (scaling : Scaling) (ctx : Context) :
    Except PoolError Snapshot := do
  let scaled ← (scaling.upscaleAll ledger.balances).mapError .ofMath
  let invariant ← (Curve.invariant ctx.amplification.scaled scaled).mapError .ofMath
  return ⟨invariant, ledger.supply, ctx.amplification.scaled, rates⟩

/-- Performs a join or exit. -/
def Change.joinExit (request : LiquidityRequest) (ctx : Context) : Change LiquidityOutcome := do
  let rates ← Mutation.query (·.rates ctx.timestamp)
  let scaling ← Mutation.query (·.scaling rates)
  let booking ← Mutation.query (·.book request rates scaling ctx)
  let snapshot ← (snapshotOf booking.ledger rates scaling ctx : Except PoolError Snapshot)
  let outcome : LiquidityOutcome :=
    ⟨request.kindName, request.flow, booking.shares, booking.amounts, booking.protocolFee⟩
  modify fun p => { p with ledger := booking.ledger }
  modify fun p => { p with snapshot := some snapshot }
  return outcome

/-- The outcome of a join or exit, and the pool after it. -/
def joinExit (p : Pool) (request : LiquidityRequest) (ctx : Context) :
    Except PoolError (LiquidityOutcome × Pool) := (Change.joinExit request ctx).result p

/-! ### Trades -/

/-- What a trade is computed against once the fees are settled. -/
def swapBasis (p : Pool) (settled : Settled) (scaling : Scaling) (ctx : Context) :
    Except PoolError SwapBasis := do
  let scaled ← (scaling.upscaleAll settled.ledger.balances).mapError .ofMath
  return {
    amplification := ctx.amplification.scaled
    swapFee := p.config.swapFee
    scaling := scaling
    balances := settled.ledger.balances
    scaled := scaled }

/-- Performs a trade. -/
def Change.swap (request : SwapRequest) (ctx : Context) : Change SwapOutcome := do
  Mutation.query (·.config.checkIndex request.tokenIn)
  Mutation.query (·.config.checkIndex request.tokenOut)
  let rates ← Mutation.query (·.rates ctx.timestamp)
  let scaling ← Mutation.query (·.scaling rates)
  let settled ← Mutation.query (·.settle rates ctx)
  let basis ← Mutation.query (·.swapBasis settled scaling ctx)
  let amounts ← (basis.compute request : Except PoolError SwapAmounts)
  let ledger ← (settled.ledger.swap request.tokenIn amounts.amountIn request.tokenOut
    amounts.amountOut : Except PoolError Ledger)
  modify fun p => { p with ledger := ledger }
  modify fun p => { p with snapshot := some settled.snapshot }
  return ⟨amounts, settled.protocolFee⟩

/-- The outcome of a trade, and the pool after it. -/
def swap (p : Pool) (request : SwapRequest) (ctx : Context) :
    Except PoolError (SwapOutcome × Pool) := (Change.swap request ctx).result p

/-! ### Looking -/

/-- The balances in the common unit. -/
def scaledBalances (p : Pool) (now : Nat) : Except PoolError (List Fixed) :=
  StableSwap.scaledBalances p.ledger.balances p.config.tokens p.caches now

/-- The invariant of the balances. -/
def invariant (p : Pool) (ctx : Context) : Except PoolError Amount := do
  let scaled ← p.scaledBalances ctx.timestamp
  (Curve.invariant ctx.amplification.scaled scaled).mapError .ofMath

/-- The shares in circulation once the fees are settled. -/
def actualSupply (p : Pool) (ctx : Context) : Except PoolError Amount :=
  if p.ledger.isInitialized then do
    let rates ← p.rates ctx.timestamp
    let settled ← p.settle rates ctx
    return settled.ledger.supply
  else
    .ok 0

/-- What one share is worth in units of the invariant. -/
def shareRate (p : Pool) (ctx : Context) : Except PoolError Fixed := do
  let supply ← p.actualSupply ctx
  if supply = 0 then
    throw .notInitialized
  let invariant ← p.invariant ctx
  (Fixed.divDown ⟨invariant⟩ ⟨supply⟩).mapError .ofMath

end Pool

end StableSwap
