import StableSwap.Pool

/-!
# Simulations

A simulation is a pool with its rates and first balances at one point in time. Running a command on
it asks for all rates, performs the first join, performs the command's operation, and reports the
outcome and the state of the pool after it.
-/

namespace StableSwap

/-- A pool to be simulated. -/
structure Simulation where
  config : Config
  protocolFees : ProtocolFees
  /-- The time of all operations, in seconds. -/
  timestamp : Nat
  /-- What the providers answer, by token; the first entry of a token counts. -/
  rates : List (Address × Fixed)
  /-- The raw amounts of the first join. -/
  balances : List Amount

/-- What to do with the pool: report it, trade between tokens given by address, or join or exit with all
tokens in proportion. -/
inductive Command where
  | state
  | swap (tokenIn tokenOut : Address) (amount : Amount) (givenOut : Bool) (limit : Option Amount)
  | joinProportional (sharesOut : Amount)
  | exitProportional (sharesIn : Amount)
  deriving DecidableEq

/-- The result of a command's operation. -/
inductive Outcome where
  | swap (outcome : SwapOutcome)
  | liquidity (outcome : LiquidityOutcome)
  deriving DecidableEq

/-- The state of a pool as it is reported. -/
structure PoolState where
  registeredTokens : List Address
  balances : List Amount
  supply : Amount
  /-- The shares in circulation once the fees are settled. -/
  actualSupply : Amount
  invariant : Amount
  /-- What one share is worth in units of the invariant. -/
  rate : Fixed
  deriving DecidableEq

/-- What a simulation reports: the outcome of the operation, if the command has one, and the state of
the pool after it. -/
structure Report where
  outcome : Option Outcome
  state : PoolState
  deriving DecidableEq

/-- Why a simulation has no report. -/
inductive SimulationError where
  /-- There is no rate for a token that has a provider. -/
  | missingRate (token : Address)
  | initializing (cause : PoolError)
  | operation (cause : PoolError)
  deriving DecidableEq

namespace SimulationError

/-- The failed operation of the pool, if that is the reason. -/
def poolError? : SimulationError → Option PoolError
  | missingRate _ => none
  | initializing cause | operation cause => some cause

/-- The wordings of a reason and of the reasons behind it. -/
def messages : SimulationError → List String
  | missingRate token => ["missing rate for token " ++ token.toText]
  | initializing cause => "initializing pool" :: cause.message :: cause.sourceMessage?.toList
  | operation cause => cause.message :: cause.sourceMessage?.toList

/-- The wordings in one line. -/
def message (e : SimulationError) : String := ": ".intercalate e.messages

end SimulationError

/-- The reported state of a pool. -/
def Pool.state (p : Pool) (ctx : Context) : Except PoolError PoolState := do
  let actualSupply ← p.actualSupply ctx
  let invariant ← p.invariant ctx
  let rate ← p.shareRate ctx
  return {
    registeredTokens := p.config.registeredTokens
    balances := p.ledger.balances
    supply := p.ledger.supply
    actualSupply := actualSupply
    invariant := invariant
    rate := rate }

namespace Simulation

/-- What all operations depend on. -/
def context (sim : Simulation) : Context where
  timestamp := sim.timestamp
  amplification := sim.config.amplification
  protocolFees := sim.protocolFees

/-- The tokens with a provider, by index, with the rates they are to have. -/
def ratedTokens (sim : Simulation) : Except SimulationError (List (Nat × Fixed)) :=
  (sim.config.tokens.zipIdx.filter fun (token, _) => token.rateProvider.isSome).mapM
    fun (token, index) =>
      match sim.rates.lookup token.address with
      | some rate => .ok (index, rate)
      | none => .error (.missingRate token.address)

/-- Records the rates of tokens. -/
def refreshAll (sim : Simulation) (rated : List (Nat × Fixed)) (pool : Pool) :
    Except PoolError Pool :=
  rated.foldlM (fun pool (index, rate) => do
    let (_, pool) ← pool.refresh index (.rate rate.wei) sim.timestamp
    return pool) pool

/-- The pool after all rates were asked for and the first join. -/
def start (sim : Simulation) : Except SimulationError Pool := do
  let rated ← sim.ratedTokens
  let pool ← (sim.refreshAll rated (.ofConfig sim.config)).mapError .operation
  let (_, pool) ← (pool.joinExit (.init sim.balances) sim.context).mapError .initializing
  return pool

/-- Performs the operation of a command. -/
def perform (sim : Simulation) (pool : Pool) :
    Command → Except PoolError (Option Outcome × Pool)
  | .state => .ok (none, pool)
  | .swap tokenIn tokenOut amount givenOut limit => do
    let tokenIn ← pool.config.tokenIndex tokenIn
    let tokenOut ← pool.config.tokenIndex tokenOut
    let kind := if givenOut then SwapKind.givenOut else SwapKind.givenIn
    let (outcome, pool) ← pool.swap ⟨kind, tokenIn, tokenOut, amount, limit⟩ sim.context
    return (some (.swap outcome), pool)
  | .joinProportional sharesOut => do
    let limits := List.replicate pool.config.tokenCount Amount.greatest
    let (outcome, pool) ← pool.joinExit (.allTokensInForExactShares sharesOut limits) sim.context
    return (some (.liquidity outcome), pool)
  | .exitProportional sharesIn => do
    let limits := List.replicate pool.config.tokenCount 0
    let (outcome, pool) ← pool.joinExit (.exactSharesInForAllTokens sharesIn limits) sim.context
    return (some (.liquidity outcome), pool)

/-- Runs a command. -/
def run (sim : Simulation) (command : Command) : Except SimulationError Report := do
  let pool ← sim.start
  let (outcome, pool) ← (sim.perform pool command).mapError .operation
  let state ← (pool.state sim.context).mapError .operation
  return ⟨outcome, state⟩

end Simulation

end StableSwap
