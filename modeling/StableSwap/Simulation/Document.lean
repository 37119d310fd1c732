import StableSwap.Document.Schema
import StableSwap.Simulation

/-!
# Simulations as documents

The document that a simulation is read from (`readSimulation`) and the documents that outcomes and
reports are written as (`ofReport`).
-/

namespace StableSwap.Document

/-! ### Reading simulations -/

/-- The members of a simulation read so far. -/
structure SimulationDraft where
  config : Option Config := none
  protocolFees : ProtocolFees := .zero
  timestamp : Option Nat := none
  /-- The last entry first. -/
  rates : List (Address × Fixed) := []
  balances : Option (List Amount) := none

namespace SimulationDraft

/-- Reads the rate of a token. -/
def rate (rates : List (Address × Fixed)) (token : String) (v : Value) :
    Except ReadError (List (Address × Fixed)) := do
  let address ← addressOfText token
  let rate ← readFixed v
  return (address, rate) :: rates

/-- Reads one member. -/
def member (draft : SimulationDraft) (name : String) (v : Value) :
    Except ReadError SimulationDraft :=
  match name with
  | "pool" => do
    let config ← readConfig v
    return { draft with config := some config }
  | "protocol-fees" => do
    let protocolFees ← readFees v
    return { draft with protocolFees }
  | "timestamp" => do
    let timestamp ← readNat (Nat.pow 2 64) v
    return { draft with timestamp := some timestamp }
  | "rates" => do
    let rates ← readMembers rate [] v
    return { draft with rates }
  | "balances" => do
    let balances ← readList readAmount v
    return { draft with balances := some balances }
  | name => .error (.unknownMember name)

/-- The simulation with these members. -/
def toSimulation (draft : SimulationDraft) : Except ReadError Simulation := do
  let config ← need "pool" draft.config
  let timestamp ← need "timestamp" draft.timestamp
  let balances ← need "balances" draft.balances
  return {
    config := config
    protocolFees := draft.protocolFees
    timestamp := timestamp
    rates := draft.rates
    balances := balances }

end SimulationDraft

/-- A simulation. -/
def readSimulation (v : Value) : Except ReadError Simulation := do
  let draft ← readMembers SimulationDraft.member {} v
  draft.toSimulation

/-! ### Writing reports -/

/-- An address. -/
def ofAddress (a : Address) : Value := .text a.toText

/-- An amount in hexadecimal digits. -/
def ofAmountHex (a : Amount) : Value := .text a.toHex

/-- A mint of protocol fees. -/
def ofFeeMint (mint : FeeMint) : Value :=
  .table [("recipient", ofAddress mint.recipient), ("amount", ofAmountHex mint.amount)]

/-- The result of a trade. -/
def ofSwapOutcome (o : SwapOutcome) : Value :=
  .table [
    ("amountIn", ofAmountHex o.amounts.amountIn),
    ("amountOut", ofAmountHex o.amounts.amountOut),
    ("fee", ofAmountHex o.amounts.fee),
    ("protocolFee", ofFeeMint o.protocolFee)]

/-- A direction. -/
def ofFlow : Flow → Value
  | .inward => .text "in"
  | .outward => .text "out"

/-- The result of a join or exit. -/
def ofLiquidityOutcome (o : LiquidityOutcome) : Value :=
  .table [
    ("kind", .text o.kind),
    ("flow", ofFlow o.flow),
    ("bptAmount", ofAmountHex o.shares),
    ("amounts", .list (o.amounts.map ofAmountHex)),
    ("protocolFee", ofFeeMint o.protocolFee)]

/-- The result of a command's operation. -/
def ofOutcome : Outcome → Value
  | .swap outcome => ofSwapOutcome outcome
  | .liquidity outcome => ofLiquidityOutcome outcome

/-- The state of a pool. -/
def ofPoolState (s : PoolState) : Value :=
  .table [
    ("registeredTokens", .list (s.registeredTokens.map ofAddress)),
    ("balances", .list (s.balances.map ofAmount)),
    ("bptSupply", ofAmount s.supply),
    ("actualSupply", ofAmount s.actualSupply),
    ("invariant", ofAmount s.invariant),
    ("rate", .text s.rate.toText)]

/-- A report. -/
def ofReport (r : Report) : Value :=
  .table ((r.outcome.map fun outcome => ("outcome", ofOutcome outcome)).toList ++
    [("state", ofPoolState r.state)])

end StableSwap.Document
