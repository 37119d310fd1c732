import StableSwap.Document

/-!
# Configurations as documents

The documents of tokens, pools and protocol fees. Of the members of a table the first that is unknown
or cannot be read is named; then the first that is missing; then the first rule that the whole
breaks.
-/

namespace StableSwap.Document

/-! ### Tokens -/

/-- The members of a token read so far. -/
structure TokenDraft where
  address : Option Address := none
  decimals : Option Nat := none
  rateProvider : Option Address := none
  cacheDuration : Duration := .zero
  exemptFromYieldFee : Bool := false

namespace TokenDraft

/-- Reads one member. -/
def member (draft : TokenDraft) (name : String) (v : Value) : Except ReadError TokenDraft :=
  match name with
  | "address" => do
    let address ← readAddress v
    return { draft with address := some address }
  | "decimals" => do
    let decimals ← readNat 256 v
    return { draft with decimals := some decimals }
  | "rate-provider" => do
    let rateProvider ← readOptionalAddress v
    return { draft with rateProvider }
  | "cache-duration" => do
    let cacheDuration ← readDuration v
    return { draft with cacheDuration }
  | "exempt-from-yield-fee" => do
    let exemptFromYieldFee ← readBool v
    return { draft with exemptFromYieldFee }
  | name => .error (.unknownMember name)

/-- The token with these members. -/
def toToken (draft : TokenDraft) : Except ReadError Token := do
  let address ← need "address" draft.address
  let decimals ← need "decimals" draft.decimals
  return {
    address := address
    decimals := decimals
    rateProvider := draft.rateProvider
    cacheDuration := draft.cacheDuration
    exemptFromYieldFee := draft.exemptFromYieldFee }

end TokenDraft

/-- A token. -/
def readToken (v : Value) : Except ReadError Token := do
  let draft ← readMembers TokenDraft.member {} v
  draft.toToken

/-! ### Pools -/

/-- The members of a pool read so far. -/
structure PoolDraft where
  address : Option Address := none
  tokens : Option (List Token) := none
  amplification : Option Amplification := none
  swapFee : Option Fixed := none

namespace PoolDraft

/-- Reads one member. -/
def member (draft : PoolDraft) (name : String) (v : Value) : Except ReadError PoolDraft :=
  match name with
  | "address" => do
    let address ← readAddress v
    return { draft with address := some address }
  | "tokens" => do
    let tokens ← readList readToken v
    return { draft with tokens := some tokens }
  | "amplification" => do
    let amplification ← readAmplification v
    return { draft with amplification := some amplification }
  | "swap-fee" => do
    let swapFee ← readFixed v
    return { draft with swapFee := some swapFee }
  | name => .error (.unknownMember name)

/-- The configuration with these members. -/
def toConfig (draft : PoolDraft) : Except ReadError Config := do
  let address ← need "address" draft.address
  let tokens ← need "tokens" draft.tokens
  let amplification ← need "amplification" draft.amplification
  let swapFee ← need "swap-fee" draft.swapFee
  (Config.ofParameters ⟨address, tokens, amplification, swapFee⟩).mapError .refused

end PoolDraft

/-- The configuration of a pool. -/
def readConfig (v : Value) : Except ReadError Config := do
  let draft ← readMembers PoolDraft.member {} v
  draft.toConfig

/-! ### Protocol fees -/

/-- The members of protocol fees read so far. -/
structure FeesDraft where
  recipient : Option Address := none
  swapShare : Option Fixed := none
  yieldShare : Option Fixed := none

namespace FeesDraft

/-- Reads one member. -/
def member (draft : FeesDraft) (name : String) (v : Value) : Except ReadError FeesDraft :=
  match name with
  | "recipient" => do
    let recipient ← readAddress v
    return { draft with recipient := some recipient }
  | "swap-fee-percentage" => do
    let share ← readFixed v
    return { draft with swapShare := some share }
  | "yield-fee-percentage" => do
    let share ← readFixed v
    return { draft with yieldShare := some share }
  | name => .error (.unknownMember name)

/-- The fees with these members. -/
def toFees (draft : FeesDraft) : Except ReadError ProtocolFees := do
  let recipient ← need "recipient" draft.recipient
  let swapShare ← need "swap-fee-percentage" draft.swapShare
  let yieldShare ← need "yield-fee-percentage" draft.yieldShare
  (ProtocolFees.ofShares recipient swapShare yieldShare).mapError .refused

end FeesDraft

/-- Protocol fees. -/
def readFees (v : Value) : Except ReadError ProtocolFees := do
  let draft ← readMembers FeesDraft.member {} v
  draft.toFees

end StableSwap.Document
