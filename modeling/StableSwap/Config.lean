import StableSwap.Config.Amplification
import StableSwap.Duration
import StableSwap.PoolError

/-!
# Pool configurations

The fixed parameters of a pool. The order of the tokens is the order of their addresses; the
position of a token in it is its index. Protocol fees are no part of them: each operation brings its
own.

* `Parameters.fault?` names the first rule that parameters break.
* `Config` is parameters that break none.
* `ProtocolFees.ofShares` accepts shares within bounds.
-/

namespace StableSwap

/-! ### Parameters -/

/-- What a pool knows about a tradable token. A token with a rate provider is worth a rate that changes
over time; the rate is kept for the cache duration after it was asked for. Growth of the rate may be
exempt from protocol fees. -/
structure Token where
  address : Address
  decimals : Nat
  rateProvider : Option Address := none
  cacheDuration : Duration := .zero
  exemptFromYieldFee : Bool := false
  deriving DecidableEq

/-- The parameters of a pool, checked or not. -/
structure Parameters where
  /-- The address of the pool, which is also the token of its shares. -/
  address : Address
  tokens : List Token
  /-- The amplification to use unless an operation brings another. -/
  amplification : Amplification
  swapFee : Fixed

/-- The largest number of tokens in a pool. -/
def maxTokens : Nat := 5

/-- The most decimals a token may have. -/
def maxDecimals : Nat := 18

/-- The first rule that a token breaks. -/
def Token.fault? (token : Token) : Option ConfigFault :=
  if maxDecimals < token.decimals then
    some (.tooManyDecimals token.address token.decimals)
  else if token.rateProvider.isSome ∧ token.cacheDuration = .zero then
    some (.noCacheDuration token.address)
  else if token.rateProvider.isNone ∧ token.exemptFromYieldFee then
    some (.exemptWithoutProvider token.address)
  else
    none

namespace Parameters

/-- The addresses of the tokens. -/
def addresses (p : Parameters) : List Address := p.tokens.map Token.address

/-- Each address is below the one that follows it. -/
def Ascending (p : Parameters) : Prop :=
  ∀ pair ∈ p.addresses.zip p.addresses.tail, pair.1 < pair.2

instance (p : Parameters) : Decidable p.Ascending :=
  inferInstanceAs (Decidable (∀ pair ∈ p.addresses.zip p.addresses.tail, pair.1 < pair.2))

/-- The first rule that the parameters break. -/
def fault? (p : Parameters) : Option ConfigFault :=
  if p.tokens.length = 0 ∨ maxTokens < p.tokens.length then
    some (.tokenCount p.tokens.length)
  else if ¬ p.Ascending then
    some .unsortedTokens
  else if p.address ∈ p.addresses then
    some .poolTokenTradable
  else
    match p.tokens.findSome? Token.fault? with
    | some fault => some fault
    | none => if p.swapFee < 1 then none else some (.swapFeeTooHigh p.swapFee)

end Parameters

/-- The configuration of a pool: parameters that break no rule. -/
structure Config extends Parameters where
  /-- No rule is broken. -/
  accepted : toParameters.fault? = none

namespace Config

/-- The configuration with the given parameters, if they break no rule. -/
def ofParameters (p : Parameters) : Except PoolError Config :=
  match h : p.fault? with
  | none => .ok ⟨p, h⟩
  | some fault => .error (.invalidConfig fault)

/-- The number of tokens. -/
def tokenCount (c : Config) : Nat := c.tokens.length

/-- The addresses of the tokens and the pool in ascending order. -/
def registeredTokens (c : Config) : List Address :=
  (c.addresses ++ [c.address]).mergeSort fun a b => a ≤ b

/-- The index of the token with an address. -/
def tokenIndex (c : Config) (address : Address) : Except PoolError Nat :=
  match c.tokens.findIdx? (·.address = address) with
  | some index => .ok index
  | none => .error (.invalidTokenIndex (.address address))

/-- Refuses an index that no token has. -/
def checkIndex (c : Config) (index : Nat) : Except PoolError Unit :=
  if index < c.tokenCount then .ok () else .error (.invalidTokenIndex (.index index))

end Config

/-! ### Protocol fees -/

/-- The shares of swap fees and of yield that go to the protocol, each at most one half, and the
recipient of the pool shares minted for them. -/
structure ProtocolFees where
  recipient : Address
  swapShare : Fixed
  yieldShare : Fixed
  swapShare_le : swapShare ≤ maxProtocolShare
  yieldShare_le : yieldShare ≤ maxProtocolShare
  deriving DecidableEq

namespace ProtocolFees

/-- Fees with the given shares, if both are within bounds. -/
def ofShares (recipient : Address) (swapShare yieldShare : Fixed) :
    Except PoolError ProtocolFees :=
  if hs : swapShare ≤ maxProtocolShare then
    if hy : yieldShare ≤ maxProtocolShare then
      .ok ⟨recipient, swapShare, yieldShare, hs, hy⟩
    else
      .error (.invalidConfig (.protocolFeeTooHigh .yield yieldShare))
  else
    .error (.invalidConfig (.protocolFeeTooHigh .swap swapShare))

/-- No fees, to nobody. -/
def zero : ProtocolFees := ⟨.nobody, 0, 0, Nat.zero_le _, Nat.zero_le _⟩

/-- Whether nothing goes to the protocol. -/
def isZero (fees : ProtocolFees) : Bool := fees.swapShare = 0 ∧ fees.yieldShare = 0

end ProtocolFees

end StableSwap
