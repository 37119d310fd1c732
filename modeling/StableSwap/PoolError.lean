import StableSwap.Address
import StableSwap.Fixed.Text

/-!
# Causes of failed operations

What an operation on a pool answers instead of a result, one constructor per cause, and the wording
of each (`PoolError.message`). A failed operation leaves the pool as it was.
-/

namespace StableSwap

/-- How a request named a token: by its position among the tradable tokens, or by its address. -/
inductive TokenRef where
  | index (position : Nat)
  | address (token : Address)
  deriving DecidableEq

def TokenRef.message : TokenRef → String
  | .index position => s!"token index {position}"
  | .address token => "token " ++ token.toText

/-- What the protocol takes a share of: the fees that trades pay, and the growth of token rates. -/
inductive FeeSource where
  | swap
  | yield
  deriving DecidableEq

def FeeSource.name : FeeSource → String
  | .swap => "swap"
  | .yield => "yield"

/-- The largest share of fees or yield the protocol may take. -/
def maxProtocolShare : Fixed := ⟨⟨500000000000000000, by decide⟩⟩

/-- Why a configuration is refused, or a token's rate cannot be refreshed (`noRateProvider`). Texts
from elsewhere come as `other`. -/
inductive ConfigFault where
  | tokenCount (count : Nat)
  | unsortedTokens
  | poolTokenTradable
  | tooManyDecimals (token : Address) (decimals : Nat)
  | noCacheDuration (token : Address)
  | exemptWithoutProvider (token : Address)
  | swapFeeTooHigh (fee : Fixed)
  | protocolFeeTooHigh (source : FeeSource) (share : Fixed)
  | noRateProvider (token : Address)
  | other (reason : String)
  deriving DecidableEq

def ConfigFault.message : ConfigFault → String
  | .tokenCount count => s!"pool needs between 1 and 5 tokens, got {count}"
  | .unsortedTokens => "token addresses must be unique and sorted"
  | .poolTokenTradable => "the pool token cannot be a tradable token"
  | .tooManyDecimals token decimals =>
    "token " ++ token.toText ++ s!" has {decimals} decimals, at most 18 are supported"
  | .noCacheDuration token =>
    "token " ++ token.toText ++ " has a rate provider but no cache duration"
  | .exemptWithoutProvider token =>
    "token " ++ token.toText ++ " is exempt from yield fees but has no rate provider"
  | .swapFeeTooHigh fee => "swap fee " ++ fee.toText ++ " must be below 1"
  | .protocolFeeTooHigh source share =>
    "protocol " ++ source.name ++ " fee percentage " ++ share.toText ++ " exceeds " ++
      maxProtocolShare.toText
  | .noRateProvider token => "token " ++ token.toText ++ " has no rate provider"
  | .other reason => reason

/-- Why a trade is refused. -/
inductive SwapFault where
  | sameToken
  | zeroAmount
  | nothingAfterFee
  | nothingOut
  deriving DecidableEq

def SwapFault.message : SwapFault → String
  | .sameToken => "token in and token out are the same"
  | .zeroAmount => "zero amount"
  | .nothingAfterFee => "amount after fees rounds to zero"
  | .nothingOut => "output rounds to zero"

/-- What a request asks more of than there is: shares to burn, or a token. -/
inductive Holding where
  | shareSupply
  | tokenBalance
  deriving DecidableEq

def Holding.name : Holding → String
  | .shareSupply => "BPT supply"
  | .tokenBalance => "token balance"

/-- Why an encoded request is refused. It is `malformed` where a word or a list reaches past the end,
or an offset or a length is out of range. -/
inductive UserDataFault where
  | tooShort (bytes : Nat)
  | unknownJoinKind (kind : Amount)
  | unknownExitKind (kind : Amount)
  | malformed
  | indexOutOfRange (index : Amount)
  | other (reason : String)
  deriving DecidableEq

def UserDataFault.message : UserDataFault → String
  | .tooShort bytes => s!"{bytes} bytes is too short"
  | .unknownJoinKind kind => "unknown join kind " ++ kind.toDecimal
  | .unknownExitKind kind => "unknown exit kind " ++ kind.toDecimal
  | .malformed => "Invalid data"
  | .indexOutOfRange index => "token index " ++ index.toDecimal ++ " out of range"
  | .other reason => reason

/-- Why a rate provider gave no usable rate. -/
inductive ProviderFault where
  | zeroRate
  | failed (reason : String)
  deriving DecidableEq

def ProviderFault.message : ProviderFault → String
  | .zeroRate => "provider returned a zero rate"
  | .failed reason => reason

/-- Why an operation on a pool has no result. Minimum and maximum are what the
caller or the pool allows. -/
inductive PoolError where
  | staleRate (token : Address)
  | convergenceFailure (cause : MathError)
  | alreadyInitialized
  | notInitialized
  | belowMinimum (actual minimum : Amount)
  | aboveMaximum (actual maximum : Amount)
  | invalidSwap (fault : SwapFault)
  | invalidTokenIndex (token : TokenRef)
  | feeOverflow
  | insufficientBalance (holding : Holding)
  | inputLengthMismatch (expected actual : Nat)
  | invalidUserData (fault : UserDataFault)
  | rateProviderFailure (token : Address) (fault : ProviderFault)
  | invalidConfig (fault : ConfigFault)
  | arithmetic (cause : MathError)
  deriving DecidableEq

namespace PoolError

def message : PoolError → String
  | staleRate token =>
    "cached rate of token " ++ token.toText ++ " expired; refresh the rate cache and retry"
  | convergenceFailure cause => "stable math failed to converge: " ++ cause.message
  | alreadyInitialized => "pool is already initialized"
  | notInitialized => "pool is not initialized"
  | belowMinimum actual minimum =>
    "amount " ++ actual.toDecimal ++ " is below the minimum of " ++ minimum.toDecimal
  | aboveMaximum actual maximum =>
    "amount " ++ actual.toDecimal ++ " is above the maximum of " ++ maximum.toDecimal
  | invalidSwap fault => "invalid swap: " ++ fault.message
  | invalidTokenIndex token => token.message ++ " is not a tradable pool token"
  | feeOverflow => "protocol fee computation overflowed"
  | insufficientBalance holding => "insufficient " ++ holding.name
  | inputLengthMismatch expected actual => s!"expected {expected} amounts but got {actual}"
  | invalidUserData fault => "invalid user data: " ++ fault.message
  | rateProviderFailure token _ => "rate provider of token " ++ token.toText ++ " failed"
  | invalidConfig fault => "invalid pool configuration: " ++ fault.message
  | arithmetic cause => cause.message

/-- The wording of the cause behind a cause. -/
def sourceMessage? : PoolError → Option String
  | rateProviderFailure _ fault => some fault.message
  | _ => none

/-- Whether the caller can expect to succeed with other inputs or fresh rates. -/
def isRecoverable : PoolError → Bool
  | convergenceFailure _ | feeOverflow | arithmetic _ => false
  | _ => true

/-- Failed arithmetic as the failure of an operation. -/
def ofMath (cause : MathError) : PoolError :=
  if cause.isConvergence then .convergenceFailure cause else .arithmetic cause

end PoolError

end StableSwap
