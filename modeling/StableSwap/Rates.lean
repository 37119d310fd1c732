import StableSwap.Config

/-!
# Token rates

The rate of a token is what one of it is worth in the common unit. It is asked from the token's
provider and used as long as it is fresh: for less than the cache duration after the refresh. A
clock that runs backwards does not make a rate stale.

* `RateCache.rateAt` is the rate at a point in time, if it is fresh.
* `RateCache.refreshed` is the cache after the provider was asked.
* `currentRates` are the rates of all tokens, or the first token whose rate is not fresh.
-/

namespace StableSwap

/-- What a rate provider answers. -/
inductive ProviderAnswer where
  /-- A rate in units of 10⁻¹⁸. -/
  | rate (value : Amount)
  /-- A failure, in words. -/
  | failure (reason : String)
  deriving DecidableEq

/-- What is known of a token's rate. Times are in seconds. -/
inductive RateCache where
  /-- The token has no provider; its rate is always one. -/
  | unit
  /-- The provider has not been asked yet. -/
  | empty (duration : Nat)
  /-- The rate reported at a point in time. -/
  | cached (rate : Fixed) (updatedAt duration : Nat)
  deriving DecidableEq

namespace RateCache

/-- The cache of a token before its provider is asked. -/
def ofToken (token : Token) : RateCache :=
  if token.rateProvider.isSome then .empty token.cacheDuration.seconds else .unit

/-- The rate, if it is fresh. -/
def rateAt : RateCache → Nat → Option Fixed
  | unit, _ => some 1
  | empty _, _ => none
  | cached rate updatedAt duration, now =>
    if now - updatedAt < duration then some rate else none

/-- The cache after the provider of a token answered. -/
def answered (token : Token) (duration now : Nat) : ProviderAnswer → Except PoolError RateCache
  | .rate value =>
    if value = 0 then .error (.rateProviderFailure token.address .zeroRate)
    else .ok (.cached ⟨value⟩ now duration)
  | .failure reason => .error (.rateProviderFailure token.address (.failed reason))

/-- The cache after a refresh. A token without a provider has nobody to ask. -/
def refreshed (cache : RateCache) (token : Token) (answer : ProviderAnswer) (now : Nat) :
    Except PoolError RateCache :=
  match cache with
  | unit => .error (.invalidConfig (.noRateProvider token.address))
  | empty duration | cached _ _ duration => answered token duration now answer

end RateCache

/-- The rate of a token, which must be fresh. -/
def Token.currentRate (token : Token) (cache : RateCache) (now : Nat) : Except PoolError Fixed :=
  match cache.rateAt now with
  | some rate => .ok rate
  | none => .error (.staleRate token.address)

/-- The rates of all tokens, which must be fresh. -/
def currentRates (tokens : List Token) (caches : List RateCache) (now : Nat) :
    Except PoolError (List Fixed) :=
  (tokens.zip caches).mapM fun (token, cache) => token.currentRate cache now

end StableSwap
