import Mathlib
import StableSwap.Proofs.Config
import StableSwap.Proofs.Pool.Freshness

/-!
# A refresh puts a rate into use

A rate that is reported is in use from then on (`Pool.refresh_usable`), and nothing else changes, if
the token's rates are kept for a second at least. A configuration only asks for a cache duration that
is not zero, and rates are kept for its whole seconds. So there are tokens whose rates are kept for no
time at all: a refresh succeeds there and answers zero, and the pool has no rates to use.
-/

namespace StableSwap

/-! ### Reports -/

variable {token : Token} {last : Option (Fixed × ℕ)} {now : ℕ}

theorem Token.FreshRate.unique {rate rate' : Fixed} (h : token.FreshRate last now rate)
    (h' : token.FreshRate last now rate') : rate' = rate :=
  RateCache.rateAt_unique (RateCache.rateAt_after.mpr h) (RateCache.rateAt_after.mpr h')

/-- A token whose rates are kept for less than a second never has one. -/
theorem Token.not_freshRate {rate : Fixed} (hprovider : token.rateProvider.isSome)
    (hduration : token.cacheDuration.seconds = 0) : ¬ token.FreshRate last now rate := by
  rintro (hnone | ⟨-, -, hpos, -⟩)
  · rw [hnone] at hprovider
    exact nomatch hprovider
  · exact hpos.ne' hduration

/-- A provider that reports a rate other than zero is believed. -/
theorem RateCache.refreshed_rate (hprovider : token.rateProvider.isSome) {value : Amount}
    (hvalue : value ≠ 0) : (after token last).refreshed token (.rate value) now =
      .ok (.cached ⟨value⟩ now token.cacheDuration.seconds) := by
  unfold after
  rw [if_pos hprovider]
  cases last with
  | none => exact if_neg hvalue
  | some report => exact if_neg hvalue

namespace Pool

variable {config : Config} {p p' : Pool} {past : List Event} {index : ℕ}

/-! ### Rates in use -/

/-- A pool has a rate for the token at an index, and does not miss it. -/
structure Uses (p : Pool) (index : ℕ) (token : Token) (now : ℕ) (rate : Fixed) : Prop where
  current : ∃ cache, p.tokenAt index = .ok (token, cache) ∧ token.currentRate cache now = .ok rate
  not_stale : p.rates now ≠ .error (.staleRate token.address)
  rates : ∀ rates, p.rates now = .ok rates → rates[index]? = some rate

theorem Rated.tokenAt (hr : Rated config p past) (htoken : config.tokens[index]? = some token) :
    p.tokenAt index = .ok (token, .after token (lastReport index past)) := by
  rw [Pool.tokenAt, hr.getElem?_caches, hr.config_eq, htoken, Option.map_some]

/-- A rate that is fresh is in use. -/
theorem Rated.uses (hr : Rated config p past) (htoken : config.tokens[index]? = some token)
    {rate : Fixed} (hfresh : token.FreshRate (lastReport index past) now rate) :
    p.Uses index token now rate where
  current := ⟨_, hr.tokenAt htoken,
    Token.currentRate_eq_ok.mpr (RateCache.rateAt_after.mpr hfresh)⟩
  not_stale := by
    intro h
    obtain ⟨i, first, hfirst, hcause⟩ := hr.rates_eq_error.mp h
    obtain rfl := config.index_unique hfirst.token_eq htoken (PoolError.staleRate.inj hcause).symm
    obtain rfl := Option.some.inj (hfirst.token_eq.symm.trans htoken)
    exact hfirst.stale rate hfresh
  rates := by
    intro rates h
    have hrates := hr.rates_fresh h
    have hindex : index < rates.length :=
      hrates.length_eq ▸ (List.getElem?_eq_some_iff.mp htoken).1
    rw [List.getElem?_eq_getElem hindex, Option.some.injEq]
    exact hfresh.unique (hrates.fresh index token _ htoken (List.getElem?_eq_getElem hindex))

/-- A pool with a token whose rate is not fresh has no rates. -/
theorem Rated.rates_stale (hr : Rated config p past) (htoken : config.tokens[index]? = some token)
    (hstale : ∀ rate, ¬ token.FreshRate (lastReport index past) now rate) :
    ∃ first ∈ config.tokens, p.rates now = .error (.staleRate first.address) := by
  cases h : p.rates now with
  | ok rates =>
      obtain ⟨rate, hrate⟩ := (hr.rates_fresh h).exists_fresh htoken
      exact absurd hrate (hstale rate)
  | error cause =>
      obtain ⟨i, first, hfirst, rfl⟩ := hr.rates_eq_error.mp h
      exact ⟨first, List.mem_of_getElem? hfirst.token_eq, rfl⟩

/-! ### Refreshes -/

/-- What is known of the rate of the token at an index has changed, and nothing else. -/
structure Refreshed (p p' : Pool) (index : ℕ) (cache : RateCache) : Prop where
  config_eq : p'.config = p.config
  ledger_eq : p'.ledger = p.ledger
  snapshot_eq : p'.snapshot = p.snapshot
  cache_eq : p'.caches[index]? = some cache
  others : ∀ i, i ≠ index → p'.caches[i]? = p.caches[i]?

/-- A refresh succeeds if the provider reports a rate other than zero, and answers the rate that is
then in use. -/
theorem Rated.refresh_rate (hr : Rated config p past) (htoken : config.tokens[index]? = some token)
    (hprovider : token.rateProvider.isSome) {value : Amount} (hvalue : value ≠ 0) (now : ℕ) :
    ∃ p', p.refresh index (.rate value) now =
        .ok (if 0 < token.cacheDuration.seconds then ⟨value⟩ else 0, p') ∧
      Refreshed p p' index (.cached ⟨value⟩ now token.cacheDuration.seconds) := by
  have hindex : index < p.caches.length := by
    have hcache := hr.getElem?_caches index
    rw [htoken, Option.map_some] at hcache
    exact (List.getElem?_eq_some_iff.mp hcache).1
  refine ⟨{ p with
    caches := p.caches.set index (.cached ⟨value⟩ now token.cacheDuration.seconds) }, ?_, rfl, rfl,
    rfl, List.getElem?_set_self hindex, fun i hi => List.getElem?_set_ne hi.symm⟩
  rw [refresh, (refresh_commits p index (.rate value) now).result_eq, bind_eq_ok]
  refine ⟨_, hr.tokenAt htoken, bind_eq_ok.mpr ⟨_, RateCache.refreshed_rate hprovider hvalue, ?_⟩⟩
  rw [pure_eq_ok, RateCache.rateAt, Nat.sub_self]
  split
  · rfl
  · rfl

/-- **A refresh puts the reported rate into use**, for a token whose rates are kept for a second at
least: it answers that rate, and the token has it. Where rates are kept for less, the refresh succeeds
too, but answers zero, and the pool has no rates at any time after. In both cases, only what is known
of this token's rate changes. -/
theorem refresh_usable (config : Config) (operations : List Operation) (index : ℕ) (token : Token)
    (now : ℕ) (value : Amount) (htoken : config.tokens[index]? = some token)
    (hprovider : token.rateProvider.isSome) (hvalue : value ≠ 0) :
    let p := (ofConfig config).run operations
    ∃ rate p', p.refresh index (.rate value) now = .ok (rate, p') ∧
      Refreshed p p' index (.cached ⟨value⟩ now token.cacheDuration.seconds) ∧
      (0 < token.cacheDuration.seconds → rate = ⟨value⟩ ∧ p'.Uses index token now ⟨value⟩) ∧
      (token.cacheDuration.seconds = 0 → rate = 0 ∧
        ∀ later, ∃ first ∈ config.tokens, p'.rates later = .error (.staleRate first.address)) := by
  intro p
  have hr : Rated config p ((ofConfig config).history operations) := run_rated config operations
  obtain ⟨p', h, hrefreshed⟩ := hr.refresh_rate htoken hprovider hvalue now
  have hr' := hr.step (.refreshed h)
  refine ⟨_, p', h, hrefreshed, fun hduration => ⟨if_pos hduration, hr'.uses htoken ?_⟩,
    fun hduration => ⟨if_neg hduration.not_gt, fun later => hr'.rates_stale htoken ?_⟩⟩
  · rw [lastReport_concat, Event.reportOf?, if_pos rfl, Option.some_or]
    exact .reported hprovider rfl hduration (Nat.lt_add_of_pos_right hduration)
  · exact fun rate => Token.not_freshRate hprovider hduration

/-- A refresh of the pool of `wrapped`, whose rates are kept for 300 seconds. -/
theorem refresh_usable_wrapped :
    ∃ token p', wrapped.tokens[0]? = some token ∧ token.rateProvider.isSome ∧
      (ofConfig wrapped).refresh 0 (.rate 1050000000000000000) 1000 =
        .ok (⟨1050000000000000000⟩, p') ∧
      Refreshed (ofConfig wrapped) p' 0 (.cached ⟨1050000000000000000⟩ 1000 300) ∧
      p'.Uses 0 token 1000 ⟨1050000000000000000⟩ := by
  obtain ⟨rate, p', h, hrefreshed, husable, -⟩ :=
    refresh_usable wrapped [] 0 _ 1000 1050000000000000000 rfl rfl (by decide)
  obtain ⟨rfl, huses⟩ := husable (by decide)
  exact ⟨_, p', rfl, rfl, h, hrefreshed, huses⟩

/-- The tokens of `wrapped`, but the rate of the first is kept for half a second. -/
def fleeting : Config where
  address := 3
  tokens := [
    { address := 1
      decimals := 18
      rateProvider := some 4
      cacheDuration := .ofMillis 500 },
    { address := 2, decimals := 18 }]
  amplification := pair.amplification
  swapFee := ⟨1000000000000000⟩
  accepted := by decide +kernel

/-- A rate that is kept for half a second is gone at the time it was reported. -/
theorem refresh_fleeting_stale :
    ∃ p', (ofConfig fleeting).refresh 0 (.rate 1050000000000000000) 1000 = .ok (0, p') ∧
      p'.rates 1000 = .error (.staleRate 1) :=
  ⟨_, rfl, rfl⟩

end Pool

end StableSwap
