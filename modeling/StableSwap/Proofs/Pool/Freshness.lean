import Mathlib
import StableSwap.Proofs.Pool.Trade

/-!
# Rates are fresh

A pool knows of each rate what was last reported (`Rated`); operations that fail report nothing. So a
join, exit or trade uses the rates of the last refreshes, and each of these was made less than the
token's cache duration before (`FreshRate`). Where a rate is not fresh, nothing can be done, and the
first token in index order that lacks one is named (`FirstStale`).

Points in time are any numbers, in any order: clocks may run backwards.
-/

namespace StableSwap

/-! ### Reported rates -/

/-- What an event reports of the rate of the token at an index, and when. -/
def Event.reportOf? (index : ℕ) : Event → Option (Fixed × ℕ)
  | .refreshed i (.rate value) now _ => if i = index then some (⟨value⟩, now) else none
  | _ => none

/-- What events last reported of the rate of the token at an index. -/
def lastReport (index : ℕ) (events : List Event) : Option (Fixed × ℕ) :=
  (events.filterMap (Event.reportOf? index)).getLast?

/-- The rate that a token has at a point in time, where there is a last report. -/
inductive Token.FreshRate (token : Token) (last : Option (Fixed × ℕ)) (now : ℕ) : Fixed → Prop where
  /-- A token without a provider is worth one. -/
  | one (hprovider : token.rateProvider = none) : FreshRate token last now 1
  /-- A reported rate is used for less than the cache duration. -/
  | reported {rate : Fixed} {updatedAt : ℕ} (hprovider : token.rateProvider.isSome)
      (hlast : last = some (rate, updatedAt)) (hduration : 0 < token.cacheDuration.seconds)
      (hnow : now < updatedAt + token.cacheDuration.seconds) : FreshRate token last now rate

/-- There is a fresh rate for each token of a pool, after events. -/
structure FreshRates (config : Config) (events : List Event) (now : ℕ) (rates : List Fixed) :
    Prop where
  length_eq : rates.length = config.tokenCount
  fresh : ∀ (i : ℕ) (token : Token) (rate : Fixed), config.tokens[i]? = some token →
    rates[i]? = some rate → token.FreshRate (lastReport i events) now rate

theorem FreshRates.exists_fresh {config : Config} {events : List Event} {now i : ℕ} {token : Token}
    {rates : List Fixed} (h : FreshRates config events now rates)
    (htoken : config.tokens[i]? = some token) :
    ∃ rate, token.FreshRate (lastReport i events) now rate := by
  have hi : i < rates.length := h.length_eq ▸ (List.getElem?_eq_some_iff.mp htoken).1
  exact ⟨_, h.fresh i token _ htoken (List.getElem?_eq_getElem hi)⟩

/-- The token at an index is the first without a fresh rate, after events. -/
structure FirstStale (config : Config) (events : List Event) (now index : ℕ) (token : Token) :
    Prop where
  token_eq : config.tokens[index]? = some token
  stale : ∀ rate, ¬ token.FreshRate (lastReport index events) now rate
  earlier : ∀ i < index, ∀ other, config.tokens[i]? = some other →
    ∃ rate, other.FreshRate (lastReport i events) now rate

theorem lastReport_concat (index : ℕ) (past : List Event) (event : Event) :
    lastReport index (past ++ [event]) = (event.reportOf? index).or (lastReport index past) := by
  rw [lastReport, List.filterMap_append, List.getLast?_append, lastReport]
  rw [List.filterMap_cons, List.filterMap_nil]
  cases event.reportOf? index with
  | none => rfl
  | some report => rfl

/-! ### Caches -/

namespace RateCache

variable {token : Token} {last : Option (Fixed × ℕ)} {now : ℕ}

/-- What is known of a token's rate, where there is a last report. -/
def after (token : Token) (last : Option (Fixed × ℕ)) : RateCache :=
  if token.rateProvider.isSome then
    match last with
    | none => .empty token.cacheDuration.seconds
    | some (rate, updatedAt) => .cached rate updatedAt token.cacheDuration.seconds
  else
    .unit

theorem rateAt_after {rate : Fixed} :
    (after token last).rateAt now = some rate ↔ token.FreshRate last now rate := by
  unfold after
  split
  · rename_i hprovider
    rcases last with _ | ⟨reported, updatedAt⟩
    · constructor
      · exact nofun
      · rintro (hnone | ⟨-, hlast, -, -⟩)
        · rw [hnone] at hprovider
          exact nomatch hprovider
        · exact nomatch hlast
    · rw [rateAt, Option.ite_none_right_eq_some]
      constructor
      · rintro ⟨hfresh, ⟨⟩⟩
        exact .reported hprovider rfl (by omega) (by omega)
      · rintro (hnone | ⟨-, ⟨⟩, hduration, hnow⟩)
        · rw [hnone] at hprovider
          exact nomatch hprovider
        · exact ⟨by omega, rfl⟩
  · rename_i hprovider
    constructor
    · rintro ⟨⟩
      exact .one (Option.not_isSome_iff_eq_none.mp hprovider)
    · rintro (_ | ⟨hsome, -, -, -⟩)
      · rfl
      · exact absurd hsome hprovider

/-- A refresh that succeeds reports a rate, and that is known from then on. -/
theorem refreshed_after {answer : ProviderAnswer} {cache' : RateCache}
    (h : (after token last).refreshed token answer now = .ok cache') :
    ∃ value, answer = .rate value ∧ cache' = after token (some (⟨value⟩, now)) := by
  by_cases hprovider : token.rateProvider.isSome
  · have hanswered : answered token token.cacheDuration.seconds now answer = .ok cache' := by
      unfold after at h
      rw [if_pos hprovider] at h
      cases last with
      | none => exact h
      | some report => exact h
    obtain ⟨value, rfl, -, rfl⟩ := answered_ok hanswered
    exact ⟨value, rfl, (if_pos hprovider).symm⟩
  · unfold after at h
    rw [if_neg hprovider] at h
    exact nomatch h

end RateCache

namespace Pool

variable {config : Config} {p p' : Pool} {past : List Event} {event : Event} {now : ℕ}
  {ctx : Context}

/-- The pool knows of each rate what was last reported. -/
structure Rated (config : Config) (p : Pool) (past : List Event) : Prop where
  config_eq : p.config = config
  caches_eq : p.caches = config.tokens.mapIdx fun i token => .after token (lastReport i past)

theorem Rated.getElem?_caches (hr : Rated config p past) (i : ℕ) :
    p.caches[i]? = config.tokens[i]?.map fun token => .after token (lastReport i past) := by
  rw [hr.caches_eq, List.getElem?_mapIdx]

theorem rated_ofConfig (config : Config) : Rated config (ofConfig config) [] where
  config_eq := rfl
  caches_eq := by
    refine List.ext_getElem? fun i => ?_
    rw [List.getElem?_mapIdx]
    exact List.getElem?_map

/-- An event that reports no rate leaves what is known as it was. -/
theorem Rated.congr (hr : Rated config p past) (hconfig : p'.config = p.config)
    (hcaches : p'.caches = p.caches) (hevent : ∀ index, event.reportOf? index = none) :
    Rated config p' (past ++ [event]) where
  config_eq := hconfig.trans hr.config_eq
  caches_eq := by
    simp only [lastReport_concat, hevent, Option.none_or]
    exact hcaches.trans hr.caches_eq

theorem tokenAt_ok {index : ℕ} {token : Token} {cache : RateCache}
    (h : p.tokenAt index = .ok (token, cache)) :
    p.config.tokens[index]? = some token ∧ p.caches[index]? = some cache := by
  unfold tokenAt at h
  split at h
  · rename_i htoken hcache
    cases h
    exact ⟨htoken, hcache⟩
  · exact nomatch h

/-- **What is known of rates changes with a refresh that succeeds, and with nothing else.** -/
theorem Rated.step (hr : Rated config p past) (h : p.Step event p') :
    Rated config p' (past ++ [event]) := by
  cases h with
  | @refreshed index answer now rate _ h =>
      obtain ⟨token, cache, cache', htokenAt, hcache', rfl⟩ := refresh_ok h
      obtain ⟨htoken, hcache⟩ := tokenAt_ok htokenAt
      have hindex := (List.getElem?_eq_some_iff.mp hcache).1
      rw [hr.config_eq] at htoken
      rw [hr.getElem?_caches, htoken] at hcache
      obtain rfl := Option.some.inj hcache
      obtain ⟨value, rfl, rfl⟩ := RateCache.refreshed_after hcache'
      refine ⟨hr.config_eq, List.ext_getElem? fun i => ?_⟩
      rw [List.getElem?_mapIdx, lastReport_concat, Event.reportOf?]
      by_cases hi : index = i
      · subst hi
        rw [if_pos rfl, Option.some_or, List.getElem?_set_self hindex, htoken, Option.map_some]
      · rw [if_neg hi, Option.none_or, List.getElem?_set_ne hi, hr.getElem?_caches]
  | joinedExited h =>
      obtain ⟨_, _, _, _, -, -, -, -, -, rfl⟩ := joinExit_ok h
      exact hr.congr rfl rfl fun _ => rfl
  | swapped h =>
      obtain ⟨-, -, _, _, _, _, _, -, -, -, -, -, -, -, rfl⟩ := swap_ok h
      exact hr.congr rfl rfl fun _ => rfl

theorem run_rated (config : Config) (operations : List Operation) :
    Rated config ((ofConfig config).run operations) ((ofConfig config).history operations) :=
  run_induction (motive := fun p past => Rated config p past) Rated.step (rated_ofConfig config)
    operations

/-! ### Rates in use -/

theorem Rated.getElem?_zip (hr : Rated config p past) {index : ℕ} {token : Token}
    {cache : RateCache} : (p.config.tokens.zip p.caches)[index]? = some (token, cache) ↔
      config.tokens[index]? = some token ∧ cache = .after token (lastReport index past) := by
  rw [List.getElem?_zip_eq_some, hr.config_eq, hr.getElem?_caches]
  refine and_congr_right fun htoken => ?_
  rw [htoken, Option.map_some, Option.some.injEq, eq_comm]

/-- The rates that a pool uses are the fresh ones. -/
theorem Rated.rates_fresh {rates : List Fixed} (hr : Rated config p past)
    (h : p.rates now = .ok rates) : FreshRates config past now rates := by
  obtain ⟨hlen, hget⟩ := List.forall₂_iff_get.mp (mapM_eq_ok.mp h)
  refine ⟨?_, fun i token rate htoken hrate => ?_⟩
  · rw [← hlen, List.length_zip, hr.caches_eq, List.length_mapIdx, hr.config_eq, Nat.min_self,
      Config.tokenCount]
  · obtain ⟨hi, hpair⟩ := List.getElem?_eq_some_iff.mp (hr.getElem?_zip.mpr ⟨htoken, rfl⟩)
    obtain ⟨hi', hrate⟩ := List.getElem?_eq_some_iff.mp hrate
    have hcurrent := hget i hi hi'
    rw [List.get_eq_getElem, List.get_eq_getElem, hpair, hrate] at hcurrent
    exact RateCache.rateAt_after.mp (Token.currentRate_eq_ok.mp hcurrent)

/-- Where a pool has no rates to use, it names the first token without a fresh one. -/
theorem Rated.rates_eq_error (hr : Rated config p past) {cause : PoolError} :
    p.rates now = .error cause ↔
      ∃ index token, FirstStale config past now index token ∧ cause = .staleRate token.address := by
  rw [rates, currentRates, mapM_eq_error]
  constructor
  · rintro ⟨index, ⟨token, cache⟩, hpair, hcause, hearlier⟩
    obtain ⟨htoken, rfl⟩ := hr.getElem?_zip.mp hpair
    obtain ⟨hnone, rfl⟩ := Token.currentRate_eq_error.mp hcause
    refine ⟨index, token, ⟨htoken, fun rate hrate => ?_, fun i hi other hother => ?_⟩, rfl⟩
    · rw [RateCache.rateAt_after.mpr hrate] at hnone
      cases hnone
    · obtain ⟨rate, hrate⟩ := hearlier i hi _ (hr.getElem?_zip.mpr ⟨hother, rfl⟩)
      exact ⟨rate, RateCache.rateAt_after.mp (Token.currentRate_eq_ok.mp hrate)⟩
  · rintro ⟨index, token, hfirst, rfl⟩
    refine ⟨index, _, hr.getElem?_zip.mpr ⟨hfirst.token_eq, rfl⟩,
      Token.currentRate_eq_error.mpr ⟨?_, rfl⟩, ?_⟩
    · refine Option.eq_none_iff_forall_ne_some.mpr fun rate hrate => ?_
      exact hfirst.stale rate (RateCache.rateAt_after.mp hrate)
    · rintro i hi ⟨other, cache⟩ hpair
      obtain ⟨hother, rfl⟩ := hr.getElem?_zip.mp hpair
      obtain ⟨rate, hrate⟩ := hfirst.earlier i hi other hother
      exact ⟨rate, Token.currentRate_eq_ok.mpr (RateCache.rateAt_after.mpr hrate)⟩

/-! ### Operations -/

theorem joinExit_of_rates_error {cause : PoolError} (h : p.rates ctx.timestamp = .error cause)
    (request : LiquidityRequest) : p.joinExit request ctx = .error cause := by
  rw [joinExit, (joinExit_commits p request ctx).result_eq, h]
  rfl

theorem swap_of_rates_error {cause : PoolError} {request : SwapRequest}
    (h : p.rates ctx.timestamp = .error cause) (hin : request.tokenIn < p.config.tokenCount)
    (hout : request.tokenOut < p.config.tokenCount) : p.swap request ctx = .error cause := by
  rw [swap, (swap_commits p request ctx).result_eq, Config.checkIndex, Config.checkIndex,
    if_pos hin, if_pos hout, h]
  rfl

/-- **Only fresh rates are used.** After any run, a join or exit uses the rates that were last
reported, keeps them in its snapshot, and each of them is fresh; and so is each that a trade uses.
Where some token has no fresh rate, every join, exit and trade names the first such token. What fails
changes neither the pool nor what was last reported. -/
theorem run_fresh (config : Config) (operations : List Operation) (ctx : Context) :
    let p := (ofConfig config).run operations
    let events := (ofConfig config).history operations
    (∀ request outcome p', p.joinExit request ctx = .ok (outcome, p') →
      ∃ snapshot, p'.snapshot = some snapshot ∧
        FreshRates config events ctx.timestamp snapshot.rates) ∧
    (∀ request outcome p', p.swap request ctx = .ok (outcome, p') →
      ∃ rates, p.rates ctx.timestamp = .ok rates ∧
        FreshRates config events ctx.timestamp rates) ∧
    (∀ (i : ℕ) (token : Token), config.tokens[i]? = some token →
      (∀ rate, ¬ token.FreshRate (lastReport i events) ctx.timestamp rate) →
      ∃ index first, FirstStale config events ctx.timestamp index first ∧
        (∀ request, p.joinExit request ctx = .error (.staleRate first.address)) ∧
        ∀ request, request.tokenIn < config.tokenCount → request.tokenOut < config.tokenCount →
          p.swap request ctx = .error (.staleRate first.address)) ∧
    ∀ operation cause, p.perform operation = .error cause →
      (ofConfig config).run (operations ++ [operation]) = p ∧
        (ofConfig config).history (operations ++ [operation]) = events := by
  intro p events
  have hr : Rated config p events := run_rated config operations
  refine ⟨fun request outcome p' h => ?_, fun request outcome p' h => ?_,
    fun i token htoken hstale => ?_, fun _ _ h => run_concat_of_error h⟩
  · obtain ⟨rates, _, _, snapshot, hrates, -, -, hsnapshot, -, rfl⟩ := joinExit_ok h
    obtain ⟨-, rfl⟩ := snapshotOf_ok hsnapshot
    exact ⟨snapshot, rfl, hr.rates_fresh hrates⟩
  · obtain ⟨-, -, rates, _, _, _, _, hrates, -, -, -, -, -, -, -⟩ := swap_ok h
    exact ⟨rates, hrates, hr.rates_fresh hrates⟩
  · cases hrates : p.rates ctx.timestamp with
    | ok rates =>
        obtain ⟨rate, hrate⟩ := (hr.rates_fresh hrates).exists_fresh htoken
        exact absurd hrate (hstale rate)
    | error cause =>
        obtain ⟨index, first, hfirst, rfl⟩ := hr.rates_eq_error.mp hrates
        refine ⟨index, first, hfirst, joinExit_of_rates_error hrates, fun request hin hout => ?_⟩
        rw [← hr.config_eq] at hin hout
        exact swap_of_rates_error hrates hin hout

/-- A rate that was reported at zero for 300 seconds, after which its provider failed: it is kept by a
join at 299, and at 300 the token is named. -/
theorem run_fresh_wrapped :
    let operations : List Operation :=
      [.refresh 0 (.rate 1000000000000000000) 0, .refresh 0 (.failure "offline") 100]
    let p := (ofConfig wrapped).run operations
    let events := (ofConfig wrapped).history operations
    let request : LiquidityRequest := .init [1000000000000000000, 1000000000000000000]
    (∃ outcome p' snapshot,
      p.joinExit request { uncharged pair with timestamp := 299 } = .ok (outcome, p') ∧
      p'.snapshot = some snapshot ∧ FreshRates wrapped events 299 snapshot.rates) ∧
    ∃ index first, FirstStale wrapped events 300 index first ∧
      p.joinExit request { uncharged pair with timestamp := 300 } =
        .error (.staleRate first.address) := by
  intro operations p events request
  constructor
  · obtain ⟨⟨outcome, p'⟩, h⟩ := exists_eq_ok_of_isOk
      (by decide +kernel : (p.joinExit request { uncharged pair with timestamp := 299 }).isOk = true)
    obtain ⟨hjoin, -⟩ := run_fresh wrapped operations { uncharged pair with timestamp := 299 }
    obtain ⟨snapshot, hsnapshot, hfresh⟩ := hjoin request outcome p' h
    exact ⟨outcome, p', snapshot, h, hsnapshot, hfresh⟩
  · have hlast : lastReport 0 events = some (1, 0) := by decide +kernel
    obtain ⟨-, -, hstale, -⟩ := run_fresh wrapped operations { uncharged pair with timestamp := 300 }
    obtain ⟨index, first, hfirst, hnamed, -⟩ := hstale 0 _ rfl (by
      rintro rate (hprovider | ⟨-, hreport, -, hnow⟩)
      · exact nomatch hprovider
      · obtain ⟨⟩ := hreport.symm.trans hlast
        exact absurd hnow (by decide))
    exact ⟨index, first, hfirst, hnamed request⟩

end Pool

end StableSwap
