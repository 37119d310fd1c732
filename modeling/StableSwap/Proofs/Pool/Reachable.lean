import Mathlib
import StableSwap.Proofs.Pool
import StableSwap.Proofs.Pool.History
import StableSwap.Proofs.Rates
import StableSwap.Proofs.Swap

/-!
# The pools there can be

A pool is either not joined yet and empty (`Unjoined`), or it was joined once and has the locked
shares, something of every token and a snapshot of its supply (`Live`). The first join leads from
the one to the other; every other operation stays where it is (`Unjoined.step`, `Live.step`). So the
number of first joins in a run says where it leads to (`run_reached`), and with that, what is
`Consistent` about the pool.
-/

namespace StableSwap

/-- Whether an event is a first join. -/
def Event.isFirstJoin : Event → Bool
  | .joinedExited (.init _) _ _ => true
  | _ => false

theorem Event.isFirstJoin_eq_false {request : LiquidityRequest} {ctx : Context}
    {outcome : LiquidityOutcome} (h : ∀ amountsIn, request ≠ .init amountsIn) :
    (joinedExited request ctx outcome).isFirstJoin = false := by
  cases request with
  | init amountsIn => exact absurd rfl (h amountsIn)
  | _ => rfl

namespace Pool

variable {config : Config} {p p' : Pool} {s : Snapshot} {event : Event}

/-! ### Shape and rates -/

/-- The pool has a balance and a cache for each token, and no rate that was reported is zero. -/
structure Sound (p : Pool) : Prop extends Shaped p where
  positive : ∀ cache ∈ p.caches, cache.Positive

theorem sound_ofConfig (config : Config) : (ofConfig config).Sound where
  balances := Ledger.length_empty_balances _
  caches := List.length_map _
  positive := by
    intro cache hcache
    obtain ⟨token, -, rfl⟩ := List.mem_map.mp hcache
    exact RateCache.positive_ofToken token

theorem Sound.rates_pos {now : ℕ} {rates : List Fixed} (hp : p.Sound)
    (h : p.rates now = .ok rates) : ∀ rate ∈ rates, 0 < rate.wei.val :=
  currentRates_pos hp.positive h

theorem Sound.refresh {index : ℕ} {answer : ProviderAnswer} {now : ℕ} {rate : Fixed}
    (hp : p.Sound) (h : p.refresh index answer now = .ok (rate, p')) : p'.Sound := by
  obtain ⟨token, cache, cache', -, hcache', rfl⟩ := refresh_ok h
  refine ⟨⟨hp.balances, (List.length_set ..).trans hp.caches⟩, fun c hc => ?_⟩
  rcases List.mem_or_eq_of_mem_set hc with hc | rfl
  · exact hp.positive c hc
  · exact RateCache.positive_refreshed hcache'

/-- A movement of the ledger keeps the shape. -/
theorem Sound.moved {ledger : Ledger} {snapshot : Option Snapshot} (hp : p.Sound)
    (hlen : ledger.balances.length = p.ledger.balances.length) :
    ({ p with ledger := ledger, snapshot := snapshot } : Pool).Sound :=
  ⟨⟨hlen.trans hp.balances, hp.caches⟩, hp.positive⟩

/-! ### Before and after the first join -/

/-- Nobody has joined the pool. -/
structure Unjoined (p : Pool) : Prop where
  snapshot : p.snapshot = none
  supply : p.ledger.supply = 0
  held : ∀ i, p.ledger.held i = 0

/-- The pool was joined, and `s` is its last settlement. -/
structure Live (p : Pool) (s : Snapshot) : Prop where
  snapshot : p.snapshot = some s
  locked : lockedShares.val ≤ p.ledger.supply.val
  held_pos : ∀ i < p.config.tokenCount, 0 < p.ledger.held i
  supply_eq : s.supply = p.ledger.supply
  length_rates : s.rates.length = p.config.tokenCount
  rates_pos : ∀ rate ∈ s.rates, 0 < rate.wei.val

theorem unjoined_ofConfig (config : Config) : (ofConfig config).Unjoined :=
  ⟨rfl, rfl, Ledger.held_empty _⟩

theorem Live.settle {rates : List Fixed} {ctx : Context} {settled : Settled} (hl : p.Live s)
    (hlen : rates.length = p.config.tokenCount) (hpos : ∀ rate ∈ rates, 0 < rate.wei.val)
    (h : p.settle rates ctx = .ok settled) :
    ({ p with ledger := settled.ledger, snapshot := some settled.snapshot } : Pool).Live
      settled.snapshot := by
  obtain ⟨old, hold, hbalances, hsupply, hsnapshot⟩ := settle_ok h
  obtain rfl : s = old := Option.some.inj (hl.snapshot.symm.trans hold)
  have hlocked : lockedShares.val ≤ settled.ledger.supply.val := by
    have := hl.locked
    omega
  have hheld : ∀ i < p.config.tokenCount, 0 < settled.ledger.held i := by
    intro i hi
    rw [Ledger.held_congr hbalances]
    exact hl.held_pos i hi
  rcases hsnapshot with ⟨hsame, hfee⟩ | ⟨hs, hr⟩
  · -- nothing was minted, so the old snapshot still has the supply
    have hsame' : settled.ledger.supply = p.ledger.supply := Amount.ext (by
      rw [hsupply, hfee, Amount.val_zero, Nat.add_zero])
    refine ⟨rfl, hlocked, hheld, ?_, ?_, ?_⟩
    · rw [hsame, hl.supply_eq, hsame']
    · rw [hsame]
      exact hl.length_rates
    · rw [hsame]
      exact hl.rates_pos
  · exact ⟨rfl, hlocked, hheld, hs, hr ▸ hlen, hr ▸ hpos⟩

/-! ### Operations on an unjoined pool -/

theorem Unjoined.not_settle {rates : List Fixed} {ctx : Context} {settled : Settled}
    (hu : p.Unjoined) : p.settle rates ctx ≠ .ok settled := by
  intro h
  obtain ⟨snapshot, hsnapshot, -⟩ := settle_ok h
  rw [hu.snapshot] at hsnapshot
  exact nomatch hsnapshot

/-- Only the first join succeeds on a pool that nobody has joined. -/
theorem Unjoined.joinExit {request : LiquidityRequest} {ctx : Context}
    {outcome : LiquidityOutcome} (hp : p.Sound) (hu : p.Unjoined)
    (h : p.joinExit request ctx = .ok (outcome, p')) :
    (∃ amountsIn, request = .init amountsIn) ∧ ∃ s, p'.Live s := by
  obtain ⟨rates, scaling, booking, snapshot, hrates, hscaling, hbooking, hsnapshot, -, rfl⟩ :=
    joinExit_ok h
  rcases book_ok hbooking with ⟨amountsIn, rfl, hfirst⟩ | hlater
  · obtain ⟨-, delta, hdelta, hledger, -⟩ := bookFirst_ok hfirst
    obtain ⟨shares, rfl, hamounts, hshares⟩ := firstJoin_ok hdelta
    obtain ⟨hcount, -, hheld, hsupply⟩ := Ledger.apply_inward_ok hledger
    obtain ⟨hs, hr⟩ := snapshotOf_ok hsnapshot
    refine ⟨⟨amountsIn, rfl⟩, snapshot, rfl, ?_, fun i hi => ?_, hs, ?_, ?_⟩
    · rw [hsupply]
      exact hshares.le.trans (Nat.le_add_left _ _)
    · have hi' : i < amountsIn.length := by rwa [hcount, hp.balances]
      rw [hheld, List.getD_eq_getElem _ _ hi']
      exact Nat.add_pos_right _ (hamounts _ (List.getElem_mem hi'))
    · rw [hr]
      exact hp.length_rates hrates
    · rw [hr]
      exact hp.rates_pos hrates
  · obtain ⟨settled, -, -, hsettled, -⟩ := bookLater_ok hlater
    exact absurd hsettled hu.not_settle

theorem Unjoined.step (hp : p.Sound) (hu : p.Unjoined) (h : p.Step event p') :
    event.isFirstJoin = false ∧ p'.Unjoined ∨ event.isFirstJoin = true ∧ ∃ s, p'.Live s := by
  cases h with
  | refreshed h =>
      obtain ⟨_, _, _, -, -, rfl⟩ := refresh_ok h
      exact .inl ⟨rfl, hu.snapshot, hu.supply, hu.held⟩
  | joinedExited h =>
      obtain ⟨⟨amountsIn, rfl⟩, hlive⟩ := hu.joinExit hp h
      exact .inr ⟨rfl, hlive⟩
  | swapped h =>
      obtain ⟨-, -, _, _, _, _, _, -, -, hsettled, -⟩ := swap_ok h
      exact absurd hsettled hu.not_settle

/-! ### Operations on a live pool -/

/-- No first join succeeds on a live pool, and every other join or exit leaves it live. -/
theorem Live.joinExit {request : LiquidityRequest} {ctx : Context} {outcome : LiquidityOutcome}
    (hp : p.Sound) (hl : p.Live s) (h : p.joinExit request ctx = .ok (outcome, p')) :
    (∀ amountsIn, request ≠ .init amountsIn) ∧ ∃ s', p'.Live s' := by
  obtain ⟨rates, scaling, booking, snapshot, hrates, hscaling, hbooking, hsnapshot, -, rfl⟩ :=
    joinExit_ok h
  rcases book_ok hbooking with ⟨amountsIn, rfl, hfirst⟩ | hlater
  · obtain ⟨hzero, -⟩ := bookFirst_ok hfirst
    have := hl.locked
    rw [hzero] at this
    exact absurd this (by decide)
  obtain ⟨settled, basis, delta, hsettled, hbasis, hdelta, hledger, -⟩ := bookLater_ok hlater
  have hsl := hl.settle (hp.length_rates hrates) (hp.rates_pos hrates) hsettled
  have hcount := hp.length_settled hsettled
  obtain ⟨-, rfl, hm⟩ := liquidityBasis_ok
    ((hp.tokenCount_scaling hrates hscaling).trans hcount.symm) hbasis
  have hheld := LiquidityBasis.compute_held_pos hm hdelta hledger hsl.locked
    (hcount ▸ hsl.held_pos)
  obtain ⟨hs, hr⟩ := snapshotOf_ok hsnapshot
  exact ⟨LiquidityBasis.compute_ne_init hdelta, snapshot, rfl,
    Ledger.lockedShares_le_apply hsl.locked hledger, hcount ▸ hheld, hs,
    hr ▸ hp.length_rates hrates, hr ▸ hp.rates_pos hrates⟩

theorem Live.swap {request : SwapRequest} {ctx : Context} {outcome : SwapOutcome} (hp : p.Sound)
    (hl : p.Live s) (h : p.swap request ctx = .ok (outcome, p')) : ∃ s', p'.Live s' := by
  obtain ⟨hin, hout, rates, scaling, settled, basis, ledger, hrates, hscaling, hsettled, hbasis,
    hamounts, hledger, -, rfl⟩ := swap_ok h
  have hsl := hl.settle (hp.length_rates hrates) (hp.rates_pos hrates) hsettled
  have hcount := hp.length_settled hsettled
  obtain ⟨hsupply, hbought, hsold, hpos, hothers⟩ :=
    Ledger.swap_ok (hcount ▸ hin) (SwapBasis.tokenIn_ne_tokenOut hamounts) hledger
  refine ⟨settled.snapshot, rfl, hsupply ▸ hsl.locked, fun i hi => ?_, hsupply ▸ hsl.supply_eq,
    hsl.length_rates, hsl.rates_pos⟩
  have hbefore := hsl.held_pos i hi
  by_cases hiout : i = request.tokenOut
  · rw [hiout]
    exact hpos
  by_cases hiin : i = request.tokenIn
  · subst hiin
    rw [hbought]
    exact Nat.add_pos_left hbefore _
  · rw [hothers i hiin hiout]
    exact hbefore

theorem Live.step (hp : p.Sound) (hl : p.Live s) (h : p.Step event p') :
    event.isFirstJoin = false ∧ ∃ s', p'.Live s' := by
  cases h with
  | refreshed h =>
      obtain ⟨_, _, _, -, -, rfl⟩ := refresh_ok h
      exact ⟨rfl, s, { hl with }⟩
  | joinedExited h =>
      obtain ⟨hne, hlive⟩ := hl.joinExit hp h
      exact ⟨Event.isFirstJoin_eq_false hne, hlive⟩
  | swapped h => exact ⟨rfl, hl.swap hp h⟩

/-! ### Runs -/

theorem Sound.step (hp : p.Sound) (h : p.Step event p') : p'.Sound ∧ p'.config = p.config := by
  cases h with
  | refreshed h =>
      refine ⟨hp.refresh h, ?_⟩
      obtain ⟨_, _, _, -, -, rfl⟩ := refresh_ok h
      rfl
  | joinedExited h =>
      obtain ⟨_, _, _, _, -, -, hbooking, -, -, rfl⟩ := joinExit_ok h
      exact ⟨hp.moved (length_book hbooking), rfl⟩
  | swapped h =>
      obtain ⟨-, -, _, _, _, _, _, -, -, hsettled, -, -, hledger, -, rfl⟩ := swap_ok h
      obtain ⟨-, -, hbalances, -⟩ := settle_ok hsettled
      exact ⟨hp.moved (by rw [Ledger.length_swap hledger, hbalances]), rfl⟩

/-- Where a pool of a configuration stands after events. -/
structure Reached (config : Config) (p : Pool) (events : List Event) : Prop where
  config_eq : p.config = config
  sound : p.Sound
  standing : events.countP Event.isFirstJoin = 0 ∧ p.Unjoined ∨
    events.countP Event.isFirstJoin = 1 ∧ ∃ s, p.Live s

theorem Reached.step {past : List Event} (hr : Reached config p past) (h : p.Step event p') :
    Reached config p' (past ++ [event]) := by
  obtain ⟨hsound, hconfig⟩ := hr.sound.step h
  refine ⟨hconfig.trans hr.config_eq, hsound, ?_⟩
  rw [List.countP_append, List.countP_singleton]
  rcases hr.standing with ⟨hcount, hunjoined⟩ | ⟨hcount, s, hlive⟩
  · rw [hcount]
    rcases hunjoined.step hr.sound h with ⟨hfirst, hunjoined'⟩ | ⟨hfirst, hlive'⟩
    · exact .inl ⟨by simp [hfirst], hunjoined'⟩
    · exact .inr ⟨by simp [hfirst], hlive'⟩
  · obtain ⟨hfirst, hlive'⟩ := hlive.step hr.sound h
    rw [hcount]
    exact .inr ⟨by simp [hfirst], hlive'⟩

theorem reached_ofConfig (config : Config) : Reached config (ofConfig config) [] :=
  ⟨rfl, sound_ofConfig config, .inl ⟨rfl, unjoined_ofConfig config⟩⟩

/-- Where a run leads to, as the number of first joins says. -/
theorem run_reached (config : Config) (operations : List Operation) :
    Reached config ((ofConfig config).run operations) ((ofConfig config).history operations) :=
  run_induction Reached.step (reached_ofConfig config) operations

/-- What can be said of a pool of a configuration at all times, after the events so far. -/
structure Consistent (config : Config) (p : Pool) (events : List Event) : Prop where
  /-- There is a balance for each token. -/
  balances : p.ledger.balances.length = config.tokenCount
  /-- There is a cache for each token. -/
  caches : p.caches.length = config.tokenCount
  /-- There are shares exactly if there was a settlement. -/
  supply_iff : p.ledger.supply = 0 ↔ p.snapshot = none
  /-- There was a settlement exactly if there was a first join. -/
  snapshot_iff : p.snapshot = none ↔ ∀ event ∈ events, event.isFirstJoin = false
  /-- No first join succeeds after another. -/
  once : events.countP Event.isFirstJoin ≤ 1
  /-- Before the first join there are no tokens. -/
  empty : p.snapshot = none → ∀ balance ∈ p.ledger.balances, balance = 0
  /-- After it there are the locked shares, some of every token, and a snapshot of the supply with
  rates that are not zero. -/
  live : ∀ s, p.snapshot = some s →
    1000000 ≤ p.ledger.supply.val ∧ (∀ balance ∈ p.ledger.balances, 1 ≤ balance.val) ∧
      s.rates.length = config.tokenCount ∧ (∀ rate ∈ s.rates, rate ≠ 0) ∧
      s.supply = p.ledger.supply

theorem Unjoined.consistent {events : List Event} (hu : p.Unjoined) (hp : p.Sound)
    (hcount : events.countP Event.isFirstJoin = 0) : Consistent p.config p events where
  balances := hp.balances
  caches := hp.caches
  supply_iff := ⟨fun _ => hu.snapshot, fun _ => hu.supply⟩
  snapshot_iff :=
    ⟨fun _ event hevent => Bool.eq_false_of_not_eq_true (List.countP_eq_zero.mp hcount event hevent),
      fun _ => hu.snapshot⟩
  once := hcount.trans_le (Nat.zero_le 1)
  empty := by
    intro _ balance hbalance
    obtain ⟨i, hi, rfl⟩ := List.mem_iff_getElem.mp hbalance
    rw [← List.getD_eq_getElem _ 0 hi]
    exact Amount.ext (hu.held i)
  live := by
    intro s hs
    rw [hu.snapshot] at hs
    exact nomatch hs

theorem Live.consistent {events : List Event} (hl : p.Live s) (hp : p.Sound)
    (hcount : events.countP Event.isFirstJoin = 1) : Consistent p.config p events where
  balances := hp.balances
  caches := hp.caches
  supply_iff := by
    have := hl.locked
    refine ⟨fun h => ?_, fun h => ?_⟩
    · rw [h] at this
      exact absurd this (by decide)
    · rw [hl.snapshot] at h
      exact nomatch h
  snapshot_iff := by
    refine ⟨fun h => ?_, fun h => ?_⟩
    · rw [hl.snapshot] at h
      exact nomatch h
    · rw [List.countP_eq_zero.mpr fun event hevent => by simp [h event hevent]] at hcount
      exact absurd hcount (by decide)
  once := hcount.le
  empty := by
    intro h
    rw [hl.snapshot] at h
    exact nomatch h
  live := by
    intro s' hs'
    obtain rfl : s = s' := Option.some.inj (hl.snapshot.symm.trans hs')
    refine ⟨hl.locked, Ledger.forall_mem_balances.mpr ?_, hl.length_rates, ?_, hl.supply_eq⟩
    · exact fun i hi => hl.held_pos i (hp.balances ▸ hi)
    · rintro rate hrate rfl
      exact (hl.rates_pos 0 hrate).ne' rfl

theorem Reached.consistent {events : List Event} (hr : Reached config p events) :
    Consistent config p events := by
  obtain ⟨rfl, hp, hstanding⟩ := hr
  rcases hstanding with ⟨hcount, hu⟩ | ⟨hcount, s, hl⟩
  · exact hu.consistent hp hcount
  · exact hl.consistent hp hcount

/-- **A pool is consistent at all times**, whatever operations were tried. -/
theorem run_consistent (config : Config) (operations : List Operation) :
    Consistent config ((ofConfig config).run operations)
      ((ofConfig config).history operations) :=
  (run_reached config operations).consistent

end Pool

end StableSwap
