import Mathlib
import StableSwap.Simulation
import StableSwap.Proofs.Config
import StableSwap.Proofs.Pool.Freshness
import StableSwap.Proofs.Pool.ProtocolFees

/-!
# What a simulation reports

Asking for all rates leaves a pool that knows no rate but the configured ones (`refreshAll_ok`). The
first join then leaves exactly the first balances and as many shares as their invariant at these rates
(`start_ok`), with a snapshot of just that: the operation of a command finds no growth to charge. So
its report follows from the first balances, their invariant and the outcome (`run_reports`).
-/

namespace StableSwap

/-! ### Looking at a pool -/

namespace Pool

variable {p : Pool} {ctx : Context}

theorem state_ok {state : PoolState} (h : p.state ctx = .ok state) :
    p.actualSupply ctx = .ok state.actualSupply ∧ p.invariant ctx = .ok state.invariant ∧
      p.shareRate ctx = .ok state.rate ∧ state.balances = p.ledger.balances ∧
      state.supply = p.ledger.supply := by
  simp only [Pool.state, bind_eq_ok, pure_eq_ok] at h
  obtain ⟨supply, hsupply, D, hD, rate, hrate, rfl⟩ := h
  exact ⟨hsupply, hD, hrate, rfl, rfl⟩

/-- The invariant of a pool is that of its balances at the rates in use. -/
theorem invariantAt_of_invariant {rates : List Fixed} {D : Amount}
    (hrates : p.rates ctx.timestamp = .ok rates) (h : p.invariant ctx = .ok D) :
    invariantAt ctx.amplification.scaled p.config.tokens p.ledger.balances rates = .ok D := by
  simp only [invariant, scaledBalances, StableSwap.scaledBalances, bind_eq_ok,
    mapError_eq_ok] at h
  obtain ⟨scaled, ⟨rates', hrates', scaling, hscaling, hscaled⟩, hD⟩ := h
  obtain rfl : rates = rates' := Except.ok.inj (hrates.symm.trans hrates')
  exact bind_eq_ok.mpr ⟨scaling, hscaling, bind_eq_ok.mpr ⟨scaled, hscaled, hD⟩⟩

/-- Settling does not lower the supply. -/
theorem supply_le_actualSupply {v : Amount} (h : p.actualSupply ctx = .ok v) :
    p.ledger.supply ≤ v := by
  cases hi : p.ledger.isInitialized with
  | false =>
      rw [← Except.ok.inj (h.symm.trans (actualSupply_of_unjoined hi ctx))]
      exact Nat.le_refl v.val
  | true =>
      obtain ⟨rates, settled, -, hsettled, rfl⟩ := actualSupply_ok hi h
      obtain ⟨-, -, -, hsupply, -⟩ := settle_ok hsettled
      rw [Amount.le_def, hsupply]
      exact Nat.le_add_right _ _

/-- A share of a pool that has as many as the invariant is worth one. -/
theorem shareRate_eq_one {D : Amount} {rate : Fixed} (hsupply : p.actualSupply ctx = .ok D)
    (hinvariant : p.invariant ctx = .ok D) (h : p.shareRate ctx = .ok rate) :
    rate.wei.val = 10 ^ 18 := by
  simp only [shareRate, bind_eq_ok, unless_eq_ok, mapError_eq_ok] at h
  obtain ⟨supply, hsupply', -, D', hinvariant', hrate⟩ := h
  obtain rfl : D = supply := Except.ok.inj (hsupply.symm.trans hsupply')
  obtain rfl : D = D' := Except.ok.inj (hinvariant.symm.trans hinvariant')
  obtain ⟨hpos, hrate⟩ := Fixed.divDown_eq_ok.mp hrate
  rw [hrate, Nat.mul_div_cancel_left _ hpos]
  decide

end Pool

namespace Simulation

variable {sim : Simulation} {p p' : Pool} {token : Token} {rates : List Fixed} {D : Amount}

/-! ### The configured rates -/

/-- The rate that a token is to have: the configured one, or one if it has no provider. -/
def rateOf? (sim : Simulation) (token : Token) : Option Fixed :=
  if token.rateProvider.isSome then sim.rates.lookup token.address else some 1

/-- These are the rates that the tokens are to have. -/
def Configured (sim : Simulation) (rates : List Fixed) : Prop :=
  List.Forall₂ (fun token rate => sim.rateOf? token = some rate) sim.config.tokens rates

theorem Configured.unique {rates rates' : List Fixed} (h : sim.Configured rates)
    (h' : sim.Configured rates') : rates = rates' :=
  List.right_unique_forall₂' (fun _ _ _ hrate hrate' => Option.some.inj (hrate.symm.trans hrate')) h h'

/-- No rate but the token's is ever fresh. -/
def Knows (sim : Simulation) (token : Token) (cache : RateCache) : Prop :=
  ∀ now rate, cache.rateAt now = some rate → sim.rateOf? token = some rate

theorem knows_ofToken (sim : Simulation) (token : Token) : sim.Knows token (.ofToken token) := by
  intro now rate h
  unfold RateCache.ofToken at h
  by_cases hprovider : token.rateProvider.isSome
  · rw [if_pos hprovider] at h
    exact nomatch h
  · rw [if_neg hprovider] at h
    rw [rateOf?, if_neg hprovider]
    exact h

theorem knows_cached {reported : Fixed} (h : sim.rateOf? token = some reported)
    (updatedAt duration : ℕ) : sim.Knows token (.cached reported updatedAt duration) := by
  intro now rate hrate
  rw [RateCache.rateAt, Option.ite_none_right_eq_some] at hrate
  obtain ⟨-, ⟨⟩⟩ := hrate
  exact h

/-- A pool before its first join that knows no rates but the configured ones. -/
structure Prepared (sim : Simulation) (p : Pool) : Prop where
  config : p.config = sim.config
  ledger : p.ledger = .empty sim.config.tokenCount
  length_caches : p.caches.length = sim.config.tokenCount
  knows : ∀ (i : ℕ) token cache, sim.config.tokens[i]? = some token →
    p.caches[i]? = some cache → sim.Knows token cache

theorem prepared_ofConfig (sim : Simulation) : sim.Prepared (.ofConfig sim.config) where
  config := rfl
  ledger := rfl
  length_caches := List.length_map _
  knows := by
    intro i token cache htoken hcache
    rw [Pool.ofConfig, List.getElem?_map, htoken] at hcache
    obtain rfl := Option.some.inj hcache
    exact sim.knows_ofToken token

/-- The rates to be recorded are those the tokens are to have. -/
theorem rateOf?_of_ratedTokens {rated : List (ℕ × Fixed)} {index : ℕ} {rate : Fixed}
    (h : sim.ratedTokens = .ok rated) (hmem : (index, rate) ∈ rated) :
    ∃ token, sim.config.tokens[index]? = some token ∧ sim.rateOf? token = some rate := by
  obtain ⟨⟨token, i⟩, hentry, hrate⟩ := exists_of_mem_mapM h hmem
  rw [List.mem_filter] at hentry
  obtain ⟨hindex, hprovider⟩ := hentry
  simp only at hrate
  split at hrate
  · rename_i reported hreported
    cases hrate
    refine ⟨token, List.mem_zipIdx_iff_getElem?.mp hindex, ?_⟩
    rw [rateOf?, if_pos hprovider]
    exact hreported
  · exact nomatch hrate

/-- Recording a token's rate keeps what is known to the configured rates. -/
theorem Prepared.refresh {index now : ℕ} {rate used : Fixed} (hp : sim.Prepared p)
    (htoken : sim.config.tokens[index]? = some token) (hrate : sim.rateOf? token = some rate)
    (h : p.refresh index (.rate rate.wei) now = .ok (used, p')) : sim.Prepared p' := by
  obtain ⟨token', cache, cache', hat, hcache', rfl⟩ := Pool.refresh_ok h
  obtain ⟨htoken', hcache⟩ := Pool.tokenAt_ok hat
  rw [hp.config, htoken] at htoken'
  obtain rfl := Option.some.inj htoken'
  obtain ⟨value, duration, hvalue, -, rfl⟩ := RateCache.refreshed_ok hcache'
  obtain rfl := ProviderAnswer.rate.inj hvalue
  refine ⟨hp.config, hp.ledger, (List.length_set ..).trans hp.length_caches, ?_⟩
  intro i other known hother hknown
  by_cases hi : index = i
  · subst hi
    rw [List.getElem?_set_self (List.getElem?_eq_some_iff.mp hcache).1] at hknown
    rw [htoken] at hother
    obtain rfl := Option.some.inj hother
    obtain rfl := Option.some.inj hknown
    exact knows_cached hrate now duration
  · rw [List.getElem?_set_ne hi] at hknown
    exact hp.knows i other known hother hknown

/-- Recording all rates keeps what is known to the configured rates. -/
theorem refreshAll_ok {rated : List (ℕ × Fixed)} (hrated : sim.ratedTokens = .ok rated)
    (hp : sim.Prepared p) (h : sim.refreshAll rated p = .ok p') : sim.Prepared p' := by
  refine foldlM_eq_ok_rec (P := fun rest q => (∀ entry ∈ rest, entry ∈ rated) →
    sim.Prepared q → sim.Prepared p') (fun _ hq => hq) ?_ h (fun _ hentry => hentry) hp
  rintro ⟨index, rate⟩ rest q next hnext ih hrest hq
  obtain ⟨⟨used, _⟩, hrefresh, hnext⟩ := bind_eq_ok.mp hnext
  obtain rfl := pure_eq_ok.mp hnext
  obtain ⟨token, htoken, hrate⟩ :=
    rateOf?_of_ratedTokens hrated (hrest _ List.mem_cons_self)
  exact ih (fun entry hentry => hrest entry (List.mem_cons_of_mem _ hentry))
    (hq.refresh htoken hrate hrefresh)

/-- The rates that such a pool uses are the configured ones. -/
theorem Prepared.configured {now : ℕ} (hp : sim.Prepared p) (h : p.rates now = .ok rates) :
    sim.Configured rates := by
  obtain ⟨hlen, hget⟩ := List.forall₂_iff_get.mp (mapM_eq_ok.mp h)
  rw [List.length_zip, hp.length_caches, hp.config, Config.tokenCount, Nat.min_self] at hlen
  refine List.forall₂_iff_get.mpr ⟨hlen, fun i hi hi' => ?_⟩
  have hi'' : i < p.caches.length := hp.length_caches ▸ hi
  have hcurrent := hget i (by rwa [List.length_zip, hp.length_caches, hp.config, Config.tokenCount,
    Nat.min_self]) hi'
  simp only [List.get_eq_getElem, List.getElem_zip, hp.config] at hcurrent
  exact hp.knows i _ _ (List.getElem?_eq_getElem hi) (List.getElem?_eq_getElem hi'') now _
    (Token.currentRate_eq_ok.mp hcurrent)

/-! ### The first join -/

/-- A pool right after its first join: it holds the first balances, has as many shares as their
invariant `D`, and was settled at just that. -/
structure Started (sim : Simulation) (rates : List Fixed) (D : Amount) (p : Pool) : Prop where
  config : p.config = sim.config
  shaped : p.Shaped
  ledger : p.ledger = ⟨sim.balances, D⟩
  snapshot : p.snapshot = some ⟨D, D, sim.config.amplification.scaled, rates⟩
  rates_eq : p.rates sim.timestamp = .ok rates
  configured : sim.Configured rates
  invariant : invariantAt sim.config.amplification.scaled sim.config.tokens sim.balances rates = .ok D
  pos : 0 < D.val

/-- The first join of such a pool. -/
theorem Prepared.joinExit_init {outcome : LiquidityOutcome} (hp : sim.Prepared p)
    (h : p.joinExit (.init sim.balances) sim.context = .ok (outcome, p')) :
    ∃ rates D, sim.Started rates D p' := by
  obtain ⟨rates, scaling, booking, snapshot, hrates, hscaling, hbooking, hsnapshot, -, rfl⟩ :=
    Pool.joinExit_ok h
  obtain ⟨-, delta, hdelta, hledger, -⟩ := Pool.bookFirst_ok hbooking
  obtain ⟨scaled, hscaled, hD⟩ := firstJoin_invariant hdelta
  obtain ⟨D, rfl, -, hlocked⟩ := firstJoin_ok hdelta
  rw [hp.ledger] at hledger
  obtain ⟨hcount, hlen, hheld, hsupply⟩ := Ledger.apply_inward_ok hledger
  have hbalances : booking.ledger = ⟨sim.balances, D⟩ := by
    refine Ledger.ext_held (hlen.trans hcount.symm) (fun i => ?_) (Amount.ext ?_)
    · rw [hheld, Ledger.held_empty, Nat.zero_add]
      rfl
    · rw [hsupply]
      exact Nat.zero_add _
  rw [hbalances] at hsnapshot
  simp only [Pool.snapshotOf, bind_eq_ok, mapError_eq_ok, pure_eq_ok] at hsnapshot
  obtain ⟨scaled', hscaled', D', hD', rfl⟩ := hsnapshot
  obtain rfl : scaled = scaled' := Except.ok.inj (hscaled.symm.trans hscaled')
  obtain rfl : D = D' := Except.ok.inj (hD.symm.trans hD')
  refine ⟨rates, D, hp.config, ⟨?_, ?_⟩, hbalances, rfl, hrates, hp.configured hrates, ?_,
    Nat.zero_lt_of_lt hlocked⟩
  · rw [hlen, Ledger.length_empty_balances, hp.config]
  · rw [hp.length_caches, hp.config]
  · rw [Pool.scaling, hp.config, mapError_eq_ok] at hscaling
    exact bind_eq_ok.mpr ⟨scaling, hscaling, bind_eq_ok.mpr ⟨scaled, hscaled, hD⟩⟩

theorem start_ok (h : sim.start = .ok p) : ∃ rates D, sim.Started rates D p := by
  simp only [start, bind_eq_ok, mapError_eq_ok, pure_eq_ok] at h
  obtain ⟨rated, hrated, pool, hpool, ⟨outcome, _⟩, hjoin, rfl⟩ := h
  exact (refreshAll_ok hrated sim.prepared_ofConfig hpool).joinExit_init hjoin

/-! ### The operation -/

namespace Started

theorem upToDate (hp : sim.Started rates D p) :
    p.UpToDate ⟨D, D, sim.config.amplification.scaled, rates⟩ where
  snapshot := hp.snapshot
  invariant := by
    rw [hp.config, hp.ledger]
    exact hp.invariant

/-- Right after the first join nothing is owed. -/
theorem actualSupply_eq (hp : sim.Started rates D p) : p.actualSupply sim.context = .ok D := by
  rw [hp.upToDate.actualSupply_eq hp.rates_eq, hp.ledger]

theorem isInitialized (hp : sim.Started rates D p) : p.ledger.isInitialized = true := by
  rw [← Bool.not_eq_false, Ledger.isInitialized_eq_false, hp.ledger]
  rintro rfl
  exact absurd hp.pos (lt_irrefl 0)

theorem invariant_eq (hp : sim.Started rates D p) {D' : Amount}
    (h : p.invariant sim.context = .ok D') : D' = D := by
  have hD' := Pool.invariantAt_of_invariant hp.rates_eq h
  rw [hp.config, hp.ledger] at hD'
  exact Except.ok.inj (hD'.symm.trans hp.invariant)

/-- Nothing is minted to the protocol by the operation. -/
theorem minted_eq_zero (hp : sim.Started rates D p) {rates' : List Fixed} {settled : Pool.Settled}
    {fee : FeeMint} (hrates : p.rates sim.context.timestamp = .ok rates')
    (hsettled : p.settle rates' sim.context = .ok settled) (hfee : fee = settled.protocolFee) :
    fee.amount = 0 := by
  have hsum := Pool.supply_add_minted hp.isInitialized hp.actualSupply_eq hrates hsettled hfee
  rw [hp.ledger] at hsum
  rw [Amount.eq_zero_iff]
  exact Nat.add_left_cancel hsum

/-- What a join or exit does: it mints nothing to the protocol, moves its outcome's amounts and the
shares computed, and leaves nothing owed. -/
theorem joinExit_ok (hp : sim.Started rates D p) {request : LiquidityRequest}
    {outcome : LiquidityOutcome} (h : p.joinExit request sim.context = .ok (outcome, p'))
    (hne : ∀ amountsIn, request ≠ .init amountsIn) :
    outcome.protocolFee.amount = 0 ∧ p'.actualSupply sim.context = .ok p'.ledger.supply ∧
      ∃ (basis : LiquidityBasis) (delta : Delta), basis.compute request = .ok delta ∧
        Ledger.apply ⟨sim.balances, D⟩ delta = .ok p'.ledger ∧ outcome.amounts = delta.amounts := by
  obtain ⟨rates', settled, hrates, hsettled, hfee⟩ := Pool.joinExit_settles hne h
  have hzero := hp.minted_eq_zero hrates hsettled hfee
  obtain ⟨s, hu, hused, hconfig, hcaches⟩ := Pool.joinExit_upToDate h
  refine ⟨hzero, hu.actualSupply_eq ?_, ?_⟩
  · rw [Pool.rates, hconfig, hcaches]
    exact hused
  · obtain ⟨ledger, basis, delta, hbalances, hsupply, -, hdelta, hledger, hamounts, -⟩ :=
      Pool.joinExit_later hp.shaped h hne
    rw [hp.ledger] at hbalances hsupply
    rw [hzero] at hsupply
    obtain ⟨balances, supply⟩ := ledger
    obtain rfl : balances = sim.balances := hbalances
    obtain rfl : supply = D := Amount.ext hsupply
    exact ⟨basis, delta, hdelta, hledger, hamounts⟩

/-- What a trade does: it mints nothing to the protocol, moves its two amounts, and leaves the
supply as it is. -/
theorem swap_ok (hp : sim.Started rates D p) {request : SwapRequest} {outcome : SwapOutcome}
    (h : p.swap request sim.context = .ok (outcome, p')) :
    outcome.protocolFee.amount = 0 ∧ p'.ledger.supply = D ∧ request.tokenIn ≠ request.tokenOut ∧
      p'.ledger.balances.length = sim.balances.length ∧
      ∀ k, p'.ledger.held k + (if k = request.tokenOut then outcome.amounts.amountOut.val else 0) =
        (sim.balances.getD k 0).val +
          if k = request.tokenIn then outcome.amounts.amountIn.val else 0 := by
  obtain ⟨rates', settled, hrates, hsettled, hfee⟩ := Pool.swap_settles h
  have hzero := hp.minted_eq_zero hrates hsettled hfee
  have hsupply := Pool.swap_supply hp.shaped h
  have hbalances := Pool.swap_balances hp.shaped h
  obtain ⟨-, -, _, _, settled', basis, ledger, -, -, hsettled', -, hamounts, hledger, -, rfl⟩ :=
    Pool.swap_ok h
  obtain ⟨-, -, hsame, -⟩ := Pool.settle_ok hsettled'
  rw [hzero, hp.ledger] at hsupply
  refine ⟨hzero, Amount.ext hsupply, SwapBasis.tokenIn_ne_tokenOut hamounts, ?_, fun k => ?_⟩
  · rw [Ledger.length_swap hledger, hsame, hp.ledger]
  · have hk := hbalances k
    rw [hp.ledger] at hk
    simp only [eq_comm (a := k)]
    exact hk

end Started

/-! ### The report -/

/-- What the report on a command is to say of first balances with the invariant `D`. -/
def Describes (sim : Simulation) (D : Amount) (report : Report) : Command → Prop
  | .state =>
    report.outcome = none ∧ report.state.balances = sim.balances ∧ report.state.supply = D ∧
      report.state.actualSupply = D ∧ report.state.invariant = D ∧
      report.state.rate.wei.val = 10 ^ 18
  | .swap tokenIn tokenOut _ _ _ =>
    ∃ outcome i j, report.outcome = some (.swap outcome) ∧ outcome.protocolFee.amount = 0 ∧
      report.state.supply = D ∧ D ≤ report.state.actualSupply ∧
      (∃ token, sim.config.tokens[i]? = some token ∧ token.address = tokenIn) ∧
      (∃ token, sim.config.tokens[j]? = some token ∧ token.address = tokenOut) ∧ i ≠ j ∧
      report.state.balances.length = sim.balances.length ∧
      ∀ k, (report.state.balances.getD k 0).val +
          (if k = j then outcome.amounts.amountOut.val else 0) =
        (sim.balances.getD k 0).val + if k = i then outcome.amounts.amountIn.val else 0
  | .joinProportional sharesOut =>
    ∃ outcome, report.outcome = some (.liquidity outcome) ∧ outcome.protocolFee.amount = 0 ∧
      report.state.supply.val = D.val + sharesOut.val ∧
      report.state.actualSupply = report.state.supply ∧
      report.state.balances.length = sim.balances.length ∧
      outcome.amounts.length = sim.balances.length ∧
      ∀ k, (report.state.balances.getD k 0).val =
        (sim.balances.getD k 0).val + (outcome.amounts.getD k 0).val
  | .exitProportional sharesIn =>
    ∃ outcome, report.outcome = some (.liquidity outcome) ∧ outcome.protocolFee.amount = 0 ∧
      report.state.supply.val + sharesIn.val = D.val ∧
      report.state.actualSupply = report.state.supply ∧
      report.state.balances.length = sim.balances.length ∧
      outcome.amounts.length = sim.balances.length ∧
      ∀ k, (report.state.balances.getD k 0).val + (outcome.amounts.getD k 0).val =
        (sim.balances.getD k 0).val

/-- The report on the pool that a command's operation leaves. -/
theorem Started.describes {command : Command} {outcome : Option Outcome} {state : PoolState}
    (hp : sim.Started rates D p) (hperform : sim.perform p command = .ok (outcome, p'))
    (hstate : p'.state sim.context = .ok state) : sim.Describes D ⟨outcome, state⟩ command := by
  obtain ⟨hactual, hinvariant, hrate, hbalances, hsupply⟩ := Pool.state_ok hstate
  cases command with
  | state =>
      cases hperform
      have hD := hp.invariant_eq hinvariant
      rw [hD] at hinvariant
      rw [hp.ledger] at hbalances hsupply
      exact ⟨rfl, hbalances, hsupply, Except.ok.inj (hactual.symm.trans hp.actualSupply_eq), hD,
        Pool.shareRate_eq_one hp.actualSupply_eq hinvariant hrate⟩
  | swap tokenIn tokenOut amount givenOut limit =>
      simp only [perform, bind_eq_ok, pure_eq_ok, Prod.mk.injEq] at hperform
      obtain ⟨i, hi, j, hj, ⟨outcome, _⟩, hswap, rfl, rfl⟩ := hperform
      obtain ⟨hfee, hsame, hne, hlen, hmoved⟩ := hp.swap_ok hswap
      rw [hp.config] at hi hj
      refine ⟨outcome, i, j, rfl, hfee, hsupply.trans hsame, ?_, Config.tokenIndex_ok hi,
        Config.tokenIndex_ok hj, hne, ?_, ?_⟩
      · rw [← hsame]
        exact Pool.supply_le_actualSupply hactual
      · rw [hbalances, hlen]
      · rw [hbalances]
        exact hmoved
  | joinProportional sharesOut =>
      simp only [perform, bind_eq_ok, pure_eq_ok, Prod.mk.injEq] at hperform
      obtain ⟨⟨outcome, _⟩, hjoin, rfl, rfl⟩ := hperform
      obtain ⟨hfee, howed, basis, delta, hdelta, hledger, hamounts⟩ :=
        hp.joinExit_ok hjoin (by rintro _ ⟨⟩)
      obtain ⟨amounts, rfl, -⟩ := LiquidityBasis.allTokensIn_ok hdelta
      obtain ⟨hcount, hlen, hheld, hminted⟩ := Ledger.apply_inward_ok hledger
      have hsettled := Except.ok.inj (hactual.symm.trans howed)
      refine ⟨outcome, rfl, hfee, ?_, hsettled.trans hsupply.symm, ?_, ?_, ?_⟩
      · rw [hsupply, hminted]
      · rw [hbalances, hlen]
      · rw [hamounts, hcount]
      · rw [hbalances, hamounts]
        exact hheld
  | exitProportional sharesIn =>
      simp only [perform, bind_eq_ok, pure_eq_ok, Prod.mk.injEq] at hperform
      obtain ⟨⟨outcome, _⟩, hexit, rfl, rfl⟩ := hperform
      obtain ⟨hfee, howed, basis, delta, hdelta, hledger, hamounts⟩ :=
        hp.joinExit_ok hexit (by rintro _ ⟨⟩)
      obtain ⟨-, amounts, rfl, -⟩ := LiquidityBasis.allTokensOut_ok hdelta
      obtain ⟨hcount, hlen, hheld, hburned, -⟩ := Ledger.apply_outward_ok hledger
      have hsettled := Except.ok.inj (hactual.symm.trans howed)
      refine ⟨outcome, rfl, hfee, ?_, hsettled.trans hsupply.symm, ?_, ?_, ?_⟩
      · rw [hsupply, hburned]
      · rw [hbalances, hlen]
      · rw [hamounts, hcount]
      · rw [hbalances, hamounts]
        exact hheld

/-- **A report says what the first balances, their invariant and the outcome make of the pool.** The
invariant is that of the first balances at the configured rates and amplification, and the operation of
the command finds no fee to charge. -/
theorem run_reports {command : Command} {report : Report} (h : sim.run command = .ok report) :
    ∃ rates D, sim.Configured rates ∧
      invariantAt sim.config.amplification.scaled sim.config.tokens sim.balances rates = .ok D ∧
      sim.Describes D report command := by
  simp only [run, bind_eq_ok, mapError_eq_ok, pure_eq_ok] at h
  obtain ⟨pool, hpool, ⟨outcome, pool'⟩, hperform, state, hstate, rfl⟩ := h
  obtain ⟨rates, D, hp⟩ := start_ok hpool
  exact ⟨rates, D, hp.configured, hp.invariant, hp.describes hperform hstate⟩

/-- Two tokens of which the first has a rate, of six and of eighteen decimals, with the highest
protocol fees. -/
def bench : Simulation where
  config := {
    address := 3
    tokens := [
      { address := 1
        decimals := 6
        rateProvider := some 4
        cacheDuration := ⟨300, 0⟩ },
      { address := 2, decimals := 18 }]
    amplification := Pool.pair.amplification
    swapFee := ⟨1000000000000000⟩
    accepted := by decide +kernel }
  protocolFees := .halves
  timestamp := 1000
  rates := [(1, ⟨1100000000000000000⟩)]
  balances := [1000000000, 1000000000000000000000]

/-- A join of one share, and a trade of one token for the other, of whose fee the protocol is owed
half. -/
theorem run_reports_bench :
    bench.Configured [⟨1100000000000000000⟩, 1] ∧
    invariantAt bench.config.amplification.scaled bench.config.tokens bench.balances
      [⟨1100000000000000000⟩, 1] = .ok 2099988127744956843734 ∧
    (∃ report, bench.run (.joinProportional 1000000000000000000) = .ok report ∧
      report.outcome = some (.liquidity ⟨"all_tokens_in_for_exact_bpt_out", .inward,
        1000000000000000000, [476194, 476193168327021042], ⟨.nobody, 0⟩⟩) ∧
      report.state.supply = 2100988127744956843734 ∧
      bench.Describes 2099988127744956843734 report (.joinProportional 1000000000000000000)) ∧
    ∃ report, bench.run (.swap 1 2 1000000 false none) = .ok report ∧
      report.outcome = some (.swap ⟨⟨1000000, 1098371297082912546, 1000⟩, ⟨.nobody, 0⟩⟩) ∧
      report.state.actualSupply = 2099988677614283203855 ∧
      bench.Describes 2099988127744956843734 report (.swap 1 2 1000000 false none) := by
  have hconfigured : bench.Configured [⟨1100000000000000000⟩, 1] :=
    .cons (by decide +kernel) (.cons (by decide +kernel) .nil)
  have hinvariant : invariantAt bench.config.amplification.scaled bench.config.tokens
      bench.balances [⟨1100000000000000000⟩, 1] = .ok 2099988127744956843734 := by decide +kernel
  obtain ⟨joined, hjoined, hvalues⟩ := map_eq_ok.mp
    (by decide +kernel : (bench.run (.joinProportional 1000000000000000000)).map
      (fun report => (report.outcome, report.state.supply)) =
      .ok (some (.liquidity ⟨"all_tokens_in_for_exact_bpt_out", .inward, 1000000000000000000,
        [476194, 476193168327021042], ⟨.nobody, 0⟩⟩), 2100988127744956843734))
  obtain ⟨traded, htraded, hvalues'⟩ := map_eq_ok.mp
    (by decide +kernel : (bench.run (.swap 1 2 1000000 false none)).map
      (fun report => (report.outcome, report.state.actualSupply)) =
      .ok (some (.swap ⟨⟨1000000, 1098371297082912546, 1000⟩, ⟨.nobody, 0⟩⟩),
        2099988677614283203855))
  obtain ⟨houtcome, hsupply⟩ := Prod.mk.inj hvalues
  obtain ⟨houtcome', hsupply'⟩ := Prod.mk.inj hvalues'
  obtain ⟨rates, D, hrates, hD, hjoin⟩ := run_reports hjoined
  obtain rfl := hrates.unique hconfigured
  obtain rfl := Except.ok.inj (hD.symm.trans hinvariant)
  obtain ⟨rates, D, hrates, hD, htrade⟩ := run_reports htraded
  obtain rfl := hrates.unique hconfigured
  obtain rfl := Except.ok.inj (hD.symm.trans hinvariant)
  exact ⟨hconfigured, hinvariant, ⟨joined, hjoined, houtcome, hsupply, hjoin⟩, traded, htraded,
    houtcome', hsupply', htrade⟩

end Simulation

end StableSwap
