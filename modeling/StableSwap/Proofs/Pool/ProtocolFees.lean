import Mathlib
import StableSwap.Proofs.Pool.Proportional
import StableSwap.Proofs.Settlement

/-!
# Protocol fees of a pool

The supply that a pool previews is the one that every later operation at the same context starts from
(`swap_settles`, `joinExit_settles`). A join or exit leaves a snapshot of the very balances it leaves
(`UpToDate`), so from there on

* nothing is owed while the rates are the ones it used, whatever the amplification and the fees
  became (`fees_charged_once`);
* nothing is owed either when only rates of exempt tokens changed (`exempt_owes_nothing`).
-/

namespace StableSwap

/-- The token at an index is exempt from yield fees. -/
def Config.IsExempt (c : Config) (index : ℕ) : Prop :=
  ∃ token, c.tokens[index]? = some token ∧ token.exemptFromYieldFee = true

namespace Pool

variable {p p' : Pool} {s : Snapshot} {ctx : Context} {rates : List Fixed} {v : Amount}

/-! ### What an operation settles -/

/-- Before the first join nothing is owed. -/
theorem actualSupply_of_unjoined (hi : p.ledger.isInitialized = false) (ctx : Context) :
    p.actualSupply ctx = .ok p.ledger.supply := by
  rw [Ledger.isInitialized_eq_false.mp hi, actualSupply, hi]
  rfl

/-- The previewed supply is that of the settled ledger. -/
theorem actualSupply_ok (hi : p.ledger.isInitialized = true) (h : p.actualSupply ctx = .ok v) :
    ∃ rates settled, p.rates ctx.timestamp = .ok rates ∧ p.settle rates ctx = .ok settled ∧
      settled.ledger.supply = v := by
  rw [actualSupply, if_pos hi] at h
  simp only [bind_eq_ok, pure_eq_ok] at h
  obtain ⟨rates, hrates, settled, hsettled, rfl⟩ := h
  exact ⟨rates, settled, hrates, hsettled, rfl⟩

/-- A trade reports what settling before it mints. -/
theorem swap_settles {request : SwapRequest} {outcome : SwapOutcome}
    (h : p.swap request ctx = .ok (outcome, p')) :
    ∃ rates settled, p.rates ctx.timestamp = .ok rates ∧ p.settle rates ctx = .ok settled ∧
      outcome.protocolFee = settled.protocolFee := by
  obtain ⟨-, -, rates, _, settled, _, _, hrates, -, hsettled, -, -, -, hfee, -⟩ := swap_ok h
  exact ⟨rates, settled, hrates, hsettled, hfee⟩

/-- So does a join or exit other than the first. -/
theorem joinExit_settles {request : LiquidityRequest} {outcome : LiquidityOutcome}
    (hne : ∀ amountsIn, request ≠ .init amountsIn)
    (h : p.joinExit request ctx = .ok (outcome, p')) :
    ∃ rates settled, p.rates ctx.timestamp = .ok rates ∧ p.settle rates ctx = .ok settled ∧
      outcome.protocolFee = settled.protocolFee := by
  obtain ⟨rates, _, booking, _, hrates, -, hbooking, -, rfl, -⟩ := joinExit_ok h
  rcases book_ok hbooking with ⟨amountsIn, rfl, -⟩ | hlater
  · exact absurd rfl (hne amountsIn)
  obtain ⟨settled, _, _, hsettled, -, -, -, -, -, hfee⟩ := bookLater_ok hlater
  exact ⟨rates, settled, hrates, hsettled, hfee⟩

/-- What settling mints at a context is what the previewed supply has on top. -/
theorem supply_add_minted {settled : Settled} {fee : FeeMint}
    (hi : p.ledger.isInitialized = true) (hv : p.actualSupply ctx = .ok v)
    (hrates : p.rates ctx.timestamp = .ok rates) (hsettled : p.settle rates ctx = .ok settled)
    (hfee : fee = settled.protocolFee) : p.ledger.supply.val + fee.amount.val = v.val := by
  obtain ⟨rates', settled', hrates', hsettled', rfl⟩ := actualSupply_ok hi hv
  obtain rfl : rates = rates' := Except.ok.inj (hrates.symm.trans hrates')
  obtain rfl : settled = settled' := Except.ok.inj (hsettled.symm.trans hsettled')
  obtain ⟨-, -, -, hsupply, -⟩ := settle_ok hsettled
  rw [hsupply, hfee]

/-! ### After a join or exit -/

/-- The snapshot is of the pool's own balances. -/
structure UpToDate (p : Pool) (s : Snapshot) : Prop where
  snapshot : p.snapshot = some s
  invariant : invariantAt s.amplification p.config.tokens p.ledger.balances s.rates =
    .ok s.invariant

/-- A join or exit, the first included, leaves a snapshot at the rates that it used. -/
theorem joinExit_upToDate {request : LiquidityRequest} {outcome : LiquidityOutcome}
    (h : p.joinExit request ctx = .ok (outcome, p')) :
    ∃ s, p'.UpToDate s ∧ p.rates ctx.timestamp = .ok s.rates ∧ p'.config = p.config ∧
      p'.caches = p.caches := by
  obtain ⟨rates, scaling, booking, snapshot, hrates, hscaling, -, hsnapshot, -, rfl⟩ := joinExit_ok h
  simp only [snapshotOf, bind_eq_ok, mapError_eq_ok, pure_eq_ok] at hsnapshot
  obtain ⟨scaled, hscaled, D, hD, rfl⟩ := hsnapshot
  -- the scaling in hand is the one that `invariantAt` would compute from the rates again
  refine ⟨_, ⟨rfl, ?_⟩, hrates, rfl, rfl⟩
  exact bind_eq_ok.mpr ⟨scaling, mapError_eq_ok.mp hscaling, bind_eq_ok.mpr ⟨scaled, hscaled, hD⟩⟩

theorem UpToDate.congr {q : Pool} (hu : p.UpToDate s) (hconfig : q.config = p.config)
    (hledger : q.ledger = p.ledger) (hsnapshot : q.snapshot = p.snapshot) : q.UpToDate s := by
  refine ⟨hsnapshot.trans hu.snapshot, ?_⟩
  rw [hconfig, hledger]
  exact hu.invariant

/-- At the rates of the snapshot nothing is owed, whatever the amplification and the fees. -/
theorem UpToDate.actualSupply_eq (hu : p.UpToDate s) (h : p.rates ctx.timestamp = .ok s.rates) :
    p.actualSupply ctx = .ok p.ledger.supply := by
  cases hi : p.ledger.isInitialized with
  | false => exact actualSupply_of_unjoined hi ctx
  | true =>
      have hsettle := Snapshot.settle_self hu.invariant (Nat.le_refl _) ctx.protocolFees
        p.ledger.supply
      have hsettled := settle_eq_ok.mpr ⟨s, _, _, hu.snapshot, hsettle, p.ledger.mint_zero, rfl⟩
      rw [actualSupply, if_pos hi]
      exact bind_eq_ok.mpr ⟨s.rates, h, bind_eq_ok.mpr ⟨_, hsettled, rfl⟩⟩

/-- When only rates of exempt tokens are others than those of the snapshot, nothing is owed. -/
theorem UpToDate.eq_supply_of_actualSupply (hu : p.UpToDate s)
    (hd : ∀ rates, p.rates ctx.timestamp = .ok rates →
      OnlyExemptDiffer p.config.tokens s.rates rates)
    (h : p.actualSupply ctx = .ok v) : v = p.ledger.supply := by
  cases hi : p.ledger.isInitialized with
  | false => exact Except.ok.inj (h.symm.trans (actualSupply_of_unjoined hi ctx))
  | true =>
      obtain ⟨rates, settled, hrates, hsettled, rfl⟩ := actualSupply_ok hi h
      obtain ⟨s', settlement, ledger, hs', hsettle, hledger, rfl⟩ := settle_eq_ok.mp hsettled
      obtain rfl : s = s' := Option.some.inj (hu.snapshot.symm.trans hs')
      obtain ⟨-, D, hD, hzero⟩ := Snapshot.settle_of_onlyExemptDiffer (hd rates hrates) hsettle
      obtain rfl : s.invariant = D := Except.ok.inj (hu.invariant.symm.trans hD)
      rw [hzero (Nat.le_refl _), Ledger.mint_zero] at hledger
      rw [Except.ok.inj hledger]

/-! ### Fees are charged once -/

/-- **Protocol fees are previewed exactly and charged once.** A trade and a join or exit mint what
the previewed supply has on top of the pool's. After a join or exit nothing is owed at the rates that
it used, whatever the amplification and the fees became. Settling again mints nothing. -/
theorem fees_charged_once :
    (∀ (p : Pool) ctx v, p.ledger.isInitialized = true → p.actualSupply ctx = .ok v →
      (∀ request outcome p', p.swap request ctx = .ok (outcome, p') →
        p.ledger.supply.val + outcome.protocolFee.amount.val = v.val) ∧
      ∀ request outcome p', (∀ amountsIn, request ≠ .init amountsIn) →
        p.joinExit request ctx = .ok (outcome, p') →
        p.ledger.supply.val + outcome.protocolFee.amount.val = v.val) ∧
    (∀ (p : Pool) request ctx outcome p' later ctx',
      p.joinExit request ctx = .ok (outcome, p') →
      (∀ event ∈ p'.history later, event.IsRefresh) →
      (p'.run later).rates ctx'.timestamp = p.rates ctx.timestamp →
      (p'.run later).actualSupply ctx' = .ok (p'.run later).ledger.supply) ∧
    ∀ (s : Snapshot) tokens fees balances rates supply settlement fees' supply',
      s.settle tokens fees balances rates supply = .ok settlement →
      settlement.snapshot.settle tokens fees' balances rates supply' =
        .ok ⟨0, settlement.snapshot⟩ := by
  refine ⟨fun p ctx v hi hv => ⟨?_, ?_⟩, ?_, ?_⟩
  · intro request outcome p' h
    obtain ⟨rates, settled, hrates, hsettled, hfee⟩ := swap_settles h
    exact supply_add_minted hi hv hrates hsettled hfee
  · intro request outcome p' hne h
    obtain ⟨rates, settled, hrates, hsettled, hfee⟩ := joinExit_settles hne h
    exact supply_add_minted hi hv hrates hsettled hfee
  · intro p request ctx outcome p' later ctx' h hlater hrates
    obtain ⟨s, hu, hused, -, -⟩ := joinExit_upToDate h
    obtain ⟨hconfig, hledger, hsnapshot, -, -⟩ :=
      run_refreshesOnly fun event hevent => (hlater event hevent).refreshesOnly
    exact (hu.congr hconfig hledger hsnapshot).actualSupply_eq (hrates.trans hused)
  · intro s tokens fees balances rates supply settlement fees' supply' h
    exact Snapshot.settle_again h fees' supply'

/-- Two tokens with rates, and a fee of one in a thousand. -/
def rated : Config where
  address := 3
  tokens := ratedPair
  amplification := pair.amplification
  swapFee := ⟨1000000000000000⟩
  accepted := by decide +kernel

/-- An operation at the amplification of `pair`, with the highest protocol fees. -/
def charged : Context := ⟨0, pair.amplification, .halves⟩

/-- An operation at twice the amplification of `pair`, a minute later and without protocol fees. -/
def ramped : Context := ⟨60, ⟨⟨400, 1⟩, by decide⟩, .zero⟩

/-- The pool of `rated` after a join of a thousand of each token at rate one, once the rate of the
first has risen by a tenth. -/
def risen : Pool :=
  (ofConfig rated).run [.refresh 0 (.rate 1000000000000000000) 0,
    .refresh 1 (.rate 1000000000000000000) 0,
    .joinExit (.init [1000000000000000000000, 1000000000000000000000]) charged,
    .refresh 0 (.rate 1100000000000000000) 0]

/-- A trade and a join of `risen`, which mint what is previewed; and the settlement in them, again. -/
theorem fees_charged_once_risen :
    ∃ v sold p₁ joined p₂ settlement,
      risen.ledger.isInitialized = true ∧ risen.actualSupply charged = .ok v ∧
      risen.swap ⟨.givenIn, 0, 1, 1000000000000000000, none⟩ charged = .ok (sold, p₁) ∧
      risen.joinExit (.exactTokensInForShares [1000000000000000000, 0] 0) charged =
        .ok (joined, p₂) ∧
      p₂.rates ramped.timestamp = risen.rates charged.timestamp ∧
      Snapshot.even.settle ratedPair .halves [1010000000000000000000, 1000000000000000000000]
        [⟨1100000000000000000⟩, 1] 2000000000000000000000 = .ok settlement ∧
      risen.ledger.supply.val < v.val ∧
      risen.ledger.supply.val + sold.protocolFee.amount.val = v.val ∧
      risen.ledger.supply.val + joined.protocolFee.amount.val = v.val ∧
      p₂.actualSupply ramped = .ok p₂.ledger.supply ∧
      settlement.snapshot.settle ratedPair .zero [1010000000000000000000, 1000000000000000000000]
        [⟨1100000000000000000⟩, 1] 0 = .ok ⟨0, settlement.snapshot⟩ := by
  have hi : risen.ledger.isInitialized = true := by decide +kernel
  have hv : risen.actualSupply charged = .ok 2048774837696884514308 := by decide +kernel
  obtain ⟨⟨sold, p₁⟩, hswap⟩ := exists_eq_ok_of_isOk
    (by decide +kernel :
      (risen.swap ⟨.givenIn, 0, 1, 1000000000000000000, none⟩ charged).isOk = true)
  obtain ⟨⟨joined, p₂⟩, hjoin⟩ := exists_eq_ok_of_isOk
    (by decide +kernel : (risen.joinExit
      (.exactTokensInForShares [1000000000000000000, 0] 0) charged).isOk = true)
  obtain ⟨settlement, hsettle⟩ := exists_eq_ok_of_isOk
    (by decide +kernel : (Snapshot.even.settle ratedPair .halves
      [1010000000000000000000, 1000000000000000000000] [⟨1100000000000000000⟩, 1]
      2000000000000000000000).isOk = true)
  have hlt : risen.ledger.supply.val < (2048774837696884514308 : Amount).val := by decide +kernel
  have hrates : p₂.rates ramped.timestamp = risen.rates charged.timestamp := by
    obtain ⟨-, -, -, hconfig, hcaches⟩ := joinExit_upToDate hjoin
    rw [Pool.rates, hconfig, hcaches]
    decide +kernel
  obtain ⟨hpreview, hnothing, hagain⟩ := fees_charged_once
  obtain ⟨hswaps, hjoins⟩ := hpreview risen charged _ hi hv
  exact ⟨_, sold, p₁, joined, p₂, settlement, hi, hv, hswap, hjoin, hrates, hsettle, hlt,
    hswaps _ _ _ hswap, hjoins (.exactTokensInForShares _ _) _ _ nofun hjoin,
    hnothing risen _ charged joined p₂ [] ramped hjoin (List.forall_mem_nil _) hrates,
    hagain _ _ _ _ _ _ _ .zero 0 hsettle⟩

/-! ### Exempt tokens -/

/-- **Exempt tokens never pay yield fees.** Where only their rates changed since the snapshot, a
settlement is the one without a share of yield, and mints nothing unless trades gained something. So
after a join or exit and refreshes of their rates, no shares are owed at any later time. -/
theorem exempt_owes_nothing :
    (∀ (s : Snapshot) tokens fees balances rates supply settlement,
      OnlyExemptDiffer tokens s.rates rates →
      s.settle tokens fees balances rates supply = .ok settlement →
      s.settle tokens fees.withoutYield balances rates supply = .ok settlement ∧
        ∃ D, invariantAt s.amplification tokens balances s.rates = .ok D ∧
          (D ≤ s.invariant → settlement.minted = 0)) ∧
    ∀ (p : Pool) request ctx outcome p' later ctx' v,
      p.joinExit request ctx = .ok (outcome, p') →
      (∀ event ∈ p'.history later, event.RefreshesOnly p'.config.IsExempt) →
      (p'.run later).actualSupply ctx' = .ok v → v = (p'.run later).ledger.supply := by
  refine ⟨fun s tokens fees balances rates supply settlement hd h =>
    Snapshot.settle_of_onlyExemptDiffer hd h, ?_⟩
  intro p request ctx outcome p' later ctx' v h hlater hv
  obtain ⟨s, hu, hused, hconfig', hcaches'⟩ := joinExit_upToDate h
  obtain ⟨hconfig, hledger, hsnapshot, hlen, hcaches⟩ := run_refreshesOnly hlater
  refine (hu.congr hconfig hledger hsnapshot).eq_supply_of_actualSupply ?_ hv
  intro rates hrates
  -- the caches of the other tokens are those that the join or exit used
  have hd : OnlyExemptDiffer p'.config.tokens p'.caches (p'.run later).caches := by
    refine onlyExemptDiffer_of_getElem? hlen fun i token htoken hcharged => hcaches i ?_
    rintro ⟨exempt, hexempt, hfree⟩
    rw [htoken] at hexempt
    rw [Option.some.inj hexempt, hfree] at hcharged
    exact nomatch hcharged
  rw [hconfig]
  rw [Pool.rates, hconfig] at hrates
  rw [Pool.rates, ← hconfig', ← hcaches'] at hused
  exact hd.currentRates hused hrates

/-- Two tokens, the first exempt from yield fees. -/
def sheltered : Config where
  address := 3
  tokens := [
    { address := 1
      decimals := 18
      rateProvider := some 4
      cacheDuration := ⟨300, 0⟩
      exemptFromYieldFee := true },
    { address := 2, decimals := 18 }]
  amplification := pair.amplification
  swapFee := ⟨1000000000000000⟩
  accepted := by decide +kernel

/-- The rate of the exempt token rises by a tenth: after a trade only the trade is charged, after a
join nothing is. -/
theorem exempt_owes_nothing_sheltered :
    ∃ settlement joined p₁ v,
      OnlyExemptDiffer sheltered.tokens Snapshot.even.rates [⟨1100000000000000000⟩, 1] ∧
      Snapshot.even.settle sheltered.tokens .halves
        [1010000000000000000000, 1000000000000000000000] [⟨1100000000000000000⟩, 1]
        2000000000000000000000 = .ok settlement ∧
      ((ofConfig sheltered).run [.refresh 0 (.rate 1000000000000000000) 0]).joinExit
        (.init [1000000000000000000000, 1000000000000000000000]) charged = .ok (joined, p₁) ∧
      (∀ event ∈ p₁.history [.refresh 0 (.rate 1100000000000000000) 0],
        event.RefreshesOnly p₁.config.IsExempt) ∧
      (p₁.run [.refresh 0 (.rate 1100000000000000000) 0]).actualSupply charged = .ok v ∧
      settlement.minted ≠ 0 ∧
      Snapshot.even.settle sheltered.tokens ProtocolFees.halves.withoutYield
        [1010000000000000000000, 1000000000000000000000] [⟨1100000000000000000⟩, 1]
        2000000000000000000000 = .ok settlement ∧
      v = (p₁.run [.refresh 0 (.rate 1100000000000000000) 0]).ledger.supply := by
  have hd : OnlyExemptDiffer sheltered.tokens Snapshot.even.rates [⟨1100000000000000000⟩, 1] :=
    onlyExemptDiffer_cons.mpr ⟨(absurd · (by decide)), onlyExemptDiffer_cons.mpr ⟨fun _ => rfl, .nil⟩⟩
  obtain ⟨settlement, hsettle, hminted⟩ := map_eq_ok.mp
    (by decide +kernel : (Snapshot.even.settle sheltered.tokens .halves
      [1010000000000000000000, 1000000000000000000000] [⟨1100000000000000000⟩, 1]
      2000000000000000000000).map (fun settlement => decide (settlement.minted ≠ 0)) = .ok true)
  obtain ⟨v, h⟩ := exists_eq_ok_of_isOk
    (by decide +kernel : (do
      let joined ← ((ofConfig sheltered).run [.refresh 0 (.rate 1000000000000000000) 0]).joinExit
        (.init [1000000000000000000000, 1000000000000000000000]) charged
      (joined.2.run [.refresh 0 (.rate 1100000000000000000) 0]).actualSupply charged).isOk = true)
  simp only [bind_eq_ok, Prod.exists] at h
  obtain ⟨joined, p₁, hjoin, hv⟩ := h
  have hconfig : p₁.config = sheltered := by
    obtain ⟨-, -, -, hsame, -⟩ := joinExit_upToDate hjoin
    rw [hsame]
    exact (run_reached sheltered _).config_eq
  have hhistory : ∀ event ∈ p₁.history [.refresh 0 (.rate 1100000000000000000) 0],
      event.RefreshesOnly p₁.config.IsExempt := by
    intro event hevent
    cases hperform : p₁.perform (.refresh 0 (.rate 1100000000000000000) 0) with
    | error cause =>
        rw [history_cons_of_error hperform] at hevent
        exact absurd hevent List.not_mem_nil
    | ok result =>
        obtain ⟨_, p₂⟩ := result
        rw [history_cons_of_ok hperform] at hevent
        obtain rfl := List.mem_singleton.mp hevent
        rw [perform_refresh, map_eq_ok] at hperform
        obtain ⟨⟨rate, _⟩, -, ⟨⟩⟩ := hperform
        rw [hconfig]
        exact ⟨_, rfl, rfl⟩
  obtain ⟨hexempt, hlater⟩ := exempt_owes_nothing
  exact ⟨settlement, joined, p₁, v, hd, hsettle, hjoin, hhistory, hv, of_decide_eq_true hminted,
    (hexempt _ _ _ _ _ _ _ hd hsettle).1, hlater _ _ _ _ _ _ _ _ hjoin hhistory hv⟩

end Pool

end StableSwap
