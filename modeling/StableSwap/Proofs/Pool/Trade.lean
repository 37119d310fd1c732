import Mathlib
import StableSwap.Proofs.Pool.Conservation
import StableSwap.Proofs.Pool.Invariant

/-!
# What a trade needs of the pool

A trade is computed against the pool's balances in the common unit (`swap_quoted`). Solving for one
of them divides by all others, so a trade can only be priced where those are worth something; only
the token paid in may be worth nothing, and with it the invariant (`swap_invariant_pos_iff`).

A trade that undoes another is priced at an invariant of its own. As long as rounding did not bring
that below the exact one of the balances before both, undoing a trade costs more than the trade paid
(`swap_back_costs_more`).
-/

namespace StableSwap.Pool
open Fixed (weis)
open Curve.Polynomial (AtMost)

variable {p p' p₁ p₂ : Pool} {ctx : Context} {request : SwapRequest} {outcome : SwapOutcome}
  {scaling scaling₁ : Scaling} {scaled scaled₁ : List Fixed} {D D₁ : Amount}

/-! ### Pools that rounding shows in -/

/-- A token whose rate is reported, and one without a rate. -/
def wrapped : Config where
  address := 3
  tokens := [
    { address := 1
      decimals := 18
      rateProvider := some 4
      cacheDuration := ⟨300, 0⟩ },
    { address := 2, decimals := 18 }]
  amplification := pair.amplification
  swapFee := ⟨1000000000000000⟩
  accepted := by decide +kernel

/-- The pool of `wrapped` after a join of half of the one token and a thousand of the other, once the
rate of the first has fallen from one to the smallest there is. -/
def collapsed : Pool :=
  (ofConfig wrapped).run [.refresh 0 (.rate 1000000000000000000) 0,
    .joinExit (.init [500000000000000000, 1000000000000000000000]) (uncharged pair),
    .refresh 0 (.rate 1) 0]

/-- Two tokens of eighteen decimals at the least amplification, without a fee. -/
def free : Config where
  address := 3
  tokens := [{ address := 1, decimals := 18 },
    { address := 2, decimals := 18 }]
  amplification := ⟨⟨1, 1⟩, by decide⟩
  swapFee := 0
  accepted := by decide +kernel

/-- The pool of `free` after a join of one of the first token and a thousand of the second. -/
def lopsided : Pool :=
  (ofConfig free).attempt
    (.joinExit (.init [1000000000000000000, 1000000000000000000000]) (uncharged free))

/-! ### What a trade is computed against -/

/-- The balances of a pool in the common unit, for a trade. -/
structure Quoted (p : Pool) (ctx : Context) (b : SwapBasis) : Prop where
  amplification : b.amplification = ctx.amplification.scaled
  factors : ∃ rates, p.rates ctx.timestamp = .ok rates ∧ p.scaling rates = .ok b.scaling
  balances : b.scaling.upscaleAll p.ledger.balances = .ok b.scaled
  length_scaled : b.scaled.length = p.config.tokenCount

/-- A trade that succeeds was computed against the pool's balances, and moves what it computed. -/
theorem swap_quoted (hp : p.Shaped) (h : p.swap request ctx = .ok (outcome, p')) :
    ∃ b : SwapBasis, p.Quoted ctx b ∧ request.tokenIn < b.scaled.length ∧
      request.tokenOut < b.scaled.length ∧ b.compute request = .ok outcome.amounts := by
  obtain ⟨hin, hout, rates, scaling, settled, b, ledger, hrates, hscaling, hsettled, hbasis,
    hamounts, -, -, -⟩ := swap_ok h
  obtain ⟨-, -, hbalances, -⟩ := settle_ok hsettled
  obtain ⟨hA, rfl, hscaled⟩ := swapBasis_ok hbasis
  rw [hbalances] at hscaled
  have hlen := hp.length_scaled (hp.tokenCount_scaling hrates hscaling) hscaled
  exact ⟨b, ⟨hA, ⟨rates, hrates, hscaling⟩, hscaled, hlen⟩, hlen ▸ hin, hlen ▸ hout, hamounts⟩

/-- What a trade is computed against is what the curve makes of the pool. -/
theorem Quoted.eq_of_measured {b : SwapBasis} (hb : p.Quoted ctx b)
    (hm : p.Measured ctx scaling scaled D) : b.scaling = scaling ∧ b.scaled = scaled := by
  obtain rfl := scaling_unique hb.factors hm.factors
  exact ⟨rfl, Except.ok.inj (hb.balances.symm.trans hm.balances)⟩

theorem Quoted.measured {b : SwapBasis} (hb : p.Quoted ctx b)
    (hD : Curve.invariant b.amplification b.scaled = .ok D) :
    p.Measured ctx b.scaling b.scaled D :=
  ⟨hb.factors, hb.balances, hb.amplification ▸ hD⟩

theorem Quoted.getD_scaled {b : SwapBasis} (hb : p.Quoted ctx b) (k : ℕ) :
    (b.scaled.getD k 0).wei.val =
      p.ledger.held k * (b.scaling.factorAt k).wei.val / Fixed.unit.val := by
  rw [← Fixed.getD_weis, Scaling.weis_upscaleAll hb.balances, Scaling.getD_worth, Ledger.held]

/-- A trade changes nothing that rates and factors depend on. -/
theorem swap_frame (h : p.swap request ctx = .ok (outcome, p')) :
    p'.config = p.config ∧ p'.caches = p.caches := by
  obtain ⟨-, -, _, _, _, _, _, -, -, -, -, -, -, -, rfl⟩ := swap_ok h
  exact ⟨rfl, rfl⟩

theorem Shaped.swap (hp : p.Shaped) (h : p.swap request ctx = .ok (outcome, p')) : p'.Shaped := by
  obtain ⟨-, -, _, _, _, _, _, -, -, hsettled, -, -, hledger, -, rfl⟩ := swap_ok h
  exact ⟨(Ledger.length_swap hledger).trans (hp.length_settled hsettled), hp.caches⟩

/-- The factors of the tokens do not change with a trade. -/
theorem Quoted.scaling_eq {b b' : SwapBasis} (hb : p.Quoted ctx b)
    (h : p.swap request ctx = .ok (outcome, p')) (hb' : p'.Quoted ctx b') :
    b'.scaling = b.scaling := by
  obtain ⟨hconfig, hcaches⟩ := swap_frame h
  obtain ⟨rates, hrates, hscaling⟩ := hb.factors
  obtain ⟨rates', hrates', hscaling'⟩ := hb'.factors
  rw [Pool.rates, hconfig, hcaches, ← Pool.rates, hrates] at hrates'
  obtain rfl := Except.ok.inj hrates'
  rw [Pool.scaling, hconfig, ← Pool.scaling, hscaling] at hscaling'
  exact (Except.ok.inj hscaling').symm

/-- What a trade does to the tokens it is in, and to the others. -/
theorem swap_held (hp : p.Shaped) (h : p.swap request ctx = .ok (outcome, p')) :
    p'.ledger.held request.tokenIn =
        p.ledger.held request.tokenIn + outcome.amounts.amountIn.val ∧
      p'.ledger.held request.tokenOut + outcome.amounts.amountOut.val =
        p.ledger.held request.tokenOut ∧
      ∀ k, k ≠ request.tokenIn → k ≠ request.tokenOut → p'.ledger.held k = p.ledger.held k := by
  obtain ⟨b, -, -, -, hamounts⟩ := swap_quoted hp h
  have hne := SwapBasis.tokenIn_ne_tokenOut hamounts
  refine ⟨?_, ?_, fun k hkin hkout => ?_⟩
  · simpa [hne.symm] using swap_balances hp h request.tokenIn
  · simpa [hne] using swap_balances hp h request.tokenOut
  · simpa [hkin.symm, hkout.symm] using swap_balances hp h k

/-! ### Trades at invariant zero -/

/-- **A trade is priced at a positive invariant exactly if the pool's balance of the token paid in
is worth something.** -/
theorem swap_invariant_pos_iff (hp : p.Shaped) (h : p.swap request ctx = .ok (outcome, p')) :
    ∃ scaling scaled D, p.Measured ctx scaling scaled D ∧
      (0 < D.val ↔ 0 < (scaled.getD request.tokenIn 0).wei.val) := by
  obtain ⟨b, hb, hin, hout, hamounts⟩ := swap_quoted hp h
  obtain ⟨_, _, hpriced⟩ := SwapBasis.compute_ok hin hout hamounts
  obtain ⟨D, hD, -⟩ := hpriced.atLeast
  refine ⟨b.scaling, b.scaled, D, hb.measured hD, ?_⟩
  rw [Curve.invariant_pos_iff hD, List.forall_mem_iff_getElem]
  constructor
  · rintro ⟨-, hpos⟩
    rw [List.getD_eq_getElem _ _ hin]
    exact hpos _ hin
  · -- the solver has divided by all other balances
    intro hpos
    refine ⟨List.ne_nil_of_length_pos (Nat.zero_lt_of_lt hin), fun k hk => ?_⟩
    rw [← List.getD_eq_getElem _ 0 hk]
    by_cases hkin : k = request.tokenIn
    · rwa [hkin]
    · exact SwapBasis.compute_others_pos hin hout hamounts k hk hkin

/-- A trade of the pool of two tokens, for one of the second. -/
theorem swap_invariant_pos_iff_paired :
    ∃ outcome p',
      paired.swap ⟨.givenOut, 0, 1, 1000000000000000000, none⟩ (uncharged pair) =
        .ok (outcome, p') ∧
      outcome.amounts = ⟨1001007, 1000000000000000000, 1002⟩ ∧
      paired.Measured (uncharged pair) ⟨[Fixed.tenPow 12, 1]⟩
        [⟨1000000000000000000000⟩, ⟨1000000000000000000000⟩] 2000000000000000000000 ∧
      (0 < (2000000000000000000000 : Amount).val ↔
        0 < (1000000000000000000000 : Amount).val) := by
  obtain ⟨⟨outcome, p'⟩, h, hamounts⟩ := map_eq_ok.mp
    (by decide +kernel : (paired.swap ⟨.givenOut, 0, 1, 1000000000000000000, none⟩
      (uncharged pair)).map (·.1.amounts) =
      .ok ⟨1001007, 1000000000000000000, 1002⟩)
  obtain ⟨scaling, scaled, D, hm, hiff⟩ :=
    swap_invariant_pos_iff ⟨by decide +kernel, by decide +kernel⟩ h
  obtain ⟨rfl, rfl, rfl⟩ := hm.unique measured_paired
  exact ⟨outcome, p', h, hamounts, hm, hiff⟩

/-- A trade of a pool whose balance of the token paid in has become worthless: it is priced at
invariant zero, and takes all but one unit of the other token. -/
theorem swap_collapsed_drains :
    ∃ outcome p' scaling scaled D,
      collapsed.swap ⟨.givenIn, 0, 1, 2000000000000000000, none⟩ (uncharged pair) =
        .ok (outcome, p') ∧
      collapsed.Measured (uncharged pair) scaling scaled D ∧ D.val = 0 ∧ p'.ledger.held 1 = 1 := by
  obtain ⟨⟨outcome, p'⟩, h, hheld⟩ := map_eq_ok.mp
    (by decide +kernel :
      (collapsed.swap ⟨.givenIn, 0, 1, 2000000000000000000, none⟩ (uncharged pair)).map
        (fun result => result.2.ledger.held 1) = .ok 1)
  refine ⟨outcome, p', ⟨[⟨1⟩, 1]⟩, [0, ⟨1000000000000000000000⟩], 0, h, ?_, rfl, hheld⟩
  exact ⟨⟨[⟨1⟩, 1], by decide +kernel, by decide +kernel⟩, by decide +kernel, by decide +kernel⟩

/-! ### Trades that undo another -/

/-- **Undoing a trade costs more than the trade paid**, where the invariant that the second trade is
priced at is not below the exact one of the balances before both. -/
theorem swap_back_costs_more {sold bought : SwapOutcome} {i j : ℕ} {x : Amount}
    {least most : Option Amount} (hp : p.Shaped)
    (hsell : p.swap ⟨.givenIn, i, j, x, least⟩ ctx = .ok (sold, p₁))
    (hbuy : p₁.swap ⟨.givenOut, j, i, x, most⟩ ctx = .ok (bought, p₂))
    (hm : p.Measured ctx scaling scaled D) (hm₁ : p₁.Measured ctx scaling₁ scaled₁ D₁)
    (hmost : AtMost ctx.amplification.scaled.val (weis scaled) D₁.val) :
    sold.amounts.amountOut.val < bought.amounts.amountIn.val := by
  obtain ⟨b, hb, hi, hj, hsold⟩ := swap_quoted hp hsell
  obtain ⟨b₁, hb₁, hj₁, hi₁, hbought⟩ := swap_quoted (hp.swap hsell) hbuy
  have hij : i ≠ j := SwapBasis.tokenIn_ne_tokenOut hsold
  have hscaling : b₁.scaling = b.scaling := hb.scaling_eq hsell hb₁
  obtain ⟨hheldi, hheldj, hheld⟩ := swap_held hp hsell
  simp only [SwapBasis.compute, unless_eq_ok] at hsold hbought
  obtain ⟨-, -, hsold⟩ := hsold
  obtain ⟨-, -, hbought⟩ := hbought
  obtain ⟨hin, -⟩ := SwapBasis.givenIn_run hsold
  obtain ⟨hout, paid, out, hcovers, hcovered, hrun⟩ := SwapBasis.givenOut_run hbought
  obtain ⟨-, rfl⟩ := hb.eq_of_measured hm
  obtain ⟨-, rfl⟩ := hb₁.eq_of_measured hm₁
  have hA : 0 < ctx.amplification.scaled.val :=
    Nat.lt_of_lt_of_le (by decide) ctx.amplification.scaled_bounds.1
  have hworth : ∀ k, (weis b.scaled).getD k 0 =
      p.ledger.held k * (b₁.scaling.factorAt k).wei.val / Fixed.unit.val := by
    intro k
    rw [Fixed.getD_weis, hb.getD_scaled, hscaling]
  -- the second trade gives back what the first paid in, and leaves the other tokens alone
  have hback : (b₁.scaled.getD i 0).wei.val ≤ (weis b.scaled).getD i 0 + out.wei.val := by
    rw [hworth, hb₁.getD_scaled]
    refine Scaling.worth_le_add hcovered ?_
    rw [hout, hheldi, hin]
  have hothers : ∀ k, k ≠ j → k ≠ i → (b₁.scaled.getD k 0).wei.val ≤ (weis b.scaled).getD k 0 := by
    intro k hkj hki
    rw [hworth, hb₁.getD_scaled, hheld k hki hkj]
  obtain ⟨_, hD, hcost⟩ := Curve.inGivenOut_lt_add (hb₁.amplification ▸ hA) hj₁ hi₁ hij.symm
    (by rw [Fixed.length_weis, hb.length_scaled, hb₁.length_scaled, (swap_frame hsell).1])
    hrun hback hothers
  rw [hb₁.amplification, hm₁.invariant] at hD
  obtain rfl := Except.ok.inj hD
  have hcost := hcost (hb₁.amplification ▸ hmost)
  rw [hworth, hb₁.getD_scaled] at hcost
  -- a payment of no more than was received would not bring the token back to where it was
  by_contra hle
  have hpaid := Scaling.worth_add_le hcovers
    (rfl : p₁.ledger.held j + bought.amounts.amountIn.val = _ + _)
  have hafter : p₁.ledger.held j + bought.amounts.amountIn.val ≤ p.ledger.held j :=
    (Nat.add_le_add_left (not_lt.mp hle) _).trans_eq hheldj
  have hmono := Nat.div_le_div_right (c := Fixed.unit.val)
    (Nat.mul_le_mul_right (b₁.scaling.factorAt j).wei.val hafter)
  exact (hcost.trans_le (hpaid.trans hmono)).false

/-- Undoing a trade of the pool of two tokens. -/
theorem swap_back_costs_more_paired :
    ∃ sold p₁ bought p₂ scaling₁ scaled₁ D₁,
      paired.swap ⟨.givenIn, 0, 1, 1000000, none⟩ (uncharged pair) = .ok (sold, p₁) ∧
      p₁.swap ⟨.givenOut, 1, 0, 1000000, none⟩ (uncharged pair) = .ok (bought, p₂) ∧
      sold.amounts.amountOut = 998995034840667077 ∧
      bought.amounts.amountIn = 1000996025898904297 ∧
      paired.Measured (uncharged pair) ⟨[Fixed.tenPow 12, 1]⟩
        [⟨1000000000000000000000⟩, ⟨1000000000000000000000⟩] 2000000000000000000000 ∧
      p₁.Measured (uncharged pair) scaling₁ scaled₁ D₁ ∧ D₁ = 2000000999995031094545 ∧
      AtMost (uncharged pair).amplification.scaled.val
        (weis [⟨1000000000000000000000⟩, ⟨1000000000000000000000⟩]) D₁.val ∧
      sold.amounts.amountOut.val < bought.amounts.amountIn.val := by
  have h : (do
      let sold ← paired.swap ⟨.givenIn, 0, 1, 1000000, none⟩ (uncharged pair)
      let bought ← sold.2.swap ⟨.givenOut, 1, 0, 1000000, none⟩ (uncharged pair)
      let rates ← sold.2.rates (uncharged pair).timestamp
      let scaling ← sold.2.scaling rates
      let scaled ← (scaling.upscaleAll sold.2.ledger.balances).mapError PoolError.ofMath
      let D ← (Curve.invariant (uncharged pair).amplification.scaled scaled).mapError
        PoolError.ofMath
      return (sold.1.amounts.amountOut, bought.1.amounts.amountIn, D)) =
        .ok (998995034840667077, 1000996025898904297, 2000000999995031094545) := by
    decide +kernel
  simp only [bind_eq_ok, mapError_eq_ok, pure_eq_ok, Prod.exists, Prod.mk.injEq] at h
  obtain ⟨sold, p₁, hsell, bought, p₂, hbuy, rates₁, hrates₁, scaling₁, hscaling₁, scaled₁,
    hscaled₁, D₁, hD₁, hsold, hbought, rfl⟩ := h
  have hm₁ : p₁.Measured (uncharged pair) scaling₁ scaled₁ 2000000999995031094545 :=
    ⟨⟨rates₁, hrates₁, hscaling₁⟩, hscaled₁, hD₁⟩
  have hmost : AtMost (uncharged pair).amplification.scaled.val
      (weis [⟨1000000000000000000000⟩, ⟨1000000000000000000000⟩])
      (2000000999995031094545 : Amount).val := by
    unfold AtMost
    decide +kernel
  exact ⟨sold, p₁, bought, p₂, scaling₁, scaled₁, _, hsell, hbuy, hsold, hbought, measured_paired,
    hm₁, rfl, hmost, swap_back_costs_more ⟨by decide +kernel, by decide +kernel⟩ hsell hbuy
      measured_paired hm₁ hmost⟩

/-- Undoing a trade of a lopsided pool costs five units less than the trade paid. -/
theorem swap_back_lopsided :
    ∃ sold p₁ bought p₂,
      lopsided.swap ⟨.givenIn, 0, 1, 1000000000000000000, none⟩ (uncharged free) = .ok (sold, p₁) ∧
      p₁.swap ⟨.givenOut, 1, 0, 1000000000000000000, none⟩ (uncharged free) = .ok (bought, p₂) ∧
      bought.amounts.amountIn.val + 5 = sold.amounts.amountOut.val := by
  have h : (do
      let sold ← lopsided.swap ⟨.givenIn, 0, 1, 1000000000000000000, none⟩ (uncharged free)
      let bought ← sold.2.swap ⟨.givenOut, 1, 0, 1000000000000000000, none⟩ (uncharged free)
      return (sold.1.amounts.amountOut, bought.1.amounts.amountIn)) =
        .ok (278563545664760241507, 278563545664760241502) := by decide +kernel
  simp only [bind_eq_ok, pure_eq_ok, Prod.exists, Prod.mk.injEq] at h
  obtain ⟨sold, p₁, hsell, bought, p₂, hbuy, hout, hin⟩ := h
  exact ⟨sold, p₁, bought, p₂, hsell, hbuy, by rw [hout, hin]; decide⟩

end StableSwap.Pool
