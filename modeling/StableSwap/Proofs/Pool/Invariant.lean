import Mathlib
import StableSwap.Pool.History
import StableSwap.Proofs.Pool
import StableSwap.Proofs.Swap

/-!
# The invariant is on the pool's side

The exact invariant of the balances that an operation leaves, in the common unit at the factors the
operation used, against what the operation was computed from. A trade leaves no less than there was;
a join or exit of one token leaves no less for each share.
-/

namespace StableSwap.Pool
open Curve.Polynomial (AtLeast)

variable {p p' : Pool} {ctx : Context}

/-! ### A pool of two tokens -/

/-- Two tokens, of six and of eighteen decimals, and a fee of one in a thousand. -/
def pair : Config where
  address := 3
  tokens := [{ address := 1, decimals := 6 },
    { address := 2, decimals := 18 }]
  amplification := ⟨⟨200, 1⟩, by decide⟩
  swapFee := ⟨1000000000000000⟩
  accepted := by decide +kernel

/-- An operation at a pool's own amplification, without protocol fees. -/
def uncharged (config : Config) : Context := ⟨0, config.amplification, .zero⟩

/-- The pool of `pair` after a join of a thousand of each token. -/
def paired : Pool :=
  (ofConfig pair).attempt (.joinExit (.init [1000000000, 1000000000000000000000]) (uncharged pair))

/-- In the common unit these are a thousand of each too, and the invariant is their sum. -/
theorem measured_paired :
    paired.Measured (uncharged pair) ⟨[Fixed.tenPow 12, 1]⟩
      [⟨1000000000000000000000⟩, ⟨1000000000000000000000⟩] 2000000000000000000000 :=
  ⟨⟨[1, 1], by decide +kernel, by decide +kernel⟩, by decide +kernel, by decide +kernel⟩

/-! ### Trades -/

/-- **No trade is cheaper than the curve.** The balances after a trade have at least the invariant
that the trade was priced at. -/
theorem swap_atLeast {request : SwapRequest} {outcome : SwapOutcome} (hp : p.Shaped)
    (h : p.swap request ctx = .ok (outcome, p')) :
    ∃ scaling scaled D, p.Measured ctx scaling scaled D ∧
      (scaling.worth p'.ledger.balances).length = p.config.tokenCount ∧
      AtLeast ctx.amplification.scaled.val (scaling.worth p'.ledger.balances) D.val := by
  obtain ⟨hin, hout, rates, scaling, settled, basis, ledger, hrates, hscaling, hsettled, hbasis,
    hamounts, hledger, -, rfl⟩ := swap_ok h
  obtain ⟨-, -, hbalances, -⟩ := settle_ok hsettled
  obtain ⟨hA, rfl, hscaled⟩ := swapBasis_ok hbasis
  rw [hbalances] at hscaled
  have hlen := hp.length_scaled (hp.tokenCount_scaling hrates hscaling) hscaled
  have hworth := Scaling.weis_upscaleAll hscaled
  obtain ⟨paidIn, paidOut, hpriced⟩ := SwapBasis.compute_ok (hlen ▸ hin) (hlen ▸ hout) hamounts
  obtain ⟨D, hD, hkeep⟩ := hpriced.atLeast
  have htraded := Ledger.traded_worth (hp.length_settled hsettled ▸ hin)
    (SwapBasis.tokenIn_ne_tokenOut hamounts) hledger hpriced.covers hpriced.covered
  rw [hbalances] at htraded
  rw [hA] at hD hkeep
  refine ⟨basis.scaling, basis.scaled, D, ⟨⟨rates, hrates, hscaling⟩, hscaled, hD⟩, ?_,
    hkeep _ (hworth ▸ htraded)⟩
  rw [← htraded.length_eq, ← hworth, Fixed.length_weis, hlen]

/-- A trade of the pool of two tokens, for one of the first. -/
theorem swap_atLeast_paired :
    ∃ outcome p',
      paired.swap ⟨.givenIn, 0, 1, 1000000, none⟩ (uncharged pair) = .ok (outcome, p') ∧
      outcome.amounts = ⟨1000000, 998995034840667077, 1000⟩ ∧
      paired.Measured (uncharged pair) ⟨[Fixed.tenPow 12, 1]⟩
        [⟨1000000000000000000000⟩, ⟨1000000000000000000000⟩] 2000000000000000000000 ∧
      Scaling.worth ⟨[Fixed.tenPow 12, 1]⟩ p'.ledger.balances =
        [1001000000000000000000, 999001004965159332923] ∧
      AtLeast (uncharged pair).amplification.scaled.val
        [1001000000000000000000, 999001004965159332923] 2000000000000000000000 := by
  obtain ⟨⟨outcome, p'⟩, h, hvalues⟩ := map_eq_ok.mp
    (by decide +kernel : (paired.swap ⟨.givenIn, 0, 1, 1000000, none⟩ (uncharged pair)).map
      (fun r => (r.1.amounts, Scaling.worth ⟨[Fixed.tenPow 12, 1]⟩ r.2.ledger.balances)) =
      .ok (⟨1000000, 998995034840667077, 1000⟩, [1001000000000000000000, 999001004965159332923]))
  obtain ⟨hamounts, hworth⟩ := Prod.mk.inj hvalues
  obtain ⟨scaling, scaled, D, hm, -, hatLeast⟩ :=
    swap_atLeast ⟨by decide +kernel, by decide +kernel⟩ h
  obtain ⟨rfl, rfl, rfl⟩ := hm.unique measured_paired
  exact ⟨outcome, p', h, hamounts, hm, hworth, hworth ▸ hatLeast⟩

/-! ### Joins and exits of one token -/

/-- **A join or exit of one token dilutes nobody.** Its target is an invariant that is to the one
before at least as the shares after to the settled shares, and the balances it leaves have at least
that invariant. -/
theorem joinExit_oneToken_atLeast {request : LiquidityRequest}
    {target : Amount → Amount → Except MathError Amount} {outcome : LiquidityOutcome}
    (hp : p.Shaped) (ht : request.target? = some target)
    (h : p.joinExit request ctx = .ok (outcome, p')) :
    ∃ scaling scaled D D' supply, p.Measured ctx scaling scaled D ∧
      supply.val = p.ledger.supply.val + outcome.protocolFee.amount.val ∧
      target supply D = .ok D' ∧ D.val * p'.ledger.supply.val ≤ D'.val * supply.val ∧
      (scaling.worth p'.ledger.balances).length = p.config.tokenCount ∧
      AtLeast ctx.amplification.scaled.val (scaling.worth p'.ledger.balances) D'.val := by
  have hne : ∀ amountsIn, request ≠ .init amountsIn := by
    rintro amountsIn rfl
    exact nomatch ht
  obtain ⟨l, b, delta, hmoves⟩ := joinExit_later hp h hne
  obtain ⟨D', hD', hshares, hatLeast⟩ :=
    LiquidityBasis.compute_atLeast hmoves.measures ht hmoves.computed hmoves.applied
  rw [hmoves.amplification] at hatLeast
  refine ⟨b.scaling, b.scaled, b.invariant, D', b.supply, hmoves.measured, ?_, hD', hshares, ?_,
    hatLeast⟩
  · rw [hmoves.measures.supply, hmoves.supply]
  · rw [Scaling.length_worth, Ledger.length_apply hmoves.applied, hmoves.measures.tokenCount,
      hmoves.balances, hp.balances, Nat.min_self]

/-- An exit from the pool of two tokens, of a tenth of a share for the second. -/
theorem joinExit_oneToken_atLeast_paired :
    ∃ outcome p',
      paired.joinExit (.exactSharesInForOneToken 100000000000000000 1 0) (uncharged pair) =
        .ok (outcome, p') ∧
      outcome.amounts = [0, 99949987567789410] ∧ outcome.protocolFee.amount = 0 ∧
      paired.Measured (uncharged pair) ⟨[Fixed.tenPow 12, 1]⟩
        [⟨1000000000000000000000⟩, ⟨1000000000000000000000⟩] 2000000000000000000000 ∧
      Curve.invariantAfterExit 100000000000000000 2000000000000000000000 2000000000000000000000 =
        .ok 1999900000000000000000 ∧
      p'.ledger = ⟨[1000000000, 999900050012432210590], 1999900000000000000000⟩ ∧
      2000000000000000000000 * p'.ledger.supply.val ≤
        1999900000000000000000 * 2000000000000000000000 ∧
      AtLeast (uncharged pair).amplification.scaled.val
        [1000000000000000000000, 999900050012432210590] 1999900000000000000000 := by
  obtain ⟨⟨outcome, p'⟩, h, hvalues⟩ := map_eq_ok.mp
    (by decide +kernel : (paired.joinExit (.exactSharesInForOneToken 100000000000000000 1 0)
        (uncharged pair)).map
      (fun r => (r.1.amounts, r.1.protocolFee.amount, r.2.ledger)) =
      .ok ([0, 99949987567789410], 0,
        ⟨[1000000000, 999900050012432210590], 1999900000000000000000⟩))
  simp only [Prod.mk.injEq] at hvalues
  obtain ⟨hamounts, hfee, hledger⟩ := hvalues
  obtain ⟨scaling, scaled, D, D', supply, hm, hsupply, hD', hshares, -, hatLeast⟩ :=
    joinExit_oneToken_atLeast ⟨by decide +kernel, by decide +kernel⟩ rfl h
  obtain ⟨rfl, rfl, rfl⟩ := hm.unique measured_paired
  have hall : supply = 2000000000000000000000 := by
    rw [hfee] at hsupply
    exact Amount.ext (hsupply.trans (by decide +kernel))
  rw [hall] at hD' hshares
  have htarget : Curve.invariantAfterExit 100000000000000000 2000000000000000000000
      2000000000000000000000 = .ok 1999900000000000000000 := by decide +kernel
  obtain rfl := Except.ok.inj (hD'.symm.trans htarget)
  rw [hledger] at hatLeast
  exact ⟨outcome, p', h, hamounts, hfee, hm, htarget, hledger, hshares, hatLeast⟩

end StableSwap.Pool
