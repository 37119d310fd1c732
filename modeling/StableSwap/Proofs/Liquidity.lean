import Mathlib
import StableSwap.Liquidity
import StableSwap.Proofs.Curve.Shares
import StableSwap.Proofs.Ledger
import StableSwap.Proofs.Scaling

/-!
# Movements of joins and exits

What a join or exit is computed from, and what follows for the ledger its movement is applied to.
The pool it is computed against is that ledger in the common unit (`Measures`).

* `compute_atLeast`: a join or exit of one token leaves at least the invariant it solved for, and
  that invariant dilutes nobody.
* `compute_held_pos`: a join or exit leaves something of every token.
-/

namespace StableSwap
open Fixed (weis)
open Curve.Polynomial (AtLeast)

/-- What a join or exit of one token makes of the shares and the invariant before it: the invariant
that it solves the balance for. -/
def LiquidityRequest.target? :
    LiquidityRequest → Option (Amount → Amount → Except MathError Amount)
  | .tokenInForExactShares _ sharesOut _ => some (Curve.invariantAfterJoin sharesOut)
  | .exactSharesInForOneToken sharesIn _ _ => some (Curve.invariantAfterExit sharesIn)
  | _ => none

/-- The amount of the one token that moves. -/
theorem getD_singleAmount {n index : ℕ} (amount : Amount) (hi : index < n) :
    (singleAmount n index amount).getD index 0 = amount :=
  getD_set_self _ _ _ (by rwa [List.length_replicate])

theorem getD_singleAmount_of_ne {n index i : ℕ} (amount : Amount) (hne : i ≠ index) :
    (singleAmount n index amount).getD i 0 = 0 := by
  rw [singleAmount, getD_set_of_ne _ _ _ (Ne.symm hne), List.getD_eq_getElem?_getD,
    List.getElem?_getD_replicate_default_eq]

/-! ### Checks that were passed -/

theorem checkCount_eq_ok {n : ℕ} {amounts : List Amount} {u : Unit} :
    checkCount n amounts = .ok u ↔ amounts.length = n := by
  simp [checkCount]

theorem checkTokenIndex_eq_ok {n index : ℕ} {u : Unit} :
    checkTokenIndex n index = .ok u ↔ index < n := by
  simp [checkTokenIndex]

/-- The caller gets the least that was asked for, or more. -/
theorem checkAtLeast_eq_ok {minimum actual : Amount} {u : Unit} :
    checkAtLeast minimum actual = .ok u ↔ minimum.val ≤ actual.val := by
  simp [checkAtLeast, Amount.lt_def]

/-- The caller pays the most that was offered, or less. -/
theorem checkAtMost_eq_ok {maximum actual : Amount} {u : Unit} :
    checkAtMost maximum actual = .ok u ↔ actual.val ≤ maximum.val := by
  simp [checkAtMost, Amount.lt_def]

/-- Something of a token moves. -/
theorem checkSomePaid_eq_ok {amounts : List Amount} {u : Unit} :
    checkSomePaid amounts = .ok u ↔ ∃ amount ∈ amounts, 0 < amount.val := by
  simp [checkSomePaid, Nat.pos_iff_ne_zero, Amount.eq_zero_iff]

/-- The shares to burn are not the locked ones. -/
theorem checkBurnable_eq_ok {supply shares : Amount} {u : Unit} :
    checkBurnable supply shares = .ok u ↔ shares.val ≤ supply.val - lockedShares.val := by
  simp [checkBurnable, Amount.lt_def]

theorem lockedShares_pos : 0 < lockedShares.val := by decide

/-! ### The first join -/

/-- A first join mints the invariant of what it brings. -/
theorem firstJoin_invariant {amountsIn : List Amount} {amplification : Amount} {scaling : Scaling}
    {delta : Delta} (h : firstJoin amountsIn amplification scaling = .ok delta) :
    ∃ scaled, scaling.upscaleAll amountsIn = .ok scaled ∧
      Curve.invariant amplification scaled = .ok delta.shares := by
  simp only [firstJoin, bind_eq_ok, mapError_eq_ok, unless_eq_ok, pure_eq_ok] at h
  obtain ⟨-, -, -, scaled, hscaled, shares, hshares, -, rfl⟩ := h
  exact ⟨scaled, hscaled, hshares⟩

/-- A first join brings something of every token, and mints more shares than are locked. -/
theorem firstJoin_ok {amountsIn : List Amount} {amplification : Amount} {scaling : Scaling}
    {delta : Delta} (h : firstJoin amountsIn amplification scaling = .ok delta) :
    ∃ shares, delta = ⟨.inward, amountsIn, shares⟩ ∧ (∀ amount ∈ amountsIn, 0 < amount.val) ∧
      lockedShares.val < shares.val := by
  simp only [firstJoin, bind_eq_ok, unless_eq_ok, pure_eq_ok] at h
  obtain ⟨-, -, hzero, scaled, -, shares, -, hlocked, rfl⟩ := h
  refine ⟨shares, rfl, fun amount hamount => ?_, Nat.lt_of_not_le hlocked⟩
  rw [Nat.pos_iff_ne_zero]
  intro h0
  exact hzero (Amount.eq_zero_iff.mpr h0 ▸ hamount)

namespace LiquidityBasis

variable {b : LiquidityBasis} {l l' : Ledger} {delta : Delta}

/-- The pool that a join or exit is computed against is a ledger in the common unit. -/
structure Measures (b : LiquidityBasis) (l : Ledger) : Prop where
  balances : b.balances = l.balances
  supply : b.supply = l.supply
  tokenCount : b.scaling.tokenCount = l.balances.length
  scaled : b.scaling.upscaleAll l.balances = .ok b.scaled
  invariant : Curve.invariant b.amplification b.scaled = .ok b.invariant

theorem Measures.getD_scaled (hm : b.Measures l) (i : ℕ) :
    (b.scaled.getD i 0).wei.val =
      l.held i * (b.scaling.factorAt i).wei.val / Fixed.unit.val := by
  rw [← Fixed.getD_weis, Scaling.weis_upscaleAll hm.scaled, Scaling.getD_worth, Ledger.held]

theorem Measures.length_scaled (hm : b.Measures l) : b.scaled.length = l.balances.length := by
  rw [← Fixed.length_weis, Scaling.weis_upscaleAll hm.scaled, Scaling.length_worth, hm.tokenCount,
    Nat.min_self]

/-! ### The movements -/

/-- A join with given amounts mints the shares that the curve gives for their worth, rounded down. -/
theorem exactTokensIn_ok {amountsIn : List Amount} {minSharesOut : Amount}
    (h : b.exactTokensIn amountsIn minSharesOut = .ok delta) :
    amountsIn.length = b.balances.length ∧ ∃ scaledIn shares,
      delta = ⟨.inward, amountsIn, shares⟩ ∧ b.scaling.upscaleAll amountsIn = .ok scaledIn ∧
      Curve.sharesOutForExactIn b.amplification b.scaled scaledIn b.supply b.invariant
        b.swapFee = .ok shares := by
  simp only [exactTokensIn, bind_eq_ok, mapError_eq_ok, checkCount_eq_ok, pure_eq_ok] at h
  obtain ⟨-, hlen, scaledIn, hscaled, shares, hshares, -, -, rfl⟩ := h
  exact ⟨hlen, scaledIn, shares, rfl, hscaled, hshares⟩

/-- A join of one token for given shares asks for an amount that covers what the curve asks for. -/
theorem tokenIn_ok {index : ℕ} {sharesOut maxAmountIn : Amount}
    (h : b.tokenIn index sharesOut maxAmountIn = .ok delta) :
    index < b.balances.length ∧ ∃ amount paid,
      delta = ⟨.inward, singleAmount b.balances.length index amount, sharesOut⟩ ∧
      b.scaling.Covers index amount paid.wei.val ∧
      Curve.tokenInForExactShares b.amplification b.scaled index sharesOut b.supply b.invariant
        b.swapFee = .ok paid := by
  simp only [tokenIn, bind_eq_ok, mapError_eq_ok, checkTokenIndex_eq_ok, pure_eq_ok] at h
  obtain ⟨-, hi, -, -, paid, hpaid, amount, hamount, -, -, rfl⟩ := h
  exact ⟨hi, amount, paid, rfl, Scaling.covers_downscaleUp hamount, hpaid⟩

/-- An exit with given shares pays an amount of one token that what the curve pays covers, which is
more than nothing. -/
theorem oneTokenOut_ok {index : ℕ} {sharesIn minAmountOut : Amount}
    (h : b.oneTokenOut sharesIn index minAmountOut = .ok delta) :
    index < b.balances.length ∧ sharesIn.val ≤ b.supply.val - lockedShares.val ∧ ∃ amount paid,
      delta = ⟨.outward, singleAmount b.balances.length index amount, sharesIn⟩ ∧
      0 < paid.wei.val ∧ b.scaling.CoveredBy index amount paid.wei.val ∧
      Curve.tokenOutForExactShares b.amplification b.scaled index sharesIn b.supply b.invariant
        b.swapFee = .ok paid := by
  simp only [oneTokenOut, bind_eq_ok, mapError_eq_ok, checkTokenIndex_eq_ok, checkBurnable_eq_ok,
    checkAtLeast_eq_ok, pure_eq_ok, Amount.val_max, Amount.val_one, max_le_iff] at h
  obtain ⟨-, hi, -, -, -, hburnable, paid, hpaid, amount, hamount, -, ⟨-, hpos⟩, rfl⟩ := h
  exact ⟨hi, hburnable, amount, paid, rfl, Scaling.value_pos_of_downscaleDown hamount hpos,
    Scaling.coveredBy_downscaleDown hamount, hpaid⟩

/-- A proportional join asks for the part of every balance that its shares are of all, rounded up. -/
theorem allTokensIn_ok {sharesOut : Amount} {maxAmountsIn : List Amount}
    (h : b.allTokensIn sharesOut maxAmountsIn = .ok delta) :
    ∃ amounts, delta = ⟨.inward, amounts, sharesOut⟩ ∧
      ∀ i < b.balances.length, 0 < b.supply.val ∧
        (amounts.getD i 0).val =
          ceilDiv ((b.balances.getD i 0).val * sharesOut.val) b.supply.val := by
  simp only [allTokensIn, bind_eq_ok, checkCount_eq_ok, pure_eq_ok] at h
  obtain ⟨-, hlen, -, -, amounts, hamounts, rfl⟩ := h
  refine ⟨amounts, rfl, fun i hi => ?_⟩
  have hpart := (mapM_zip_ok hlen.symm hamounts 0 0 0).2 i hi
  simp only [proportionalIn, bind_eq_ok, mapError_eq_ok, Amount.mulDivUp_eq_ok,
    pure_eq_ok] at hpart
  obtain ⟨_, ⟨hsupply, hval⟩, -, -, rfl⟩ := hpart
  exact ⟨Nat.pos_of_ne_zero hsupply, hval⟩

/-- A proportional exit pays the part of every balance that its shares are of all, rounded down. -/
theorem allTokensOut_ok {sharesIn : Amount} {minAmountsOut : List Amount}
    (h : b.allTokensOut sharesIn minAmountsOut = .ok delta) :
    sharesIn.val ≤ b.supply.val - lockedShares.val ∧ ∃ amounts,
      delta = ⟨.outward, amounts, sharesIn⟩ ∧
      ∀ i < b.balances.length, 0 < b.supply.val ∧
        (amounts.getD i 0).val = (b.balances.getD i 0).val * sharesIn.val / b.supply.val := by
  simp only [allTokensOut, bind_eq_ok, checkCount_eq_ok, checkBurnable_eq_ok, pure_eq_ok] at h
  obtain ⟨-, hlen, -, -, -, hburnable, amounts, hamounts, -, -, rfl⟩ := h
  refine ⟨hburnable, amounts, rfl, fun i hi => ?_⟩
  have hpart := (mapM_zip_ok hlen.symm hamounts 0 0 0).2 i hi
  simp only [proportionalOut, bind_eq_ok, mapError_eq_ok, Amount.mulDivDown_eq_ok,
    pure_eq_ok] at hpart
  obtain ⟨_, ⟨hsupply, hval⟩, -, -, rfl⟩ := hpart
  exact ⟨Nat.pos_of_ne_zero hsupply, hval⟩

/-- An exit with given amounts burns the shares that the curve asks for their worth, rounded up. -/
theorem exactTokensOut_ok {amountsOut : List Amount} {maxSharesIn : Amount}
    (h : b.exactTokensOut amountsOut maxSharesIn = .ok delta) :
    amountsOut.length = b.balances.length ∧ ∃ scaledOut shares,
      delta = ⟨.outward, amountsOut, shares⟩ ∧
      b.scaling.upscaleAllUp amountsOut = .ok scaledOut ∧
      Curve.sharesInForExactOut b.amplification b.scaled scaledOut b.supply b.invariant
        b.swapFee = .ok shares ∧
      shares.val ≤ b.supply.val - lockedShares.val := by
  simp only [exactTokensOut, bind_eq_ok, mapError_eq_ok, checkCount_eq_ok, checkBurnable_eq_ok,
    pure_eq_ok] at h
  obtain ⟨-, hlen, -, -, scaledOut, hscaled, shares, hshares, -, -, -, -, -, hburnable, rfl⟩ := h
  exact ⟨hlen, scaledOut, shares, rfl, hscaled, hshares, hburnable⟩

/-- Only the first join is an init. -/
theorem compute_ne_init {request : LiquidityRequest} (h : b.compute request = .ok delta)
    (amountsIn : List Amount) : request ≠ .init amountsIn := by
  rintro rfl
  exact nomatch h

/-- A movement goes the way of its request. -/
theorem compute_flow {request : LiquidityRequest} (h : b.compute request = .ok delta) :
    delta.flow = request.flow := by
  cases request with
  | init amountsIn => exact nomatch h
  | exactTokensInForShares amountsIn minSharesOut =>
      obtain ⟨-, _, _, rfl, -⟩ := exactTokensIn_ok h
      rfl
  | tokenInForExactShares index sharesOut maxAmountIn =>
      obtain ⟨-, _, _, rfl, -⟩ := tokenIn_ok h
      rfl
  | allTokensInForExactShares sharesOut maxAmountsIn =>
      simp only [compute, allTokensIn, bind_eq_ok, pure_eq_ok] at h
      obtain ⟨-, -, -, -, -, -, rfl⟩ := h
      rfl
  | exactSharesInForOneToken sharesIn index minAmountOut =>
      obtain ⟨-, -, _, _, rfl, -⟩ := oneTokenOut_ok h
      rfl
  | exactSharesInForAllTokens sharesIn minAmountsOut =>
      obtain ⟨-, _, rfl, -⟩ := allTokensOut_ok h
      rfl
  | sharesInForExactTokens amountsOut maxSharesIn =>
      obtain ⟨-, _, _, rfl, -⟩ := exactTokensOut_ok h
      rfl

/-! ### Joins and exits of one token -/

/-- A ledger that holds enough of one token and the same of the others has the invariant that the
token's balance was solved for. -/
theorem Measures.atLeast {index : ℕ} {D : Amount} {y : Fixed} (hm : b.Measures l)
    (hi : index < l.balances.length)
    (hy : Curve.missingBalance b.amplification b.scaled D index = .ok y)
    (hlen : l'.balances.length = l.balances.length)
    (hle : y.wei.val ≤ l'.held index * (b.scaling.factorAt index).wei.val / Fixed.unit.val)
    (hothers : ∀ k ≠ index, l'.held k = l.held k) :
    AtLeast b.amplification.val (b.scaling.worth l'.balances) D.val := by
  refine Curve.atLeast_of_missingBalance (hm.length_scaled ▸ hi) hy ?_ ?_ fun k hk => ?_
  · rw [hm.length_scaled, Scaling.length_worth, hlen, hm.tokenCount, Nat.min_self]
  · rwa [Scaling.getD_worth, ← Ledger.held]
  · rw [hm.getD_scaled, Scaling.getD_worth, ← Ledger.held, hothers k hk]

/-- A join of one token: the amount is rounded up in favour of the pool. -/
theorem tokenIn_atLeast {index : ℕ} {sharesOut maxAmountIn : Amount} (hm : b.Measures l)
    (h : b.tokenIn index sharesOut maxAmountIn = .ok delta) (hl : l.apply delta = .ok l') :
    ∃ D', Curve.invariantAfterJoin sharesOut b.supply b.invariant = .ok D' ∧
      b.invariant.val * l'.supply.val ≤ D'.val * b.supply.val ∧
      AtLeast b.amplification.val (b.scaling.worth l'.balances) D'.val := by
  obtain ⟨hi, amount, paid, rfl, hcovers, hpaid⟩ := tokenIn_ok h
  obtain ⟨D', y, hD', hy, hle⟩ := Curve.tokenInForExactShares_ok hpaid
  obtain ⟨-, hlen, hheld, hsupply⟩ := Ledger.apply_inward_ok hl
  refine ⟨D', hD', ?_, hm.atLeast (hm.balances ▸ hi) hy hlen ?_ fun k hk => ?_⟩
  · rw [hsupply, ← hm.supply]
    exact Curve.le_invariantAfterJoin hD'
  · rw [hm.getD_scaled] at hle
    refine hle.trans (Scaling.worth_add_le hcovers ?_)
    rw [hheld, getD_singleAmount _ hi]
  · rw [hheld, getD_singleAmount_of_ne _ hk, Amount.val_zero, Nat.add_zero]

/-- An exit of one token: the amount is rounded down in favour of the pool. -/
theorem oneTokenOut_atLeast {index : ℕ} {sharesIn minAmountOut : Amount} (hm : b.Measures l)
    (h : b.oneTokenOut sharesIn index minAmountOut = .ok delta) (hl : l.apply delta = .ok l') :
    ∃ D', Curve.invariantAfterExit sharesIn b.supply b.invariant = .ok D' ∧
      b.invariant.val * l'.supply.val ≤ D'.val * b.supply.val ∧
      AtLeast b.amplification.val (b.scaling.worth l'.balances) D'.val := by
  obtain ⟨hi, -, amount, paid, rfl, -, hcovered, hpaid⟩ := oneTokenOut_ok h
  obtain ⟨D', y, hD', hy, hle⟩ := Curve.tokenOutForExactShares_ok hpaid
  obtain ⟨-, hlen, hheld, hsupply, -⟩ := Ledger.apply_outward_ok hl
  refine ⟨D', hD', ?_, hm.atLeast (hm.balances ▸ hi) hy hlen ?_ fun k hk => ?_⟩
  · have hafter : l'.supply.val = b.supply.val - sharesIn.val := by
      rw [hm.supply]
      omega
    rw [hafter]
    exact Curve.le_invariantAfterExit hD'
  · rw [hm.getD_scaled] at hle
    refine Nat.le_of_add_le_add_right (hle.trans (Scaling.worth_le_add hcovered ?_))
    rw [← hheld index, getD_singleAmount _ hi]
  · rw [← hheld k, getD_singleAmount_of_ne _ hk, Amount.val_zero, Nat.add_zero]

/-- **A join or exit of one token dilutes nobody.** It solves for an invariant that grew as much as
the shares, or shrank no more, and the balances it leaves have at least that invariant. -/
theorem compute_atLeast {request : LiquidityRequest}
    {target : Amount → Amount → Except MathError Amount} (hm : b.Measures l)
    (ht : request.target? = some target) (h : b.compute request = .ok delta)
    (hl : l.apply delta = .ok l') :
    ∃ D', target b.supply b.invariant = .ok D' ∧
      b.invariant.val * l'.supply.val ≤ D'.val * b.supply.val ∧
      AtLeast b.amplification.val (b.scaling.worth l'.balances) D'.val := by
  cases request with
  | tokenInForExactShares index sharesOut maxAmountIn =>
      cases ht
      exact tokenIn_atLeast hm h hl
  | exactSharesInForOneToken sharesIn index minAmountOut =>
      cases ht
      exact oneTokenOut_atLeast hm h hl
  | init _ | exactTokensInForShares _ _ | allTokensInForExactShares _ _
  | exactSharesInForAllTokens _ _ | sharesInForExactTokens _ _ => exact nomatch ht

/-! ### Exits leave something of every token -/

/-- The invariant that an exit of one token leaves is positive, so no balance is zero. -/
theorem oneTokenOut_held_pos {index : ℕ} {sharesIn minAmountOut : Amount} (hm : b.Measures l)
    (h : b.oneTokenOut sharesIn index minAmountOut = .ok delta) (hl : l.apply delta = .ok l')
    (hsupply : lockedShares.val ≤ l.supply.val) : ∀ i < l.balances.length, 0 < l'.held i := by
  obtain ⟨D', -, hshares, hatLeast⟩ := oneTokenOut_atLeast hm h hl
  obtain ⟨hi, -, amount, paid, rfl, hpos, -, hpaid⟩ := oneTokenOut_ok h
  obtain ⟨-, hlen, -, hburned, hburnable⟩ := Ledger.apply_outward_ok hl
  rw [hm.balances, ← hm.length_scaled] at hi
  -- what was paid shows that the pool has an invariant, and some of it stays with the shares
  have hD : 0 < b.invariant.val := by
    refine (Curve.invariant_pos_iff hm.invariant).mpr ⟨?_, Curve.pos_of_tokenOutForExactShares hi
      hpaid hpos⟩
    exact List.ne_nil_of_length_pos (Nat.zero_lt_of_lt hi)
  have hD' : 0 < D'.val := by
    have hleft : 0 < l'.supply.val := by
      have := lockedShares_pos
      omega
    exact Nat.pos_of_mul_pos_right ((Nat.mul_pos hD hleft).trans_le hshares)
  intro i hi
  have hworth : i < (b.scaling.worth l'.balances).length := by
    rwa [Scaling.length_worth, hlen, hm.tokenCount, Nat.min_self]
  have := hatLeast.pos hD' _ (List.getElem_mem hworth)
  rw [← List.getD_eq_getElem _ 0 hworth, Scaling.getD_worth, ← Ledger.held] at this
  rw [Nat.pos_iff_ne_zero]
  intro h0
  rw [h0, Nat.zero_mul, Nat.zero_div] at this
  exact this.false

/-- A part of a balance is less than all of it, as not all shares are burned. -/
theorem allTokensOut_held_pos {sharesIn : Amount} {minAmountsOut : List Amount} (hm : b.Measures l)
    (h : b.allTokensOut sharesIn minAmountsOut = .ok delta) (hl : l.apply delta = .ok l')
    (hsupply : lockedShares.val ≤ l.supply.val)
    (hheld : ∀ i < l.balances.length, 0 < l.held i) :
    ∀ i < l.balances.length, 0 < l'.held i := by
  obtain ⟨hburnable, amounts, rfl, hamounts⟩ := allTokensOut_ok h
  obtain ⟨-, -, hafter, -⟩ := Ledger.apply_outward_ok hl
  rw [hm.balances, hm.supply] at hamounts
  rw [hm.supply] at hburnable
  intro i hi
  -- a token's part is less than all of it, as less than all shares are burned
  have hlt : (amounts.getD i 0).val < l.held i := by
    have := lockedShares_pos
    rw [(hamounts i hi).2, ← Ledger.held, Nat.div_lt_iff_lt_mul (by omega)]
    exact Nat.mul_lt_mul_of_pos_left (by omega) (hheld i hi)
  have := hafter i
  omega

/-- Taking all of a token costs all shares, the locked ones among them. -/
theorem exactTokensOut_held_pos {amountsOut : List Amount} {maxSharesIn : Amount}
    (hm : b.Measures l) (h : b.exactTokensOut amountsOut maxSharesIn = .ok delta)
    (hl : l.apply delta = .ok l') (hsupply : lockedShares.val ≤ l.supply.val) :
    ∀ i < l.balances.length, 0 < l'.held i := by
  obtain ⟨hlen, scaledOut, shares, rfl, hscaled, hshares, hburnable⟩ := exactTokensOut_ok h
  obtain ⟨-, -, hafter, -⟩ := Ledger.apply_outward_ok hl
  rw [hm.balances] at hlen
  obtain ⟨hlen', hcovered⟩ := Scaling.coveredBy_upscaleAllUp (hlen.trans hm.tokenCount.symm) hscaled
  rw [hm.supply] at hburnable
  intro i hi
  rw [Nat.pos_iff_ne_zero]
  intro h0
  have hall : (amountsOut.getD i 0).val = l.held i := by
    have := hafter i
    omega
  -- taking all of the token would cost all shares, and the locked ones are not to be had
  have hdrain : (b.scaled.getD i 0).wei.val ≤ (scaledOut.getD i 0).wei.val := by
    rw [hm.getD_scaled, ← hall]
    exact (hcovered i (hlen ▸ hi)).worth_le
  have hcost := Curve.sharesInForExactOut_drain (hm.length_scaled.trans (hlen'.trans hlen).symm)
    (hm.length_scaled ▸ hi) hdrain hshares
  rw [hcost, hm.supply] at hburnable
  have := lockedShares_pos
  omega

theorem exit_held_pos {request : LiquidityRequest} (hm : b.Measures l)
    (hflow : request.flow = .outward) (h : b.compute request = .ok delta)
    (hl : l.apply delta = .ok l') (hsupply : lockedShares.val ≤ l.supply.val)
    (hheld : ∀ i < l.balances.length, 0 < l.held i) :
    ∀ i < l.balances.length, 0 < l'.held i := by
  cases request with
  | exactSharesInForOneToken sharesIn index minAmountOut =>
      exact oneTokenOut_held_pos hm h hl hsupply
  | exactSharesInForAllTokens sharesIn minAmountsOut =>
      exact allTokensOut_held_pos hm h hl hsupply hheld
  | sharesInForExactTokens amountsOut maxSharesIn =>
      exact exactTokensOut_held_pos hm h hl hsupply
  | init _ | exactTokensInForShares _ _ | tokenInForExactShares _ _ _
  | allTokensInForExactShares _ _ => exact nomatch hflow

/-- **A join or exit leaves something of every token**, where the pool has the locked shares and
something of every token before. -/
theorem compute_held_pos {request : LiquidityRequest} (hm : b.Measures l)
    (h : b.compute request = .ok delta) (hl : l.apply delta = .ok l')
    (hsupply : lockedShares.val ≤ l.supply.val)
    (hheld : ∀ i < l.balances.length, 0 < l.held i) :
    ∀ i < l.balances.length, 0 < l'.held i := by
  have hflow := compute_flow h
  obtain ⟨flow, amounts, shares⟩ := delta
  cases flow with
  | inward =>
      obtain ⟨-, -, hafter, -⟩ := Ledger.apply_inward_ok hl
      intro i hi
      rw [hafter]
      exact Nat.add_pos_left (hheld i hi) _
  | outward => exact exit_held_pos hm hflow.symm h hl hsupply hheld

end LiquidityBasis

end StableSwap
