import Mathlib
import StableSwap.Proofs.Pool.Conservation
import StableSwap.Proofs.Pool.Invariant

/-!
# Requests are kept to

A request fixes some of the amounts that are moved and bounds the others. What an operation reports
keeps to that (`Terms`), and it is what the ledger books. Nothing is free and nothing is for nothing:
shares always change hands, an exit pays something and a join that is to mint something is paid, and
both sides of a trade are positive (`KeptTo`).

* `LiquidityBasis.compute_keptTo`: what a join or exit computes.
* `SwapBasis.compute_bounds`: what a trade computes.
* `Pool.step_keptTo`: what an operation reports and books.
-/

namespace StableSwap

/-! ### Terms -/

/-- No token moves but the one at an index. -/
def MovesOnly (index : ℕ) (amounts : List Amount) : Prop :=
  index < amounts.length ∧ ∀ k ≠ index, amounts.getD k 0 = 0

/-- The shares and amounts that a join or exit fixes are those asked for, and the others are within
the caller's bounds. -/
def LiquidityRequest.Terms (shares : Amount) (amounts : List Amount) : LiquidityRequest → Prop
  | .init amountsIn => amounts = amountsIn
  | .exactTokensInForShares amountsIn minSharesOut => amounts = amountsIn ∧ minSharesOut ≤ shares
  | .tokenInForExactShares index sharesOut maxAmountIn =>
    shares = sharesOut ∧ MovesOnly index amounts ∧ amounts.getD index 0 ≤ maxAmountIn
  | .allTokensInForExactShares sharesOut maxAmountsIn =>
    shares = sharesOut ∧ List.Forall₂ (· ≤ ·) amounts maxAmountsIn
  | .exactSharesInForOneToken sharesIn index minAmountOut =>
    shares = sharesIn ∧ MovesOnly index amounts ∧ minAmountOut ≤ amounts.getD index 0
  | .exactSharesInForAllTokens sharesIn minAmountsOut =>
    shares = sharesIn ∧ List.Forall₂ (· ≤ ·) minAmountsOut amounts
  | .sharesInForExactTokens amountsOut maxSharesIn => amounts = amountsOut ∧ shares ≤ maxSharesIn

/-- Whether a join or exit has to move some token: every exit, and a join with given amounts. -/
def LiquidityRequest.MovesTokens : LiquidityRequest → Prop
  | .exactTokensInForShares .. => True
  | request => request.flow = .outward

/-- What a join or exit moves keeps to its request. -/
structure LiquidityRequest.KeptTo (request : LiquidityRequest) (flow : Flow) (shares : Amount)
    (amounts : List Amount) : Prop where
  flow_eq : flow = request.flow
  terms : request.Terms shares amounts
  shares_pos : 1 ≤ shares.val
  moves : request.MovesTokens → ∃ amount ∈ amounts, 1 ≤ amount.val

/-- The amount that a trade fixes is the one asked for, and the other is within the caller's
limit. -/
def SwapRequest.Terms (request : SwapRequest) (amounts : SwapAmounts) : Prop :=
  match request.kind with
  | .givenIn => amounts.amountIn = request.amount ∧
    ∀ least ∈ request.limit, least ≤ amounts.amountOut
  | .givenOut => amounts.amountOut = request.amount ∧
    ∀ most ∈ request.limit, amounts.amountIn ≤ most

/-- What a trade moves keeps to its request, where so much is held of the token paid out. -/
structure SwapRequest.KeptTo (request : SwapRequest) (held : ℕ) (amounts : SwapAmounts) :
    Prop where
  terms : request.Terms amounts
  amountIn_pos : 1 ≤ amounts.amountIn.val
  amountOut_pos : 1 ≤ amounts.amountOut.val
  amountOut_lt : amounts.amountOut.val < held

/-! ### Joins and exits -/

theorem movesOnly_singleAmount {n index : ℕ} (amount : Amount) (hi : index < n) :
    MovesOnly index (singleAmount n index amount) :=
  ⟨by simpa [singleAmount] using hi, fun _ hk => getD_singleAmount_of_ne amount hk⟩

theorem getD_eq_zero_of_not_exists {amounts : List Amount}
    (h : ¬ ∃ amount ∈ amounts, 1 ≤ amount.val) (i : ℕ) : (amounts.getD i 0).val = 0 := by
  rcases Nat.lt_or_ge i amounts.length with hi | hi
  · rw [List.getD_eq_getElem _ _ hi]
    by_contra hne
    exact h ⟨_, List.getElem_mem hi, Nat.pos_of_ne_zero hne⟩
  · rw [List.getD_eq_default _ _ hi, Amount.val_zero]

namespace LiquidityBasis

variable {b : LiquidityBasis} {l : Ledger} {delta : Delta}

/-- Amounts of all tokens scale to as many numbers as there are balances. -/
theorem Measures.length_upscaled {amounts : List Amount} {xs : List Fixed} (hm : b.Measures l)
    (hlen : amounts.length = b.balances.length) (h : b.scaling.upscaleAll amounts = .ok xs) :
    b.scaled.length = xs.length := by
  rw [hm.length_scaled, ← Fixed.length_weis xs, Scaling.weis_upscaleAll h, Scaling.length_worth,
    hlen, hm.tokenCount, hm.balances, Nat.min_self]

theorem exactTokensIn_keptTo {amountsIn : List Amount} {minSharesOut : Amount}
    (hm : b.Measures l) (h : b.exactTokensIn amountsIn minSharesOut = .ok delta) :
    (LiquidityRequest.exactTokensInForShares amountsIn minSharesOut).KeptTo delta.flow delta.shares
      delta.amounts := by
  simp only [exactTokensIn, bind_eq_ok, mapError_eq_ok, checkCount_eq_ok, checkAtLeast_eq_ok,
    pure_eq_ok, Amount.val_max, Amount.val_one, max_le_iff] at h
  obtain ⟨-, hlen, scaledIn, hscaledIn, shares, hshares, -, ⟨hmin, hpos⟩, rfl⟩ := h
  refine ⟨rfl, ⟨rfl, hmin⟩, hpos, fun _ => ?_⟩
  by_contra hnone
  -- what is not paid is worth nothing, and for nothing no shares are minted
  have hworth : ∀ i < b.scaled.length, (scaledIn.getD i 0).wei.val = 0 := by
    intro i _
    rw [← Fixed.getD_weis, Scaling.weis_upscaleAll hscaledIn, Scaling.getD_worth,
      getD_eq_zero_of_not_exists hnone, Nat.zero_mul, Nat.zero_div]
  have hzero := Curve.sharesOutForExactIn_of_zero (hm.length_upscaled hlen hscaledIn) hworth
    hm.invariant hshares
  rw [hzero] at hpos
  exact absurd hpos (by decide)

theorem tokenIn_keptTo {index : ℕ} {sharesOut maxAmountIn : Amount}
    (h : b.tokenIn index sharesOut maxAmountIn = .ok delta) :
    (LiquidityRequest.tokenInForExactShares index sharesOut maxAmountIn).KeptTo delta.flow
      delta.shares delta.amounts := by
  simp only [tokenIn, bind_eq_ok, mapError_eq_ok, checkTokenIndex_eq_ok, checkAtLeast_eq_ok,
    checkAtMost_eq_ok, pure_eq_ok, Amount.val_one] at h
  obtain ⟨-, hi, -, hpos, _, -, amount, -, -, hmax, rfl⟩ := h
  refine ⟨rfl, ⟨rfl, movesOnly_singleAmount amount hi, ?_⟩, hpos, ?_⟩
  · rwa [getD_singleAmount _ hi]
  · rintro ⟨⟩

theorem allTokensIn_keptTo {sharesOut : Amount} {maxAmountsIn : List Amount}
    (h : b.allTokensIn sharesOut maxAmountsIn = .ok delta) :
    (LiquidityRequest.allTokensInForExactShares sharesOut maxAmountsIn).KeptTo delta.flow
      delta.shares delta.amounts := by
  simp only [allTokensIn, bind_eq_ok, checkCount_eq_ok, checkAtLeast_eq_ok, pure_eq_ok,
    Amount.val_one] at h
  obtain ⟨-, hlen, -, hpos, amounts, hamounts, rfl⟩ := h
  refine ⟨rfl, ⟨rfl, ?_⟩, hpos, ?_⟩
  · refine mapM_zip_forall₂ hlen.symm hamounts fun balance maximum amount hamount => ?_
    simp only [proportionalIn, bind_eq_ok, checkAtMost_eq_ok, pure_eq_ok] at hamount
    obtain ⟨_, -, -, hmax, rfl⟩ := hamount
    exact hmax
  · rintro ⟨⟩

theorem oneTokenOut_keptTo {index : ℕ} {sharesIn minAmountOut : Amount}
    (h : b.oneTokenOut sharesIn index minAmountOut = .ok delta) :
    (LiquidityRequest.exactSharesInForOneToken sharesIn index minAmountOut).KeptTo delta.flow
      delta.shares delta.amounts := by
  simp only [oneTokenOut, bind_eq_ok, checkTokenIndex_eq_ok, checkAtLeast_eq_ok, pure_eq_ok,
    Amount.val_max, Amount.val_one, max_le_iff] at h
  obtain ⟨-, hi, -, hpos, -, -, _, -, amount, -, -, ⟨hmin, hamount⟩, rfl⟩ := h
  refine ⟨rfl, ⟨rfl, movesOnly_singleAmount amount hi, ?_⟩, hpos, fun _ => ?_⟩
  · rwa [getD_singleAmount _ hi]
  · exact ⟨amount, List.mem_set (by simpa using hi) _, hamount⟩

theorem allTokensOut_keptTo {sharesIn : Amount} {minAmountsOut : List Amount}
    (h : b.allTokensOut sharesIn minAmountsOut = .ok delta) :
    (LiquidityRequest.exactSharesInForAllTokens sharesIn minAmountsOut).KeptTo delta.flow
      delta.shares delta.amounts := by
  simp only [allTokensOut, bind_eq_ok, checkCount_eq_ok, checkAtLeast_eq_ok, checkSomePaid_eq_ok,
    pure_eq_ok, Amount.val_one] at h
  obtain ⟨-, hlen, -, hpos, -, -, amounts, hamounts, -, hpaid, rfl⟩ := h
  refine ⟨rfl, ⟨rfl, ?_⟩, hpos, fun _ => hpaid⟩
  refine (mapM_zip_forall₂ hlen.symm hamounts fun balance minimum amount hamount => ?_).flip
  simp only [proportionalOut, bind_eq_ok, checkAtLeast_eq_ok, pure_eq_ok] at hamount
  obtain ⟨_, -, -, hmin, rfl⟩ := hamount
  exact hmin

theorem exactTokensOut_keptTo {amountsOut : List Amount} {maxSharesIn : Amount}
    (h : b.exactTokensOut amountsOut maxSharesIn = .ok delta) :
    (LiquidityRequest.sharesInForExactTokens amountsOut maxSharesIn).KeptTo delta.flow delta.shares
      delta.amounts := by
  simp only [exactTokensOut, bind_eq_ok, checkSomePaid_eq_ok, checkAtLeast_eq_ok,
    checkAtMost_eq_ok, pure_eq_ok, Amount.val_one] at h
  obtain ⟨-, -, -, hpaid, _, -, shares, -, -, hpos, -, hmax, -, -, rfl⟩ := h
  exact ⟨rfl, ⟨rfl, hmax⟩, hpos, fun _ => hpaid⟩

/-- **What a join or exit computes keeps to its request.** -/
theorem compute_keptTo {request : LiquidityRequest} (hm : b.Measures l)
    (h : b.compute request = .ok delta) :
    request.KeptTo delta.flow delta.shares delta.amounts := by
  cases request with
  | init amountsIn => exact nomatch h
  | exactTokensInForShares amountsIn minSharesOut => exact exactTokensIn_keptTo hm h
  | tokenInForExactShares index sharesOut maxAmountIn => exact tokenIn_keptTo h
  | allTokensInForExactShares sharesOut maxAmountsIn => exact allTokensIn_keptTo h
  | exactSharesInForOneToken sharesIn index minAmountOut => exact oneTokenOut_keptTo h
  | exactSharesInForAllTokens sharesIn minAmountsOut => exact allTokensOut_keptTo h
  | sharesInForExactTokens amountsOut maxSharesIn => exact exactTokensOut_keptTo h

end LiquidityBasis

/-! ### Trades -/

namespace SwapBasis

variable {b : SwapBasis} {i j : ℕ} {amounts : SwapAmounts}

theorem givenIn_bounds {amount : Amount} {least : Option Amount}
    (h : b.givenIn i j amount least = .ok amounts) :
    amounts.amountIn = amount ∧ 1 ≤ amounts.amountOut.val ∧
      ∀ minimum ∈ least, minimum ≤ amounts.amountOut := by
  simp only [givenIn, unless_eq_ok, bind_eq_ok, pure_eq_ok] at h
  obtain ⟨_, -, -, _, -, amountOut, -, hne, hmin, rfl⟩ := h
  refine ⟨rfl, Nat.pos_of_ne_zero fun h0 => hne (Amount.ext h0), ?_⟩
  rintro minimum ⟨⟩
  exact Nat.le_of_not_lt hmin

theorem givenOut_bounds {amount : Amount} {most : Option Amount}
    (h : b.givenOut i j amount most = .ok amounts) :
    amounts.amountOut = amount ∧ 1 ≤ amounts.amountIn.val ∧
      ∀ maximum ∈ most, amounts.amountIn ≤ maximum := by
  obtain ⟨hout, paid, _, hcovers, -, hrun⟩ := givenOut_run h
  refine ⟨hout, hcovers.pos (Curve.inGivenOut_pos hrun), ?_⟩
  simp only [givenOut, unless_eq_ok, bind_eq_ok, pure_eq_ok] at h
  obtain ⟨-, _, -, _, -, amountIn, -, hmax, rfl⟩ := h
  rintro maximum ⟨⟩
  exact Nat.le_of_not_lt hmax

/-- **What a trade computes keeps to its request**, and neither side of it is nothing. -/
theorem compute_bounds {request : SwapRequest} (h : b.compute request = .ok amounts) :
    request.Terms amounts ∧ 1 ≤ amounts.amountIn.val ∧ 1 ≤ amounts.amountOut.val := by
  simp only [compute, unless_eq_ok] at h
  obtain ⟨-, hne, h⟩ := h
  have hpos : 1 ≤ request.amount.val := Nat.pos_of_ne_zero fun h0 => hne (Amount.ext h0)
  unfold SwapRequest.Terms
  cases hkind : request.kind with
  | givenIn =>
      rw [hkind] at h
      obtain ⟨hin, hout, hmin⟩ := givenIn_bounds h
      exact ⟨⟨hin, hmin⟩, hin ▸ hpos, hout⟩
  | givenOut =>
      rw [hkind] at h
      obtain ⟨hout, hin, hmax⟩ := givenOut_bounds h
      exact ⟨⟨hout, hmax⟩, hin, hout ▸ hpos⟩

end SwapBasis

/-! ### Operations -/

/-- What an event reports keeps to its request, at a pool of so many tokens with a ledger. -/
def Event.KeptTo (tokenCount : ℕ) (l : Ledger) : Event → Prop
  | .refreshed .. => True
  | .joinedExited request _ outcome =>
    outcome.amounts.length = tokenCount ∧
      request.KeptTo outcome.flow outcome.shares outcome.amounts
  | .swapped request _ outcome => request.KeptTo (l.held request.tokenOut) outcome.amounts

namespace Pool

variable {p p' : Pool} {ctx : Context} {event : Event}

theorem joinExit_keptTo {request : LiquidityRequest} {outcome : LiquidityOutcome} (hp : p.Shaped)
    (h : p.joinExit request ctx = .ok (outcome, p')) :
    outcome.amounts.length = p.config.tokenCount ∧
      request.KeptTo outcome.flow outcome.shares outcome.amounts := by
  obtain ⟨rates, scaling, booking, snapshot, hrates, hscaling, hbooking, -, rfl, rfl⟩ :=
    joinExit_ok h
  rcases book_ok hbooking with ⟨amountsIn, rfl, hfirst⟩ | hlater
  · obtain ⟨-, delta, hdelta, hledger, hshares, hamounts, -⟩ := bookFirst_ok hfirst
    have hlen := Ledger.length_amounts_of_apply hledger
    obtain ⟨shares, rfl, -, hlocked⟩ := firstJoin_ok hdelta
    refine ⟨hamounts ▸ hlen.trans hp.balances, rfl, hamounts, ?_, nofun⟩
    rw [hshares, Amount.val_monus]
    exact Nat.sub_pos_of_lt hlocked
  · obtain ⟨settled, basis, delta, hsettled, hbasis, hdelta, hledger, hshares, hamounts, -⟩ :=
      bookLater_ok hlater
    have hlen := Ledger.length_amounts_of_apply hledger
    obtain ⟨-, -, hm⟩ := liquidityBasis_ok ((hp.tokenCount_scaling hrates hscaling).trans
      (hp.length_settled hsettled).symm) hbasis
    have hkept := LiquidityBasis.compute_keptTo hm hdelta
    rw [hkept.flow_eq, ← hshares, ← hamounts] at hkept
    exact ⟨hamounts ▸ hlen.trans (hp.length_settled hsettled), hkept⟩

theorem swap_keptTo {request : SwapRequest} {outcome : SwapOutcome}
    (h : p.swap request ctx = .ok (outcome, p')) :
    request.KeptTo (p.ledger.held request.tokenOut) outcome.amounts := by
  obtain ⟨-, -, _, _, settled, basis, ledger, -, -, hsettled, -, hamounts, hledger, -, -⟩ :=
    swap_ok h
  obtain ⟨-, -, hbalances, -⟩ := settle_ok hsettled
  obtain ⟨hterms, hin, hout⟩ := SwapBasis.compute_bounds hamounts
  exact ⟨hterms, hin, hout, Ledger.held_congr hbalances _ ▸ Ledger.lt_held_of_swap hledger⟩

/-- **Every operation keeps to its request.** What it reports is what the request fixes, within the
bounds that the request sets; and what it reports is what is booked. -/
theorem step_keptTo (hp : p.Shaped) (h : p.Step event p') :
    event.KeptTo p.config.tokenCount p.ledger ∧
      (∀ i, p'.ledger.held i + event.paidOut i = p.ledger.held i + event.paidIn i) ∧
      p'.ledger.supply.val + event.burned =
        p.ledger.supply.val + event.minted + event.protocolFee +
          if event.isFirstJoin then lockedShares.val else 0 := by
  refine ⟨?_, h.balances hp, h.supply hp⟩
  cases h with
  | refreshed h => trivial
  | joinedExited h => exact joinExit_keptTo hp h
  | swapped h => exact swap_keptTo h

/-- The pool of two tokens: a join that pays one of the first for some share at least, and a trade
that buys one of the second for at most two of the first. -/
theorem step_keptTo_paired :
    ∃ joined p₁ traded p₂,
      paired.joinExit (.exactTokensInForShares [1000000, 0] 1) (uncharged pair) = .ok (joined, p₁) ∧
      joined.shares = 999498758082716000 ∧ joined.amounts = [1000000, 0] ∧ 1 ≤ joined.shares ∧
      p₁.ledger.held 0 = paired.ledger.held 0 + (joined.amounts.getD 0 0).val ∧
      paired.swap ⟨.givenOut, 0, 1, 1000000000000000000, some 2000000⟩ (uncharged pair) =
        .ok (traded, p₂) ∧
      traded.amounts.amountIn = 1001007 ∧ traded.amounts.amountOut = 1000000000000000000 ∧
      traded.amounts.amountIn ≤ 2000000 ∧
      p₂.ledger.held 1 + traded.amounts.amountOut.val = paired.ledger.held 1 := by
  have hp : paired.Shaped := ⟨by decide +kernel, by decide +kernel⟩
  obtain ⟨⟨joined, p₁⟩, hjoin, hshares⟩ := map_eq_ok.mp
    (by decide +kernel : (paired.joinExit (.exactTokensInForShares [1000000, 0] 1)
      (uncharged pair)).map (·.1.shares) = .ok (999498758082716000 : Amount))
  obtain ⟨⟨traded, p₂⟩, hswap, hpaid⟩ := map_eq_ok.mp
    (by decide +kernel : (paired.swap ⟨.givenOut, 0, 1, 1000000000000000000, some 2000000⟩
      (uncharged pair)).map (·.1.amounts.amountIn) = .ok (1001007 : Amount))
  obtain ⟨⟨-, hjoined⟩, hpaidIn, -⟩ := step_keptTo hp (.joinedExited hjoin)
  obtain ⟨htraded, hpaidOut, -⟩ := step_keptTo hp (.swapped hswap)
  refine ⟨joined, p₁, traded, p₂, hjoin, hshares, hjoined.terms.1, hjoined.terms.2, ?_, hswap,
    hpaid, htraded.terms.1, htraded.terms.2 _ rfl, ?_⟩
  · have := hpaidIn 0
    rw [Event.paidOut, Event.paidIn, hjoined.flow_eq] at this
    exact this
  · have := hpaidOut 1
    rw [Event.paidOut, Event.paidIn, if_pos rfl, if_neg (by decide)] at this
    exact this

end Pool

end StableSwap
