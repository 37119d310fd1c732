import Mathlib
import StableSwap.Swap
import StableSwap.Proofs.Curve.Trade
import StableSwap.Proofs.Ledger
import StableSwap.Proofs.Scaling

/-!
# What a trade is priced at

The raw amounts of a trade are not those the curve knows: fees and conversions stand between. In
both kinds of trade the raw input covers what the curve asked for, and what the curve released
covers the raw output (`SwapBasis.compute_ok`). A ledger that makes the trade makes it in the common
unit too (`Ledger.traded_worth`).
-/

namespace StableSwap
open Fixed (weis)
open Curve (Traded)
open Curve.Polynomial (AtLeast)

/-! ### The fee -/

theorem subtractSwapFee_le {amount net : Amount} {fee : Fixed}
    (h : subtractSwapFee amount fee = .ok net) : net.val ≤ amount.val := by
  simp only [subtractSwapFee, bind_eq_ok, Amount.sub_eq_ok] at h
  obtain ⟨charged, -, hnet⟩ := h
  omega

theorem le_addSwapFee {net amount : Amount} {fee : Fixed} (h : addSwapFee net fee = .ok amount) :
    net.val ≤ amount.val := by
  obtain ⟨quotient, hquotient, rfl⟩ := map_eq_ok.mp h
  exact Fixed.le_divUp_complement hquotient

/-! ### Prices -/

namespace SwapBasis

variable {b : SwapBasis} {i j : ℕ} {amounts : SwapAmounts}

/-- The raw amounts lie on the pool's side of amounts in the common unit, and those were priced so
that trading them keeps the invariant. -/
structure Priced (b : SwapBasis) (i j : ℕ) (amounts : SwapAmounts) (paidIn paidOut : ℕ) : Prop where
  covers : b.scaling.Covers i amounts.amountIn paidIn
  covered : b.scaling.CoveredBy j amounts.amountOut paidOut
  atLeast : ∃ D, Curve.invariant b.amplification b.scaled = .ok D ∧
    ∀ ys, Traded (weis b.scaled) ys i j paidIn paidOut → AtLeast b.amplification.val ys D.val

/-- What a trade with a fixed input asked of the curve. -/
theorem givenIn_run {amount : Amount} {least : Option Amount}
    (h : b.givenIn i j amount least = .ok amounts) :
    amounts.amountIn = amount ∧ ∃ paid out : Fixed,
      b.scaling.Covers i amounts.amountIn paid.wei.val ∧
      b.scaling.CoveredBy j amounts.amountOut out.wei.val ∧ 0 < out.wei.val ∧
      ((Curve.outGivenIn b.amplification i j paid).run b.scaled).1 = .ok out := by
  simp only [givenIn, unless_eq_ok, bind_eq_ok, mapError_eq_ok, pure_eq_ok] at h
  obtain ⟨net, hnet, -, out, hout, amountOut, hamountOut, hne, -, rfl⟩ := h
  obtain ⟨paid, hpaid, hout⟩ := bind_eq_ok.mp hout
  have hpos : 0 < amountOut.val := Nat.pos_of_ne_zero fun h0 => hne (Amount.ext h0)
  exact ⟨rfl, paid, out, (Scaling.covers_upscale hpaid).mono (subtractSwapFee_le hnet),
    Scaling.coveredBy_downscaleDown hamountOut,
    Scaling.value_pos_of_downscaleDown hamountOut hpos, hout⟩

/-- What a trade with a fixed output asked of the curve. -/
theorem givenOut_run {amount : Amount} {most : Option Amount}
    (h : b.givenOut i j amount most = .ok amounts) :
    amounts.amountOut = amount ∧ ∃ paid out : Fixed,
      b.scaling.Covers i amounts.amountIn paid.wei.val ∧
      b.scaling.CoveredBy j amounts.amountOut out.wei.val ∧
      ((Curve.inGivenOut b.amplification i j out).run b.scaled).1 = .ok paid := by
  simp only [givenOut, unless_eq_ok, bind_eq_ok, mapError_eq_ok, pure_eq_ok] at h
  obtain ⟨-, paid, hpaid, net, hnet, amountIn, hamountIn, -, rfl⟩ := h
  obtain ⟨out, hout, hpaid⟩ := bind_eq_ok.mp hpaid
  exact ⟨rfl, paid, out, (Scaling.covers_downscaleUp hnet).mono (le_addSwapFee hamountIn),
    Scaling.coveredBy_upscaleUp hout, hpaid⟩

theorem givenIn_ok {amount : Amount} {least : Option Amount} (hi : i < b.scaled.length)
    (hj : j < b.scaled.length) (hij : i ≠ j) (h : b.givenIn i j amount least = .ok amounts) :
    ∃ paidIn paidOut, b.Priced i j amounts paidIn paidOut := by
  obtain ⟨-, paid, out, hcovers, hcovered, hpos, hrun⟩ := givenIn_run h
  exact ⟨_, _, hcovers, hcovered, Curve.outGivenIn_atLeast hi hj hij hrun hpos⟩

theorem givenOut_ok {amount : Amount} {most : Option Amount} (hi : i < b.scaled.length)
    (hj : j < b.scaled.length) (hij : i ≠ j) (h : b.givenOut i j amount most = .ok amounts) :
    ∃ paidIn paidOut, b.Priced i j amounts paidIn paidOut := by
  obtain ⟨-, paid, out, hcovers, hcovered, hrun⟩ := givenOut_run h
  exact ⟨_, _, hcovers, hcovered, Curve.inGivenOut_atLeast hi hj hij hrun⟩

theorem tokenIn_ne_tokenOut {request : SwapRequest} (h : b.compute request = .ok amounts) :
    request.tokenIn ≠ request.tokenOut := by
  simp only [compute, unless_eq_ok] at h
  exact h.1

theorem compute_ok {request : SwapRequest} (hi : request.tokenIn < b.scaled.length)
    (hj : request.tokenOut < b.scaled.length) (h : b.compute request = .ok amounts) :
    ∃ paidIn paidOut, b.Priced request.tokenIn request.tokenOut amounts paidIn paidOut := by
  have hij := tokenIn_ne_tokenOut h
  simp only [compute, unless_eq_ok] at h
  obtain ⟨-, -, h⟩ := h
  split at h
  · exact givenIn_ok hi hj hij h
  · exact givenOut_ok hi hj hij h

/-- A trade succeeds only if all balances but that of the token paid in are worth something. -/
theorem compute_others_pos {request : SwapRequest} (hi : request.tokenIn < b.scaled.length)
    (hj : request.tokenOut < b.scaled.length) (h : b.compute request = .ok amounts) :
    ∀ k < b.scaled.length, k ≠ request.tokenIn → 0 < (b.scaled.getD k 0).wei.val := by
  simp only [compute, unless_eq_ok] at h
  obtain ⟨-, -, h⟩ := h
  split at h
  · obtain ⟨-, _, _, -, -, hpos, hrun⟩ := givenIn_run h
    exact Curve.outGivenIn_others_pos hi hj hrun hpos
  · obtain ⟨-, _, _, -, -, hrun⟩ := givenOut_run h
    exact Curve.inGivenOut_others_pos hi hj hrun

end SwapBasis

/-! ### The balances after a trade -/

/-- A ledger that makes a trade in raw amounts makes it in the common unit. -/
theorem Ledger.traded_worth {l l' : Ledger} {s : Scaling} {i j paidIn paidOut : ℕ}
    {amountIn amountOut : Amount} (hi : i < l.balances.length) (hij : i ≠ j)
    (h : l.swap i amountIn j amountOut = .ok l') (hin : s.Covers i amountIn paidIn)
    (hout : s.CoveredBy j amountOut paidOut) :
    Traded (s.worth l.balances) (s.worth l'.balances) i j paidIn paidOut := by
  obtain ⟨-, hbought, hsold, -, hothers⟩ := Ledger.swap_ok hi hij h
  refine ⟨?_, ?_, ?_, fun k hki hkj => ?_⟩
  · rw [Scaling.length_worth, Scaling.length_worth, Ledger.length_swap h]
  · rw [Scaling.getD_worth, Scaling.getD_worth]
    exact Scaling.worth_add_le hin hbought
  · rw [Scaling.getD_worth, Scaling.getD_worth]
    exact Scaling.worth_le_add hout hsold
  · have := hothers k hki hkj
    unfold Ledger.held at this
    rw [Scaling.getD_worth, Scaling.getD_worth, this]

end StableSwap
