import Mathlib
import StableSwap.Proofs.Curve.Convergence
import StableSwap.Proofs.Liquidity

/-!
# The taxable split

A join or exit with given amounts splits an amount where the ratio of its balance is beyond the mean
ratio: the part in proportion to the mean is free, and the rest pays the fee. The ratio is rounded
towards one, down for a join and up for an exit, so what is beyond the mean after rounding is beyond it
before. The part in proportion is then no more than the amount (`proportionalGrowth_le`,
`proportionalLoss_le`), and splitting is no reason for a negative difference.

So a join has no negative difference at all, and an exit has one only where a balance is overdrawn, by
the amount or by the amount with its fee (`taxableSplit_underflows`).
-/

namespace StableSwap

namespace Curve

variable {A D : Amount} {Q : Prop} {xs : List Fixed} {mean fee balance amount ratio part : Fixed}

/-! ### The invariant -/

theorem productTerm_overflowsOrDivides (n D : Amount) (xs : List Fixed) :
    OverflowsOrDivides (productTerm n D xs) :=
  FailsOnlyBy.foldlM (fun _ _ _ => (Amount.onlyOverflows_mul _ _).orDivides.bind fun _ _ =>
    Amount.overflowsOrDivides_mulDivDown _ _ _) D

theorem invariantStep_overflowsOrDivides {Ann n S : Amount} (hAnn : precision.val ≤ Ann.val)
    (x : Amount) : OverflowsOrDivides (invariantStep Ann n S xs x) := by
  refine (productTerm_overflowsOrDivides n x xs).bind fun term _ => ?_
  refine (Amount.overflowsOrDivides_mulDivDown _ _ _).bind fun amplifiedSum _ => ?_
  refine (Amount.onlyOverflows_mul _ _).orDivides.bind fun weightedTerm _ => ?_
  refine (Amount.onlyOverflows_add _ _).orDivides.bind fun numerator _ => ?_
  refine (Amount.onlyOverflows_sub hAnn).orDivides.bind fun excess _ => ?_
  refine (Amount.overflowsOrDivides_mulDivDown _ _ _).bind fun amplifiedD _ => ?_
  refine (Amount.onlyOverflows_add _ _).orDivides.bind fun next _ => ?_
  refine (Amount.onlyOverflows_mul _ _).orDivides.bind fun heavierTerm _ => ?_
  refine (Amount.onlyOverflows_add _ _).orDivides.bind fun denominator _ => ?_
  exact Amount.overflowsOrDivides_mulDivDown _ _ _

/-- The one difference in the equation of the invariant is not negative at an amplification of one. -/
theorem invariant_underflowsOnlyIf (hA : precision.val ≤ A.val * xs.length) :
    UnderflowsOnlyIf Q (invariant A xs) := by
  refine (total_onlyOverflows xs).orDivides.underflowsOnlyIf.bind fun sum _ => ?_
  split
  · exact .ok 0
  split
  · exact .ok sum.wei
  refine (Amount.onlyOverflows_count _).orDivides.underflowsOnlyIf.bind fun n hn => ?_
  refine (Amount.onlyOverflows_mul _ _).orDivides.underflowsOnlyIf.bind fun Ann hAnn => ?_
  rw [← Amount.narrow_eq_ok.mp hn, ← Amount.mul_eq_ok.mp hAnn] at hA
  exact iterate_failsOnlyBy
    (fun x => (invariantStep_overflowsOrDivides hA x).underflowsOnlyIf) nofun _ _

/-! ### Joins -/

/-- **The part of a growth in proportion is no more than the amount**, if the ratio is beyond the
mean. -/
theorem proportionalGrowth_le (hratio : ratio.wei.val * balance.wei.val ≤
      (balance.wei.val + amount.wei.val) * Fixed.unit.val)
    (hlt : mean < ratio) (h : proportionalGrowth mean balance = .ok part) :
    part.wei.val ≤ amount.wei.val := by
  unfold proportionalGrowth at h
  split at h
  · simp only [bind_eq_ok, Fixed.sub_eq_ok, Fixed.wei_one, Fixed.mulDown_eq_ok] at h
    obtain ⟨growth, hgrowth, hpart⟩ := h
    rw [hpart]
    refine Nat.div_le_of_le_mul (Nat.le_of_add_le_add_left (a := balance.wei.val * Fixed.unit.val) ?_)
    calc balance.wei.val * Fixed.unit.val + balance.wei.val * growth.wei.val
        = mean.wei.val * balance.wei.val := by rw [← Nat.mul_add, ← hgrowth, Nat.mul_comm]
      _ ≤ ratio.wei.val * balance.wei.val := Nat.mul_le_mul_right _ (Fixed.lt_def.mp hlt).le
      _ ≤ (balance.wei.val + amount.wei.val) * Fixed.unit.val := hratio
      _ = balance.wei.val * Fixed.unit.val + Fixed.unit.val * amount.wei.val := by
          rw [Nat.add_mul, Nat.mul_comm amount.wei.val]
  · cases h
    exact Nat.zero_le _

theorem proportionalGrowth_underflowsOnlyIf :
    UnderflowsOnlyIf Q (proportionalGrowth mean balance) := by
  unfold proportionalGrowth
  split
  · rename_i hlt
    refine (Fixed.overflowsOrDivides_sub (Fixed.lt_def.mp hlt).le).underflowsOnlyIf.bind
      fun growth _ => ?_
    exact (Fixed.overflowsOrDivides_mulDown _ _).underflowsOnlyIf
  · exact .ok 0

/-- A fee below one is no more than what it is charged on. -/
theorem mulUp_le_of_lt_one {withheld : Fixed} (hfee : fee < 1)
    (h : amount.mulUp fee = .ok withheld) : withheld.wei.val ≤ amount.wei.val := by
  rw [Fixed.mulUp_eq_ok.mp h, ceilDiv_le_iff Fixed.unit_pos]
  exact Nat.mul_le_mul_left _ (Fixed.lt_def.mp hfee).le

theorem balanceAfterJoin_underflowsOnlyIf (hfee : fee < 1)
    (hratio : ratio.wei.val * balance.wei.val ≤
      (balance.wei.val + amount.wei.val) * Fixed.unit.val) :
    UnderflowsOnlyIf Q (balanceAfterJoin mean fee balance amount ratio) := by
  rw [balanceAfterJoin_eq]
  split
  · rename_i hlt
    refine proportionalGrowth_underflowsOnlyIf.bind fun nonTaxable hnonTaxable => ?_
    have hpart := proportionalGrowth_le hratio hlt hnonTaxable
    refine (Fixed.overflowsOrDivides_sub hpart).underflowsOnlyIf.bind fun taxable htaxable => ?_
    refine (Fixed.overflowsOrDivides_mulUp _ _).underflowsOnlyIf.bind fun withheld hwithheld => ?_
    have hle : withheld.wei.val ≤ amount.wei.val := by
      have := mulUp_le_of_lt_one hfee hwithheld
      have := Fixed.sub_eq_ok.mp htaxable
      omega
    refine (Fixed.overflowsOrDivides_sub hle).underflowsOnlyIf.bind fun net _ => ?_
    exact (Fixed.overflowsOrDivides_add _ _).underflowsOnlyIf
  · exact (Fixed.overflowsOrDivides_add _ _).underflowsOnlyIf

theorem joinRatios_overflowsOrDivides (sum : Fixed) :
    ∀ (start : Fixed) (pairs : List (Fixed × Fixed)),
      OverflowsOrDivides (joinRatios sum start pairs)
  | start, [] => .ok (start, [])
  | start, (balance, amount) :: rest => by
      refine (Fixed.overflowsOrDivides_divDown _ _).bind fun weight _ => ?_
      refine (Fixed.overflowsOrDivides_add _ _).bind fun after _ => ?_
      refine (Fixed.overflowsOrDivides_divDown _ _).bind fun ratio _ => ?_
      refine (Fixed.overflowsOrDivides_mulDown _ _).bind fun part _ => ?_
      refine (Fixed.overflowsOrDivides_add _ _).bind fun next _ => ?_
      exact (joinRatios_overflowsOrDivides sum next rest).bind fun _ _ => .ok _

theorem balancesAfterJoin_underflowsOnlyIf {ins : List Fixed} (hlen : xs.length = ins.length)
    (hfee : fee < 1) : UnderflowsOnlyIf Q (balancesAfterJoin xs ins fee) := by
  refine (total_onlyOverflows xs).orDivides.underflowsOnlyIf.bind fun sum _ => ?_
  refine (joinRatios_overflowsOrDivides sum 0 _).underflowsOnlyIf.bind fun found hfound => ?_
  obtain ⟨mean, ratios⟩ := found
  have hratios := joinRatios_ok hfound
  refine FailsOnlyBy.mapM fun entry hentry => ?_
  obtain ⟨i, hi, rfl⟩ := exists_of_mem_zip_zip _ 0 hlen hratios.length_eq.symm 0 0 hentry
  refine balanceAfterJoin_underflowsOnlyIf hfee ?_
  have hratio := forall₂_getD hratios (0, 0) 0 (i := i) (by
    rwa [List.length_zip, ← hlen, Nat.min_self])
  rwa [getD_zip _ _ _ _ hi (hlen ▸ hi)] at hratio

theorem sharesOutForExactIn_underflowsOnlyIf {ins : List Fixed} {supply : Amount}
    (hlen : xs.length = ins.length) (hA : precision.val ≤ A.val * xs.length) (hfee : fee < 1) :
    UnderflowsOnlyIf Q (sharesOutForExactIn A xs ins supply D fee) := by
  refine (balancesAfterJoin_underflowsOnlyIf hlen hfee).bind fun after hafter => ?_
  rw [← (balancesAfterJoin_grown hlen hafter).length_eq] at hA
  refine (invariant_underflowsOnlyIf hA).bind fun D' _ => ?_
  refine (Fixed.overflowsOrDivides_divDown _ _).underflowsOnlyIf.bind fun ratio _ => ?_
  split
  · rename_i hlt
    refine (Fixed.overflowsOrDivides_sub (Fixed.lt_def.mp hlt).le).underflowsOnlyIf.bind
      fun growth _ => ?_
    exact (Fixed.overflowsOrDivides_mulDown _ _).underflowsOnlyIf.bind fun shares _ => .ok _
  · exact .ok 0

/-! ### Exits -/

/-- **The part of a loss in proportion is no more than the amount**, if the ratio is beyond the
mean. -/
theorem proportionalLoss_le (hratio : balance.wei.val * Fixed.unit.val ≤
      ratio.wei.val * balance.wei.val + amount.wei.val * Fixed.unit.val)
    (hlt : ratio < mean) (h : balance.mulDown mean.complement = .ok part) :
    part.wei.val ≤ amount.wei.val := by
  rw [Fixed.mulDown_eq_ok.mp h, Fixed.val_complement]
  refine Nat.div_le_of_le_mul ?_
  rw [Nat.mul_sub, Nat.sub_le_iff_le_add]
  calc balance.wei.val * Fixed.unit.val
      ≤ ratio.wei.val * balance.wei.val + amount.wei.val * Fixed.unit.val := hratio
    _ ≤ mean.wei.val * balance.wei.val + amount.wei.val * Fixed.unit.val :=
        Nat.add_le_add_right (Nat.mul_le_mul_right _ (Fixed.lt_def.mp hlt).le) _
    _ = Fixed.unit.val * amount.wei.val + balance.wei.val * mean.wei.val := by ring

theorem amountWithFee_underflowsOnlyIf (hratio : balance.wei.val * Fixed.unit.val ≤
      ratio.wei.val * balance.wei.val + amount.wei.val * Fixed.unit.val) :
    UnderflowsOnlyIf Q (amountWithFee mean fee balance amount ratio) := by
  unfold amountWithFee
  split
  · rename_i hlt
    refine (Fixed.overflowsOrDivides_mulDown _ _).underflowsOnlyIf.bind
      fun nonTaxable hnonTaxable => ?_
    have hpart := proportionalLoss_le hratio hlt hnonTaxable
    refine (Fixed.overflowsOrDivides_sub hpart).underflowsOnlyIf.bind fun taxable _ => ?_
    refine (Fixed.overflowsOrDivides_divUp _ _).underflowsOnlyIf.bind fun charged _ => ?_
    exact (Fixed.overflowsOrDivides_add _ _).underflowsOnlyIf
  · exact .ok amount

theorem exitRatios_underflowsOnlyIf (sum : Fixed) :
    ∀ (start : Fixed) (pairs : List (Fixed × Fixed)),
      UnderflowsOnlyIf (∃ pair ∈ pairs, pair.1.wei.val < pair.2.wei.val)
        (exitRatios sum start pairs)
  | start, [] => .ok (start, [])
  | start, (balance, amount) :: rest => by
      refine (Fixed.overflowsOrDivides_divUp _ _).underflowsOnlyIf.bind fun weight _ => ?_
      refine FailsOnlyBy.bind ((Fixed.underflowsOnlyIf_sub _ _).mono fun hlt =>
        ⟨_, List.mem_cons_self, hlt⟩) fun after _ => ?_
      refine (Fixed.overflowsOrDivides_divUp _ _).underflowsOnlyIf.bind fun ratio _ => ?_
      refine (Fixed.overflowsOrDivides_mulUp _ _).underflowsOnlyIf.bind fun part _ => ?_
      refine (Fixed.overflowsOrDivides_add _ _).underflowsOnlyIf.bind fun next _ => ?_
      refine FailsOnlyBy.bind ((exitRatios_underflowsOnlyIf sum next rest).mono ?_)
        fun _ _ => .ok _
      rintro ⟨pair, hpair, hlt⟩
      exact ⟨pair, List.mem_cons_of_mem _ hpair, hlt⟩

/-- An exit asks for more of a token than there is. -/
inductive Overdraws (xs outs : List Fixed) (fee : Fixed) (i : ℕ) : Prop where
  /-- The amount exceeds the balance. -/
  | amount (h : (xs.getD i 0).wei.val < (outs.getD i 0).wei.val)
  /-- The amount exceeds the balance once the fee is charged on its taxable part. -/
  | withFee {sum mean gross : Fixed} {ratios : List Fixed} (hsum : total xs = .ok sum)
      (hratios : exitRatios sum 0 (xs.zip outs) = .ok (mean, ratios))
      (hgross : amountWithFee mean fee (xs.getD i 0) (outs.getD i 0) (ratios.getD i 0) = .ok gross)
      (h : (xs.getD i 0).wei.val < gross.wei.val)

theorem balancesAfterExit_underflowsOnlyIf {outs : List Fixed} (hlen : xs.length = outs.length) :
    UnderflowsOnlyIf (∃ i < xs.length, Overdraws xs outs fee i) (balancesAfterExit xs outs fee) := by
  have hpairs : (xs.zip outs).length = xs.length := by rw [List.length_zip, ← hlen, Nat.min_self]
  refine (total_onlyOverflows xs).orDivides.underflowsOnlyIf.bind fun sum hsum => ?_
  refine FailsOnlyBy.bind ((exitRatios_underflowsOnlyIf sum 0 _).mono ?_) fun found hfound => ?_
  · rintro ⟨pair, hpair, hlt⟩
    obtain ⟨i, hi, rfl⟩ := List.mem_iff_getElem.mp hpair
    rw [hpairs] at hi
    rw [← List.getD_eq_getElem _ (0, 0), getD_zip _ _ _ _ hi (hlen ▸ hi)] at hlt
    exact ⟨i, hi, .amount hlt⟩
  · obtain ⟨mean, ratios⟩ := found
    have hratios := exitRatios_ok hfound
    refine FailsOnlyBy.mapM fun entry hentry => ?_
    obtain ⟨i, hi, rfl⟩ := exists_of_mem_zip_zip _ 0 hlen hratios.length_eq.symm 0 0 hentry
    have hratio := forall₂_getD hratios (0, 0) 0 (i := i) (hpairs.symm ▸ hi)
    rw [getD_zip _ _ _ _ hi (hlen ▸ hi)] at hratio
    -- the split does not fail, so it is the amount with its fee that the balance does not cover
    refine (amountWithFee_underflowsOnlyIf hratio).bind fun gross hgross => ?_
    exact (Fixed.underflowsOnlyIf_sub _ _).mono fun hlt =>
      ⟨i, hi, .withFee hsum hfound hgross hlt⟩

theorem sharesInForExactOut_underflowsOnlyIf {outs : List Fixed} {supply : Amount}
    (hlen : xs.length = outs.length) (hA : precision.val ≤ A.val * xs.length) :
    UnderflowsOnlyIf (∃ i < xs.length, Overdraws xs outs fee i)
      (sharesInForExactOut A xs outs supply D fee) := by
  refine (balancesAfterExit_underflowsOnlyIf hlen).bind fun after hafter => ?_
  rw [← (balancesAfterExit_shrunk hlen hafter).length_eq] at hA
  refine (invariant_underflowsOnlyIf hA).bind fun D' _ => ?_
  refine (Fixed.overflowsOrDivides_divDown _ _).underflowsOnlyIf.bind fun ratio _ => ?_
  exact (Fixed.overflowsOrDivides_mulUp _ _).underflowsOnlyIf.bind fun shares _ => .ok _

end Curve

/-! ### Exits of a pool -/

theorem PoolError.ofMath_ne_insufficientBalance (cause : MathError) (holding : Holding) :
    ¬ ofMath cause = .insufficientBalance holding := by
  unfold ofMath
  split
  · exact nofun
  · exact nofun

namespace LiquidityBasis

variable {b : LiquidityBasis} {l : Ledger}

/-- What is wrong with a token balance is a negative difference. -/
theorem exitError_eq_insufficientBalance {cause : MathError} :
    exitError cause = .insufficientBalance .tokenBalance ↔ cause = .subtractionOverflow := by
  unfold exitError
  split
  · rename_i hcause
    exact ⟨fun _ => hcause, fun _ => rfl⟩
  · rename_i hcause
    exact ⟨fun h => absurd h (PoolError.ofMath_ne_insufficientBalance _ _), fun h => absurd h hcause⟩

/-- An exit says that a token balance is insufficient only where the arithmetic of the shares has a
negative difference. -/
theorem exactTokensOut_insufficient {amountsOut : List Amount} {maxSharesIn : Amount}
    (h : b.exactTokensOut amountsOut maxSharesIn = .error (.insufficientBalance .tokenBalance)) :
    amountsOut.length = b.balances.length ∧ ∃ outs,
      b.scaling.upscaleAllUp amountsOut = .ok outs ∧
      Curve.sharesInForExactOut b.amplification b.scaled outs b.supply b.invariant b.swapFee =
        .error .subtractionOverflow := by
  simp only [exactTokensOut, checkCount, checkSomePaid, checkAtLeast, checkAtMost, checkBurnable,
    bind_eq_error, error_if_eq_ok, mapError_eq_ok,
    mapError_eq_error, error_if_eq_error, error_unless_eq_error, pure_ne_error,
    exitError_eq_insufficientBalance, PoolError.ofMath_ne_insufficientBalance, reduceCtorEq,
    PoolError.insufficientBalance.injEq, and_false, exists_false, false_or, or_false,
    exists_eq_right] at h
  obtain ⟨-, ⟨hlen, -⟩, -, -, outs, houts, hshares⟩ := h
  exact ⟨hlen, outs, houts, hshares⟩

theorem exactTokensOut_overdraws {amountsOut : List Amount} {maxSharesIn : Amount}
    (hm : b.Measures l) (hA : Curve.precision.val ≤ b.amplification.val * l.balances.length)
    (h : b.exactTokensOut amountsOut maxSharesIn = .error (.insufficientBalance .tokenBalance)) :
    ∃ outs, b.scaling.upscaleAllUp amountsOut = .ok outs ∧
      ∃ i < l.balances.length, Curve.Overdraws b.scaled outs b.swapFee i := by
  obtain ⟨hcount, outs, houts, hshares⟩ := exactTokensOut_insufficient h
  rw [hm.balances] at hcount
  obtain ⟨hlen, -⟩ := Scaling.coveredBy_upscaleAllUp (hcount.trans hm.tokenCount.symm) houts
  rw [← hm.length_scaled] at hA hcount ⊢
  exact ⟨outs, houts, underflowsOnlyIf_iff.mp
    (Curve.sharesInForExactOut_underflowsOnlyIf (hlen.trans hcount).symm hA) hshares⟩

end LiquidityBasis

/-- **Splitting off the taxable part is no reason for a negative difference.** A join with given
amounts never fails by one. An exit with given amounts fails by one only if it overdraws a balance, by
the amount or by the amount with its fee; so an exit of a pool that says that a token balance is
insufficient overdraws one. -/
theorem taxableSplit_underflows :
    (∀ (A : Amount) (xs ins : List Fixed) (supply D : Amount) (fee : Fixed),
      xs.length = ins.length → Curve.precision.val ≤ A.val * xs.length → fee < 1 →
      Curve.sharesOutForExactIn A xs ins supply D fee ≠ .error .subtractionOverflow) ∧
    (∀ (A : Amount) (xs outs : List Fixed) (supply D : Amount) (fee : Fixed),
      xs.length = outs.length → Curve.precision.val ≤ A.val * xs.length →
      Curve.sharesInForExactOut A xs outs supply D fee = .error .subtractionOverflow →
      ∃ i < xs.length, Curve.Overdraws xs outs fee i) ∧
    ∀ (b : LiquidityBasis) (l : Ledger) (amountsOut : List Amount) (maxSharesIn : Amount),
      b.Measures l → Curve.precision.val ≤ b.amplification.val * l.balances.length →
      b.exactTokensOut amountsOut maxSharesIn = .error (.insufficientBalance .tokenBalance) →
      ∃ outs, b.scaling.upscaleAllUp amountsOut = .ok outs ∧
        ∃ i < l.balances.length, Curve.Overdraws b.scaled outs b.swapFee i := by
  refine ⟨fun A xs ins supply D fee hlen hA hfee => ?_, fun A xs outs supply D fee hlen hA => ?_,
    fun b l amountsOut maxSharesIn hm hA => LiquidityBasis.exactTokensOut_overdraws hm hA⟩
  · exact underflowsOnlyIf_iff.mp (Curve.sharesOutForExactIn_underflowsOnlyIf hlen hA hfee)
  · exact underflowsOnlyIf_iff.mp (Curve.sharesInForExactOut_underflowsOnlyIf hlen hA)

/-- A pool of a thousand of each of two tokens, with a fee of three tenths. -/
def LiquidityBasis.even : LiquidityBasis where
  amplification := 200000
  swapFee := ⟨300000000000000000⟩
  scaling := ⟨[1, 1]⟩
  balances := [1000000000000000000000, 1000000000000000000000]
  scaled := [⟨1000000000000000000000⟩, ⟨1000000000000000000000⟩]
  supply := 2000000000000000000000
  invariant := 2000000000000000000000

/-- Paying a thousand of one token in mints shares. Taking as many out fails: with the fee on the
taxable half, it is more than there is. -/
theorem taxableSplit_underflows_even :
    let b := LiquidityBasis.even
    let amounts : List Fixed := [⟨1000000000000000000000⟩, 0]
    Curve.sharesOutForExactIn b.amplification b.scaled amounts b.supply b.invariant b.swapFee ≠
      .error .subtractionOverflow ∧
    (∃ i < 2, Curve.Overdraws b.scaled amounts b.swapFee i) ∧
    ∃ outs, b.scaling.upscaleAllUp [1000000000000000000000, 0] = .ok outs ∧
      ∃ i < 2, Curve.Overdraws b.scaled outs b.swapFee i := by
  intro b amounts
  obtain ⟨hjoin, hexit, hpool⟩ := taxableSplit_underflows
  have hfails : Curve.sharesInForExactOut b.amplification b.scaled amounts b.supply b.invariant
      b.swapFee = .error .subtractionOverflow := by decide +kernel
  have hm : b.Measures ⟨b.balances, b.supply⟩ :=
    ⟨rfl, rfl, rfl, by decide +kernel, by decide +kernel⟩
  refine ⟨hjoin _ _ _ _ _ _ rfl (by decide) (by decide),
    hexit b.amplification b.scaled amounts b.supply b.invariant b.swapFee rfl (by decide)
      hfails, ?_⟩
  exact hpool b _ [1000000000000000000000, 0] 2000000000000000000000 hm (by decide)
    (by decide +kernel)

end StableSwap
