import Mathlib
import StableSwap.Proofs.Curve.Equation
import StableSwap.Proofs.Curve.Iteration

/-!
# When the solver for the invariant settles

The solver repeats a rounded step of Newton's method from the sum of the balances. The steps go down to
the root and settle there (`exists_descends`, `invariant_converges`), as long as the equation is steep
for what the product term loses to rounding. It is, if the balances come in ascending order, or if the
amplification is large for how much they differ (`Steady`).

In other orders one large loss at the end of the list can throw a step back up, and the values go round
in circles (`invariant_circles`).
-/

namespace StableSwap.Curve
open Fixed (weis)

theorem sum_le_length_mul_prod {xs : List ℕ} (hpos : ∀ x ∈ xs, 0 < x) :
    xs.sum ≤ xs.length * xs.prod := by
  refine List.sum_le_card_nsmul xs xs.prod fun x hx => ?_
  exact Nat.le_of_dvd (List.prod_pos hpos) (List.dvd_prod hx)

/-! ### The equation of a list of balances -/

/-- Amplification and balances that the pool solves the invariant of, of some size. -/
structure Regular (A : ℕ) (xs : List ℕ) : Prop where
  /-- The amplification is at least one. -/
  le_amplification : precision.val ≤ A
  two_le : 2 ≤ xs.length
  le_five : xs.length ≤ 5
  pos : ∀ x ∈ xs, 0 < x
  /-- The balances have some units. -/
  le_sum : 100000 ≤ xs.sum

namespace Regular

variable {A : ℕ} {xs : List ℕ}

theorem scale_pos (h : Regular A xs) : (0 : ℚ) < xs.length ^ xs.length * xs.prod := by
  have := h.two_le
  have := List.prod_pos h.pos
  positivity

theorem precision_le (h : Regular A xs) : xs.length * precision.val ≤ A * xs.length := by
  rw [Nat.mul_comm]
  exact Nat.mul_le_mul_right _ h.le_amplification

/-- The equation of the invariant. -/
def equation (h : Regular A xs) : Equation where
  n := xs.length
  scale := xs.length ^ xs.length * xs.prod
  weight := (A * xs.length - precision.val : ℕ) / precision.val
  target := A * xs.length * xs.sum / precision.val
  two_le := h.two_le
  le_five := h.le_five
  scale_pos := h.scale_pos
  le_weight := Equation.length_sub_one_le h.le_amplification xs.length

theorem models (h : Regular A xs) : h.equation.Models A xs := by
  have hprecision : (precision.val : ℚ) ≠ 0 := by exact_mod_cast precision_pos.ne'
  exact ⟨rfl, rfl, div_mul_cancel₀ _ hprecision, rfl⟩

/-- Above the root, the term is not below the value. -/
theorem le_term (h : Regular A xs) {D : ℕ} (hD : D < xs.sum) (hroot : 0 < h.equation.excess D) :
    (D : ℚ) ≤ h.equation.term D := by
  have hD' : (D + 1 : ℚ) ≤ xs.sum := by exact_mod_cast hD
  have hweight := h.equation.weight_pos
  have := h.equation.weight_add_one_mul_le hD'
  have := h.models.target_bounds.2
  unfold Equation.excess at hroot
  linarith

theorem weight_mul_sum_le (h : Regular A xs) :
    h.equation.weight * xs.sum ≤ h.equation.target := by
  have hsum : (100000 : ℚ) ≤ xs.sum := by exact_mod_cast h.le_sum
  linarith [h.models.target_bounds.2]

theorem excess_sum_nonneg (h : Regular A xs) : 0 ≤ h.equation.excess xs.sum := by
  have := h.models.sum_le_term
  have := h.models.target_bounds.1
  unfold Equation.excess
  linarith

/-- The root is not too small for the rounding of a step. -/
theorem excess_131_nonpos (h : Regular A xs) : h.equation.excess 131 ≤ 0 := by
  have hn := h.equation.le_weight
  have htarget := h.models.target_bounds.2
  have hsum : (100000 : ℚ) ≤ xs.sum := by exact_mod_cast h.le_sum
  have hprod : (xs.sum : ℚ) ≤ xs.length * xs.prod := by
    exact_mod_cast sum_le_length_mul_prod h.pos
  have hpow : (131 : ℚ) ^ (xs.length + 1) ≤ xs.length ^ xs.length * (100000 * 99869) := by
    have h2 := h.two_le
    have h5 := h.le_five
    generalize xs.length = n at h2 h5
    interval_cases n <;> norm_num
  have hscale : (xs.length ^ xs.length * (100000 * 99869) : ℚ) ≤
      xs.length * (xs.sum - 131) * (xs.length ^ xs.length * xs.prod) := by
    calc (xs.length ^ xs.length * (100000 * 99869) : ℚ)
        ≤ xs.length ^ xs.length * (xs.length * xs.prod * (xs.sum - 131)) :=
          mul_le_mul_of_nonneg_left
            (mul_le_mul (hsum.trans hprod) (by linarith) (by norm_num)
              (mul_nonneg (Nat.cast_nonneg _) (Nat.cast_nonneg _)))
            (pow_nonneg (Nat.cast_nonneg _) _)
      _ = _ := by ring
  have hterm := h.models.term_le_iff.mpr (hpow.trans hscale)
  have hweight := mul_le_mul_of_nonneg_right hn (show (0 : ℚ) ≤ xs.sum - 131 by linarith)
  change ((xs.length : ℚ) - 1) * _ ≤ _ at hweight
  unfold Equation.excess
  linarith

/-- There is a last number below the sum that is not above the root. -/
theorem exists_root (h : Regular A xs) :
    ∃ L, 131 ≤ L ∧ L < xs.sum ∧ h.equation.excess L ≤ 0 ∧
      ∀ D : ℕ, L < D → D ≤ xs.sum → 0 ≤ h.equation.excess D ∧ (D : ℚ) ≤ h.equation.term D := by
  classical
  have hsum := h.le_sum
  let P : ℕ → Prop := fun D => h.equation.excess D ≤ 0
  have hsmall : P 131 := by exact_mod_cast h.excess_131_nonpos
  have hlarge : 131 ≤ Nat.findGreatest P (xs.sum - 1) := Nat.le_findGreatest (by omega) hsmall
  refine ⟨Nat.findGreatest P (xs.sum - 1), hlarge, ?_, ?_, fun D hL hD => ?_⟩
  · have := Nat.findGreatest_le (P := P) (xs.sum - 1)
    omega
  · exact Nat.findGreatest_spec (P := P) (by omega) hsmall
  · rcases hD.eq_or_lt with rfl | hlt
    · exact ⟨h.excess_sum_nonneg, h.models.sum_le_term⟩
    · have hroot : 0 < h.equation.excess D :=
        not_le.mp (Nat.findGreatest_is_greatest hL (by omega))
      exact ⟨hroot.le, h.le_term hlt hroot⟩

end Regular

/-! ### Steady balances -/

/-- What makes the equation steep for what the product term loses: the balances ascend, or the
amplification outweighs the loss. -/
inductive Steady (A : ℕ) (xs : List ℕ) : Prop where
  | ascending (h : xs.Pairwise (· ≤ ·))
  | amplified (h : 6 * precision.val * (1 + flooringLoss xs.length xs.sum xs) ≤
      5 * xs.length * (A + precision.val))

namespace Regular

variable {A : ℕ} {xs : List ℕ}

theorem steep (h : Regular A xs) (hs : Steady A xs) {D : ℕ} (hpos : 0 < D) (hD : D ≤ xs.sum)
    (hterm : (D : ℚ) ≤ h.equation.term D) :
    6 * D * (1 + flooringLoss xs.length D xs) ≤ 5 * h.equation.slope D := by
  have hpos' : (0 : ℚ) < D := by exact_mod_cast hpos
  have hn2 : (2 : ℚ) ≤ xs.length := by exact_mod_cast h.two_le
  have hn5 : (xs.length : ℚ) ≤ 5 := by exact_mod_cast h.le_five
  have hn : (0 : ℚ) < xs.length := by linarith
  have hslope : h.equation.slope D =
      h.equation.weight * D + (xs.length + 1) * h.equation.term D := rfl
  rw [hslope]
  cases hs with
  | ascending hsorted =>
      have hproduct : 1 ≤ factorProduct xs.length D xs := by
        rw [h.models.term_eq] at hterm
        exact le_of_mul_le_mul_left (by rwa [mul_one]) hpos'
      have hloss := flooringLoss_le_of_ascending hn hpos'.le h.pos hsorted
      rw [max_eq_right hproduct] at hloss
      have hloss' := mul_le_mul_of_nonneg_left hloss hpos'.le
      rw [mul_left_comm, ← h.models.term_eq] at hloss'
      have hweight : ((xs.length : ℚ) - 1) * D ≤ h.equation.weight * D :=
        mul_le_mul_of_nonneg_right h.equation.le_weight hpos'.le
      have := mul_nonneg (sub_nonneg.mpr hn5) (sub_nonneg.mpr hterm)
      have := mul_nonneg (sub_nonneg.mpr hn2) hpos'.le
      linarith
  | amplified hlarge =>
      have hprecision : (0 : ℚ) < precision.val := by exact_mod_cast precision_pos
      have hmono : flooringLoss xs.length D xs ≤ flooringLoss xs.length xs.sum xs :=
        flooringLoss_mono hn.le hpos'.le (by exact_mod_cast hD) xs
      have hterm' := mul_le_mul_of_nonneg_left hterm (by linarith : (0 : ℚ) ≤ xs.length + 1)
      refine le_of_mul_le_mul_right ?_ hprecision
      calc 6 * D * (1 + flooringLoss xs.length D xs) * precision.val
          = D * (6 * precision.val * (1 + flooringLoss xs.length D xs)) := by ring
        _ ≤ D * (6 * precision.val * (1 + flooringLoss xs.length xs.sum xs)) :=
            mul_le_mul_of_nonneg_left (mul_le_mul_of_nonneg_left (by linarith) (by positivity))
              hpos'.le
        _ ≤ D * (5 * xs.length * (A + precision.val)) := mul_le_mul_of_nonneg_left hlarge hpos'.le
        _ = 5 * D * (A * xs.length) + 5 * D * xs.length * precision.val := by ring
        _ = 5 * (h.equation.weight * D + (xs.length + 1) * D) * precision.val := by
            rw [← h.models.weight_add_one_mul]
            ring
        _ ≤ _ := mul_le_mul_of_nonneg_right (by linarith) hprecision.le

/-- **Rounded steps from the sum of steady balances descend to the root.** -/
theorem exists_descends (h : Regular A xs) (hs : Steady A xs) :
    ∃ L, h.equation.Descends xs.sum L fun D => flooringLoss xs.length D xs := by
  obtain ⟨L, hL, hlt, hbelow, habove⟩ := h.exists_root
  refine ⟨L, fun D D' hle => ?_, hlt, hbelow, fun D hD hle => (habove D hD hle).1,
    fun D hD hle => h.steep hs (Nat.zero_lt_of_lt hD) hle (habove D hD hle).2,
    h.weight_mul_sum_le, ?_⟩
  · exact flooringLoss_mono (Nat.cast_nonneg _) (Nat.cast_nonneg D) (by exact_mod_cast hle) xs
  · have := h.le_five
    show 22 * (xs.length + 1) ≤ L + 1
    omega

/-- At the sum of steady balances, a rounded term is at least about half of the exact one. -/
theorem term_sum_le (h : Regular A xs) (hs : Steady A xs) {d e D' : ℕ}
    (hr : h.equation.Rounded xs.sum (flooringLoss xs.length xs.sum xs) d e D') :
    h.equation.term xs.sum ≤ 2 * d + 2 * h.equation.weight := by
  have hsum : (100000 : ℚ) ≤ xs.sum := by exact_mod_cast h.le_sum
  have hsum_pos : (0 : ℚ) < xs.sum := by linarith
  have hn5 : (xs.length : ℚ) ≤ 5 := by exact_mod_cast h.le_five
  have hterm_nonneg := h.equation.term_nonneg hsum_pos.le
  have hrounded := mul_le_mul_of_nonneg_right hr.term_le hsum_pos.le
  have hsteep : 6 * xs.sum * (1 + flooringLoss xs.length xs.sum xs) ≤
      5 * (h.equation.weight * xs.sum + (xs.length + 1) * h.equation.term xs.sum) :=
    h.steep hs (by exact_mod_cast hsum_pos) le_rfl h.models.sum_le_term
  have hcount := mul_le_mul_of_nonneg_right hn5 hterm_nonneg
  have hlarge := mul_le_mul_of_nonneg_left hsum hterm_nonneg
  have := mul_nonneg (Nat.cast_nonneg d : (0 : ℚ) ≤ d) hsum_pos.le
  have := mul_nonneg h.equation.weight_pos.le hsum_pos.le
  refine le_of_mul_le_mul_right ?_ hsum_pos
  linarith

/-- A first step that does not overflow shows that the sum is not too far from the root. -/
theorem within_sum (h : Regular A xs) (hs : Steady A xs) {L : ℕ} (hL : L ≤ xs.sum) {d e D' : ℕ}
    (hr : h.equation.Rounded xs.sum (flooringLoss xs.length xs.sum xs) d e D')
    (hd : (xs.length + 1) * d < Amount.bound) (hA : A * xs.length < Amount.bound) :
    h.equation.Within xs.sum L 237 xs.sum := by
  refine ⟨hL, le_rfl, .inr ⟨196, rfl, ?_⟩⟩
  have hterm := h.term_sum_le hs hr
  have hd' : (3 * d : ℚ) ≤ Amount.bound := by
    have : 3 * d ≤ (xs.length + 1) * d := Nat.mul_le_mul_right d (by have := h.two_le; omega)
    exact_mod_cast this.trans hd.le
  have hweight : h.equation.weight * 1000 ≤ Amount.bound := by
    have hsplit := h.models.weight_add_one_mul
    have hA' : (A * xs.length : ℚ) ≤ Amount.bound := by exact_mod_cast hA.le
    rw [val_precision] at hsplit
    push_cast at hsplit
    linarith
  have hbound : (Amount.bound : ℚ) ≤ (5 / 2) ^ 196 := by
    rw [Amount.bound, Nat.pow_eq]
    norm_num
  have hexcess : h.equation.excess xs.sum ≤ h.equation.term xs.sum := by
    have := h.weight_mul_sum_le
    unfold Equation.excess
    linarith
  linarith

end Regular

/-! ### The solver -/

section Solver

variable {A Ann n S D D' : Amount} {xs : List Fixed}

theorem productTerm_onlyOverflows (hn : 0 < n.val) (hpos : ∀ x ∈ xs, 0 < x.wei.val) :
    OnlyOverflows (productTerm n D xs) := by
  refine FailsOnlyBy.foldlM (fun term x hx => ?_) D
  refine (Amount.onlyOverflows_mul x.wei n).bind fun divisor hdivisor => ?_
  refine Amount.onlyOverflows_mulDivDown ?_
  rw [Amount.mul_eq_ok.mp hdivisor]
  exact Nat.mul_pos (hpos x hx) hn

/-- From a positive value no divisor of a step is zero, and no difference negative. -/
theorem invariantStep_onlyOverflows (hn : 0 < n.val) (hAnn : 2 * precision.val ≤ Ann.val)
    (hpos : ∀ x ∈ xs, 0 < x.wei.val) (hD : 0 < D.val) :
    OnlyOverflows (invariantStep Ann n S xs D) := by
  refine (productTerm_onlyOverflows hn hpos).bind fun term _ => ?_
  refine (Amount.onlyOverflows_mulDivDown precision_pos).bind fun amplifiedSum _ => ?_
  refine (Amount.onlyOverflows_mul _ _).bind fun weightedTerm _ => ?_
  refine (Amount.onlyOverflows_add _ _).bind fun numerator _ => ?_
  refine (Amount.onlyOverflows_sub (by omega)).bind fun excess hexcess => ?_
  refine (Amount.onlyOverflows_mulDivDown precision_pos).bind fun amplifiedD hamplifiedD => ?_
  refine (Amount.onlyOverflows_add _ _).bind fun next _ => ?_
  refine (Amount.onlyOverflows_mul _ _).bind fun heavierTerm _ => ?_
  refine (Amount.onlyOverflows_add _ _).bind fun denominator hdenominator => ?_
  refine Amount.onlyOverflows_mulDivDown ?_
  rw [Amount.add_eq_ok.mp hdenominator]
  refine Nat.add_pos_left ?_ _
  rw [(Amount.mulDivDown_eq_ok.mp hamplifiedD).2]
  have hexcess' : precision.val ≤ excess.val := by
    have := Amount.sub_eq_ok.mp hexcess
    omega
  exact Nat.div_pos (hexcess'.trans (Nat.le_mul_of_pos_right _ hD)) precision_pos

theorem total_onlyOverflows (xs : List Fixed) : OnlyOverflows (total xs) :=
  FailsOnlyBy.foldlM (fun a b _ => (Amount.onlyOverflows_add a.wei b.wei).map) 0

/-- **The iteration from the sum of steady balances settles in time.** -/
theorem Regular.iterate_settles (h : Regular A.val (weis xs)) (hs : Steady A.val (weis xs))
    (hn : n.val = (weis xs).length) (hAnn : Ann.val = A.val * (weis xs).length)
    (hS : S.val = (weis xs).sum) (failure : MathError) :
    OnlyOverflows (iterate (invariantStep Ann n S xs) failure maxRounds S) := by
  obtain ⟨L, hL⟩ := h.exists_descends hs
  have hAnn' : 2 * precision.val ≤ Ann.val := by
    rw [hAnn]
    exact (Nat.mul_le_mul_right _ h.two_le).trans h.precision_le
  have hstep : ∀ x : Amount, L ≤ x.val → OnlyOverflows (invariantStep Ann n S xs x) := by
    intro x hx
    refine invariantStep_onlyOverflows (hn ▸ Nat.zero_lt_of_lt h.two_le) hAnn'
      (fun x hx => h.pos _ (List.mem_map_of_mem hx)) ?_
    have := hL.large
    omega
  have hnext : ∀ k x y, h.equation.Within S.val L k x.val → invariantStep Ann n S xs x = .ok y →
      (y.dist x).val ≤ 1 ∨ ∃ j, j < k ∧ h.equation.Within S.val L j y.val := by
    intro k x y hx hy
    obtain ⟨d, e, -, hrounded⟩ := h.models.rounded hn hAnn hS hy
    rw [Amount.val_dist]
    rw [hS] at hx ⊢
    exact hL.step hx hrounded
  -- how far the sum can be from the root is known once the first step did not overflow
  cases hfirst : invariantStep Ann n S xs S with
  | error cause =>
      rw [maxRounds, iterate, hfirst]
      exact .error (hstep S (hS ▸ hL.lt.le) cause hfirst)
  | ok D' =>
      obtain ⟨d, e, hd, hrounded⟩ := h.models.rounded hn hAnn hS hfirst
      rw [hS] at hrounded
      have hstart := h.within_sum hs hL.lt.le hrounded hd (hAnn ▸ Ann.val_lt)
      rw [← hS] at hstart
      exact iterate_onlyOverflows (fun _ x hx => hstep x hx.le) hnext
        (by decide : 237 < maxRounds) hstart

/-- **The solver for the invariant settles**, where the balances are steady: it answers, or a sum or a
product on the way is no amount. -/
theorem invariant_converges (h : Regular A.val (weis xs)) (hs : Steady A.val (weis xs)) :
    (∃ D, invariant A xs = .ok D) ∨ invariant A xs = .error .additionOverflow ∨
      invariant A xs = .error .multiplicationOverflow := by
  refine OnlyOverflows.cases ((total_onlyOverflows xs).bind fun sum hsum => ?_)
  split
  · exact .ok 0
  split
  · exact .ok _
  refine (Amount.onlyOverflows_count _).bind fun n hn => ?_
  refine (Amount.onlyOverflows_mul _ _).bind fun Ann hAnn => ?_
  rw [Amount.count, Amount.narrow_eq_ok, ← Fixed.length_weis] at hn
  rw [Amount.mul_eq_ok, hn] at hAnn
  exact h.iterate_settles hs hn hAnn (total_ok hsum) _

/-- A millionth of the second balance, and that balance, at the least amplification. -/
theorem invariant_converges_millionth :
    let xs : List Fixed := [⟨1000000000000000000⟩, ⟨1000000000000000000000000⟩]
    Regular precision.val (weis xs) ∧ Steady precision.val (weis xs) ∧
      ((∃ D, invariant precision xs = .ok D) ∨
        invariant precision xs = .error .additionOverflow ∨
        invariant precision xs = .error .multiplicationOverflow) := by
  intro xs
  have h : Regular precision.val (weis xs) :=
    ⟨le_rfl, by decide, by decide, by decide, by decide⟩
  have hs : Steady precision.val (weis xs) := .ascending (by decide)
  exact ⟨h, hs, invariant_converges h hs⟩

/-- The same balances in the other order. -/
theorem invariant_circles :
    invariant precision [⟨1000000000000000000000000⟩, ⟨1000000000000000000⟩] =
      .error .invariantDidNotConverge := by
  decide +kernel

end Solver

end StableSwap.Curve
