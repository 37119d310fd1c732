import Mathlib
import StableSwap.Proofs.Curve.Iteration
import StableSwap.Proofs.Curve.Newton
import StableSwap.Proofs.Curve.Truncation

/-!
# The invariant is not too small

A step of the solver lands above every number that is not above the root, from anywhere and for any
number of balances (`le_invariantStep`): the floors of the product term and of the divisor only push it
up. So below the answer there is nothing to lose but the floor of the amplified sum and the unit between
the root and the next number (`invariant_atMost_add_two`). The answer is zero for lack of a balance
only (`invariant_lowerBound`).
-/

namespace StableSwap.Curve
open Fixed (weis)

/-! ### The exact equation, divided -/

/-- The exact invariant of positive balances is not above `D` where `D` makes the left side of the
equation cover the amplified sum. -/
theorem Polynomial.atMost_iff_div {A D : ℕ} {xs : List ℕ} (hne : xs ≠ []) (hpos : ∀ x ∈ xs, 0 < x)
    (hA : precision.val ≤ A * xs.length) :
    AtMost A xs D ↔ ((A * xs.length * xs.sum : ℕ) : ℚ) / precision.val ≤
      (D : ℚ) ^ (xs.length + 1) / (xs.length ^ xs.length * xs.prod) +
        (A * xs.length - precision.val : ℕ) / precision.val * D := by
  have hprecision : (0 : ℚ) < precision.val := by exact_mod_cast precision_pos
  have hscale : (0 : ℚ) < xs.length ^ xs.length * xs.prod := by exact_mod_cast factor_pos hne hpos
  rw [AtMost, amplifiedSide, invariantSide, ← Nat.cast_le (α := ℚ), Nat.cast_sub hA]
  simp only [Nat.cast_add, Nat.cast_mul, Nat.cast_pow]
  generalize (xs.length ^ xs.length * xs.prod : ℚ) = scale at hscale ⊢
  rw [← mul_le_mul_iff_of_pos_right (mul_pos hprecision hscale)]
  field_simp
  constructor
  · intro h
    linarith
  · intro h
    linarith

/-! ### The solver -/

section Solver

variable {A D : Amount} {xs : List Fixed}

/-- **A step of the solver lands above every number that is not above the root**, from anywhere. -/
theorem le_invariantStep {Ann n S x x' : Amount} {L : ℕ} (hn : n.val = xs.length) (hne : xs ≠ [])
    (hpos : ∀ y ∈ xs, 0 < y.wei.val) (h : invariantStep Ann n S xs x = .ok x')
    (hL : (L : ℚ) ^ (xs.length + 1) / (xs.length ^ xs.length * (weis xs).prod) +
      (Ann.val - precision.val : ℕ) / precision.val * L ≤ (Ann.val * S.val / precision.val : ℕ)) :
    L ≤ x'.val := by
  obtain ⟨term, hterm, -, hdivisor, hx'⟩ := invariantStep_ok h
  have hexact := productTerm_ok hterm
  rw [hn] at hexact hdivisor hx'
  have hscale : (0 : ℚ) < xs.length ^ xs.length * (weis xs).prod := by
    have hfactor := Polynomial.factor_pos (List.map_eq_nil_iff.not.mpr hne)
      (List.forall_mem_map.mpr hpos)
    rw [List.length_map] at hfactor
    exact_mod_cast hfactor
  have hterm_le : (term.val : ℚ) ≤
      (x.val : ℚ) ^ (xs.length + 1) / (xs.length ^ xs.length * (weis xs).prod) := by
    rw [le_div_iff₀ hscale]
    exact_mod_cast hexact
  have hweight_le : (((Ann.val - precision.val) * x.val / precision.val : ℕ) : ℚ) ≤
      (Ann.val - precision.val : ℕ) / precision.val * x.val := by
    refine Nat.cast_div_le.trans_eq ?_
    rw [Nat.cast_mul, mul_div_right_comm]
  rw [hx', Nat.le_div_iff_mul_le hdivisor]
  exact_mod_cast mul_divisor_le hscale (Nat.cast_nonneg L) (Nat.cast_nonneg x.val)
    (Nat.cast_nonneg term.val) hterm_le hweight_le hL

/-- **Two units more than the invariant are not below the exact one.** -/
theorem invariant_atMost_add_two (hA : precision.val ≤ A.val) (htwo : 2 ≤ xs.length)
    (hpos : ∀ x ∈ xs, 0 < x.wei.val) (h : invariant A xs = .ok D) :
    Polynomial.AtMost A.val (weis xs) (D.val + 2) := by
  have hne : xs ≠ [] := List.ne_nil_of_length_pos (by omega)
  have hne' : weis xs ≠ [] := List.map_eq_nil_iff.not.mpr hne
  obtain ⟨hone, -⟩ | ⟨-, n, Ann, S, hn, hAnn, hS, h⟩ := invariant_ok hne hpos h
  · omega
  obtain ⟨x, -, hstep, -⟩ := iterate_last (P := fun _ => True) (fun _ _ _ _ => trivial) trivial h
  have hdouble : 2 * precision.val ≤ A.val * xs.length := by
    rw [Nat.mul_comm]
    exact Nat.mul_le_mul hA htwo
  by_contra hmost
  rw [Polynomial.atMost_iff_div hne' (List.forall_mem_map.mpr hpos)
    (by rw [Fixed.length_weis]; omega), Fixed.length_weis, ← hAnn, ← hS, not_le] at hmost
  have htarget := div_lt_cast_div_add_one (Ann.val * S.val) precision.val
  have hterm : ((D.val + 1 : ℕ) : ℚ) ^ (xs.length + 1) / (xs.length ^ xs.length * (weis xs).prod) ≤
      ((D.val + 2 : ℕ) : ℚ) ^ (xs.length + 1) / (xs.length ^ xs.length * (weis xs).prod) := by
    gcongr
    omega
  have hweight : (1 : ℚ) ≤ (Ann.val - precision.val : ℕ) / precision.val := by
    rw [one_le_div (by exact_mod_cast precision_pos)]
    exact_mod_cast (by omega : precision.val ≤ Ann.val - precision.val)
  -- two units below the exact one, the number in between is not above the root either, with the
  -- target rounded down; but then the last step would have landed above it
  refine absurd (le_invariantStep (L := D.val + 1) hn hne hpos hstep ?_) (Nat.not_succ_le_self _)
  push_cast at hmost htarget hterm ⊢
  linarith

/-- **The invariant is zero for lack of a balance only, and never two units too small.** For two or more
positive balances, two units more than the invariant are not below the exact one. -/
theorem invariant_lowerBound (h : invariant A xs = .ok D) :
    (D = 0 ↔ xs = [] ∨ 0 ∈ xs) ∧
    (precision.val ≤ A.val → 2 ≤ xs.length → (∀ x ∈ xs, 0 < x.wei.val) →
      1 ≤ D.val ∧ Polynomial.AtMost A.val (weis xs) (D.val + 2)) := by
  have hpos_iff := invariant_pos_iff h
  refine ⟨?_, fun hA htwo hpos => ⟨?_, invariant_atMost_add_two hA htwo hpos h⟩⟩
  · have hzero : (∀ x ∈ xs, 0 < x.wei.val) ↔ 0 ∉ xs := by
      refine ⟨fun hpos hmem => (hpos 0 hmem).ne' rfl, fun hmem x hx => Nat.pos_of_ne_zero fun h0 => ?_⟩
      obtain rfl : x = 0 := Fixed.ext (Amount.ext h0)
      exact hmem hx
    rw [Amount.eq_zero_iff, ← not_iff_not, not_or, ← hzero, ← hpos_iff, Nat.pos_iff_ne_zero]
  · exact hpos_iff.mpr ⟨List.ne_nil_of_length_pos (by omega), hpos⟩

/-- Seven balances in no order, at the least amplification. -/
theorem invariant_lowerBound_seven :
    let xs : List Fixed := [⟨3000000⟩, ⟨1000000⟩, ⟨4000000⟩, ⟨1000000⟩, ⟨5000000⟩, ⟨9000000⟩, ⟨2000000⟩]
    ∃ D, invariant precision xs = .ok D ∧ D ≠ 0 ∧ 1 ≤ D.val ∧
      Polynomial.AtMost precision.val (weis xs) (D.val + 2) := by
  intro xs
  obtain ⟨D, hD⟩ := exists_eq_ok_of_isOk
    (by decide +kernel : (invariant precision xs).isOk = true)
  obtain ⟨hzero, hclose⟩ := invariant_lowerBound hD
  obtain ⟨hpos, hmost⟩ := hclose le_rfl (by decide) (by decide)
  exact ⟨D, hD, hzero.not.mpr (by decide), hpos, hmost⟩

end Solver

end StableSwap.Curve
