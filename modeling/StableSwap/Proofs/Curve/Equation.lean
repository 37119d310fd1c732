import Mathlib
import StableSwap.Proofs.Curve.Newton
import StableSwap.Proofs.Curve.Truncation

/-!
# The equation of a list of balances

The rounded equation of an amplification and balances (`Equation.Models`) has the amplified sum of the
balances as its target, rounded down. A step of the solver is a rounded step of it
(`Equation.Models.rounded`), and it says on which side of the exact invariant a number lies
(`Equation.Models.atLeast_iff`, `Equation.Models.atMost_iff`).
-/

namespace StableSwap.Curve
open Fixed (weis)

/-- The product of numbers is not above a power of their mean. -/
theorem prod_le_mean_pow : ∀ xs : List ℕ, (xs.prod : ℚ) ≤ (xs.sum / xs.length) ^ xs.length
  | [] => by simp
  | x :: rest => by
      have ih := prod_le_mean_pow rest
      have hmean : (0 : ℚ) ≤ rest.sum / rest.length := by positivity
      have hlength : (rest.length + 1 : ℚ) ≠ 0 := by positivity
      have htangent := pow_tangent
        (show 0 ≤ (x + rest.sum : ℚ) / (rest.length + 1) by positivity) hmean rest.length
      have hsum : (rest.length : ℚ) * (rest.sum / rest.length) = rest.sum := by
        cases rest with
        | nil => simp
        | cons _ _ => exact mul_div_cancel₀ _ (Nat.cast_ne_zero.mpr (Nat.succ_ne_zero _))
      rw [mul_div_cancel₀ _ hlength, hsum, add_sub_cancel_right] at htangent
      rw [List.prod_cons, List.sum_cons, List.length_cons, Nat.cast_mul, Nat.cast_add,
        Nat.cast_succ]
      calc (x : ℚ) * rest.prod ≤ x * (rest.sum / rest.length) ^ rest.length :=
            mul_le_mul_of_nonneg_left ih (Nat.cast_nonneg x)
        _ ≤ _ := htangent

namespace Equation

/-- The equation of the amplification `A` and the balances `xs`. -/
structure Models (E : Equation) (A : ℕ) (xs : List ℕ) : Prop where
  n_eq : E.n = xs.length
  scale_eq : E.scale = xs.length ^ xs.length * xs.prod
  weight_mul : E.weight * precision.val = (A * xs.length - precision.val : ℕ)
  target_eq : E.target = A * xs.length * xs.sum / precision.val

theorem length_sub_one_le {A : ℕ} (hA : precision.val ≤ A) (n : ℕ) :
    (n : ℚ) - 1 ≤ (A * n - precision.val : ℕ) / precision.val := by
  have hprecision : (0 : ℚ) < precision.val := by exact_mod_cast precision_pos
  rw [le_div_iff₀ hprecision, sub_mul, one_mul, sub_le_iff_le_add]
  have : n * precision.val ≤ A * n := by
    rw [Nat.mul_comm]
    exact Nat.mul_le_mul_right n hA
  exact_mod_cast (by omega : n * precision.val ≤ A * n - precision.val + precision.val)

/-- Two to five positive balances and an amplification of at least one have an equation. -/
theorem exists_models {A : ℕ} {xs : List ℕ} (hA : precision.val ≤ A) (htwo : 2 ≤ xs.length)
    (hfive : xs.length ≤ 5) (hpos : ∀ x ∈ xs, 0 < x) : ∃ E : Equation, E.Models A xs := by
  have hprecision : (precision.val : ℚ) ≠ 0 := by exact_mod_cast precision_pos.ne'
  have hprod := List.prod_pos hpos
  exact ⟨{
    n := xs.length
    scale := xs.length ^ xs.length * xs.prod
    weight := (A * xs.length - precision.val : ℕ) / precision.val
    target := A * xs.length * xs.sum / precision.val
    two_le := htwo
    le_five := hfive
    scale_pos := by positivity
    le_weight := length_sub_one_le hA xs.length },
    rfl, rfl, div_mul_cancel₀ _ hprecision, rfl⟩

namespace Models

variable {E : Equation} {A : ℕ} {xs : List ℕ}

theorem scale_pos (h : E.Models A xs) : (0 : ℚ) < xs.length ^ xs.length * xs.prod :=
  h.scale_eq ▸ E.scale_pos

theorem weight_add_one_mul (h : E.Models A xs) :
    (E.weight + 1) * precision.val = A * xs.length := by
  have hprecision : (0 : ℚ) < precision.val := by exact_mod_cast precision_pos
  have hpos := mul_pos E.weight_pos hprecision
  rw [h.weight_mul, Nat.cast_pos] at hpos
  rw [add_mul, one_mul, h.weight_mul, Nat.cast_sub (by omega)]
  push_cast
  ring

/-- The target is the amplified sum, rounded down. -/
theorem target_bounds (h : E.Models A xs) :
    (E.target : ℚ) ≤ (E.weight + 1) * xs.sum ∧ (E.weight + 1) * xs.sum < E.target + 1 := by
  have hprecision : (0 : ℚ) < precision.val := by exact_mod_cast precision_pos
  have hfloor : E.target * precision.val ≤ A * xs.length * xs.sum := by
    rw [h.target_eq]
    exact Nat.div_mul_le_self _ _
  have hlt : A * xs.length * xs.sum < (E.target + 1) * precision.val := by
    rw [h.target_eq, Nat.mul_comm _ precision.val]
    exact Nat.lt_mul_div_succ _ precision_pos
  have hsum : (E.weight + 1) * xs.sum * precision.val = A * xs.length * xs.sum := by
    rw [mul_right_comm, h.weight_add_one_mul]
  constructor
  · refine le_of_mul_le_mul_right ?_ hprecision
    rw [hsum]
    exact_mod_cast hfloor
  · refine lt_of_mul_lt_mul_right ?_ hprecision.le
    rw [hsum]
    exact_mod_cast hlt

theorem term_eq_div (h : E.Models A xs) (D : ℚ) :
    E.term D = D ^ (xs.length + 1) / (xs.length ^ xs.length * xs.prod) := by
  rw [term, h.n_eq, h.scale_eq]

theorem term_eq (h : E.Models A xs) (D : ℚ) :
    E.term D = D * factorProduct xs.length D xs := by
  rw [h.term_eq_div, factorProduct_eq, ← mul_div_assoc, ← pow_succ']

theorem term_le_iff (h : E.Models A xs) {D B : ℚ} :
    E.term D ≤ B ↔ D ^ (xs.length + 1) ≤ B * (xs.length ^ xs.length * xs.prod) := by
  rw [h.term_eq_div, div_le_iff₀ h.scale_pos]

theorem le_term_iff (h : E.Models A xs) {D B : ℚ} :
    B ≤ E.term D ↔ B * (xs.length ^ xs.length * xs.prod) ≤ D ^ (xs.length + 1) := by
  rw [h.term_eq_div, le_div_iff₀ h.scale_pos]

/-- The sum of the balances is not below the invariant. -/
theorem sum_le_term (h : E.Models A xs) : (xs.sum : ℚ) ≤ E.term xs.sum := by
  have hn : (xs.length : ℚ) ≠ 0 := by
    have := E.two_le
    rw [h.n_eq] at this
    exact_mod_cast (by omega : xs.length ≠ 0)
  have hscale : (xs.length ^ xs.length * xs.prod : ℚ) ≤ xs.sum ^ xs.length := by
    calc (xs.length ^ xs.length * xs.prod : ℚ)
        ≤ xs.length ^ xs.length * (xs.sum / xs.length) ^ xs.length :=
          mul_le_mul_of_nonneg_left (prod_le_mean_pow xs) (by positivity)
      _ = xs.sum ^ xs.length := by rw [← mul_pow, mul_div_cancel₀ _ hn]
  rw [h.term_eq, factorProduct_eq]
  exact le_mul_of_one_le_right (Nat.cast_nonneg _) ((one_le_div h.scale_pos).mpr hscale)

/-! ### The exact equation -/

theorem cast_invariantSide (h : E.Models A xs) (D : ℕ) :
    (Polynomial.invariantSide A xs D : ℚ) = (E.term D + (E.weight + 1) * D) *
      (precision.val * (xs.length ^ xs.length * xs.prod)) := by
  have hterm : E.term D * (xs.length ^ xs.length * xs.prod) = (D : ℚ) ^ (xs.length + 1) := by
    rw [h.term_eq_div, div_mul_cancel₀ _ h.scale_pos.ne']
  rw [Polynomial.invariantSide]
  simp only [Nat.cast_add, Nat.cast_mul, Nat.cast_pow]
  rw [← h.weight_add_one_mul, ← hterm]
  ring

theorem cast_amplifiedSide (h : E.Models A xs) (D : ℕ) :
    (Polynomial.amplifiedSide A xs D : ℚ) = ((E.weight + 1) * xs.sum + D) *
      (precision.val * (xs.length ^ xs.length * xs.prod)) := by
  rw [Polynomial.amplifiedSide]
  simp only [Nat.cast_add, Nat.cast_mul, Nat.cast_pow]
  rw [← h.weight_add_one_mul]
  ring

theorem precision_mul_scale_pos (h : E.Models A xs) :
    (0 : ℚ) < precision.val * (xs.length ^ xs.length * xs.prod) :=
  mul_pos (by exact_mod_cast precision_pos) h.scale_pos

/-- **The exact invariant is not below `D` where the left side does not exceed the amplified sum.** -/
theorem atLeast_iff (h : E.Models A xs) (D : ℕ) :
    Polynomial.AtLeast A xs D ↔ E.term D + E.weight * D ≤ (E.weight + 1) * xs.sum := by
  rw [Polynomial.AtLeast, ← Nat.cast_le (α := ℚ), h.cast_invariantSide, h.cast_amplifiedSide,
    mul_le_mul_iff_of_pos_right h.precision_mul_scale_pos, add_mul E.weight, one_mul, ← add_assoc,
    add_le_add_iff_right]

theorem atMost_iff (h : E.Models A xs) (D : ℕ) :
    Polynomial.AtMost A xs D ↔ (E.weight + 1) * xs.sum ≤ E.term D + E.weight * D := by
  rw [Polynomial.AtMost, ← Nat.cast_le (α := ℚ), h.cast_invariantSide, h.cast_amplifiedSide,
    mul_le_mul_iff_of_pos_right h.precision_mul_scale_pos, add_mul E.weight _ (D : ℚ), one_mul,
    ← add_assoc, add_le_add_iff_right]

/-! ### Steps -/

/-- A step of the solver is a rounded step of the equation. -/
theorem rounded {A Ann n S D D' : Amount} {xs : List Fixed} (h : E.Models A.val (weis xs))
    (hn : n.val = (weis xs).length) (hAnn : Ann.val = A.val * (weis xs).length)
    (hS : S.val = (weis xs).sum) (hstep : invariantStep Ann n S xs D = .ok D') :
    ∃ d e, ((weis xs).length + 1) * d < Amount.bound ∧
      E.Rounded D.val (flooringLoss (weis xs).length D.val (weis xs)) d e D'.val := by
  have hprecision : (precision.val : ℚ) ≠ 0 := by exact_mod_cast precision_pos.ne'
  obtain ⟨term, hterm, hbound, hdivisor, hD'⟩ := invariantStep_ok hstep
  have hexact := productTerm_ok hterm
  have hloss := productTerm_add_loss hterm
  rw [hn] at hexact hloss hbound hdivisor hD'
  rw [hAnn] at hdivisor hD'
  rw [hS] at hD'
  have hweight : E.weight * D.val =
      ((A.val * (weis xs).length - precision.val : ℕ) * D.val : ℕ) / precision.val := by
    rw [Nat.cast_mul, ← h.weight_mul, mul_right_comm, mul_div_cancel_right₀ _ hprecision]
  refine ⟨term.val, (A.val * (weis xs).length - precision.val) * D.val / precision.val, hbound,
    ?_, ?_, ?_, ?_, ?_, ?_⟩
  · rw [h.le_term_iff, Fixed.length_weis]
    rw [Fixed.length_weis] at hexact
    exact_mod_cast hexact
  · rwa [h.term_eq]
  · rw [hweight]
    exact Nat.cast_div_le
  · rw [hweight]
    exact div_lt_cast_div_add_one _ _
  · rwa [h.n_eq]
  · rwa [h.n_eq, h.target_eq]

end Models

end Equation

end StableSwap.Curve
