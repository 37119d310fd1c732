import Mathlib
import StableSwap.Curve.Invariant

/-!
# The exact equation of the curve

With all divisions cleared, the equation of the invariant `D` of balances `x₁ … xₙ` at an
amplification `A` is one between natural numbers: both of its sides are multiplied by
`precision · nⁿ · x₁ ⋯ xₙ`. For positive balances the one side overtakes the other exactly at the
invariant, so comparing the sides says on which side of it a number lies.

* `AtLeast A xs D`: the exact invariant is not below `D`.
* `AtMost A xs D`: the exact invariant is not above `D`.

Dividing out `nⁿ · x₁ ⋯ xₙ`, the exact invariant is not below `D` when what the sum of the balances
and the amplification leave above `A·n·D` covers `Dⁿ⁺¹`. Both factors grow with every balance, so
balances that are larger one by one have no smaller invariant (`AtLeast.mono`), and a larger one if
one of them is larger (`AtLeast.not_atMost_of_lt`). Balances with a positive invariant are positive
themselves (`AtLeast.pos`).
-/

namespace StableSwap.Curve

theorem val_precision : precision.val = 1000 := rfl

theorem precision_pos : 0 < precision.val := by decide

end StableSwap.Curve

namespace StableSwap.Curve.Polynomial

/-- The side that is larger below the invariant: `(A·n·(x₁ + … + xₙ) + D) · nⁿ · x₁ ⋯ xₙ`. -/
def amplifiedSide (A : ℕ) (xs : List ℕ) (D : ℕ) : ℕ :=
  (A * xs.length * xs.sum + precision.val * D) * (xs.length ^ xs.length * xs.prod)

/-- The side that is larger above the invariant: `Dⁿ⁺¹ + A·n·D · nⁿ · x₁ ⋯ xₙ`. -/
def invariantSide (A : ℕ) (xs : List ℕ) (D : ℕ) : ℕ :=
  precision.val * D ^ (xs.length + 1) + A * xs.length * D * (xs.length ^ xs.length * xs.prod)

/-- The exact invariant of the balances `xs` is not below `D`. -/
def AtLeast (A : ℕ) (xs : List ℕ) (D : ℕ) : Prop := invariantSide A xs D ≤ amplifiedSide A xs D

/-- The exact invariant of the balances `xs` is not above `D`. -/
def AtMost (A : ℕ) (xs : List ℕ) (D : ℕ) : Prop := amplifiedSide A xs D ≤ invariantSide A xs D

/-! ### Larger balances, larger invariant -/

theorem power_pos {D : ℕ} (hD : 0 < D) (n : ℕ) : 0 < precision.val * D ^ n :=
  Nat.mul_pos precision_pos (Nat.pow_pos hD)

theorem atLeast_zero (A : ℕ) (xs : List ℕ) : AtLeast A xs 0 := by
  unfold AtLeast invariantSide
  simp

/-- What is left above `A·n·D`, times `nⁿ · x₁ ⋯ xₙ`, covers `Dⁿ⁺¹`. -/
theorem atLeast_iff {A D : ℕ} {xs : List ℕ} (hD : 0 < D) :
    AtLeast A xs D ↔ ∃ e, A * xs.length * xs.sum + precision.val * D = A * xs.length * D + e ∧
      precision.val * D ^ (xs.length + 1) ≤ e * (xs.length ^ xs.length * xs.prod) := by
  have hpos := power_pos hD (xs.length + 1)
  unfold AtLeast invariantSide amplifiedSide
  constructor
  · intro h
    -- without an excess the left side would be positive and the right side not larger
    rcases Nat.le_total (A * xs.length * D) (A * xs.length * xs.sum + precision.val * D) with hle | hle
    · obtain ⟨e, he⟩ := Nat.exists_eq_add_of_le hle
      rw [he, Nat.add_mul, Nat.add_comm] at h
      exact ⟨e, he, Nat.le_of_add_le_add_left h⟩
    · have := Nat.mul_le_mul_right (xs.length ^ xs.length * xs.prod) hle
      omega
  · rintro ⟨e, he, h⟩
    rw [he, Nat.add_mul, Nat.add_comm]
    exact Nat.add_le_add_left h _

/-- **Balances that are larger one by one have no smaller invariant.** -/
theorem AtLeast.mono {A D : ℕ} {xs ys : List ℕ} (h : AtLeast A xs D)
    (hle : List.Forall₂ (· ≤ ·) xs ys) : AtLeast A ys D := by
  rcases Nat.eq_zero_or_pos D with rfl | hD
  · exact atLeast_zero A ys
  obtain ⟨e, he, hprod⟩ := (atLeast_iff hD).mp h
  have hlen : xs.length = ys.length := hle.length_eq
  have hsum : xs.sum ≤ ys.sum := hle.sum_le_sum
  have hprod' : xs.prod ≤ ys.prod := hle.prod_le_prod'
  have hgrow : A * xs.length * xs.sum ≤ A * xs.length * ys.sum := Nat.mul_le_mul_left _ hsum
  refine (atLeast_iff hD).mpr ⟨e + (A * xs.length * ys.sum - A * xs.length * xs.sum), ?_, ?_⟩
  · rw [← hlen]
    omega
  · rw [← hlen]
    calc precision.val * D ^ (xs.length + 1) ≤ e * (xs.length ^ xs.length * xs.prod) := hprod
      _ ≤ _ := Nat.mul_le_mul (Nat.le_add_right _ _) (Nat.mul_le_mul_left _ hprod')

/-- Balances compared by their indices. -/
theorem forall₂_le_of_getD {xs ys : List ℕ} (hlen : xs.length = ys.length)
    (hle : ∀ i, xs.getD i 0 ≤ ys.getD i 0) : List.Forall₂ (· ≤ ·) xs ys := by
  refine List.forall₂_iff_get.mpr ⟨hlen, fun i hx hy => ?_⟩
  have := hle i
  rwa [List.getD_eq_getElem _ _ hx, List.getD_eq_getElem _ _ hy] at this

/-- `AtLeast.mono`, for balances compared by their indices. -/
theorem AtLeast.mono_getD {A D : ℕ} {xs ys : List ℕ} (h : AtLeast A xs D)
    (hlen : xs.length = ys.length) (hle : ∀ i, xs.getD i 0 ≤ ys.getD i 0) : AtLeast A ys D :=
  h.mono (forall₂_le_of_getD hlen hle)

/-- Balances with a positive invariant are positive. -/
theorem AtLeast.pos {A D : ℕ} {xs : List ℕ} (h : AtLeast A xs D) (hD : 0 < D) :
    ∀ x ∈ xs, 0 < x := by
  obtain ⟨e, -, hprod⟩ := (atLeast_iff hD).mp h
  intro x hx
  rw [Nat.pos_iff_ne_zero]
  rintro rfl
  rw [List.prod_eq_zero hx] at hprod
  simp only [Nat.mul_zero, Nat.le_zero_eq] at hprod
  exact (power_pos hD _).ne' hprod

theorem sum_lt_sum_of_getD_lt {xs ys : List ℕ} (hle : List.Forall₂ (· ≤ ·) xs ys) {j : ℕ}
    (hj : xs.getD j 0 < ys.getD j 0) : xs.sum < ys.sum := by
  induction hle generalizing j with
  | nil => exact absurd hj (lt_irrefl _)
  | @cons x y xs ys hxy hrest ih =>
      rw [List.sum_cons, List.sum_cons]
      cases j with
      | zero => exact Nat.add_lt_add_of_lt_of_le hj hrest.sum_le_sum
      | succ j => exact Nat.add_lt_add_of_le_of_lt hxy (ih hj)

theorem factor_pos {xs : List ℕ} (hne : xs ≠ []) (hpos : ∀ x ∈ xs, 0 < x) :
    0 < xs.length ^ xs.length * xs.prod :=
  Nat.mul_pos (Nat.pow_pos (List.length_pos_iff.mpr hne)) (List.prod_pos hpos)

/-- Zero is below the invariant of positive balances. -/
theorem not_atMost_zero {A : ℕ} {xs : List ℕ} (hA : 0 < A) (hne : xs ≠ [])
    (hpos : ∀ x ∈ xs, 0 < x) : ¬ AtMost A xs 0 := by
  have hsum : 0 < xs.sum := by
    obtain ⟨x, hx⟩ := List.exists_mem_of_ne_nil xs hne
    exact (hpos x hx).trans_le (List.le_sum_of_mem hx)
  have hleft : 0 < A * xs.length * xs.sum * (xs.length ^ xs.length * xs.prod) :=
    Nat.mul_pos (Nat.mul_pos (Nat.mul_pos hA (List.length_pos_iff.mpr hne)) hsum)
      (factor_pos hne hpos)
  unfold AtMost invariantSide amplifiedSide
  simp only [Nat.mul_zero, Nat.add_zero, Nat.zero_mul, Nat.zero_pow (Nat.succ_pos _)]
  omega

/-- **Balances that are larger one by one, and not all the same, have a larger invariant.** -/
theorem AtLeast.not_atMost_of_lt {A D : ℕ} {xs ys : List ℕ} (h : AtLeast A xs D) (hA : 0 < A)
    (hle : List.Forall₂ (· ≤ ·) xs ys) (hlt : xs.sum < ys.sum) (hpos : ∀ y ∈ ys, 0 < y) :
    ¬ AtMost A ys D := by
  have hne : ys ≠ [] := by
    rintro rfl
    exact Nat.not_lt_zero _ hlt
  rcases Nat.eq_zero_or_pos D with rfl | hD
  · exact not_atMost_zero hA hne hpos
  obtain ⟨e, he, hprod⟩ := (atLeast_iff hD).mp h
  have hlen : xs.length = ys.length := hle.length_eq
  rw [hlen] at he hprod
  have hgrow : A * ys.length * xs.sum < A * ys.length * ys.sum :=
    Nat.mul_lt_mul_of_pos_left hlt (Nat.mul_pos hA (List.length_pos_iff.mpr hne))
  have hexcess : A * ys.length * D + e < A * ys.length * ys.sum + precision.val * D := by omega
  unfold AtMost invariantSide amplifiedSide
  rw [Nat.not_le]
  calc precision.val * D ^ (ys.length + 1) + A * ys.length * D * (ys.length ^ ys.length * ys.prod)
      ≤ e * (ys.length ^ ys.length * xs.prod) +
          A * ys.length * D * (ys.length ^ ys.length * ys.prod) := Nat.add_le_add_right hprod _
    _ ≤ e * (ys.length ^ ys.length * ys.prod) +
          A * ys.length * D * (ys.length ^ ys.length * ys.prod) :=
        Nat.add_le_add_right (Nat.mul_le_mul_left _ (Nat.mul_le_mul_left _ hle.prod_le_prod')) _
    _ = (A * ys.length * D + e) * (ys.length ^ ys.length * ys.prod) := by ring
    _ < _ := Nat.mul_lt_mul_of_pos_right hexcess (factor_pos hne hpos)

/-- `AtLeast.not_atMost_of_lt`, for balances compared by their indices. -/
theorem AtLeast.not_atMost_of_getD_lt {A D : ℕ} {xs ys : List ℕ} {j : ℕ} (h : AtLeast A xs D)
    (hA : 0 < A) (hlen : xs.length = ys.length) (hle : ∀ i, xs.getD i 0 ≤ ys.getD i 0)
    (hlt : xs.getD j 0 < ys.getD j 0) (hpos : ∀ y ∈ ys, 0 < y) : ¬ AtMost A ys D :=
  have hall := forall₂_le_of_getD hlen hle
  h.not_atMost_of_lt hA hall (sum_lt_sum_of_getD_lt hall hlt) hpos

end StableSwap.Curve.Polynomial
