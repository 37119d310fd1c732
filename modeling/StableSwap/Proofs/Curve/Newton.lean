import Mathlib

/-!
# Rounded steps of Newton's method

The equation of the invariant in rational numbers is `Dⁿ⁺¹ / K + c · D = a`. Its left side is convex,
so a step of Newton's method lands on or above the root from anywhere, and below the start from above
the root. The steps of the pool are rounded: the term `Dⁿ⁺¹ / K` may lose some units on its way, and
the other divisions less than one each (`Rounded`).

* `Rounded.le_next`: whatever is lost, a step lands above every number that is not above the root.
* `Rounded.next_le`, `Rounded.next_le_succ`: where the equation is steep for what is lost, a step from
  above the root does not go up, and one from just below it goes up by one at most.
* `Rounded.excess_next_le`: far above the root a step leaves two fifths of the excess at most.
* `sub_lt_of_excess_lt`: a small excess means a small distance.
-/

namespace StableSwap.Curve

/-! ### Powers -/

/-- The tangent of a power lies below it. -/
theorem pow_tangent {x y : ℚ} (hx : 0 ≤ x) (hy : 0 ≤ y) (n : ℕ) :
    ((n + 1) * x - n * y) * y ^ n ≤ x ^ (n + 1) := by
  rcases hy.eq_or_lt with rfl | hy
  · rcases Nat.eq_zero_or_pos n with rfl | hn
    · simp
    · rw [zero_pow hn.ne', mul_zero]
      exact pow_nonneg hx _
  · have hbernoulli := one_add_mul_sub_le_pow (show (-1 : ℚ) ≤ x / y by
      have := div_nonneg hx hy.le
      linarith) (n + 1)
    rw [div_pow, le_div_iff₀ (pow_pos hy _)] at hbernoulli
    calc ((n + 1) * x - n * y) * y ^ n
        = (1 + ((n + 1 : ℕ) : ℚ) * (x / y - 1)) * y ^ (n + 1) := by
          push_cast
          field_simp
          ring
      _ ≤ x ^ (n + 1) := hbernoulli

/-- Powers of `1 - s` lie below a chord, as long as `s` is no more than one over the exponent. -/
theorem one_sub_pow_le {m : ℕ} (h3 : 3 ≤ m) (h6 : m ≤ 6) {s : ℚ} (hs : 0 ≤ s) (hms : m * s ≤ 1) :
    (1 - s) ^ m ≤ 1 - 33 / 50 * (m * s) := by
  have hm : (0 : ℚ) < m := by exact_mod_cast (by omega : 0 < m)
  have hend : (1 - 1 / (m : ℚ)) ^ m ≤ 17 / 50 := by
    interval_cases m <;> norm_num
  have hend_nonneg : (0 : ℚ) ≤ 1 - 1 / m := by
    rw [sub_nonneg, div_le_one hm]
    exact_mod_cast (by omega : 1 ≤ m)
  have hconvex : ConvexOn ℚ (Set.Ici (0 : ℚ)) fun x => x ^ m := convexOn_pow m
  have hchord := hconvex.2 (Set.mem_Ici.mpr zero_le_one)
    (Set.mem_Ici.mpr hend_nonneg) (sub_nonneg.mpr hms) (mul_nonneg hm.le hs) (by ring)
  simp only [smul_eq_mul, one_pow, mul_one] at hchord
  have hpoint : (1 - m * s) + m * s * (1 - 1 / m) = 1 - s := by
    field_simp
    ring
  rw [hpoint] at hchord
  have := mul_le_mul_of_nonneg_left hend (mul_nonneg hm.le hs)
  linarith

/-! ### A step -/

/-- The quotient of a step of Newton's method for `xⁿ⁺¹ / scale + weight · x = target` is not below any
number `L` that is not above the root, whatever its term `d` and its weighted value `e` have lost. -/
theorem mul_divisor_le {n : ℕ} {scale weight target L x d e : ℚ} (hscale : 0 < scale) (hL0 : 0 ≤ L)
    (hx0 : 0 ≤ x) (hd0 : 0 ≤ d) (hd : d ≤ x ^ (n + 1) / scale) (he : e ≤ weight * x)
    (hL : L ^ (n + 1) / scale + weight * L ≤ target) :
    L * (e + (n + 1) * d) ≤ (target + n * d) * x := by
  have hlinear : L * e ≤ L * (weight * x) := mul_le_mul_of_nonneg_left he hL0
  have htarget := mul_le_mul_of_nonneg_right hL hx0
  -- less than the tangent has it, where the term was rounded down
  have htangent : ((n + 1) * L - n * x) * d ≤ L ^ (n + 1) / scale * x := by
    rcases le_total (0 : ℚ) ((n + 1) * L - n * x) with hpos | hneg
    · calc ((n + 1) * L - n * x) * d
          ≤ ((n + 1) * L - n * x) * (x ^ (n + 1) / scale) := mul_le_mul_of_nonneg_left hd hpos
        _ = ((n + 1) * L - n * x) * x ^ n * (x / scale) := by ring
        _ ≤ L ^ (n + 1) * (x / scale) :=
            mul_le_mul_of_nonneg_right (pow_tangent hL0 hx0 n) (div_nonneg hx0 hscale.le)
        _ = L ^ (n + 1) / scale * x := by ring
    · exact (mul_nonpos_of_nonpos_of_nonneg hneg hd0).trans
        (mul_nonneg (div_nonneg (pow_nonneg hL0 _) hscale.le) hx0)
  linarith

/-! ### The equation -/

/-- The equation `Dⁿ⁺¹ / scale + weight · D = target` of an invariant `D`, for two to five tokens. -/
structure Equation where
  /-- The number of tokens. -/
  n : ℕ
  /-- `nⁿ` times the product of the balances. -/
  scale : ℚ
  /-- The amplification, less one. -/
  weight : ℚ
  /-- The amplified sum of the balances, rounded down. -/
  target : ℕ
  two_le : 2 ≤ n
  le_five : n ≤ 5
  scale_pos : 0 < scale
  le_weight : (n : ℚ) - 1 ≤ weight

namespace Equation

variable (E : Equation)

/-- `Dⁿ⁺¹ / scale`. -/
def term (D : ℚ) : ℚ := D ^ (E.n + 1) / E.scale

/-- How much the left side exceeds the target. -/
def excess (D : ℚ) : ℚ := E.term D + E.weight * D - E.target

/-- `D` times the derivative of the left side. -/
def slope (D : ℚ) : ℚ := E.weight * D + (E.n + 1) * E.term D

theorem weight_pos : 0 < E.weight := by
  have : (2 : ℚ) ≤ E.n := by exact_mod_cast E.two_le
  linarith [E.le_weight]

theorem weight_add_one_mul_le {x y : ℚ} (hxy : x ≤ y) :
    (E.weight + 1) * x ≤ (E.weight + 1) * y :=
  mul_le_mul_of_nonneg_left hxy (by linarith [E.weight_pos])

theorem term_nonneg {D : ℚ} (hD : 0 ≤ D) : 0 ≤ E.term D :=
  div_nonneg (pow_nonneg hD _) E.scale_pos.le

theorem term_mono {x y : ℚ} (hx : 0 ≤ x) (hxy : x ≤ y) : E.term x ≤ E.term y :=
  div_le_div_of_nonneg_right (pow_le_pow_left₀ hx hxy _) E.scale_pos.le

theorem term_mul_le {x y : ℚ} (hx : 0 ≤ x) (hxy : x ≤ y) : E.term x * y ≤ E.term y * x := by
  have := mul_le_mul_of_nonneg_left (pow_le_pow_left₀ hx hxy E.n)
    (div_nonneg (mul_nonneg hx (hx.trans hxy)) E.scale_pos.le)
  unfold term
  calc x ^ (E.n + 1) / E.scale * y = x * y / E.scale * x ^ E.n := by ring
    _ ≤ x * y / E.scale * y ^ E.n := this
    _ = y ^ (E.n + 1) / E.scale * x := by ring

theorem excess_mono {x y : ℚ} (hx : 0 ≤ x) (hxy : x ≤ y) : E.excess x ≤ E.excess y := by
  have := E.term_mono hx hxy
  have := mul_le_mul_of_nonneg_left hxy E.weight_pos.le
  unfold excess
  linarith

theorem term_mul (D s : ℚ) : E.term (D * s) = E.term D * s ^ (E.n + 1) := by
  rw [term, mul_pow, term]
  ring

theorem term_tangent {x y : ℚ} (hx : 0 ≤ x) (hy : 0 ≤ y) :
    ((E.n + 1) * x - E.n * y) * E.term y ≤ E.term x * y := by
  have := mul_le_mul_of_nonneg_right (pow_tangent hx hy E.n) (div_nonneg hy E.scale_pos.le)
  unfold term
  calc ((E.n + 1) * x - E.n * y) * (y ^ (E.n + 1) / E.scale)
      = ((E.n + 1) * x - E.n * y) * y ^ E.n * (y / E.scale) := by ring
    _ ≤ x ^ (E.n + 1) * (y / E.scale) := this
    _ = x ^ (E.n + 1) / E.scale * y := by ring

/-- A fraction off the value takes two thirds, or about, of what the slope promises off the excess. -/
theorem excess_mul_le {D s : ℚ} (hD : 0 ≤ D) (hs : 0 ≤ s) (hchord : (E.n + 1) * s ≤ 1) :
    E.excess (D * (1 - s)) ≤ E.excess D - 33 / 50 * (s * E.slope D) := by
  have hpow := one_sub_pow_le (show 3 ≤ E.n + 1 by have := E.two_le; omega)
    (show E.n + 1 ≤ 6 by have := E.le_five; omega) hs (by push_cast; exact hchord)
  push_cast at hpow
  have hterm := mul_le_mul_of_nonneg_left hpow (E.term_nonneg hD)
  have hweight := mul_nonneg (mul_nonneg E.weight_pos.le hD) hs
  calc E.excess (D * (1 - s))
      = E.term D * (1 - s) ^ (E.n + 1) + E.weight * (D * (1 - s)) - E.target := by
        rw [excess, term_mul]
    _ ≤ E.term D * (1 - 33 / 50 * ((E.n + 1) * s)) + E.weight * (D * (1 - s)) - E.target := by
        linarith
    _ = E.excess D - 33 / 50 * (s * E.slope D) - 17 / 50 * (E.weight * D * s) := by
        unfold excess slope
        ring
    _ ≤ E.excess D - 33 / 50 * (s * E.slope D) := by linarith

/-- Where the equation is steep just above `D`, neither the growth of the term up to there nor what is
lost fills the divisor of a step. -/
theorem growth_add_le {D loss : ℚ} (hD : 0 ≤ D) (hlarge : 22 * (E.n + 1) ≤ D + 1)
    (hsteep : (1 + loss) * (D + 1) ≤ 5 / 6 * E.slope (D + 1)) :
    (E.term (D + 1) - E.term D) * D + (1 + loss) * (D + 2 * (E.n + 1)) ≤
      E.weight * D + 2 * (E.n + 1) * E.term D := by
  have hD1 : 0 ≤ D + 1 := by positivity
  have hn : (0 : ℚ) ≤ E.n + 1 := by positivity
  have hweight : E.weight * (D + 1) * (5 / 6 * (D + 2 * (E.n + 1))) ≤ E.weight * (D + 1) * D :=
    mul_le_mul_of_nonneg_left (by linarith) (mul_nonneg E.weight_pos.le hD1)
  have hterm : (E.n + 1) * E.term (D + 1) * (5 / 6 * (D + 2 * (E.n + 1))) ≤
      (E.n + 1) * E.term (D + 1) * (D + 2 - 2 * (E.n + 1)) :=
    mul_le_mul_of_nonneg_left (by linarith) (mul_nonneg hn (E.term_nonneg hD1))
  have hroom : (1 + loss) * (D + 1) * (D + 2 * (E.n + 1)) ≤
      E.weight * D * (D + 1) + (E.n + 1) * E.term (D + 1) * (D + 2 - 2 * (E.n + 1)) := by
    calc (1 + loss) * (D + 1) * (D + 2 * (E.n + 1))
        ≤ 5 / 6 * E.slope (D + 1) * (D + 2 * (E.n + 1)) :=
          mul_le_mul_of_nonneg_right hsteep (by positivity)
      _ = E.weight * (D + 1) * (5 / 6 * (D + 2 * (E.n + 1))) +
            (E.n + 1) * E.term (D + 1) * (5 / 6 * (D + 2 * (E.n + 1))) := by
          unfold slope
          ring
      _ ≤ E.weight * (D + 1) * D + (E.n + 1) * E.term (D + 1) * (D + 2 - 2 * (E.n + 1)) :=
          add_le_add hweight hterm
      _ = _ := by ring
  have hgrowth := mul_le_mul_of_nonneg_right (E.term_tangent hD hD1)
    (show 0 ≤ D + 2 * (E.n + 1) by positivity)
  refine le_of_mul_le_mul_right ?_ (show 0 < D + 1 by positivity)
  linarith

/-! ### Rounded steps -/

/-- A step from `D` to `D'` in natural numbers: `d` is the term `Dⁿ⁺¹ / scale` less no more than
`loss`, and `e` is `weight · D` rounded down. -/
structure Rounded (D : ℕ) (loss : ℚ) (d e D' : ℕ) : Prop where
  le_term : (d : ℚ) ≤ E.term D
  term_le : E.term D ≤ d + loss
  le_weight : (e : ℚ) ≤ E.weight * D
  weight_lt : E.weight * D < e + 1
  divisor_pos : 0 < e + (E.n + 1) * d
  next_eq : D' = (E.target + E.n * d) * D / (e + (E.n + 1) * d)

namespace Rounded

variable {E} {D d e D' L : ℕ} {loss : ℚ}

theorem loss_nonneg (h : E.Rounded D loss d e D') : 0 ≤ loss := by
  linarith [h.le_term, h.term_le]

/-- The divisor of a step is not above the slope. -/
theorem divisor_le_slope (h : E.Rounded D loss d e D') : e + (E.n + 1) * d ≤ E.slope D :=
  add_le_add h.le_weight (mul_le_mul_of_nonneg_left h.le_term (by positivity))

/-- The divisor of a step is not far below the slope. -/
theorem slope_lt (h : E.Rounded D loss d e D') :
    E.slope D < e + (E.n + 1) * d + (E.n + 1) * (1 + loss) := by
  have hn : (1 : ℚ) ≤ E.n + 1 := by linarith [(Nat.cast_nonneg E.n : (0 : ℚ) ≤ E.n)]
  have := mul_le_mul_of_nonneg_left h.term_le (zero_le_one.trans hn)
  have := h.weight_lt
  unfold slope
  linarith

theorem next_lt_iff {k : ℕ} (h : E.Rounded D loss d e D') :
    D' < k ↔ ((E.target + E.n * d) * D : ℚ) < k * (e + (E.n + 1) * d) := by
  rw [h.next_eq, Nat.div_lt_iff_lt_mul h.divisor_pos]
  exact_mod_cast Iff.rfl

theorem le_next_iff {k : ℕ} (h : E.Rounded D loss d e D') :
    k ≤ D' ↔ (k * (e + (E.n + 1) * d) : ℚ) ≤ (E.target + E.n * d) * D := by
  rw [h.next_eq, Nat.le_div_iff_mul_le h.divisor_pos]
  exact_mod_cast Iff.rfl

/-- **A step lands above every number that is not above the root**, from anywhere. -/
theorem le_next (h : E.Rounded D loss d e D') (hL : E.excess L ≤ 0) : L ≤ D' := by
  rw [h.le_next_iff]
  refine mul_divisor_le E.scale_pos (Nat.cast_nonneg L) (Nat.cast_nonneg D) (Nat.cast_nonneg d)
    h.le_term h.le_weight ?_
  unfold excess at hL
  exact sub_nonpos.mp hL

/-- **A step from above the root does not go up**, where the equation is steep for what is lost. -/
theorem next_le (h : E.Rounded D loss d e D') (hD : 0 ≤ E.excess D)
    (hsteep : 6 * D * (1 + loss) ≤ 5 * E.slope D) (hlarge : 5 * (E.n + 1) ≤ D) : D' ≤ D := by
  rw [← Nat.lt_succ_iff, h.next_lt_iff]
  have hD0 : (0 : ℚ) ≤ D := Nat.cast_nonneg D
  have hlarge' : (5 * (E.n + 1) : ℚ) ≤ D := by exact_mod_cast hlarge
  have hloss := h.loss_nonneg
  have hover : (E.target - e - d : ℚ) * D ≤ (1 + loss) * D := by
    refine mul_le_mul_of_nonneg_right ?_ hD0
    have := h.weight_lt
    have := h.term_le
    unfold excess at hD
    linarith
  have hroom : (E.n + 1) * (1 + loss) ≤ D / 5 * (1 + loss) :=
    mul_le_mul_of_nonneg_right (by linarith) (by linarith)
  have hslope := h.slope_lt
  push_cast
  linarith

/-- **A step from just below the root goes up by one at most**, where the equation is steep above. -/
theorem next_le_succ {loss' : ℚ} (h : E.Rounded D loss d e D') (hD : 0 ≤ E.excess (D + 1))
    (hloss' : loss ≤ loss') (hsteep : 6 * (D + 1) * (1 + loss') ≤ 5 * E.slope (D + 1))
    (hlarge : 22 * (E.n + 1) ≤ D + 1) : D' ≤ D + 1 := by
  rw [← Nat.lt_succ_iff, h.next_lt_iff]
  have hD0 : (0 : ℚ) ≤ D := Nat.cast_nonneg D
  have hlarge' : (22 * (E.n + 1) : ℚ) ≤ D + 1 := by exact_mod_cast hlarge
  have hslope := h.slope_lt
  -- the step overshoots by what the left side grows from one value to the next, and what is lost
  have hover : (E.target - e - d : ℚ) * D ≤
      (E.term (D + 1) - E.term D + E.weight + (1 + loss)) * D := by
    refine mul_le_mul_of_nonneg_right ?_ hD0
    have := h.weight_lt
    have := h.term_le
    unfold excess at hD
    linarith
  have hsteep' : (1 + loss) * (D + 1) ≤ 5 / 6 * E.slope (D + 1) := by
    have := mul_le_mul_of_nonneg_right hloss' (show (0 : ℚ) ≤ D + 1 by positivity)
    linarith
  have hroom := E.growth_add_le hD0 hlarge' hsteep'
  push_cast
  unfold slope at hslope
  linarith

/-- A step takes a fraction off the value, if the slope promises no more for it than the excess less
what is lost. -/
theorem next_le_mul {s : ℚ} (h : E.Rounded D loss d e D') (hs : 0 ≤ s)
    (hslope : s * E.slope D ≤ E.excess D - (1 + loss)) : (D' : ℚ) ≤ D * (1 - s) := by
  have hdivisor : (0 : ℚ) < e + (E.n + 1) * d := by exact_mod_cast h.divisor_pos
  have hpart : E.target + E.n * d ≤ (1 - s) * (e + (E.n + 1) * d) := by
    have := mul_le_mul_of_nonneg_left h.divisor_le_slope hs
    have := h.weight_lt
    have := h.term_le
    unfold excess at hslope
    linarith
  have hquotient := h.le_next_iff.mp le_rfl
  refine le_of_mul_le_mul_right (hquotient.trans ?_) hdivisor
  calc (E.target + E.n * d) * D ≤ (1 - s) * (e + (E.n + 1) * d) * D :=
        mul_le_mul_of_nonneg_right hpart (Nat.cast_nonneg D)
    _ = D * (1 - s) * (e + (E.n + 1) * d) := by ring

/-- **Far above the root a step leaves two fifths of the excess at most.** -/
theorem excess_next_le (h : E.Rounded D loss d e D') (hfar : 16 * (1 + loss) ≤ E.excess D)
    (htarget : E.weight * D ≤ E.target) : E.excess D' ≤ 2 / 5 * E.excess D := by
  have hD0 : (0 : ℚ) ≤ D := Nat.cast_nonneg D
  have hloss := h.loss_nonneg
  have hslope_pos : 0 < E.slope D := by
    have hdivisor : (0 : ℚ) < e + (E.n + 1) * d := by exact_mod_cast h.divisor_pos
    exact hdivisor.trans_le h.divisor_le_slope
  obtain ⟨s, hs⟩ : ∃ s, s * E.slope D = E.excess D - (1 + loss) :=
    ⟨_, div_mul_cancel₀ _ hslope_pos.ne'⟩
  have hs0 : 0 ≤ s := by
    refine nonneg_of_mul_nonneg_left ?_ hslope_pos
    rw [hs]
    linarith
  have hchord : (E.n + 1) * s ≤ 1 := by
    refine le_of_mul_le_mul_right ?_ hslope_pos
    have : (E.n + 1) * (E.excess D - (1 + loss)) ≤ (E.n + 1) * E.term D := by
      refine mul_le_mul_of_nonneg_left ?_ (by positivity)
      unfold excess
      linarith
    have hweight := mul_nonneg E.weight_pos.le hD0
    rw [mul_assoc, hs]
    unfold slope
    linarith
  have hdrop := E.excess_mul_le hD0 hs0 hchord
  calc E.excess D' ≤ E.excess (D * (1 - s)) :=
        E.excess_mono (Nat.cast_nonneg D') (h.next_le_mul hs0 hs.le)
    _ ≤ E.excess D - 33 / 50 * (E.excess D - (1 + loss)) := hs ▸ hdrop
    _ ≤ 2 / 5 * E.excess D := by linarith

end Rounded

/-- **A small excess means a small distance.** -/
theorem sub_lt_of_excess_lt {x y loss : ℚ} (hx : 0 ≤ x) (hxy : x ≤ y) (hloss : 0 ≤ loss)
    (hroot : 0 ≤ E.excess x) (hsteep : 6 * y * (1 + loss) ≤ 5 * E.slope y)
    (h : E.excess y < 16 * (1 + loss)) : y - x < 80 := by
  have hn : (E.n : ℚ) ≤ 5 := by exact_mod_cast E.le_five
  rcases (hx.trans hxy).eq_or_lt with rfl | hy
  · linarith
  have hterm := E.term_nonneg hy.le
  have hweight := mul_pos E.weight_pos hy
  -- the left side grows from `x` to `y` at no less than the rate it has grown from zero
  have hgrowth : (y - x) * (E.weight * y + E.term y) ≤ E.excess y * y := by
    have := E.term_mul_le hx hxy
    have := mul_nonneg hroot hy.le
    unfold excess at this ⊢
    linarith
  have hrate : E.slope y ≤ 6 * (E.weight * y + E.term y) := by
    have := mul_le_mul_of_nonneg_right hn hterm
    unfold slope
    linarith
  have hrate' := mul_le_mul_of_nonneg_left hrate (sub_nonneg.mpr hxy)
  have hsteep' := mul_le_mul_of_nonneg_left hsteep (sub_nonneg.mpr hxy)
  have h' := mul_lt_mul_of_pos_right h hy
  refine lt_of_mul_lt_mul_right ?_ (mul_pos hy (by linarith : 0 < 1 + loss)).le
  linarith

/-! ### Descent -/

/-- What makes rounded steps go down from `S` to the root: `L` is the last number below `S` that is
not above the root, and above it the equation is steep for what is lost. -/
structure Descends (S L : ℕ) (loss : ℕ → ℚ) : Prop where
  loss_mono : Monotone loss
  lt : L < S
  below : E.excess L ≤ 0
  above : ∀ D : ℕ, L < D → D ≤ S → 0 ≤ E.excess D
  steep : ∀ D : ℕ, L < D → D ≤ S → 6 * D * (1 + loss D) ≤ 5 * E.slope D
  weight_le : E.weight * S ≤ E.target
  large : 22 * (E.n + 1) ≤ L + 1

/-- A number that rounded steps settle from within `k` more of them: it is that close to `L`, or its
excess is that small. Every step removes two units at least until then, and divides a large excess
by `5 / 2`. -/
structure Within (S L k D : ℕ) : Prop where
  le : L ≤ D
  le_start : D ≤ S
  near : D ≤ L + 2 * k ∨ ∃ j, k = j + 41 ∧ E.excess D ≤ (5 / 2) ^ j

/-- **A step settles or comes closer.** -/
theorem Descends.step {E : Equation} {S L : ℕ} {loss : ℕ → ℚ} (hd : E.Descends S L loss)
    {k D d e D' : ℕ} (hw : E.Within S L k D) (hr : E.Rounded D (loss D) d e D') :
    (D' - D) + (D - D') ≤ 1 ∨ ∃ j, j < k ∧ E.Within S L j D' := by
  have hL : L ≤ D' := hr.le_next hd.below
  have hlarge := hd.large
  rcases hw.le.eq_or_lt with rfl | hlt
  · have habove := hd.above (L + 1) (Nat.lt_succ_self L) hd.lt
    have hsteep := hd.steep (L + 1) (Nat.lt_succ_self L) hd.lt
    push_cast at habove hsteep
    have := hr.next_le_succ habove (hd.loss_mono (Nat.le_succ L)) hsteep hlarge
    omega
  have hdown : D' ≤ D :=
    hr.next_le (hd.above D hlt hw.le_start) (hd.steep D hlt hw.le_start) (by omega)
  by_cases hclose : D ≤ D' + 1
  · omega
  refine .inr ?_
  rcases hw.near with hnear | ⟨j, rfl, hexcess⟩
  · exact ⟨k - 1, by omega, hL, hdown.trans hw.le_start, .inl (by omega)⟩
  refine ⟨j + 40, by omega, hL, hdown.trans hw.le_start, ?_⟩
  by_cases hfar : 16 * (1 + loss D) ≤ E.excess D
  · have hweight : E.weight * D ≤ E.target :=
      (mul_le_mul_of_nonneg_left (by exact_mod_cast hw.le_start) E.weight_pos.le).trans hd.weight_le
    have hnext := hr.excess_next_le hfar hweight
    cases j with
    | zero =>
        have := hr.loss_nonneg
        rw [pow_zero] at hexcess
        linarith
    | succ j =>
        refine .inr ⟨j, rfl, ?_⟩
        rw [pow_succ] at hexcess
        linarith
  · have habove := hd.above (L + 1) (Nat.lt_succ_self L) hd.lt
    have hdist := E.sub_lt_of_excess_lt (Nat.cast_nonneg (L + 1)) (by exact_mod_cast hlt)
      hr.loss_nonneg habove (hd.steep D hlt hw.le_start) (not_le.mp hfar)
    have hdist' : D < 80 + (L + 1) := by
      rw [sub_lt_iff_lt_add] at hdist
      exact_mod_cast hdist
    exact .inl (by omega)

end Equation

end StableSwap.Curve
