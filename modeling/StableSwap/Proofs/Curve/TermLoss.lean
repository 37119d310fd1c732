import Mathlib
import StableSwap.Proofs.Curve.Equation

/-!
# The product term of at most five balances, from below

At the sum of the balances and above it, the product of all factors of the product term is not below
one, and it is one only for equal balances at their sum. What rounding loses after a balance is
multiplied by the factors of the balances that follow. Where the product of these is large, so is that
of all factors (`factorProduct_suffix_le`): the last balances are small then, far from the mean
(`pow_mul_le`). From 25 units on, what a large product adds to the term pays for what it adds to the
loss, and the term lacks at most one unit for each balance, and one (`productTerm_lowerBound`).
-/

namespace StableSwap.Curve
open Fixed (weis)

/-! ### Means of the first and of the last balances -/

section Means

variable {j m : ℕ} {u v : ℚ}

/-- One balance before the others. -/
theorem mul_one_add_le (hm : 1 ≤ m) (hfour : m ≤ 4) (hv : 0 ≤ v) (h : u + m * v = 1 + m) :
    u * (1 + 5 * v ^ m) ≤ 25 / 4 := by
  obtain rfl : u = 1 + m - m * v := by linarith
  have hlinear := sq_nonneg (v - 19 / 20)
  have hsquare := sq_nonneg (v ^ 2 - 9 / 10)
  have hmixed := sq_nonneg (v * (v - 19 / 20))
  interval_cases m <;> push_cast <;>
    nlinarith only [hv, hlinear, hsquare, hmixed, mul_nonneg hv hlinear, mul_nonneg hv hsquare,
      mul_nonneg hv hmixed]

/-- One balance after the others. -/
theorem pow_mul_one_add_le (hj : 1 ≤ j) (hfour : j ≤ 4) (hu : 0 ≤ u) (h : j * u + v = j + 1) :
    u ^ j * (1 + 5 * v) ≤ 25 / 4 := by
  obtain rfl : v = j + 1 - j * u := by linarith
  have hlinear := sq_nonneg (u - 21 / 20)
  have hmixed := sq_nonneg (u * (u - 21 / 20))
  interval_cases j <;> push_cast <;>
    nlinarith only [hu, hlinear, hmixed, mul_nonneg hu hlinear, mul_nonneg hu hmixed]

/-- Of at most five numbers with mean one, the first `j` have the mean `u` and the other `m` the mean
`v`. The power for the first ones is at most `5 / 4` and five times what the power for all lacks to
one. -/
theorem pow_mul_le (hj : 1 ≤ j) (hm : 1 ≤ m) (hfive : j + m ≤ 5) (hu : 0 ≤ u) (hv : 0 ≤ v)
    (h : j * u + m * v = j + m) : u ^ j * (1 + 5 * v ^ m) ≤ 25 / 4 := by
  obtain rfl | hj' := hj.eq_or_lt'
  · rw [pow_one]
    exact mul_one_add_le hm (by omega) hv (by simpa using h)
  obtain rfl | hm' := hm.eq_or_lt'
  · rw [pow_one]
    exact pow_mul_one_add_le hj (by omega) hu (by simpa using h)
  obtain ⟨rfl, rfl⟩ | ⟨rfl, rfl⟩ | ⟨rfl, rfl⟩ :
      j = 2 ∧ m = 2 ∨ j = 3 ∧ m = 2 ∨ j = 2 ∧ m = 3 := by omega
  all_goals push_cast at h
  · obtain rfl : v = 2 - u := by linarith
    linarith only [mul_nonneg (mul_nonneg hu hv) (sq_nonneg (u - 1)), sq_nonneg (u - 5 / 4)]
  · obtain rfl : v = (5 - 3 * u) / 2 := by linarith
    linarith only [hu, mul_nonneg hv (sq_nonneg (u * (u - 109 / 100))),
      mul_nonneg (mul_nonneg hu hv) (sq_nonneg (u - 107 / 100)), sq_nonneg (u - 28 / 25),
      pow_nonneg hu 3]
  · obtain rfl : u = (5 - 3 * v) / 2 := by linarith
    linarith only [hv, mul_nonneg hv (mul_nonneg (mul_nonneg hv hu) (sq_nonneg (v - 5 / 6))),
      mul_nonneg hv (sq_nonneg (v - 43 / 44)), mul_nonneg hv hu]

end Means

/-! ### The factors of the last balances -/

section Factors

variable {n D : ℚ} {xs : List ℕ}

theorem factorProduct_append (n D : ℚ) :
    ∀ as bs : List ℕ, factorProduct n D (as ++ bs) = factorProduct n D as * factorProduct n D bs
  | [], bs => by rw [List.nil_append, factorProduct, one_mul]
  | a :: as, bs => by
      rw [List.cons_append, factorProduct, factorProduct, factorProduct_append n D as bs, mul_assoc]

theorem factorProduct_mul (n D r : ℚ) :
    ∀ xs : List ℕ, factorProduct n (r * D) xs = r ^ xs.length * factorProduct n D xs
  | [] => by simp [factorProduct]
  | x :: xs => by
      rw [factorProduct, factorProduct, factorProduct_mul n D r xs, List.length_cons]
      ring

theorem factorProduct_pos (hn : 0 < n) (hD : 0 < D) (hpos : ∀ x ∈ xs, 0 < x) :
    0 < factorProduct n D xs := by
  have hprod : (0 : ℚ) < xs.prod := by exact_mod_cast List.prod_pos hpos
  rw [factorProduct_eq]
  positivity

/-- The mean of balances, with `D / n` as its unit: that is the mean of all `n` where `D` is their
sum. -/
def relativeMean (n D : ℚ) (xs : List ℕ) : ℚ := n * (xs.sum / xs.length) / D

theorem relativeMean_nonneg (hn : 0 ≤ n) (hD : 0 ≤ D) (xs : List ℕ) : 0 ≤ relativeMean n D xs := by
  unfold relativeMean
  positivity

theorem relativeMean_self (hlength : (xs.length : ℚ) ≠ 0) (hsum : (xs.sum : ℚ) ≠ 0) :
    relativeMean xs.length xs.sum xs = 1 := by
  rw [relativeMean, mul_div_cancel₀ _ hlength, div_self hsum]

theorem relativeMean_append {as bs : List ℕ} (has : as ≠ []) (hbs : bs ≠ [])
    (hsum : ((as ++ bs).sum : ℚ) ≠ 0) :
    as.length * relativeMean (as ++ bs).length (as ++ bs).sum as +
      bs.length * relativeMean (as ++ bs).length (as ++ bs).sum bs = as.length + bs.length := by
  have hlengthA : (as.length : ℚ) ≠ 0 := by exact_mod_cast (List.length_pos_iff.mpr has).ne'
  have hlengthB : (bs.length : ℚ) ≠ 0 := by exact_mod_cast (List.length_pos_iff.mpr hbs).ne'
  unfold relativeMean
  rw [List.sum_append, Nat.cast_add] at hsum ⊢
  rw [List.length_append, Nat.cast_add]
  field_simp

/-- The product of the factors is not below that of as many factors of the mean. -/
theorem one_le_relativeMean_pow_mul (hn : 0 < n) (hD : 0 < D) (hpos : ∀ x ∈ xs, 0 < x) :
    1 ≤ relativeMean n D xs ^ xs.length * factorProduct n D xs := by
  have hprod : (0 : ℚ) < xs.prod := by exact_mod_cast List.prod_pos hpos
  have hmean := prod_le_mean_pow xs
  rw [relativeMean, factorProduct_eq, div_pow, mul_pow, div_mul_div_comm,
    one_le_div (by positivity)]
  calc D ^ xs.length * (n ^ xs.length * xs.prod)
      ≤ D ^ xs.length * (n ^ xs.length * (xs.sum / xs.length) ^ xs.length) := by gcongr
    _ = _ := by ring

/-- At the sum of the balances, the product of all factors is not below one. -/
theorem one_le_factorProduct (hne : xs ≠ []) (hpos : ∀ x ∈ xs, 0 < x) :
    1 ≤ factorProduct xs.length xs.sum xs := by
  have hsum : (0 : ℚ) < xs.sum := by exact_mod_cast List.sum_pos xs hpos hne
  have hlength : (0 : ℚ) < xs.length := by exact_mod_cast List.length_pos_iff.mpr hne
  have h := one_le_relativeMean_pow_mul hlength hsum hpos
  rwa [relativeMean_self hlength.ne' hsum.ne', one_pow, one_mul] at h

/-- A large product of the last factors makes that of all factors larger. -/
theorem factorProduct_suffix_add_le {as bs : List ℕ} (has : as ≠ []) (hbs : bs ≠ [])
    (hfive : (as ++ bs).length ≤ 5) (hpos : ∀ x ∈ as ++ bs, 0 < x) :
    factorProduct (as ++ bs).length (as ++ bs).sum bs + 5 ≤
      25 / 4 * factorProduct (as ++ bs).length (as ++ bs).sum (as ++ bs) := by
  have hne : as ++ bs ≠ [] := List.append_ne_nil_of_left_ne_nil has bs
  have hsum : (0 : ℚ) < (as ++ bs).sum := by exact_mod_cast List.sum_pos _ hpos hne
  have hn : (0 : ℚ) < (as ++ bs).length := by exact_mod_cast List.length_pos_iff.mpr hne
  have hposA : ∀ x ∈ as, 0 < x := fun x hx => hpos x (List.mem_append_left bs hx)
  have hposB : ∀ x ∈ bs, 0 < x := fun x hx => hpos x (List.mem_append_right as hx)
  have hbound := pow_mul_le (List.length_pos_iff.mpr has) (List.length_pos_iff.mpr hbs)
    (List.length_append ▸ hfive) (relativeMean_nonneg hn.le hsum.le as)
    (relativeMean_nonneg hn.le hsum.le bs) (relativeMean_append has hbs hsum.ne')
  have hfirst := one_le_relativeMean_pow_mul hn hsum hposA
  have hlast := one_le_relativeMean_pow_mul hn hsum hposB
  have hp := factorProduct_pos hn hsum hposA
  have hq := factorProduct_pos hn hsum hposB
  rw [factorProduct_append]
  generalize factorProduct (as ++ bs).length (as ++ bs).sum as = p at *
  generalize factorProduct (as ++ bs).length (as ++ bs).sum bs = q at *
  generalize relativeMean (as ++ bs).length (as ++ bs).sum as ^ as.length = P at *
  generalize relativeMean (as ++ bs).length (as ++ bs).sum bs ^ bs.length = Q at *
  have hboth := one_le_mul_of_one_le_of_one_le hfirst hlast
  calc q + 5 ≤ P * p * q + 5 * (P * p * (Q * q)) :=
        add_le_add (le_mul_of_one_le_left hq.le hfirst) (by linarith)
    _ = P * (1 + 5 * Q) * (p * q) := by ring
    _ ≤ 25 / 4 * (p * q) := mul_le_mul_of_nonneg_right hbound (mul_pos hp hq).le

/-- `factorProduct_suffix_add_le`, at a value that is not below the sum. -/
theorem factorProduct_suffix_le {as bs : List ℕ} {r : ℚ} (hr : 1 ≤ r) (has : as ≠ [])
    (hbs : bs ≠ []) (hfive : (as ++ bs).length ≤ 5) (hpos : ∀ x ∈ as ++ bs, 0 < x) :
    factorProduct (as ++ bs).length (r * (as ++ bs).sum) bs ≤ r ^ (as ++ bs).length *
      (25 / 4 * factorProduct (as ++ bs).length (as ++ bs).sum (as ++ bs) - 5) := by
  have hsum := factorProduct_suffix_add_le has hbs hfive hpos
  rw [factorProduct_mul]
  refine mul_le_mul ?_ (by linarith) ?_ (by positivity)
  · exact pow_le_pow_right₀ hr (by rw [List.length_append]; omega)
  · exact factorProduct_nonneg (Nat.cast_nonneg _) (Nat.cast_nonneg _) bs

end Factors

/-! ### The loss -/

/-- What is lost after the last balance is at most one unit, and after any other at most the product of
the factors that follow. -/
theorem flooringLoss_le_of_suffixes {n D w : ℚ} :
    ∀ {xs : List ℕ}, xs ≠ [] →
      (∀ as bs, as ≠ [] → bs ≠ [] → xs = as ++ bs → factorProduct n D bs ≤ w) →
      flooringLoss n D xs ≤ 1 + (xs.length - 1) * w
  | [], hne, _ => absurd rfl hne
  | [x], _, _ => by simp [flooringLoss, factorProduct]
  | x :: y :: rest, _, hw => by
      have hhead := hw [x] (y :: rest) (List.cons_ne_nil _ _) (List.cons_ne_nil _ _) rfl
      have ih := flooringLoss_le_of_suffixes (List.cons_ne_nil y rest) fun as bs _ hbs h =>
        hw (x :: as) bs (List.cons_ne_nil _ _) hbs (congrArg (x :: ·) h)
      rw [flooringLoss, List.length_cons]
      push_cast at ih ⊢
      linarith

/-- What is lost at the sum of the balances or above, by the product of all factors at the sum. -/
theorem flooringLoss_le {r : ℚ} {xs : List ℕ} (hr : 1 ≤ r) (hne : xs ≠ []) (hfive : xs.length ≤ 5)
    (hpos : ∀ x ∈ xs, 0 < x) :
    flooringLoss xs.length (r * xs.sum) xs ≤ 1 + (xs.length - 1) *
      (r ^ xs.length * (25 / 4 * factorProduct xs.length xs.sum xs - 5)) := by
  refine flooringLoss_le_of_suffixes hne ?_
  rintro as bs has hbs rfl
  exact factorProduct_suffix_le hr has hbs hfive hpos

/-- What a large product of all factors adds to the exact term pays for what it adds to the loss. -/
theorem sub_mul_pow_le_sub_flooringLoss {r : ℚ} {xs : List ℕ} (hr : 1 ≤ r) (hne : xs ≠ [])
    (hfive : xs.length ≤ 5) (hpos : ∀ x ∈ xs, 0 < x) (hlarge : 25 ≤ r * xs.sum) :
    (r * xs.sum - xs.length) * r ^ xs.length ≤ r * xs.sum * factorProduct xs.length (r * xs.sum) xs -
      flooringLoss xs.length (r * xs.sum) xs + 1 := by
  have hloss := flooringLoss_le hr hne hfive hpos
  have hproduct := one_le_factorProduct hne hpos
  have hfive' : (xs.length : ℚ) ≤ 5 := by exact_mod_cast hfive
  rw [factorProduct_mul]
  generalize factorProduct xs.length xs.sum xs = G at *
  have hpays : 0 ≤ (G - 1) * (r * xs.sum - 25 + 25 / 4 * (5 - xs.length)) + (5 - xs.length) / 4 := by
    have := mul_nonneg (sub_nonneg.mpr hproduct)
      (by linarith : (0 : ℚ) ≤ r * xs.sum - 25 + 25 / 4 * (5 - xs.length))
    linarith
  have := mul_nonneg (show 0 ≤ r ^ xs.length by positivity) hpays
  linarith

/-! ### The product term -/

/-- **The product term at the sum of at most five balances, or above, is not far below the value**: one
unit for each balance, and the last to be rounded. -/
theorem productTerm_lowerBound {n D term : Amount} {xs : List Fixed} (hn : n.val = xs.length)
    (hne : xs ≠ []) (hfive : xs.length ≤ 5) (hpos : ∀ x ∈ xs, 0 < x.wei.val) (hD : 25 ≤ D.val)
    (hS : (weis xs).sum ≤ D.val) (h : productTerm n D xs = .ok term) :
    (D.val - xs.length) * D.val ^ xs.length ≤ (term.val + 1) * (weis xs).sum ^ xs.length := by
  have hne' : weis xs ≠ [] := List.map_eq_nil_iff.not.mpr hne
  have hpos' : ∀ x ∈ weis xs, 0 < x := List.forall_mem_map.mpr hpos
  have hexact := productTerm_add_loss h
  rw [hn, ← Fixed.length_weis] at hexact
  rw [← Fixed.length_weis] at hfive ⊢
  generalize weis xs = ys at *
  have hsum : (0 : ℚ) < ys.sum := by exact_mod_cast List.sum_pos _ hpos' hne'
  obtain ⟨r, hr, hrD⟩ : ∃ r : ℚ, 1 ≤ r ∧ (D.val : ℚ) = r * ys.sum := by
    refine ⟨D.val / ys.sum, ?_, (div_mul_cancel₀ _ hsum.ne').symm⟩
    rw [one_le_div hsum]
    exact_mod_cast hS
  have hlarge : 25 ≤ r * ys.sum := hrD ▸ (by exact_mod_cast hD)
  have hpays := sub_mul_pow_le_sub_flooringLoss hr hne' hfive hpos' hlarge
  rw [← hrD] at hpays
  have hlength : ys.length ≤ D.val := by omega
  rw [← Nat.cast_le (α := ℚ), Nat.cast_mul, Nat.cast_mul, Nat.cast_sub hlength, Nat.cast_pow,
    Nat.cast_pow, Nat.cast_succ]
  calc (D.val - ys.length : ℚ) * D.val ^ ys.length
      = (D.val - ys.length) * r ^ ys.length * ys.sum ^ ys.length := by
        rw [hrD, mul_pow, mul_assoc]
    _ ≤ (term.val + 1) * ys.sum ^ ys.length :=
        mul_le_mul_of_nonneg_right (by linarith) (by positivity)

end StableSwap.Curve
