import Mathlib
import StableSwap.Curve.Balance
import StableSwap.Proofs.Curve.Iteration
import StableSwap.Proofs.Curve.Polynomial
import StableSwap.Proofs.Rounding

/-!
# A balance that is solved for is not too small

An iteration answers the result of one more step, and one step of Newton's method for the quadratic of
a balance, rounded up, already lands on or above the root, wherever it starts (`balanceStep_above`). The
coefficients are rounded the same way (`coefficients_ok`). So the answer, written into the balances,
gives them at least the invariant that was asked for (`missingBalance_atLeast`).
-/

namespace StableSwap.Curve
open Fixed (weis)

/-! ### The coefficients -/

theorem otherTerms_ok {n D : Amount} :
    ∀ {rest : List Fixed} {term sum t s : Amount}, otherTerms n D term sum rest = .ok (t, s) →
      s.val = sum.val + (weis rest).sum ∧
      term.val * D.val ^ rest.length ≤ t.val * (n.val ^ rest.length * (weis rest).prod) ∧
      ∀ x ∈ rest, 0 < x.wei.val
  | [], term, sum, t, s, h => by
      cases h
      simp
  | balance :: rest, term, sum, t, s, h => by
      simp only [otherTerms, bind_eq_ok, Amount.mul_eq_ok, Amount.mulDivUp_eq_ok,
        Amount.add_eq_ok] at h
      obtain ⟨divisor, hdivisor, term', ⟨hne, hterm⟩, sum', hsum, h⟩ := h
      obtain ⟨hs, ht, hpos⟩ := otherTerms_ok h
      have hbalance : 0 < balance.wei.val := by
        rw [Nat.pos_iff_ne_zero]
        rintro h0
        rw [hdivisor, h0, Nat.zero_mul] at hne
        exact hne rfl
      refine ⟨?_, ?_, ?_⟩
      · rw [hs, hsum, Fixed.weis_cons, List.sum_cons, Nat.add_assoc]
      · have hceil : term.val * D.val ≤ term'.val * divisor.val := by
          rw [hterm]
          exact le_ceilDiv_mul _ (Nat.pos_of_ne_zero hne)
        rw [List.length_cons, Fixed.weis_cons, List.prod_cons]
        calc term.val * D.val ^ (rest.length + 1)
            = term.val * D.val * D.val ^ rest.length := by ring
          _ ≤ term'.val * divisor.val * D.val ^ rest.length := Nat.mul_le_mul_right _ hceil
          _ = term'.val * D.val ^ rest.length * (balance.wei.val * n.val) := by
              rw [hdivisor]; ring
          _ ≤ t.val * (n.val ^ rest.length * (weis rest).prod) * (balance.wei.val * n.val) :=
              Nat.mul_le_mul_right _ ht
          _ = _ := by ring
      · intro x hx
        rcases List.mem_cons.mp hx with rfl | hx
        · exact hbalance
        · exact hpos x hx

/-- What the coefficients are made of. -/
theorem coefficients_terms {A D : Amount} {xs : List Fixed} {index : ℕ} {q : Quadratic}
    (h : coefficients A xs D index = .ok q) :
    ∃ n term sum, n.val = xs.length ∧
      otherTerms n D D 0 (xs.eraseIdx index) = .ok (term, sum) ∧ 0 < A.val * xs.length ∧
      q.b.val = sum.val + D.val * precision.val / (A.val * xs.length) ∧
      term.val * (D.val * precision.val) ≤ q.c.val * (A.val * xs.length * xs.length) := by
  simp only [coefficients, Amount.count, bind_eq_ok, Amount.narrow_eq_ok, Amount.mul_eq_ok,
    Amount.mulDivUp_eq_ok, Amount.mulDivDown_eq_ok, Amount.add_eq_ok, pure_eq_ok] at h
  obtain ⟨n, hn, Ann, hAnn, ⟨term, sum⟩, hterms, scaledD, hscaledD, divisor, hdivisor, c,
    ⟨hdivisor_ne, hc⟩, share, ⟨hAnn_ne, hshare⟩, b, hb, rfl⟩ := h
  rw [hn] at hAnn
  refine ⟨n, term, sum, hn, hterms, hAnn ▸ Nat.pos_of_ne_zero hAnn_ne, ?_, ?_⟩
  · rw [hb, hshare, hAnn]
  · rw [← hscaledD, ← hAnn, ← hn, ← hdivisor, hc]
    exact le_ceilDiv_mul _ (Nat.pos_of_ne_zero hdivisor_ne)

/-- What the coefficients of a balance in the list are: `b` is the sum of the others and the part of
`D` rounded down, `c` is not below its exact value. -/
theorem coefficients_ok {A D : Amount} {xs : List Fixed} {index : ℕ} {q : Quadratic}
    (hi : index < xs.length) (h : coefficients A xs D index = .ok q) :
    0 < A.val * xs.length ∧
    q.b.val = ((weis xs).eraseIdx index).sum + D.val * precision.val / (A.val * xs.length) ∧
    precision.val * D.val ^ (xs.length + 1) ≤
      q.c.val * (A.val * xs.length * (xs.length ^ xs.length * ((weis xs).eraseIdx index).prod)) ∧
    ∀ x ∈ xs.eraseIdx index, 0 < x.wei.val := by
  obtain ⟨n, term, sum, hn, hterms, hAnn, hb, hceil⟩ := coefficients_terms h
  obtain ⟨hsum, hterm, hpos⟩ := otherTerms_ok hterms
  rw [← Fixed.weis_eraseIdx]
  refine ⟨hAnn, ?_, ?_, hpos⟩
  · rw [hb, hsum, Amount.val_zero, Nat.zero_add]
  · have hlen : (xs.eraseIdx index).length + 1 = xs.length := List.length_eraseIdx_add_one hi
    rw [hn] at hterm
    -- `term` covers `Dⁿ` over the others, and `c` covers `term` times the rest of the factors
    calc precision.val * D.val ^ (xs.length + 1)
        = D.val * D.val ^ (xs.eraseIdx index).length * (D.val * precision.val) := by
          rw [← hlen]; ring
      _ ≤ term.val * (xs.length ^ (xs.eraseIdx index).length * (weis (xs.eraseIdx index)).prod) *
            (D.val * precision.val) := Nat.mul_le_mul_right _ hterm
      _ = term.val * (D.val * precision.val) *
            (xs.length ^ (xs.eraseIdx index).length * (weis (xs.eraseIdx index)).prod) := by ring
      _ ≤ q.c.val * (A.val * xs.length * xs.length) *
            (xs.length ^ (xs.eraseIdx index).length * (weis (xs.eraseIdx index)).prod) :=
          Nat.mul_le_mul_right _ hceil
      _ = q.c.val * (A.val * xs.length * (xs.length ^ ((xs.eraseIdx index).length + 1) *
            (weis (xs.eraseIdx index)).prod)) := by ring
      _ = _ := by rw [hlen]

/-! ### The quadratic -/

/-- `y` is not below the positive root of the quadratic of a balance. -/
def Quadratic.Above (q : Quadratic) (D y : ℕ) : Prop := q.c.val + D * y ≤ y * y + q.b.val * y

/-- A value that covers a step of Newton's method is not below the root, wherever the step starts. -/
theorem Quadratic.above_of_covers {q : Quadratic} {D x y d : ℕ} (hd : D + d = 2 * x + q.b.val)
    (hcover : x * x + q.c.val ≤ y * d) : q.Above D y := by
  have hmul : y * D + y * d = 2 * x * y + q.b.val * y := by
    rw [← Nat.mul_add, hd]; ring
  have hsq := two_mul_le_add_sq x y
  unfold Quadratic.Above
  nlinarith only [hcover, hmul, hsq]

/-- What a step answers, as one quotient by `d = 2·x + b - D`. -/
theorem balanceStep_ok {q : Quadratic} {D x y : Amount} (h : balanceStep q D x = .ok y) :
    ∃ d, D.val + d = 2 * x.val + q.b.val ∧ 0 < d ∧ x.val * x.val < Amount.bound ∧
      y.val = ceilDiv (x.val * x.val + q.c.val) d := by
  simp only [balanceStep, bind_eq_ok, Amount.mul_eq_ok, Amount.add_eq_ok, Amount.sub_eq_ok,
    Amount.divUp_eq_ok] at h
  obtain ⟨square, hsquare, numerator, hnumerator, double, hdouble, sum, hsum, denominator,
    hdenominator, hne, hy⟩ := h
  refine ⟨denominator.val, ?_, Nat.pos_of_ne_zero hne, hsquare ▸ square.val_lt, ?_⟩
  · rw [← hdenominator, hsum, hdouble, Nat.mul_comm]
    rfl
  · rw [hy, hnumerator, hsquare]

/-- **One step of Newton's method, rounded up, lands on or above the root**, from any value. -/
theorem balanceStep_above {q : Quadratic} {D x y : Amount} (h : balanceStep q D x = .ok y) :
    q.Above D.val y.val := by
  obtain ⟨d, hd, hpos, -, hy⟩ := balanceStep_ok h
  refine Quadratic.above_of_covers hd ?_
  rw [hy]
  exact le_ceilDiv_mul _ hpos

/-- The exact equation of balances, one of them written as `y`. -/
theorem atLeast_set_iff {A D : ℕ} {ys : List ℕ} {index y : ℕ} (hi : index < ys.length) :
    Polynomial.AtLeast A (ys.set index y) D ↔
      precision.val * D ^ (ys.length + 1) +
          A * ys.length * D * (ys.length ^ ys.length * (y * (ys.eraseIdx index).prod)) ≤
        (A * ys.length * (y + (ys.eraseIdx index).sum) + precision.val * D) *
          (ys.length ^ ys.length * (y * (ys.eraseIdx index).prod)) := by
  have hi' : index < (ys.set index y).length := by rwa [List.length_set]
  have hsum := List.CommMonoid.add_sum_eraseIdx hi'
  have hprod := List.CommMonoid.mul_prod_eraseIdx hi'
  rw [List.getElem_set_self, List.eraseIdx_set_eq] at hsum hprod
  unfold Polynomial.AtLeast Polynomial.invariantSide Polynomial.amplifiedSide
  rw [List.length_set, ← hsum, ← hprod]

/-- A value above the root of its quadratic gives the balances the invariant they were to have. -/
theorem atLeast_of_above {A D : Amount} {xs : List Fixed} {index : ℕ} {q : Quadratic} {y : Fixed}
    (hi : index < xs.length) (hq : coefficients A xs D index = .ok q)
    (hy : q.Above D.val y.wei.val) :
    Polynomial.AtLeast A.val (weis (xs.set index y)) D.val := by
  obtain ⟨hAnn, hb, hc, -⟩ := coefficients_ok hi hq
  rw [Fixed.weis_set, atLeast_set_iff (by rwa [Fixed.length_weis]), Fixed.length_weis]
  unfold Quadratic.Above at hy
  rw [hb] at hy
  generalize ((weis xs).eraseIdx index).sum = S at *
  generalize ((weis xs).eraseIdx index).prod = Q at *
  generalize A.val * xs.length = Ann at *
  have hshare : D.val * precision.val / Ann * Ann ≤ D.val * precision.val :=
    Nat.div_mul_le_self _ _
  generalize D.val * precision.val / Ann = share at *
  -- the share of `D` was rounded down, so it may be replaced by `D / (A·n)`
  have hquad : (q.c.val + D.val * y.wei.val) * Ann ≤
      (y.wei.val * y.wei.val + S * y.wei.val) * Ann + D.val * precision.val * y.wei.val := by
    calc (q.c.val + D.val * y.wei.val) * Ann
        ≤ (y.wei.val * y.wei.val + (S + share) * y.wei.val) * Ann := Nat.mul_le_mul_right _ hy
      _ = (y.wei.val * y.wei.val + S * y.wei.val) * Ann + share * Ann * y.wei.val := by ring
      _ ≤ _ := Nat.add_le_add_left (Nat.mul_le_mul_right _ hshare) _
  calc precision.val * D.val ^ (xs.length + 1) +
        Ann * D.val * (xs.length ^ xs.length * (y.wei.val * Q))
      ≤ q.c.val * (Ann * (xs.length ^ xs.length * Q)) +
        Ann * D.val * (xs.length ^ xs.length * (y.wei.val * Q)) := Nat.add_le_add_right hc _
    _ = (q.c.val + D.val * y.wei.val) * Ann * (xs.length ^ xs.length * Q) := by ring
    _ ≤ ((y.wei.val * y.wei.val + S * y.wei.val) * Ann + D.val * precision.val * y.wei.val) *
        (xs.length ^ xs.length * Q) := Nat.mul_le_mul_right _ hquad
    _ = _ := by ring

/-! ### The missing balance -/

/-- **A balance that is solved for gives the balances at least the invariant asked for.** -/
theorem missingBalance_atLeast {A D : Amount} {xs : List Fixed} {index : ℕ} {y : Fixed}
    (hi : index < xs.length) (h : missingBalance A xs D index = .ok y) :
    Polynomial.AtLeast A.val (weis (xs.set index y)) D.val := by
  unfold missingBalance at h
  split at h
  · rename_i hone
    cases h
    obtain ⟨x, rfl⟩ := List.length_eq_one_iff.mp hone
    obtain rfl : index = 0 := by simpa using hi
    -- the one balance is the invariant itself, and both sides are equal
    refine le_of_eq ?_
    simp only [Polynomial.invariantSide, Polynomial.amplifiedSide, List.set_cons_zero,
      Fixed.weis_cons, Fixed.weis_nil, List.length_cons, List.length_nil, List.sum_cons,
      List.sum_nil, List.prod_cons, List.prod_nil]
    ring
  · simp only [bind_eq_ok, pure_eq_ok] at h
    obtain ⟨q, hq, start, -, y, hy, rfl⟩ := h
    obtain ⟨a, -, hstep, -⟩ := iterate_last (P := fun _ => True) (fun _ _ _ _ => trivial) trivial hy
    exact atLeast_of_above hi hq (balanceStep_above hstep)

/-- `missingBalance_atLeast`, for balances that are no less than those with the answer in them. -/
theorem atLeast_of_missingBalance {A D : Amount} {xs : List Fixed} {index : ℕ} {y : Fixed}
    {ys : List ℕ} (hi : index < xs.length) (h : missingBalance A xs D index = .ok y)
    (hlen : xs.length = ys.length) (hy : y.wei.val ≤ ys.getD index 0)
    (hothers : ∀ k ≠ index, (xs.getD k 0).wei.val ≤ ys.getD k 0) :
    Polynomial.AtLeast A.val ys D.val := by
  refine (missingBalance_atLeast hi h).mono_getD (by simp [hlen]) fun k => ?_
  rw [Fixed.getD_weis]
  by_cases hk : k = index
  · subst hk
    rwa [getD_set_self _ _ _ hi]
  · rw [getD_set_of_ne _ _ _ (Ne.symm hk)]
    exact hothers k hk

/-- Of several balances, one can be solved for only if the others are positive. -/
theorem missingBalance_others_pos {A D : Amount} {xs : List Fixed} {index : ℕ} {y : Fixed}
    (hi : index < xs.length) (hlen : xs.length ≠ 1) (h : missingBalance A xs D index = .ok y) :
    ∀ x ∈ xs.eraseIdx index, 0 < x.wei.val := by
  simp only [missingBalance, if_neg hlen, bind_eq_ok] at h
  obtain ⟨q, hq, -⟩ := h
  exact (coefficients_ok hi hq).2.2.2

/-- `missingBalance_others_pos`, by the indices of the balances. -/
theorem missingBalance_getD_pos {A D : Amount} {xs : List Fixed} {index k : ℕ} {y : Fixed}
    (hi : index < xs.length) (hk : k < xs.length) (hne : k ≠ index)
    (h : missingBalance A xs D index = .ok y) : 0 < (xs.getD k 0).wei.val := by
  refine missingBalance_others_pos hi (by omega) h _ (List.mem_eraseIdx_iff_getElem.mpr ?_)
  exact ⟨k, hk, hne, (List.getD_eq_getElem _ _ hk).symm⟩

end StableSwap.Curve
