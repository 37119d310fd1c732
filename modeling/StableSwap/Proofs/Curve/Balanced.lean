import Mathlib
import StableSwap.Proofs.Curve.Convergence
import StableSwap.Proofs.Curve.Descent

/-!
# Balanced pools

Where all balances are equal, their sum solves the equation of the invariant, and rounding does not
move it. Each factor of the product term is one (`productTerm_replicate`), and the two floored quotients
of a step have numerators that differ by a multiple of the precision, so a step from the sum answers the
sum (`invariantStep_replicate`).

A balance that is missing from such a pool equals the others. Of its quadratic, `b` is rounded down and
`c` up, both within one unit of a share of the invariant (`coefficients_replicate`), and the solver
answers that balance or one of the two numbers that follow it (`invariant_of_balanced`).
-/

namespace StableSwap.Curve
open Fixed (weis)

theorem sum_weis_replicate (n : ℕ) (b : Fixed) :
    (weis (List.replicate n b)).sum = n * b.wei.val := by
  rw [weis, List.map_replicate, List.sum_replicate, smul_eq_mul]

/-! ### The invariant -/

section

variable {Ann n S D D' term : Amount} {b : Fixed} {k : ℕ}

/-- The product term of equal balances, at their sum, is the sum. -/
theorem productTerm_replicate (hD : D.val = n.val * b.wei.val)
    (h : productTerm n D (List.replicate k b) = .ok term) : term = D := by
  induction k with
  | zero => exact (pure_eq_ok.mp h).symm
  | succ k ih =>
      rw [productTerm, List.replicate_succ, List.foldlM_cons] at h
      obtain ⟨next, hnext, h⟩ := bind_eq_ok.mp h
      simp only [bind_eq_ok, Amount.mul_eq_ok, Amount.mulDivDown_eq_ok] at hnext
      obtain ⟨divisor, hdivisor, hne, hnext⟩ := hnext
      have hdivisor' : divisor.val = D.val := by rw [hdivisor, hD, Nat.mul_comm]
      rw [hdivisor', Nat.mul_div_cancel _ (Nat.pos_of_ne_zero (hdivisor' ▸ hne))] at hnext
      obtain rfl : next = D := Amount.ext hnext
      exact ih h

/-- **A step from the sum of equal balances answers the sum.** -/
theorem invariantStep_replicate (hAnn : precision.val ≤ Ann.val) (hS : S.val = n.val * b.wei.val)
    (hD : D.val = n.val * b.wei.val)
    (h : invariantStep Ann n S (List.replicate k b) D = .ok D') : D'.val = n.val * b.wei.val := by
  obtain ⟨term, hterm, -, hdivisor, hD'⟩ := invariantStep_ok h
  obtain rfl := productTerm_replicate hD hterm
  obtain rfl : S = term := Amount.ext (hS.trans hD.symm)
  -- the quotient that lacks one multiple of the sum has it in the heavier term
  have hquotients : (Ann.val - precision.val) * S.val / precision.val + (n.val + 1) * S.val =
      Ann.val * S.val / precision.val + n.val * S.val := by
    have hle : S.val ≤ Ann.val * S.val / precision.val := by
      rw [Nat.le_div_iff_mul_le precision_pos, Nat.mul_comm]
      exact Nat.mul_le_mul_right _ hAnn
    rw [Nat.sub_mul, Nat.sub_mul_div, Nat.succ_mul]
    omega
  rw [hquotients] at hdivisor hD'
  rw [hD', Nat.mul_div_cancel_left _ hdivisor, hD]

/-- The invariant of equal balances, where there is one, is their sum. -/
theorem invariant_replicate {A : Amount} {n : ℕ} (hA : precision.val ≤ A.val) (hn : 2 ≤ n)
    (hb : 0 < b.wei.val) (h : invariant A (List.replicate n b) = .ok D) :
    D.val = n * b.wei.val := by
  have hne : List.replicate n b ≠ [] := by
    rw [Ne, List.replicate_eq_nil_iff]
    omega
  have hpos : ∀ x ∈ List.replicate n b, 0 < x.wei.val := fun x hx =>
    List.eq_of_mem_replicate hx ▸ hb
  rw [← sum_weis_replicate]
  obtain ⟨-, hD⟩ | ⟨-, count, Ann, S, hcount, hAnn, hS, h⟩ := invariant_ok hne hpos h
  · exact hD
  rw [List.length_replicate] at hcount hAnn
  rw [sum_weis_replicate, ← hcount] at hS ⊢
  have hAnn' : precision.val ≤ Ann.val :=
    hAnn ▸ hA.trans (Nat.le_mul_of_pos_right _ (Nat.zero_lt_of_lt hn))
  obtain ⟨x, hx, hstep, -⟩ := iterate_last (P := fun x => x.val = count.val * b.wei.val)
    (fun _ _ hx hy => invariantStep_replicate hAnn' hS hx hy) hS h
  exact invariantStep_replicate hAnn' hS hx hstep

/-- The first step settles the iteration from the sum of equal balances. -/
theorem invariant_replicate_onlyOverflows {A : Amount} {n : ℕ} (hA : precision.val ≤ A.val)
    (hn : 2 ≤ n) (hb : 0 < b.wei.val) : OnlyOverflows (invariant A (List.replicate n b)) := by
  refine (total_onlyOverflows _).bind fun sum hsum => ?_
  split
  · exact .ok 0
  split
  · exact .ok _
  refine (Amount.onlyOverflows_count _).bind fun count hcount => ?_
  refine (Amount.onlyOverflows_mul _ _).bind fun Ann hAnn => ?_
  rw [Amount.count, Amount.narrow_eq_ok, List.length_replicate] at hcount
  rw [Amount.mul_eq_ok, hcount] at hAnn
  have hS := total_ok hsum
  rw [sum_weis_replicate, ← hcount] at hS
  have hAnn' : 2 * precision.val ≤ Ann.val := by
    rw [hAnn, Nat.mul_comm 2]
    exact Nat.mul_le_mul hA hn
  refine iterate_onlyOverflows (P := fun _ x => x.val = count.val * b.wei.val) (k := 0)
    (fun _ x hx => ?_) (fun _ x y hx hy => .inl ?_) (by decide) hS
  · refine invariantStep_onlyOverflows (hcount ▸ Nat.zero_lt_of_lt hn) hAnn'
      (fun y hy => List.eq_of_mem_replicate hy ▸ hb) ?_
    rw [hx, hcount]
    exact Nat.mul_pos (Nat.zero_lt_of_lt hn) hb
  · rw [Amount.val_dist, invariantStep_replicate (by omega) hS hx hy, hx]
    omega

end

/-! ### The missing balance -/

section

variable {A D n term sum t s : Amount} {b : Fixed} {k : ℕ} {q : Quadratic}

/-- The term of the other balances, all equal, is the sum of all. -/
theorem otherTerms_replicate (hD : D.val = n.val * b.wei.val)
    (h : otherTerms n D D sum (List.replicate k b) = .ok (t, s)) : t = D := by
  induction k generalizing sum with
  | zero =>
      cases h
      rfl
  | succ k ih =>
      rw [List.replicate_succ] at h
      simp only [otherTerms, bind_eq_ok, Amount.mul_eq_ok, Amount.mulDivUp_eq_ok] at h
      obtain ⟨divisor, hdivisor, term, ⟨hne, hterm⟩, sum', -, h⟩ := h
      have hdivisor' : divisor.val = D.val := by rw [hdivisor, hD, Nat.mul_comm]
      rw [hdivisor', ceilDiv_mul_self _ (Nat.pos_of_ne_zero (hdivisor' ▸ hne))] at hterm
      obtain rfl : term = D := Amount.ext hterm
      exact ih h

/-- A product with a quotient that is rounded up is between those with the quotient rounded down and
with one more. -/
theorem mul_div_le_ceilDiv {a n : ℕ} (v m : ℕ) (ha : 0 < a) (hn : 0 < n) :
    v * (m / a) ≤ ceilDiv (v * m * n) (a * n) ∧ ceilDiv (v * m * n) (a * n) ≤ v * (m / a + 1) := by
  have hdivisor := Nat.mul_pos ha hn
  constructor
  · refine Nat.le_of_mul_le_mul_right (le_trans ?_ (le_ceilDiv_mul _ hdivisor)) hdivisor
    calc v * (m / a) * (a * n) = v * (m / a * a) * n := by ring
      _ ≤ v * m * n := Nat.mul_le_mul_right n (Nat.mul_le_mul_left v (Nat.div_mul_le_self m a))
  · rw [ceilDiv_le_iff hdivisor]
    calc v * m * n ≤ v * (m / a * a + a) * n :=
          Nat.mul_le_mul_right n (Nat.mul_le_mul_left v (Nat.lt_div_mul_add ha).le)
      _ = v * (m / a + 1) * (a * n) := by ring

/-- The coefficients of the balance missing from others that are all `v`: `b` is the invariant without
`v` and with a share, and `c` is `v` times the share, up to one unit of the share. -/
structure Quadratic.Balanced (q : Quadratic) (D v share : ℕ) : Prop where
  b_add : q.b.val + v = D + share
  le_c : v * share ≤ q.c.val
  c_le : q.c.val ≤ v * (share + 1)
  c_pos : 0 < q.c.val

theorem coefficients_replicate {n i : ℕ} (hb : 0 < b.wei.val) (hD : D.val = n * b.wei.val)
    (hi : i < n) (h : coefficients A (List.replicate n b) D i = .ok q) :
    ∃ share, q.Balanced D.val b.wei.val share := by
  simp only [coefficients, Amount.count, bind_eq_ok, Amount.narrow_eq_ok, Amount.mul_eq_ok,
    Amount.mulDivUp_eq_ok, Amount.mulDivDown_eq_ok, Amount.add_eq_ok, pure_eq_ok,
    List.length_replicate, List.eraseIdx_replicate, if_pos hi] at h
  obtain ⟨count, hcount, Ann, hAnn, ⟨term, sum⟩, hterms, scaledD, hscaledD, divisor, hdivisor, c,
    ⟨-, hc⟩, share, ⟨hAnn_ne, hshare⟩, others, hothers, rfl⟩ := h
  obtain rfl := otherTerms_replicate (hcount ▸ hD) hterms
  have hsum := (otherTerms_ok hterms).1
  rw [sum_weis_replicate, Amount.val_zero, Nat.zero_add] at hsum
  have hn : 0 < n := Nat.zero_lt_of_lt hi
  have hAnn_pos := Nat.pos_of_ne_zero hAnn_ne
  -- one factor `n` of the divisor makes a balance of one factor `D`
  have hc' : c.val = ceilDiv (b.wei.val * scaledD.val * n) (Ann.val * n) := by
    rw [hc, hdivisor, hcount, hD]
    congr 1
    ring
  obtain ⟨hlow, hhigh⟩ := mul_div_le_ceilDiv b.wei.val scaledD.val hAnn_pos hn
  rw [← hc', hscaledD, ← hshare] at hlow hhigh
  refine ⟨share.val, ?_, hlow, hhigh, ?_⟩
  · have hall : (n - 1) * b.wei.val + b.wei.val = n * b.wei.val := by
      rw [← Nat.succ_mul, Nat.succ_eq_add_one, Nat.sub_add_cancel hn]
    rw [hothers, hsum, hD]
    omega
  · have hcover := le_ceilDiv_mul (b.wei.val * scaledD.val * n) (Nat.mul_pos hAnn_pos hn)
    have hscaled : 0 < scaledD.val := by
      rw [hscaledD, hD]
      exact Nat.mul_pos (Nat.mul_pos hn hb) precision_pos
    rw [← hc'] at hcover
    exact Nat.pos_of_mul_pos_right ((Nat.mul_pos (Nat.mul_pos hb hscaled) hn).trans_le hcover)

/-- Above the root of a balanced quadratic is on or above the balance. -/
theorem Quadratic.Balanced.le_of_above {D v share y : ℕ} (h : q.Balanced D v share)
    (hy : q.Above D y) : v ≤ y := by
  have hb := congrArg (· * y) h.b_add
  have hle := h.le_c
  have hpos := h.c_pos
  simp only [Nat.add_mul] at hb
  unfold Quadratic.Above at hy
  have hcover : v * (share + y) ≤ y * (share + y) := by
    rw [Nat.mul_add, Nat.mul_add, Nat.mul_comm y share]
    omega
  refine Nat.le_of_mul_le_mul_right hcover ?_
  rw [Nat.pos_iff_ne_zero]
  intro hzero
  obtain ⟨rfl, rfl⟩ : share = 0 ∧ y = 0 := by omega
  omega

/-- Below the root of a balanced quadratic is on or below the balance. -/
theorem Quadratic.Balanced.le_of_below {D v share z : ℕ} (h : q.Balanced D v share)
    (hz : q.Below D z) : z ≤ v := by
  have hb := congrArg (· * z) h.b_add
  have hle := h.c_le
  simp only [Nat.add_mul] at hb
  unfold Quadratic.Below at hz
  have hcover : z * (z + share) ≤ v * (z + share) + v := by
    calc z * (z + share) = z * z + share * z := by ring
      _ ≤ v * (share + 1) + v * z := by omega
      _ = v * (z + share) + v := by ring
  by_contra hlt
  have hnext := Nat.mul_le_mul_right (z + share) (not_le.mp hlt)
  rw [Nat.succ_mul] at hnext
  omega

end

/-- **Balanced pools have an exact invariant**, whatever the number of tokens and the amplification: it
is the sum of the balances, unless a sum or a product on the way is no amount. And the balance that is
solved for with it is the common one or one of the two numbers that follow. -/
theorem invariant_of_balanced {A : Amount} {b : Fixed} {n : ℕ} (hA : precision.val ≤ A.val)
    (hn : 2 ≤ n) (hb : 0 < b.wei.val) :
    ((∃ D, invariant A (List.replicate n b) = .ok D ∧ D.val = n * b.wei.val) ∨
      invariant A (List.replicate n b) = .error .multiplicationOverflow ∨
      invariant A (List.replicate n b) = .error .additionOverflow) ∧
    ∀ (D : Amount) (i : ℕ) (y : Fixed), D.val = n * b.wei.val → i < n →
      missingBalance A (List.replicate n b) D i = .ok y →
      b.wei.val ≤ y.wei.val ∧ y.wei.val ≤ b.wei.val + 2 := by
  constructor
  · rcases (invariant_replicate_onlyOverflows hA hn hb).cases with ⟨D, hD⟩ | hadd | hmul
    · exact .inl ⟨D, hD, invariant_replicate hA hn hb hD⟩
    · exact .inr (.inr hadd)
    · exact .inr (.inl hmul)
  · intro D i y hD hi h
    rw [missingBalance, List.length_replicate, if_neg (by omega)] at h
    simp only [bind_eq_ok, pure_eq_ok] at h
    obtain ⟨q, hq, start, hstart, y, hy, rfl⟩ := h
    obtain ⟨share, hbalanced⟩ := coefficients_replicate hb hD hi hq
    obtain ⟨x, hx, hstep, hclose⟩ := iterate_last (P := fun x => q.Above D.val x.val)
      (fun _ _ _ hb => balanceStep_above hb) (balanceStart_above hstart) hy
    refine ⟨hbalanced.le_of_above (balanceStep_above hstep), ?_⟩
    rcases Nat.lt_or_ge y.val 2 with hsmall | hlarge
    · exact hsmall.le.trans (Nat.le_add_left _ _)
    · have := hbalanced.le_of_below (below_of_balanceStep hx hstep hclose hlarge)
      show y.val ≤ b.wei.val + 2
      omega

/-- Three balances at an amplification that is no multiple of the precision. -/
theorem invariant_of_balanced_triple :
    let xs : List Fixed := List.replicate 3 ⟨1000000000000000007⟩
    let D : Amount := 3000000000000000021
    let y : Fixed := ⟨1000000000000000008⟩
    2 ≤ 3 ∧ precision.val ≤ (1234 : Amount).val ∧ invariant 1234 xs = .ok D ∧
      missingBalance 1234 xs D 1 = .ok y ∧
      1000000000000000007 ≤ y.wei.val ∧ y.wei.val ≤ 1000000000000000007 + 2 := by
  intro xs D y
  have hD : invariant 1234 xs = .ok D := by decide +kernel
  have h : missingBalance 1234 xs D 1 = .ok y := by decide +kernel
  exact ⟨by decide, by decide, hD, h, (invariant_of_balanced (A := 1234)
    (b := ⟨1000000000000000007⟩) (n := 3) (by decide) (by decide) (by decide)).2 D 1 y (by decide)
    (by decide) h⟩

end StableSwap.Curve
