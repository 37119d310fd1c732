import Mathlib
import StableSwap.Proofs.Curve.Convergence

/-!
# How far the invariant is from the exact one

The solver stops at a rounded step that moves by one at most. The floors of its divisor push the
quotient up, so the answer can be above the exact invariant (`invariant_above_exact`). One unit below
the answer, the left side of the equation exceeds its target by less than one and what the product term
loses (`Rounded.excess_lt`), and for every unit further down it falls by the amplification and the
number of tokens at least (`add_le_excess`). Of steady balances one unit is enough
(`Descends.next_le_succ`). A step never lands below the root, so on the other side only the floor of the
target counts (`Models.atMost_add_two`). Together these are `invariant_enclosed`.
-/

namespace StableSwap.Curve
open Fixed (weis)

/-! ### Powers -/

/-- Two units less than `n + 2 + u` make a power smaller, by one factor at least. -/
theorem pow_succ_le_of_five {n : ℕ} (htwo : 2 ≤ n) (hfive : n ≤ 5) (u : ℕ) :
    (n + u) ^ (n + 1) ≤ (u + 1) * (n + u + 2) ^ n := by
  interval_cases n <;> (ring_nf; omega)

/-- A power of `1 - s` is not above its expansion up to the square. -/
theorem one_sub_pow_le_quadratic {s : ℚ} (hs : 0 ≤ s) (hs1 : s ≤ 1) (n : ℕ) :
    (1 - s) ^ (n + 1) ≤ 1 - (n + 1) * s + (n + 1) * n / 2 * s ^ 2 := by
  induction n with
  | zero => simp
  | succ n ih =>
      have hcube : 0 ≤ (n + 1 : ℚ) * n / 2 * s ^ 3 := by positivity
      calc (1 - s) ^ (n + 1 + 1)
          = (1 - s) ^ (n + 1) * (1 - s) := pow_succ _ _
        _ ≤ (1 - (n + 1) * s + (n + 1) * n / 2 * s ^ 2) * (1 - s) :=
            mul_le_mul_of_nonneg_right ih (sub_nonneg.mpr hs1)
        _ = 1 - ((n + 1 : ℕ) + 1) * s + ((n + 1 : ℕ) + 1) * (n + 1 : ℕ) / 2 * s ^ 2 -
              (n + 1) * n / 2 * s ^ 3 := by
            push_cast
            ring
        _ ≤ _ := sub_le_self _ hcube

namespace Equation

variable (E : Equation)

theorem term_le_of_add_two {x : ℕ} (hx : E.n ≤ x) :
    E.term x * (x + 2) ≤ (x + 1 - E.n) * E.term (x + 2) := by
  obtain ⟨u, rfl⟩ := Nat.exists_eq_add_of_le hx
  have hpow : ((E.n + u : ℕ) : ℚ) ^ (E.n + 1) ≤ (u + 1) * ((E.n + u : ℕ) + 2) ^ E.n := by
    exact_mod_cast pow_succ_le_of_five E.two_le E.le_five u
  have hscale : 0 ≤ ((E.n + u : ℕ) + 2 : ℚ) / E.scale := div_nonneg (by positivity) E.scale_pos.le
  unfold term
  calc ((E.n + u : ℕ) : ℚ) ^ (E.n + 1) / E.scale * ((E.n + u : ℕ) + 2)
      = ((E.n + u : ℕ) : ℚ) ^ (E.n + 1) * (((E.n + u : ℕ) + 2) / E.scale) := by ring
    _ ≤ (u + 1) * ((E.n + u : ℕ) + 2) ^ E.n * (((E.n + u : ℕ) + 2) / E.scale) :=
        mul_le_mul_of_nonneg_right hpow hscale
    _ = _ := by
        push_cast
        ring

/-- Close below a large value, the term is not above its tangent by more than a sixth of a unit. -/
theorem term_sub_le {D r : ℚ} (hr : 0 ≤ r) (hr2 : r ≤ 2) (hlarge : 12 * (E.n + 1) ≤ D) :
    E.term (D - r) * D ≤ (D - (E.n + 1) * (r - 1 / 6)) * E.term D := by
  have hn : (0 : ℚ) ≤ E.n := Nat.cast_nonneg _
  have hD : 0 < D := by linarith
  obtain ⟨s, rfl⟩ : ∃ s, r = D * s := ⟨r / D, (mul_div_cancel₀ r hD.ne').symm⟩
  have hs : 0 ≤ s := nonneg_of_mul_nonneg_right hr hD
  have hns : (E.n + 1) * s ≤ 1 / 6 := by
    have := mul_le_mul_of_nonneg_right hlarge hs
    linarith
  have hs1 : s ≤ 1 := by
    have := mul_nonneg hn hs
    linarith
  have hsquare : (E.n + 1) * E.n / 2 * s ^ 2 * D ≤ (E.n + 1) / 6 := by
    have hhalf : E.n * s * (D * s) ≤ 1 / 6 * 2 :=
      mul_le_mul (by linarith) hr2 hr (by norm_num)
    have := mul_le_mul_of_nonneg_left hhalf (show 0 ≤ ((E.n : ℚ) + 1) / 2 by positivity)
    linarith
  have hterm := E.term_nonneg hD.le
  calc E.term (D - D * s) * D = E.term D * ((1 - s) ^ (E.n + 1) * D) := by
        rw [show D - D * s = D * (1 - s) by ring, term_mul]
        ring
    _ ≤ E.term D * ((1 - (E.n + 1) * s + (E.n + 1) * E.n / 2 * s ^ 2) * D) :=
        mul_le_mul_of_nonneg_left
          (mul_le_mul_of_nonneg_right (one_sub_pow_le_quadratic hs hs1 E.n) hD.le) hterm
    _ ≤ E.term D * (D - (E.n + 1) * (D * s - 1 / 6)) :=
        mul_le_mul_of_nonneg_left (by linarith) hterm
    _ = _ := by ring

/-- Where the term is not below the value, every unit adds the amplification and the number of
tokens to the left side. -/
theorem add_le_excess {z k : ℕ} (hz : 0 < z) (hterm : (z : ℚ) ≤ E.term z) :
    E.excess z + k * (E.weight + 1 + E.n) ≤ E.excess ((z + k : ℕ) : ℚ) := by
  have hz' : (0 : ℚ) < z := by exact_mod_cast hz
  have htangent := E.term_tangent (Nat.cast_nonneg (z + k)) hz'.le
  have hslope := mul_le_mul_of_nonneg_left hterm (show 0 ≤ ((E.n : ℚ) + 1) * k by positivity)
  have hgrowth : E.term z + (E.n + 1) * k ≤ E.term ((z + k : ℕ) : ℚ) := by
    refine le_of_mul_le_mul_right ?_ hz'
    push_cast at htangent ⊢
    linarith
  unfold excess
  push_cast at hgrowth ⊢
  linarith

/-! ### The last step -/

namespace Rounded

variable {E} {D d e y : ℕ} {loss : ℚ}

/-- A step that does not go down is one from where the left side exceeds the target by no more than
what is lost. -/
theorem excess_lt_of_le {D' : ℕ} (h : E.Rounded D loss d e D') (hD : 0 < D) (hle : D ≤ D') :
    E.excess D < 1 + loss := by
  have hD' : (0 : ℚ) < D := by exact_mod_cast hD
  have hquotient := h.le_next_iff.mp hle
  have htarget : (e + d : ℚ) ≤ E.target := by
    refine le_of_mul_le_mul_right ?_ hD'
    linarith
  have := h.term_le
  have := h.weight_lt
  unfold excess
  linarith

/-- A step down by one ends two units above a number where the left side exceeds the target by no more
than what is lost. -/
theorem excess_lt_of_succ {x : ℕ} (h : E.Rounded (x + 2) loss d e (x + 1)) (hx : E.n ≤ x) :
    E.excess x < 1 + loss := by
  by_contra hexcess
  rw [not_lt] at hexcess
  have hx' : (E.n : ℚ) ≤ x := by exact_mod_cast hx
  have hloss := h.loss_nonneg
  have hquotient := h.le_next_iff.mp le_rfl
  have hterm := h.term_le
  have hweight := h.weight_lt
  have hpower := E.term_le_of_add_two hx
  push_cast at hquotient hterm hweight
  have hterm' := mul_le_mul_of_nonneg_left hterm (show 0 ≤ (x : ℚ) + 1 - E.n by linarith)
  have hweight' := mul_lt_mul_of_pos_left hweight (show (0 : ℚ) < x + 1 by positivity)
  have hexcess' := mul_le_mul_of_nonneg_right hexcess (show (0 : ℚ) ≤ x + 2 by positivity)
  have hn : 0 ≤ (E.n + 1) * loss := by positivity
  have hcovered := mul_nonneg E.weight_pos.le (show (0 : ℚ) ≤ x + 2 by positivity)
  unfold excess at hexcess'
  linarith

/-- **One unit below the answer the left side exceeds the target by no more than what is lost.** -/
theorem excess_lt (h : E.Rounded D loss d e (y + 1)) (hD : 0 < D) (hlow : y ≤ D)
    (hhigh : D ≤ y + 2) (hy : E.n ≤ y) : E.excess y < 1 + loss := by
  rcases Nat.lt_or_eq_of_le hhigh with hlt | rfl
  · have hmono := E.excess_mono (Nat.cast_nonneg y) (Nat.cast_le.mpr hlow)
    exact hmono.trans_lt (h.excess_lt_of_le hD (Nat.le_of_lt_succ hlt))
  · exact h.excess_lt_of_succ hy

/-- Where the equation is steep for what is lost, a step that goes down by no more than one ends one
unit above a number below the root at most. -/
theorem excess_neg (h : E.Rounded D loss d e (y + 1)) (hlow : y + 1 ≤ D) (hhigh : D ≤ y + 2)
    (hsteep : 6 * D * (1 + loss) ≤ 5 * E.slope D) (hlarge : 12 * (E.n + 1) ≤ D) :
    E.excess y < 0 := by
  by_contra hexcess
  rw [not_lt] at hexcess
  have hlow' : (y + 1 : ℚ) ≤ D := by exact_mod_cast hlow
  have hhigh' : (D : ℚ) ≤ y + 2 := by exact_mod_cast hhigh
  have hlarge' : (12 * (E.n + 1) : ℚ) ≤ D := by exact_mod_cast hlarge
  have hn : (0 : ℚ) ≤ E.n := Nat.cast_nonneg _
  have hD : (0 : ℚ) < D := by linarith
  have hloss := h.loss_nonneg
  have hquotient := h.le_next_iff.mp le_rfl
  push_cast at hquotient
  have hpower := E.term_sub_le (show (0 : ℚ) ≤ D - y by linarith) (by linarith) hlarge'
  rw [sub_sub_cancel] at hpower
  -- `k` counts the terms that are left of the divisor's
  obtain ⟨k, hk⟩ : ∃ k : ℚ, k = D - (E.n + 1) * (D - y - 1) := ⟨_, rfl⟩
  have hstep : (E.n + 1) * (D - y - 1 : ℚ) ≤ (E.n + 1) * 1 :=
    mul_le_mul_of_nonneg_left (by linarith) (by linarith)
  have hstep0 : 0 ≤ (E.n + 1) * (D - y - 1 : ℚ) := mul_nonneg (by linarith) (by linarith)
  have hquotient' : (y + 1) * e + k * d ≤ E.target * D := by
    rw [hk]
    linarith
  have hterm := mul_le_mul_of_nonneg_left h.term_le (show 0 ≤ k by linarith)
  have hweight := mul_le_mul_of_nonneg_left h.weight_lt.le (show (0 : ℚ) ≤ y + 1 by positivity)
  have hloss' := mul_le_mul_of_nonneg_right (show k ≤ D by linarith) hloss
  have hexcess' := mul_nonneg hexcess hD.le
  have hcovered := mul_pos E.weight_pos hD
  rw [hk] at hterm hloss' hquotient'
  unfold excess at hexcess'
  unfold slope at hsteep
  linarith

end Rounded

/-! ### Steady balances -/

namespace Descends

variable {E} {S L D d e D' : ℕ} {loss : ℕ → ℚ}

/-- The values of the iteration stay between the root and the start. -/
theorem next_bounds (h : E.Descends S L loss) (hL : L ≤ D) (hS : D ≤ S)
    (hr : E.Rounded D (loss D) d e D') : L ≤ D' ∧ D' ≤ max D (L + 1) := by
  refine ⟨hr.le_next h.below, ?_⟩
  have hlarge := h.large
  rcases hL.eq_or_lt with rfl | hlt
  · have habove := h.above (L + 1) (Nat.lt_succ_self L) h.lt
    have hsteep := h.steep (L + 1) (Nat.lt_succ_self L) h.lt
    push_cast at habove hsteep
    have := hr.next_le_succ habove (h.loss_mono (Nat.le_succ L)) hsteep hlarge
    omega
  · have := hr.next_le (h.above D hlt hS) (h.steep D hlt hS) (by omega)
    omega

/-- **The iteration stops one unit above the root at most.** -/
theorem next_le_succ (h : E.Descends S L loss) (hL : L ≤ D) (hS : D ≤ S)
    (hr : E.Rounded D (loss D) d e D') (hclose : D ≤ D' + 1) : D' ≤ L + 1 := by
  obtain ⟨-, hnext⟩ := h.next_bounds hL hS hr
  by_contra hfar
  obtain ⟨y, rfl⟩ := Nat.exists_eq_add_of_le' (show 1 ≤ D' by omega)
  have hlarge := h.large
  have hneg := hr.excess_neg (by omega) (by omega) (h.steep D (by omega) hS) (by omega)
  exact absurd hneg (not_lt.mpr (h.above y (by omega) (by omega)))

end Descends

/-! ### Numbers that are not above the exact invariant -/

namespace Models

variable {E} {A : ℕ} {xs : List ℕ}

/-- The exact invariant is not below the number of balances. -/
theorem atLeast_of_le_length (h : E.Models A xs) (hpos : ∀ x ∈ xs, 0 < x) {z : ℕ}
    (hz : z ≤ xs.length) : Polynomial.AtLeast A xs z := by
  have hpow : z ^ (xs.length + 1) ≤ z * (xs.length ^ xs.length * xs.prod) := by
    rw [Nat.pow_succ']
    refine Nat.mul_le_mul_left z ((Nat.pow_le_pow_left hz _).trans ?_)
    exact Nat.le_mul_of_pos_right _ (List.prod_pos hpos)
  have hterm : E.term z ≤ z := h.term_le_iff.mpr (by exact_mod_cast hpow)
  have hsum : (z : ℚ) ≤ xs.sum := by exact_mod_cast hz.trans (List.length_le_sum_of_one_le xs hpos)
  have := E.weight_add_one_mul_le hsum
  rw [h.atLeast_iff]
  linarith

/-- One unit is not above the root, rounded down as the target may be. -/
theorem excess_one_nonpos (h : E.Models A xs) (hpos : ∀ x ∈ xs, 0 < x) : E.excess 1 ≤ 0 := by
  have hscale : 0 < xs.length ^ xs.length * xs.prod := by exact_mod_cast h.scale_pos
  have hterm : E.term 1 ≤ 1 := by
    rw [h.term_le_iff, one_pow, one_mul]
    exact_mod_cast hscale
  have hsum : (2 : ℚ) ≤ xs.sum := by
    exact_mod_cast E.two_le.trans (h.n_eq.le.trans (List.length_le_sum_of_one_le xs hpos))
  have := E.weight_add_one_mul_le hsum
  have := h.target_bounds.2
  have := E.weight_pos
  unfold excess
  linarith

/-- Where no number below the root is above `D`, two units more are not below the exact invariant. -/
theorem atMost_add_two (h : E.Models A xs) {D : ℕ} (hD : ∀ L : ℕ, E.excess L ≤ 0 → L ≤ D) :
    Polynomial.AtMost A xs (D + 2) := by
  have hroot : 0 < E.excess ((D + 1 : ℕ) : ℚ) := by
    by_contra hle
    exact absurd (hD (D + 1) (not_lt.mp hle)) (Nat.not_succ_le_self D)
  have hterm := E.term_mono (Nat.cast_nonneg (D + 1))
    (Nat.cast_le.mpr (Nat.le_succ (D + 1)) : ((D + 1 : ℕ) : ℚ) ≤ (D + 2 : ℕ))
  have htwo : (2 : ℚ) ≤ E.n := by exact_mod_cast E.two_le
  have hweight := E.le_weight
  have htarget := h.target_bounds.2
  rw [h.atMost_iff, Nat.cast_add, Nat.cast_ofNat]
  unfold excess at hroot
  push_cast at hroot hterm
  linarith

/-- Above the exact invariant the term is not below the value. -/
theorem le_term_of_not_atLeast (h : E.Models A xs) (hpos : ∀ x ∈ xs, 0 < x) {z : ℕ}
    (hz : ¬ Polynomial.AtLeast A xs z) : (z : ℚ) ≤ E.term z := by
  rw [h.atLeast_iff, not_le] at hz
  rcases le_total (z : ℚ) xs.sum with hle | hge
  · have := E.weight_add_one_mul_le hle
    linarith
  · have hsum : (0 : ℚ) < xs.sum := by
      have := E.two_le.trans (h.n_eq.le.trans (List.length_le_sum_of_one_le xs hpos))
      exact_mod_cast (by omega : 0 < xs.sum)
    have hgrowth := E.term_mul_le hsum.le hge
    have hstart := mul_le_mul_of_nonneg_right h.sum_le_term (Nat.cast_nonneg z)
    refine le_of_mul_le_mul_right ?_ hsum
    linarith

/-- **So many units below the answer is not above the exact invariant**, as cover what is lost. -/
theorem atLeast_sub (h : E.Models A xs) (hpos : ∀ x ∈ xs, 0 < x) {D d e y units : ℕ} {loss : ℚ}
    (hr : E.Rounded D loss d e (y + 1)) (hD : 0 < D) (hlow : y ≤ D) (hhigh : D ≤ y + 2)
    (hunits : precision.val * (1 + loss) ≤ units * xs.length * (A + precision.val)) :
    Polynomial.AtLeast A xs (y - units) := by
  by_cases hsmall : y ≤ xs.length
  · exact h.atLeast_of_le_length hpos (by omega)
  by_contra hnot
  have hz : 0 < y - units := by
    rw [Nat.pos_iff_ne_zero]
    intro hzero
    exact hnot (hzero ▸ Polynomial.atLeast_zero A xs)
  have hgrowth := E.add_le_excess (k := units) hz (h.le_term_of_not_atLeast hpos hnot)
  rw [Nat.sub_add_cancel (by omega)] at hgrowth
  have hexcess := hr.excess_lt hD hlow hhigh (by rw [h.n_eq]; omega)
  have hroot : 0 ≤ E.excess ((y - units : ℕ) : ℚ) := by
    rw [h.atLeast_iff, not_le] at hnot
    have := h.target_bounds.1
    unfold excess
    linarith
  have hcovered : 1 + loss ≤ units * (E.weight + 1 + E.n) := by
    have hprecision : (0 : ℚ) < precision.val := by exact_mod_cast precision_pos
    refine le_of_mul_le_mul_right ?_ hprecision
    calc (1 + loss) * precision.val = precision.val * (1 + loss) := mul_comm _ _
      _ ≤ units * xs.length * (A + precision.val) := hunits
      _ = units * (A * xs.length + xs.length * precision.val) := by ring
      _ = units * (E.weight + 1 + E.n) * precision.val := by
          rw [← h.weight_add_one_mul, h.n_eq]
          ring
  linarith

end Models

end Equation

/-! ### The solver -/

section Solver

variable {A D : Amount} {xs : List Fixed}

/-- The last step that led to the invariant, from a value that has every property that the sum has and
the steps keep. -/
theorem rounded_of_invariant {E : Equation} (hE : E.Models A.val (weis xs))
    (hpos : ∀ x ∈ weis xs, 0 < x) {P : ℕ → Prop} (hsum : P (weis xs).sum)
    (hnext : ∀ x d e x', P x →
      E.Rounded x (flooringLoss (weis xs).length x (weis xs)) d e x' → P x')
    (h : invariant A xs = .ok D) :
    ∃ x d e, P x ∧ E.Rounded x (flooringLoss (weis xs).length x (weis xs)) d e D.val ∧
      D.val ≤ x + 1 ∧ x ≤ D.val + 1 := by
  have htwo : 2 ≤ xs.length := by
    have := E.two_le
    rwa [hE.n_eq, Fixed.length_weis] at this
  obtain ⟨hone, -⟩ | ⟨-, n, Ann, S, hn, hAnn, hS, h⟩ :=
    invariant_ok (List.ne_nil_of_length_pos (by omega)) (List.forall_mem_map.mp hpos) h
  · omega
  rw [← Fixed.length_weis] at hn hAnn
  obtain ⟨x, hx, hstep, hclose⟩ := iterate_last (P := fun x => P x.val) (fun x x' hx hx' => by
    obtain ⟨d, e, -, hr⟩ := hE.rounded hn hAnn hS hx'
    exact hnext _ d e _ hx hr) (hS ▸ hsum) h
  obtain ⟨d, e, -, hr⟩ := hE.rounded hn hAnn hS hstep
  rw [Amount.val_dist] at hclose
  exact ⟨x.val, d, e, hx, hr, by omega, by omega⟩

/-- Of steady balances, the invariant is one unit above the exact one at most. -/
theorem Regular.atLeast_sub_one (hr : Regular A.val (weis xs)) (hs : Steady A.val (weis xs))
    (h : invariant A xs = .ok D) : Polynomial.AtLeast A.val (weis xs) (D.val - 1) := by
  obtain ⟨L, hL⟩ := hr.exists_descends hs
  obtain ⟨x, d, e, ⟨hlow, hhigh⟩, hstep, -, hclose⟩ := rounded_of_invariant hr.models hr.pos
    (P := fun x => L ≤ x ∧ x ≤ (weis xs).sum) ⟨hL.lt.le, le_rfl⟩ (fun x d e x' hx hx' => by
      obtain ⟨hlow, hhigh⟩ := hL.next_bounds hx.1 hx.2 hx'
      exact ⟨hlow, hhigh.trans (max_le hx.2 hL.lt)⟩) h
  have hle := hL.next_le_succ hlow hhigh hstep hclose
  have hexcess := hr.equation.excess_mono (Nat.cast_nonneg (D.val - 1))
    (Nat.cast_le.mpr (show D.val - 1 ≤ L by omega))
  have hbelow := hexcess.trans hL.below
  have := hr.models.target_bounds.1
  unfold Equation.excess at hbelow
  rw [hr.models.atLeast_iff]
  linarith

/-- **The invariant is close to the exact one.** It is not more than two units below. It is above by one
unit, and by what the product term loses over what the left side of the equation grows by for a unit,
at most; of steady balances it is one unit above at most. -/
theorem invariant_enclosed (hA : precision.val ≤ A.val) (htwo : 2 ≤ xs.length)
    (hfive : xs.length ≤ 5) (hpos : ∀ x ∈ xs, 0 < x.wei.val) (h : invariant A xs = .ok D) :
    Polynomial.AtMost A.val (weis xs) (D.val + 2) ∧
    (∀ units : ℕ, precision.val * (1 + flooringLoss xs.length (D.val + 1) (weis xs)) ≤
        units * xs.length * (A.val + precision.val) →
      Polynomial.AtLeast A.val (weis xs) (D.val - 1 - units)) ∧
    (Regular A.val (weis xs) → Steady A.val (weis xs) →
      Polynomial.AtLeast A.val (weis xs) (D.val - 1)) := by
  have hpos' : ∀ x ∈ weis xs, 0 < x := List.forall_mem_map.mpr hpos
  rw [← Fixed.length_weis] at htwo hfive
  obtain ⟨E, hE⟩ := Equation.exists_models hA htwo hfive hpos'
  have hone : E.excess (1 : ℕ) ≤ 0 := by exact_mod_cast hE.excess_one_nonpos hpos'
  obtain ⟨x, d, e, hx, hstep, hup, hdown⟩ := rounded_of_invariant hE hpos' (P := (1 ≤ ·))
    (show 1 ≤ (weis xs).sum from (by omega : 1 ≤ (weis xs).length).trans
      (List.length_le_sum_of_one_le _ hpos')) (fun _ _ _ _ _ hr => hr.le_next hone) h
  refine ⟨hE.atMost_add_two fun L hL => hstep.le_next hL, fun units hunits => ?_,
    fun hr hs => hr.atLeast_sub_one hs h⟩
  obtain ⟨y, hy⟩ := Nat.exists_eq_add_of_le' (hstep.le_next hone)
  rw [← Fixed.length_weis] at hunits
  rw [hy] at hstep hup hdown hunits ⊢
  refine hE.atLeast_sub hpos' hstep hx (by omega) (by omega) (le_trans ?_ hunits)
  -- the loss at the value before is not above that at the answer and one unit more
  have hloss := flooringLoss_mono (Nat.cast_nonneg (weis xs).length) (Nat.cast_nonneg x)
    (show (x : ℚ) ≤ (y + 1 : ℕ) + 1 by exact_mod_cast hdown) (weis xs)
  exact mul_le_mul_of_nonneg_left (by linarith) (Nat.cast_nonneg _)

/-- A balance and twice as much, at the least amplification: what is lost costs one more unit, but the
balances are steady. -/
theorem invariant_enclosed_doubled :
    let xs : List Fixed := [⟨1000000000000000000⟩, ⟨2000000000000000000⟩]
    invariant precision xs = .ok 2912328492271816922 ∧
      Polynomial.AtMost precision.val (weis xs) 2912328492271816924 ∧
      Polynomial.AtLeast precision.val (weis xs) 2912328492271816920 ∧
      Polynomial.AtLeast precision.val (weis xs) 2912328492271816921 := by
  intro xs
  have h : invariant precision xs = .ok 2912328492271816922 := by decide +kernel
  obtain ⟨hmost, hlost, hsteady⟩ :=
    invariant_enclosed le_rfl (by decide) (by decide) (by decide) h
  refine ⟨h, hmost, hlost 1 ?_, hsteady ⟨le_rfl, by decide, by decide, by decide, by decide⟩
    (.ascending (by decide))⟩
  have hbalances : weis xs = [1000000000000000000, 2000000000000000000] := by decide
  rw [hbalances, val_precision]
  norm_num [flooringLoss, factorProduct, xs, show (2912328492271816922 : Amount).val =
    2912328492271816922 from by decide]

/-- The invariant of these balances is above the exact one. -/
theorem invariant_above_exact :
    let xs : List Fixed := [⟨1000000000000000000⟩, ⟨2000000000000000000⟩]
    invariant precision xs = .ok 2912328492271816922 ∧
      ¬ Polynomial.AtLeast precision.val (weis xs) 2912328492271816922 := by
  unfold Polynomial.AtLeast Polynomial.invariantSide Polynomial.amplifiedSide
  decide +kernel

end Solver

end StableSwap.Curve
