import Mathlib
import StableSwap.Curve.Invariant
import StableSwap.Proofs.Curve.Balance

/-!
# The invariant of positive balances is positive

The iteration for the invariant starts from the sum of the balances. A step from a positive value
answers a positive value (`invariantStep_pos`): the rounded numerator still covers the rounded
denominator, as from one unit the product term vanishes and from two units on it weighs more in the
numerator. So the invariant is zero exactly where it is cut off (`invariant_pos_iff`).
-/

namespace StableSwap.Curve
open Fixed (weis)

/-- The sum of balances is the sum of their units. -/
theorem total_ok {xs : List Fixed} {sum : Fixed} (h : total xs = .ok sum) :
    sum.wei.val = (weis xs).sum := by
  rw [← Nat.zero_add (weis xs).sum]
  refine foldlM_eq_ok_rec (P := fun xs start => sum.wei.val = start.wei.val + (weis xs).sum)
    (by simp) (fun x rest start next hnext ih => ?_) h
  rw [ih, Fixed.add_eq_ok.mp hnext, Fixed.weis_cons, List.sum_cons, Nat.add_assoc]

/-- The product term is not above its exact value. -/
theorem productTerm_ok {n D term : Amount} {xs : List Fixed} (h : productTerm n D xs = .ok term) :
    term.val * (n.val ^ xs.length * (weis xs).prod) ≤ D.val ^ (xs.length + 1) := by
  rw [Nat.pow_succ']
  refine foldlM_eq_ok_rec (P := fun xs start =>
    term.val * (n.val ^ xs.length * (weis xs).prod) ≤ start.val * D.val ^ xs.length)
    (by simp) (fun x rest start next hnext ih => ?_) h
  simp only [bind_eq_ok, Amount.mul_eq_ok, Amount.mulDivDown_eq_ok] at hnext
  obtain ⟨divisor, hdivisor, -, hnext⟩ := hnext
  have hfloor : next.val * divisor.val ≤ start.val * D.val := by
    rw [hnext]
    exact Nat.div_mul_le_self _ _
  rw [hdivisor] at hfloor
  rw [List.length_cons, Fixed.weis_cons, List.prod_cons]
  calc term.val * (n.val ^ (rest.length + 1) * (x.wei.val * (weis rest).prod))
      = term.val * (n.val ^ rest.length * (weis rest).prod) * (x.wei.val * n.val) := by ring
    _ ≤ next.val * D.val ^ rest.length * (x.wei.val * n.val) := Nat.mul_le_mul_right _ ih
    _ = next.val * (x.wei.val * n.val) * D.val ^ rest.length := by ring
    _ ≤ start.val * D.val * D.val ^ rest.length := Nat.mul_le_mul_right _ hfloor
    _ = start.val * D.val ^ (rest.length + 1) := by ring

/-- From one unit, the product term of several positive balances vanishes. -/
theorem productTerm_one {n D term : Amount} {xs : List Fixed} (hn : 2 ≤ n.val) (hne : xs ≠ [])
    (hpos : ∀ x ∈ xs, 0 < x.wei.val) (hD : D.val = 1) (h : productTerm n D xs = .ok term) :
    term.val = 0 := by
  have hle := productTerm_ok h
  rw [hD, Nat.one_pow] at hle
  have hprod : 0 < (weis xs).prod := by
    refine List.prod_pos fun a ha => ?_
    obtain ⟨x, hx, rfl⟩ := List.mem_map.mp ha
    exact hpos x hx
  have hpow : 2 ≤ n.val ^ xs.length :=
    hn.trans (Nat.le_self_pow (List.length_pos_iff.mpr hne).ne' _)
  by_contra hterm
  have : 1 * (2 * 1) ≤ term.val * (n.val ^ xs.length * (weis xs).prod) :=
    Nat.mul_le_mul (Nat.pos_of_ne_zero hterm) (Nat.mul_le_mul hpow hprod)
  omega

/-- What a step answers, as one quotient. -/
theorem invariantStep_ok {Ann n S D D' : Amount} {xs : List Fixed}
    (h : invariantStep Ann n S xs D = .ok D') :
    ∃ term, productTerm n D xs = .ok term ∧ (n.val + 1) * term.val < Amount.bound ∧
      0 < (Ann.val - precision.val) * D.val / precision.val + (n.val + 1) * term.val ∧
      D'.val = (Ann.val * S.val / precision.val + n.val * term.val) * D.val /
        ((Ann.val - precision.val) * D.val / precision.val + (n.val + 1) * term.val) := by
  simp only [invariantStep, bind_eq_ok, Amount.mulDivDown_eq_ok, Amount.mul_eq_ok,
    Amount.add_eq_ok, Amount.sub_eq_ok] at h
  obtain ⟨term, hterm, amplifiedSum, ⟨-, hamplifiedSum⟩, weightedTerm, hweighted, numerator,
    hnumerator, excess, hexcess, amplifiedD, ⟨-, hamplifiedD⟩, next, hnext, heavierTerm, hheavier,
    denominator, hdenominator, hdenominator_ne, hD'⟩ := h
  have hexcess' : excess.val = Ann.val - precision.val := by omega
  rw [hnext, Amount.val_one] at hheavier
  rw [hamplifiedD, hheavier, hexcess'] at hdenominator
  rw [hamplifiedSum, hweighted, Nat.mul_comm term.val] at hnumerator
  rw [hnumerator, hdenominator] at hD'
  rw [hdenominator] at hdenominator_ne
  exact ⟨term, hterm, hheavier ▸ heavierTerm.val_lt, Nat.pos_of_ne_zero hdenominator_ne, hD'⟩

/-- **A step from a positive value answers a positive value.** -/
theorem invariantStep_pos {Ann n S D D' : Amount} {xs : List Fixed} (hn : 2 ≤ n.val)
    (hne : xs ≠ []) (hpos : ∀ x ∈ xs, 0 < x.wei.val) (hS : 0 < S.val) (hD : 0 < D.val)
    (h : invariantStep Ann n S xs D = .ok D') : 0 < D'.val := by
  obtain ⟨term, hterm, -, hdivisor, hD'⟩ := invariantStep_ok h
  -- the amplified sum, rounded down, times `D` covers the amplified `D`
  have hsum : (Ann.val - precision.val) * D.val / precision.val ≤
      Ann.val * S.val / precision.val * D.val := by
    have hlt := Nat.lt_mul_div_succ (Ann.val * S.val) precision_pos
    refine Nat.div_le_of_le_mul ?_
    have hAnn : Ann.val ≤ Ann.val * S.val := Nat.le_mul_of_pos_right _ hS
    calc (Ann.val - precision.val) * D.val
        ≤ precision.val * (Ann.val * S.val / precision.val) * D.val :=
          Nat.mul_le_mul_right _ (by rw [Nat.mul_add] at hlt; omega)
      _ = precision.val * (Ann.val * S.val / precision.val * D.val) := Nat.mul_assoc _ _ _
  have hheavy : (n.val + 1) * term.val ≤ n.val * term.val * D.val := by
    rcases Nat.lt_or_ge D.val 2 with hlt | hge
    · rw [productTerm_one hn hne hpos (by omega) hterm]
      simp
    · calc (n.val + 1) * term.val ≤ n.val * 2 * term.val := Nat.mul_le_mul_right _ (by omega)
        _ ≤ n.val * D.val * term.val := Nat.mul_le_mul_right _ (Nat.mul_le_mul_left _ hge)
        _ = n.val * term.val * D.val := by ring
  rw [hD']
  exact Nat.div_pos ((Nat.add_le_add hsum hheavy).trans_eq (Nat.add_mul _ _ _).symm) hdivisor

theorem sum_weis_pos {xs : List Fixed} (hne : xs ≠ []) (hpos : ∀ x ∈ xs, 0 < x.wei.val) :
    0 < (weis xs).sum := by
  obtain ⟨x, hx⟩ := List.exists_mem_of_ne_nil xs hne
  exact (hpos x hx).trans_le (List.le_sum_of_mem (List.mem_map_of_mem hx))

/-- The invariant of positive balances: that of one is the balance, and that of more is what the
iteration from their sum answers. -/
theorem invariant_ok {A D : Amount} {xs : List Fixed} (hne : xs ≠ [])
    (hpos : ∀ x ∈ xs, 0 < x.wei.val) (h : invariant A xs = .ok D) :
    xs.length = 1 ∧ D.val = (weis xs).sum ∨
      2 ≤ xs.length ∧ ∃ n Ann S : Amount, n.val = xs.length ∧ Ann.val = A.val * xs.length ∧
        S.val = (weis xs).sum ∧
        iterate (invariantStep Ann n S xs) .invariantDidNotConverge maxRounds S = .ok D := by
  obtain ⟨sum, hsum, h⟩ := bind_eq_ok.mp h
  have hsum' := total_ok hsum
  split at h
  · rename_i hcut
    rcases hcut with rfl | hmem
    · exact absurd hsum'.symm (sum_weis_pos hne hpos).ne'
    · exact absurd rfl (hpos 0 hmem).ne'
  split at h
  · rename_i hone
    obtain rfl := pure_eq_ok.mp h
    exact .inl ⟨hone, hsum'⟩
  · rename_i hone
    simp only [Amount.count, bind_eq_ok, Amount.narrow_eq_ok, Amount.mul_eq_ok] at h
    obtain ⟨n, hn, Ann, hAnn, h⟩ := h
    have := List.length_pos_iff.mpr hne
    exact .inr ⟨by omega, n, Ann, sum.wei, hn, hn ▸ hAnn, hsum', h⟩

/-- **The invariant is positive exactly where there are balances and all are positive.** -/
theorem invariant_pos_iff {A D : Amount} {xs : List Fixed} (h : invariant A xs = .ok D) :
    0 < D.val ↔ xs ≠ [] ∧ ∀ x ∈ xs, 0 < x.wei.val := by
  constructor
  · intro hD
    obtain ⟨sum, hsum, h⟩ := bind_eq_ok.mp h
    split at h
    · obtain rfl := pure_eq_ok.mp h
      exact absurd rfl hD.ne'
    rename_i hcut
    rw [not_or] at hcut
    obtain ⟨hsum_ne, hmem⟩ := hcut
    constructor
    · rintro rfl
      exact hsum_ne (Fixed.ext (Amount.ext (total_ok hsum)))
    · intro x hx
      rw [Nat.pos_iff_ne_zero]
      intro h0
      obtain rfl : x = 0 := Fixed.ext (Amount.ext h0)
      exact hmem hx
  · rintro ⟨hne, hpos⟩
    have hsum := sum_weis_pos hne hpos
    obtain ⟨-, hD⟩ | ⟨htwo, n, Ann, S, hn, -, hS, h⟩ := invariant_ok hne hpos h
    · exact hD ▸ hsum
    · rw [← hn] at htwo
      rw [← hS] at hsum
      -- the start is positive, and every step keeps it so
      obtain ⟨a, ha, hstep, -⟩ := iterate_last (P := fun D => 0 < D.val)
        (fun _ _ ha hb => invariantStep_pos htwo hne hpos hsum ha hb) hsum h
      exact invariantStep_pos htwo hne hpos hsum ha hstep

end StableSwap.Curve
