import Mathlib
import StableSwap.Proofs.Scaling

/-!
# There and back again

At rates that are not zero every factor is positive (`factor_pos`): bringing a token to eighteen
decimals multiplies its rate by one at least.

The conversions then come in two adjoint pairs. What pays an amount out, `upscaleUp` and
`downscaleDown`, are bounds of the values that cover it; what takes an amount in, `upscale` and
`downscaleUp`, are bounds of the amounts that cover a value. Converting there and back gives a caller
no more than before, and neither does splitting an amount (`conversions_adjoint`).
-/

namespace StableSwap.Scaling

variable {tokens : List Token} {token : Token} {rates : List Fixed} {s : Scaling} {index : ℕ}
  {a b r part rest : Amount} {rate factor x y up down value : Fixed}

/-! ### Factors -/

theorem unit_le_tenPow (e : Fin 60) : Fixed.unit.val ≤ (Fixed.tenPow e).wei.val := by
  rw [show Fixed.unit.val = 10 ^ 18 from rfl]
  exact Nat.pow_le_pow_right (Nat.succ_pos 9) (Nat.le_add_left 18 e.val)

/-- A factor is no less than the rate. -/
theorem rate_le_factor (h : Scaling.factor token rate = .ok factor) :
    rate.wei.val ≤ factor.wei.val := by
  rw [Fixed.mulDown_eq_ok.mp h, Nat.le_div_iff_mul_le Fixed.unit_pos, Nat.mul_comm]
  exact Nat.mul_le_mul_right _ (unit_le_tenPow _)

theorem factor_pos (hrates : ∀ rate ∈ rates, 0 < rate.wei.val)
    (h : ofRates tokens rates = .ok s) : ∀ factor ∈ s.factors, 0 < factor.wei.val := by
  obtain ⟨factors, hfactors, rfl⟩ := map_eq_ok.mp h
  intro factor hmem
  obtain ⟨⟨token, rate⟩, hpair, hfactor⟩ := exists_of_mem_mapM hfactors hmem
  have hpos := hrates rate (List.of_mem_zip hpair).2
  exact hpos.trans_le (rate_le_factor hfactor)

/-! ### Pairs of conversions -/

theorem upscaleUp_le_iff_le_downscaleDown (hup : s.upscaleUp index r = .ok up)
    (hdown : s.downscaleDown index x = .ok b) : up ≤ x ↔ r ≤ b :=
  (upscaleUp_le_iff hup).trans (le_downscaleDown_iff hdown).symm

theorem downscaleUp_le_iff_le_upscale (hup : s.downscaleUp index x = .ok b)
    (hdown : s.upscale index r = .ok down) : b ≤ r ↔ x ≤ down :=
  (downscaleUp_le_iff hup).trans (le_upscale_iff hdown).symm

/-- What a value covers is no more than what covers the value. -/
theorem CoveredBy.le_of_covers {v : ℕ} (hpos : 0 < (s.factorAt index).wei.val)
    (ha : s.CoveredBy index a v) (hb : s.Covers index b v) : a ≤ b :=
  Nat.le_of_mul_le_mul_right (ha.trans hb) hpos

/-- Only at a positive factor is there a way back. -/
theorem factorAt_pos_of_downscaleDown (h : s.downscaleDown index x = .ok a) :
    0 < (s.factorAt index).wei.val := by
  obtain ⟨_, hquotient, -⟩ := map_eq_ok.mp h
  exact (Fixed.divDown_eq_ok.mp hquotient).1

theorem factorAt_pos_of_downscaleUp (h : s.downscaleUp index x = .ok a) :
    0 < (s.factorAt index).wei.val := by
  obtain ⟨_, hquotient, -⟩ := map_eq_ok.mp h
  exact (Fixed.divUp_eq_ok.mp hquotient).1

/-- What was paid in is worth no more when it is paid out again. -/
theorem downscaleDown_upscale_le (hin : s.upscale index a = .ok x)
    (hout : s.downscaleDown index x = .ok b) : b ≤ a :=
  (coveredBy_downscaleDown hout).le_of_covers (factorAt_pos_of_downscaleDown hout)
    (covers_upscale hin)

/-- What was paid out costs no less when it is paid in again. -/
theorem le_downscaleUp_upscaleUp (hout : s.upscaleUp index a = .ok x)
    (hin : s.downscaleUp index x = .ok b) : a ≤ b :=
  (coveredBy_upscaleUp hout).le_of_covers (factorAt_pos_of_downscaleUp hin)
    (covers_downscaleUp hin)

/-! ### Parts of an amount -/

theorem upscale_val (h : s.upscale index r = .ok x) :
    x.wei.val = r.val * (s.factorAt index).wei.val / Fixed.unit.val := Fixed.mulDown_eq_ok.mp h

/-- Taking a part away at its upper value leaves no less than the rest is worth. -/
theorem upscale_le_add_upscaleUp (hle : part ≤ r) (hwhole : s.upscale index r = .ok value)
    (hrest : s.upscale index (r.monus part) = .ok x) (hpart : s.upscaleUp index part = .ok up) :
    value.wei.val ≤ x.wei.val + up.wei.val := by
  rw [upscale_val hwhole, upscale_val hrest]
  exact worth_le_add (coveredBy_upscaleUp hpart) (Nat.sub_add_cancel hle)

/-- Two parts are worth no more than the whole. -/
theorem upscale_add_upscale_le (hle : part ≤ r) (hwhole : s.upscale index r = .ok value)
    (hrest : s.upscale index (r.monus part) = .ok x) (hpart : s.upscale index part = .ok down) :
    x.wei.val + down.wei.val ≤ value.wei.val := by
  rw [upscale_val hwhole, upscale_val hrest]
  exact worth_add_le (covers_upscale hpart) (Nat.sub_add_cancel hle).symm

/-- **Conversions are adjoint and superadditive**, at rates that are not zero: the factors are
positive, the conversions for paying out and those for paying in are adjoint pairs, a way there and
back never favours the caller, and an amount is worth no more in parts. -/
theorem conversions_adjoint (hrates : ∀ rate ∈ rates, 0 < rate.wei.val)
    (h : ofRates tokens rates = .ok s) :
    (∀ factor ∈ s.factors, 0 < factor.wei.val) ∧
    (∀ index r x up down, s.upscaleUp index r = .ok up → s.downscaleDown index x = .ok down →
      (up ≤ x ↔ r ≤ down)) ∧
    (∀ index r x down up, s.downscaleUp index x = .ok up → s.upscale index r = .ok down →
      (up ≤ r ↔ x ≤ down)) ∧
    (∀ index r x back, s.upscale index r = .ok x → s.downscaleDown index x = .ok back →
      back ≤ r) ∧
    (∀ index r x back, s.upscaleUp index r = .ok x → s.downscaleUp index x = .ok back →
      r ≤ back) ∧
    ∀ index r part value rest, part ≤ r → s.upscale index r = .ok value →
      s.upscale index (r.monus part) = .ok rest →
      (∀ up, s.upscaleUp index part = .ok up → value.wei.val ≤ rest.wei.val + up.wei.val) ∧
      ∀ down, s.upscale index part = .ok down → rest.wei.val + down.wei.val ≤ value.wei.val := by
  refine ⟨factor_pos hrates h, ?_, ?_, ?_, ?_, ?_⟩
  · intro index r x up down hup hdown
    exact upscaleUp_le_iff_le_downscaleDown hup hdown
  · intro index r x down up hup hdown
    exact downscaleUp_le_iff_le_upscale hup hdown
  · intro index r x back hin hout
    exact downscaleDown_upscale_le hin hout
  · intro index r x back hout hin
    exact le_downscaleUp_upscaleUp hout hin
  · intro index r part value rest hle hwhole hrest
    constructor
    · intro up hpart
      exact upscale_le_add_upscaleUp hle hwhole hrest hpart
    · intro down hpart
      exact upscale_add_upscale_le hle hwhole hrest hpart

/-- The factors of a token with six decimals and of one with eighteen at a rate of 0.3. -/
def uneven : Scaling := ⟨[⟨1234567890123456789000000000000⟩, ⟨300000000000000000⟩]⟩

/-- Five units at a rate of 0.3 are worth between one and two, and both bounds lie between three and
seven units. -/
theorem conversions_adjoint_uneven :
    ofRates [{ address := 1, decimals := 6 }, { address := 2, decimals := 18 }]
        [⟨1234567890123456789⟩, ⟨300000000000000000⟩] = .ok uneven ∧
      (∀ factor ∈ uneven.factors, 0 < factor.wei.val) ∧
      uneven.upscaleUp 1 5 = .ok ⟨2⟩ ∧ uneven.downscaleDown 1 ⟨2⟩ = .ok 6 ∧
      ((⟨2⟩ : Fixed) ≤ ⟨2⟩ ↔ (5 : Amount) ≤ 6) ∧
      uneven.downscaleUp 1 ⟨2⟩ = .ok 7 ∧ uneven.upscale 1 5 = .ok ⟨1⟩ ∧
      ((7 : Amount) ≤ 5 ↔ (⟨2⟩ : Fixed) ≤ ⟨1⟩) ∧
      uneven.downscaleDown 1 ⟨1⟩ = .ok 3 ∧ (3 : Amount) ≤ 5 ∧ (5 : Amount) ≤ 7 ∧
      uneven.upscale 1 ((5 : Amount).monus 2) = .ok ⟨0⟩ ∧ uneven.upscaleUp 1 2 = .ok ⟨1⟩ ∧
      (1 : Amount).val ≤ (0 : Amount).val + (1 : Amount).val := by
  have h : ofRates [{ address := 1, decimals := 6 }, { address := 2, decimals := 18 }]
      [⟨1234567890123456789⟩, ⟨300000000000000000⟩] = .ok uneven := by decide +kernel
  have hout : uneven.upscaleUp 1 5 = .ok ⟨2⟩ := by decide +kernel
  have hout' : uneven.downscaleDown 1 ⟨2⟩ = .ok 6 := by decide +kernel
  have hin : uneven.upscale 1 5 = .ok ⟨1⟩ := by decide +kernel
  have hin' : uneven.downscaleUp 1 ⟨2⟩ = .ok 7 := by decide +kernel
  have hback : uneven.downscaleDown 1 ⟨1⟩ = .ok 3 := by decide +kernel
  have hrest : uneven.upscale 1 ((5 : Amount).monus 2) = .ok ⟨0⟩ := by decide +kernel
  have hpart : uneven.upscaleUp 1 2 = .ok ⟨1⟩ := by decide +kernel
  obtain ⟨hpos, hadj, hadj', htrip, htrip', hparts⟩ := conversions_adjoint (by decide) h
  exact ⟨h, hpos, hout, hout', hadj 1 5 ⟨2⟩ _ _ hout hout', hin', hin, hadj' 1 5 ⟨2⟩ _ _ hin' hin,
    hback, htrip 1 5 _ _ hin hback, htrip' 1 5 _ _ hout hin', hrest, hpart,
    (hparts 1 5 2 _ _ (by decide) hin hrest).1 _ hpart⟩

end StableSwap.Scaling
