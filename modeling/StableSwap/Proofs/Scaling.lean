import Mathlib
import StableSwap.Scaling
import StableSwap.Proofs.Rounding

/-!
# Raw amounts and what they are worth

`Scaling.worth` is what raw amounts are worth in the common unit, each rounded down; it is what
scaling computes (`weis_upscaleAll`), where that succeeds.

An amount covers a value when it is worth at least that much (`Covers`), and is covered by it when
it is worth no more (`CoveredBy`), both before rounding. Paying in an amount that covers a value
raises what the balance is worth by at least the value (`worth_add_le`); paying out an amount that a
value covers lowers it by at most the value (`worth_le_add`). Each of the four conversions is the
largest or the least on its side of one of these relations (`le_upscale_iff`, `upscaleUp_le_iff`,
`downscaleUp_le_iff`, `le_downscaleDown_iff`).
-/

namespace StableSwap.Scaling
open Fixed (weis)

variable {s : Scaling} {amount : Amount} {value : Fixed} {index : ℕ}

/-- What raw amounts are worth in the common unit, each rounded down. -/
def worth (s : Scaling) (amounts : List Amount) : List ℕ :=
  List.zipWith (fun amount factor => amount.val * factor.wei.val / Fixed.unit.val) amounts s.factors

theorem weis_upscaleAll {amounts : List Amount} {xs : List Fixed}
    (h : s.upscaleAll amounts = .ok xs) : weis xs = s.worth amounts := by
  have hxs := mapM_eq_ok.mp h
  simp only [Fixed.mulDown_eq_ok] at hxs
  rw [worth, ← List.map_uncurry_zip_eq_zipWith, ← List.forall₂_eq_eq_eq, weis,
    List.forall₂_map_left_iff, List.forall₂_map_right_iff]
  exact hxs.flip.imp fun _ _ h => h

theorem length_worth (s : Scaling) (amounts : List Amount) :
    (s.worth amounts).length = min amounts.length s.tokenCount := List.length_zipWith

theorem getD_worth (s : Scaling) (amounts : List Amount) (i : ℕ) :
    (s.worth amounts).getD i 0 =
      (amounts.getD i 0).val * (s.factorAt i).wei.val / Fixed.unit.val := by
  simp only [worth, factorAt, List.getD_eq_getElem?_getD, List.getElem?_zipWith]
  cases amounts[i]? with
  | none => simp
  | some amount =>
      cases s.factors[i]? with
      | none => simp
      | some factor => simp

/-! ### Covering -/

/-- The raw amount of a token is worth at least the value. -/
def Covers (s : Scaling) (index : ℕ) (amount : Amount) (value : ℕ) : Prop :=
  value * Fixed.unit.val ≤ amount.val * (s.factorAt index).wei.val

/-- The raw amount of a token is worth at most the value. -/
def CoveredBy (s : Scaling) (index : ℕ) (amount : Amount) (value : ℕ) : Prop :=
  amount.val * (s.factorAt index).wei.val ≤ value * Fixed.unit.val

theorem le_upscale_iff (h : s.upscale index amount = .ok value) {v : ℕ} :
    v ≤ value.wei.val ↔ s.Covers index amount v := by
  rw [Fixed.mulDown_eq_ok.mp h, Nat.le_div_iff_mul_le Fixed.unit_pos, Covers]

theorem covers_upscale (h : s.upscale index amount = .ok value) :
    s.Covers index amount value.wei.val :=
  (le_upscale_iff h).mp le_rfl

theorem covers_upscaleAll {amounts : List Amount} {xs : List Fixed}
    (h : s.upscaleAll amounts = .ok xs) (i : ℕ) :
    s.Covers i (amounts.getD i 0) (xs.getD i 0).wei.val := by
  unfold Covers
  rw [← Fixed.getD_weis, weis_upscaleAll h, getD_worth]
  exact Nat.div_mul_le_self _ _

theorem upscaleUp_le_iff (h : s.upscaleUp index amount = .ok value) {v : ℕ} :
    value.wei.val ≤ v ↔ s.CoveredBy index amount v := by
  rw [Fixed.mulUp_eq_ok.mp h, ceilDiv_le_iff Fixed.unit_pos, CoveredBy]

theorem coveredBy_upscaleUp (h : s.upscaleUp index amount = .ok value) :
    s.CoveredBy index amount value.wei.val :=
  (upscaleUp_le_iff h).mp le_rfl

theorem coveredBy_upscaleAllUp {amounts : List Amount} {xs : List Fixed}
    (hlen : amounts.length = s.tokenCount) (h : s.upscaleAllUp amounts = .ok xs) :
    xs.length = amounts.length ∧
      ∀ i < amounts.length, s.CoveredBy i (amounts.getD i 0) (xs.getD i 0).wei.val := by
  obtain ⟨hxs, hget⟩ := mapM_zip_ok hlen h 0 0 0
  exact ⟨hxs, fun i hi => coveredBy_upscaleUp (hget i hi)⟩

theorem downscaleUp_le_iff (h : s.downscaleUp index value = .ok amount) {r : Amount} :
    amount ≤ r ↔ s.Covers index r value.wei.val := by
  obtain ⟨quotient, hquotient, rfl⟩ := map_eq_ok.mp h
  obtain ⟨hpos, hval⟩ := Fixed.divUp_eq_ok.mp hquotient
  rw [Amount.le_def, hval, ceilDiv_le_iff hpos, Covers]

theorem covers_downscaleUp (h : s.downscaleUp index value = .ok amount) :
    s.Covers index amount value.wei.val :=
  (downscaleUp_le_iff h).mp (Nat.le_refl _)

theorem le_downscaleDown_iff (h : s.downscaleDown index value = .ok amount) {r : Amount} :
    r ≤ amount ↔ s.CoveredBy index r value.wei.val := by
  obtain ⟨quotient, hquotient, rfl⟩ := map_eq_ok.mp h
  obtain ⟨hpos, hval⟩ := Fixed.divDown_eq_ok.mp hquotient
  rw [Amount.le_def, hval, Nat.le_div_iff_mul_le hpos, CoveredBy]

theorem coveredBy_downscaleDown (h : s.downscaleDown index value = .ok amount) :
    s.CoveredBy index amount value.wei.val :=
  (le_downscaleDown_iff h).mp (Nat.le_refl _)

/-- An amount that is worth nothing in the common unit pays nothing out. -/
theorem value_pos_of_downscaleDown (h : s.downscaleDown index value = .ok amount)
    (hamount : 0 < amount.val) : 0 < value.wei.val := by
  obtain ⟨quotient, hquotient, rfl⟩ := map_eq_ok.mp h
  obtain ⟨-, hval⟩ := Fixed.divDown_eq_ok.mp hquotient
  rw [Nat.pos_iff_ne_zero]
  intro h0
  rw [h0, Nat.zero_mul, Nat.zero_div] at hval
  exact hamount.ne' hval

theorem Covers.mono {more : Amount} {v : ℕ} (h : s.Covers index amount v)
    (hle : amount.val ≤ more.val) : s.Covers index more v :=
  h.trans (Nat.mul_le_mul_right _ hle)

/-- Nothing covers no value. -/
theorem Covers.pos {v : ℕ} (h : s.Covers index amount v) (hv : 0 < v) : 0 < amount.val :=
  Nat.pos_of_mul_pos_right ((Nat.mul_pos hv Fixed.unit_pos).trans_le h)

/-- An amount that a value covers is worth no more than the value. -/
theorem CoveredBy.worth_le {v : ℕ} (h : s.CoveredBy index amount v) :
    amount.val * (s.factorAt index).wei.val / Fixed.unit.val ≤ v :=
  Nat.div_le_of_le_mul (h.trans_eq (Nat.mul_comm _ _))

/-- **Paying in an amount that covers a value** raises what a balance is worth by the value. -/
theorem worth_add_le {held after v : ℕ} (h : s.Covers index amount v)
    (hafter : after = held + amount.val) :
    held * (s.factorAt index).wei.val / Fixed.unit.val + v ≤
      after * (s.factorAt index).wei.val / Fixed.unit.val := by
  rw [← Nat.add_mul_div_right _ _ Fixed.unit_pos, hafter, Nat.add_mul]
  exact Nat.div_le_div_right (Nat.add_le_add_left h _)

/-- **Paying out an amount that a value covers** lowers what a balance is worth by no more. -/
theorem worth_le_add {held after v : ℕ} (h : s.CoveredBy index amount v)
    (hafter : after + amount.val = held) :
    held * (s.factorAt index).wei.val / Fixed.unit.val ≤
      after * (s.factorAt index).wei.val / Fixed.unit.val + v := by
  rw [← Nat.add_mul_div_right _ _ Fixed.unit_pos, ← hafter, Nat.add_mul]
  exact Nat.div_le_div_right (Nat.add_le_add_left h _)

end StableSwap.Scaling
