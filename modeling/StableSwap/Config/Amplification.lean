import StableSwap.Amount.Text
import StableSwap.Curve.Invariant

/-!
# Amplification

How flat the curve is: a ratio between 1 and 5000. The curve takes it as an integer at the
precision `Curve.precision`, rounded down (`Amplification.scaled`); the bounds are bounds of that
integer.

* `Ratio.withBase?` is a ratio at any precision.
* `Amplification` is a ratio within bounds.
-/

namespace StableSwap

/-- Why an amplification is refused. -/
inductive AmplificationFault where
  | zeroPrecision
  | overflow
  | outOfRange (factor precision : Amount)
  deriving DecidableEq

def AmplificationFault.message : AmplificationFault → String
  | .zeroPrecision => "Zero precision not allowed"
  | .overflow => "amplification overflows"
  | .outOfRange factor precision =>
    "amplification " ++ factor.toDecimal ++ "/" ++ precision.toDecimal ++ " outside of [1, 5000]"

/-- A ratio of two amounts. -/
structure Ratio where
  factor : Amount
  precision : Amount
  deriving DecidableEq

namespace Ratio

/-- The ratio as an integer at a base, rounded down, if the scaled numerator is an amount. -/
def withBase? (r : Ratio) (base : Amount) : Option Amount :=
  (Amount.ofNat? (r.factor.val * base.val)).map fun product =>
    ⟨product.val / r.precision.val, Nat.lt_of_le_of_lt (Nat.div_le_self _ _) product.val_lt⟩

/-- Why the ratio is no amplification, if it is none. -/
def fault? (r : Ratio) : Option AmplificationFault :=
  if r.precision = 0 then
    some .zeroPrecision
  else
    match r.withBase? Curve.precision with
    | none => some .overflow
    | some value =>
      if 1 * Curve.precision.val ≤ value.val ∧ value.val ≤ 5000 * Curve.precision.val then none
      else some (.outOfRange r.factor r.precision)

end Ratio

/-- A ratio between 1 and 5000. -/
structure Amplification extends Ratio where
  accepted : toRatio.fault? = none
  deriving DecidableEq

namespace Amplification

/-- The ratio of two amounts, if it is within bounds. -/
def ofRatio (factor precision : Amount) : Except AmplificationFault Amplification :=
  match h : Ratio.fault? ⟨factor, precision⟩ with
  | none => .ok ⟨⟨factor, precision⟩, h⟩
  | some fault => .error fault

/-- A whole number, if it is within bounds. -/
def ofAmount (value : Amount) : Except AmplificationFault Amplification := ofRatio value 1

/-- The ratio as the curve takes it. There always is one (`withBase?_precision`). -/
def scaled (a : Amplification) : Amount :=
  (a.withBase? Curve.precision).getD ⟨5000 * Curve.precision.val, by decide⟩

theorem exists_withBase?_precision (a : Amplification) :
    ∃ value, a.withBase? Curve.precision = some value ∧
      1 * Curve.precision.val ≤ value.val ∧ value.val ≤ 5000 * Curve.precision.val := by
  have h := a.accepted
  simp only [Ratio.fault?] at h
  split at h
  · cases h
  cases hvalue : a.withBase? Curve.precision with
  | none => simp [hvalue] at h
  | some value => exact ⟨value, rfl, by simpa [hvalue] using h⟩

theorem withBase?_precision (a : Amplification) : a.withBase? Curve.precision = some a.scaled := by
  obtain ⟨value, h, -⟩ := a.exists_withBase?_precision
  rw [scaled, h]
  rfl

/-- The bounds of the ratio, as bounds of the integer that the curve takes. -/
theorem scaled_bounds (a : Amplification) : 1000 ≤ a.scaled.val ∧ a.scaled.val ≤ 5000000 := by
  obtain ⟨value, h, hbounds⟩ := a.exists_withBase?_precision
  rw [a.withBase?_precision, Option.some.injEq] at h
  rw [h]
  exact hbounds

end Amplification

end StableSwap
