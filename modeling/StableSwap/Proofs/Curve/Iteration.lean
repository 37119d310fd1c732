import Mathlib
import StableSwap.Curve.Invariant
import StableSwap.Proofs.Overflow

/-!
# What an iteration answers, and when

Both equations of the curve are solved by `iterate`. An answer is the result of one more step from a
value that is at most one away (`iterate_last`), and there is an answer if every step lowers a rank
(`iterate_onlyOverflows`). What the steps do not fail by, the iteration does not
(`iterate_failsOnlyBy`).
-/

namespace StableSwap.Curve

variable {step : Amount → Except MathError Amount} {failure : MathError}

/-- A successful iteration ends with a step from a value that has every property that the start has
and the steps keep. -/
theorem iterate_last {P : Amount → Prop} (hP : ∀ a b, P a → step a = .ok b → P b) :
    ∀ {rounds : ℕ} {x y : Amount}, P x → iterate step failure rounds x = .ok y →
      ∃ a, P a ∧ step a = .ok y ∧ (y.dist a).val ≤ 1
  | 0, _, _, _, h => nomatch h
  | rounds + 1, x, y, hx, h => by
      obtain ⟨next, hnext, h⟩ := bind_eq_ok.mp h
      split at h
      · rename_i hclose
        obtain rfl := pure_eq_ok.mp h
        exact ⟨x, hx, hnext, Amount.le_def.mp hclose⟩
      · exact iterate_last hP (hP x next hx hnext) h

/-- An iteration fails by what its steps fail by, or because it does not settle. -/
theorem iterate_failsOnlyBy {P : MathError → Prop} (hstep : ∀ x, FailsOnlyBy P (step x))
    (hfailure : P failure) : ∀ (rounds : ℕ) (x : Amount),
      FailsOnlyBy P (iterate step failure rounds x)
  | 0, _ => .error hfailure
  | rounds + 1, x => by
      refine (hstep x).bind fun y _ => ?_
      split
      · exact .ok y
      · exact iterate_failsOnlyBy hstep hfailure rounds y

/-- An iteration settles in time if every step settles it or lowers a rank that is below the number of
rounds. -/
theorem iterate_onlyOverflows {P : ℕ → Amount → Prop}
    (hstep : ∀ k x, P k x → OnlyOverflows (step x))
    (hnext : ∀ k x y, P k x → step x = .ok y → (y.dist x).val ≤ 1 ∨ ∃ j, j < k ∧ P j y) :
    ∀ {rounds k : ℕ} {x : Amount}, k < rounds → P k x →
      OnlyOverflows (iterate step failure rounds x)
  | 0, _, _, hk, _ => absurd hk (Nat.not_lt_zero _)
  | rounds + 1, k, x, hk, hx => by
      refine (hstep k x hx).bind fun y hy => ?_
      split
      · exact .ok y
      · rename_i hfar
        obtain ⟨j, hj, hyj⟩ := (hnext k x y hx hy).resolve_left hfar
        exact iterate_onlyOverflows hstep hnext (by omega) hyj

end StableSwap.Curve
