import Mathlib
import StableSwap.Proofs.Curve.Invariant

/-!
# What the product term loses to rounding

The product term multiplies by `D / (n·x)` for each balance in turn and rounds down every time. What
one rounding loses is multiplied by the factors that follow it, so the order of the balances matters:
what is lost in all is no more than `flooringLoss`, a sum of products of factors at the end of the list
(`productTerm_add_loss`).

Where small balances come first, the large factors do, and no such product exceeds that of all factors
unless it is below one (`flooringLoss_le_of_ascending`). In other orders it can be as large as the
factor of the smallest balance.
-/

namespace StableSwap.Curve
open Fixed (weis)

/-! ### The factors of the product term -/

/-- The product of the factors `D / (n·x)` of balances. -/
def factorProduct (n D : ℚ) : List ℕ → ℚ
  | [] => 1
  | x :: rest => D / (n * x) * factorProduct n D rest

theorem factorProduct_eq (n D : ℚ) :
    ∀ xs : List ℕ, factorProduct n D xs = D ^ xs.length / (n ^ xs.length * xs.prod)
  | [] => by simp [factorProduct]
  | x :: rest => by
      rw [factorProduct, factorProduct_eq n D rest, div_mul_div_comm, List.length_cons,
        List.prod_cons]
      push_cast
      ring

variable {n D : ℚ}

theorem factorProduct_nonneg (hn : 0 ≤ n) (hD : 0 ≤ D) :
    ∀ xs : List ℕ, 0 ≤ factorProduct n D xs
  | [] => zero_le_one
  | x :: rest => mul_nonneg (div_nonneg hD (mul_nonneg hn (Nat.cast_nonneg x)))
      (factorProduct_nonneg hn hD rest)

theorem factorProduct_mono {D' : ℚ} (hn : 0 ≤ n) (hD : 0 ≤ D) (hle : D ≤ D') :
    ∀ xs : List ℕ, factorProduct n D xs ≤ factorProduct n D' xs
  | [] => le_rfl
  | x :: rest => mul_le_mul (div_le_div_of_nonneg_right hle (mul_nonneg hn (Nat.cast_nonneg x)))
      (factorProduct_mono hn hD hle rest) (factorProduct_nonneg hn hD rest)
      (div_nonneg (hD.trans hle) (mul_nonneg hn (Nat.cast_nonneg x)))

/-- Factors of balances that are not below `n·x` are no larger than one. -/
theorem factorProduct_le_one (hn : 0 ≤ n) (hD : 0 ≤ D) {x : ℕ} (hx : D ≤ n * x) :
    ∀ {xs : List ℕ}, (∀ y ∈ xs, x ≤ y) → factorProduct n D xs ≤ 1
  | [], _ => le_rfl
  | y :: rest, h => by
      have hy : (x : ℚ) ≤ y := by exact_mod_cast h y List.mem_cons_self
      have hfactor : D / (n * y) ≤ 1 :=
        div_le_one_of_le₀ (hx.trans (mul_le_mul_of_nonneg_left hy hn))
          (mul_nonneg hn (Nat.cast_nonneg y))
      exact mul_le_one₀ hfactor (factorProduct_nonneg hn hD rest)
        (factorProduct_le_one hn hD hx fun z hz => h z (List.mem_cons_of_mem _ hz))

/-! ### The loss -/

/-- The most that rounding down after each factor can lose: each time less than one unit, multiplied
by all factors that follow. -/
def flooringLoss (n D : ℚ) : List ℕ → ℚ
  | [] => 0
  | _ :: rest => factorProduct n D rest + flooringLoss n D rest

theorem flooringLoss_mono {D' : ℚ} (hn : 0 ≤ n) (hD : 0 ≤ D) (hle : D ≤ D') :
    ∀ xs : List ℕ, flooringLoss n D xs ≤ flooringLoss n D' xs
  | [] => le_rfl
  | _ :: rest => add_le_add (factorProduct_mono hn hD hle rest) (flooringLoss_mono hn hD hle rest)

/-- Where small balances come first, what is lost is no more than the product of all factors, or one,
for each balance. -/
theorem flooringLoss_le_of_ascending (hn : 0 < n) (hD : 0 ≤ D) :
    ∀ {xs : List ℕ}, (∀ x ∈ xs, 0 < x) → xs.Pairwise (· ≤ ·) →
      flooringLoss n D xs ≤ xs.length * max 1 (factorProduct n D xs)
  | [], _, _ => by simp [flooringLoss]
  | x :: rest, hpos, hsorted => by
      obtain ⟨hx, hrest⟩ := List.pairwise_cons.mp hsorted
      have ih := flooringLoss_le_of_ascending hn hD
        (fun y hy => hpos y (List.mem_cons_of_mem _ hy)) hrest
      have hnx : 0 < n * x := mul_pos hn (by exact_mod_cast hpos x List.mem_cons_self)
      -- a factor above one makes the product larger, and after one below there are only such
      have hgrow : max 1 (factorProduct n D rest) ≤ max 1 (factorProduct n D (x :: rest)) := by
        rcases le_total (n * x) D with hlarge | hsmall
        · refine max_le_max le_rfl (le_mul_of_one_le_left (factorProduct_nonneg hn.le hD rest) ?_)
          rwa [one_le_div hnx]
        · exact max_le (le_max_left _ _)
            ((factorProduct_le_one hn.le hD hsmall hx).trans (le_max_left _ _))
      have hlength := mul_le_mul_of_nonneg_left hgrow (Nat.cast_nonneg rest.length : (0 : ℚ) ≤ _)
      have := (le_max_right 1 (factorProduct n D rest)).trans hgrow
      rw [flooringLoss, List.length_cons]
      push_cast
      linarith

/-! ### The rounded product term -/

/-- One more than a rounded quotient covers the exact one. -/
theorem div_lt_cast_div_add_one (a b : ℕ) : (a / b : ℚ) < ((a / b : ℕ) : ℚ) + 1 := by
  have hfloor := Nat.lt_floor_add_one ((a : ℚ) / b)
  rwa [Nat.floor_div_eq_div] at hfloor

/-- **The product term loses no more than the flooring loss.** -/
theorem productTerm_add_loss {n D term : Amount} {xs : List Fixed}
    (h : productTerm n D xs = .ok term) :
    (D.val : ℚ) * factorProduct n.val D.val (weis xs) ≤
      term.val + flooringLoss n.val D.val (weis xs) := by
  refine foldlM_eq_ok_rec (P := fun xs start => (start.val : ℚ) *
    factorProduct n.val D.val (weis xs) ≤ term.val + flooringLoss n.val D.val (weis xs))
    (by simp [factorProduct, flooringLoss]) (fun x rest start next hnext ih => ?_) h
  simp only [bind_eq_ok, Amount.mul_eq_ok, Amount.mulDivDown_eq_ok] at hnext
  obtain ⟨divisor, hdivisor, -, hnext⟩ := hnext
  have hfloor : (start.val : ℚ) * (D.val / (n.val * x.wei.val)) ≤ next.val + 1 := by
    have hlt := div_lt_cast_div_add_one (start.val * D.val) divisor.val
    rw [← hnext, hdivisor, Nat.mul_comm x.wei.val] at hlt
    push_cast at hlt
    rw [mul_div_assoc']
    exact hlt.le
  have hrest := factorProduct_nonneg (Nat.cast_nonneg n.val : (0 : ℚ) ≤ _)
    (Nat.cast_nonneg D.val) (weis rest)
  rw [Fixed.weis_cons, factorProduct, flooringLoss]
  calc (start.val : ℚ) * (D.val / (n.val * x.wei.val) * factorProduct n.val D.val (weis rest))
      = start.val * (D.val / (n.val * x.wei.val)) * factorProduct n.val D.val (weis rest) := by
        ring
    _ ≤ (next.val + 1) * factorProduct n.val D.val (weis rest) :=
        mul_le_mul_of_nonneg_right hfloor hrest
    _ = next.val * factorProduct n.val D.val (weis rest) +
          factorProduct n.val D.val (weis rest) := by ring
    _ ≤ term.val + flooringLoss n.val D.val (weis rest) +
          factorProduct n.val D.val (weis rest) := add_le_add_left ih _
    _ = _ := by ring

end StableSwap.Curve
