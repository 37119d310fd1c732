import Mathlib
import StableSwap.Proofs.Curve.Invariant

/-!
# The least product term

Among the lists of a given number of positive balances whose sum is bounded, one has the least product
term. It is found without going through them: the last of `k + 1` balances takes a part of the sum, and
those before it are `k` balances with the least term for the rest of the sum, as a smaller term stays
smaller.

A row has these least terms for one number of balances, by the sum that is left out of a largest one
(`RowBounds`). The tail that starts at an entry has the terms of all smaller sums, so the next row is
made from the tails (`nextRow`).
-/

namespace StableSwap.Curve
open Fixed (weis)

/-! ### The product term of numbers -/

/-- The product term of balances, whether it is an amount or not. -/
def flooredTerm (n D : ℕ) (xs : List ℕ) : ℕ := xs.foldl (fun term x => term * D / (x * n)) D

theorem productTerm_eq_flooredTerm {n D term : Amount} {xs : List Fixed}
    (h : productTerm n D xs = .ok term) : term.val = flooredTerm n.val D.val (weis xs) := by
  refine foldlM_eq_ok_rec (P := fun xs start => term.val =
    (weis xs).foldl (fun term x => term * D.val / (x * n.val)) start.val)
    rfl (fun x rest start next hnext ih => ?_) h
  simp only [bind_eq_ok, Amount.mul_eq_ok, Amount.mulDivDown_eq_ok] at hnext
  obtain ⟨divisor, hdivisor, -, hnext⟩ := hnext
  rw [ih, Fixed.weis_cons, List.foldl_cons, hnext, hdivisor]

variable {n D k : ℕ}

@[simp] theorem flooredTerm_nil : flooredTerm n D [] = D := rfl

theorem flooredTerm_concat (ys : List ℕ) (x : ℕ) :
    flooredTerm n D (ys ++ [x]) = flooredTerm n D ys * D / (x * n) := List.foldl_concat _ _ _ _

/-! ### Rows -/

/-- The least quotient by a last balance of `x` or more: of `t` by `x`, of the first term that follows
by `x + 1`, and so on. -/
def leastQuotient (n D : ℕ) : ℕ → ℕ → List ℕ → ℕ
  | x, t, [] => t * D / (x * n)
  | x, t, t' :: rest => min (t * D / (x * n)) (leastQuotient n D (x + 1) t' rest)

/-- The row of one balance more. -/
def nextRow (n D : ℕ) : List ℕ → List ℕ
  | [] => []
  | t :: rest => leastQuotient n D 1 t rest :: nextRow n D rest

/-- The row of `k` balances. -/
def leastRow (n D length : ℕ) : ℕ → List ℕ
  | 0 => List.replicate length D
  | k + 1 => nextRow n D (leastRow n D length k)

@[simp] theorem length_nextRow (n D : ℕ) : ∀ row, (nextRow n D row).length = row.length
  | [] => rfl
  | _ :: rest => congrArg (· + 1) (length_nextRow n D rest)

@[simp] theorem length_leastRow (n D length : ℕ) : ∀ k, (leastRow n D length k).length = length
  | 0 => List.length_replicate
  | k + 1 => (length_nextRow n D _).trans (length_leastRow n D length k)

/-- No term of `k` positive balances is below the entry of a row that leaves room for their sum: an
entry leaves one unit more than those that follow it, and the last leaves none beyond one unit for each
balance. -/
def RowBounds (n D k : ℕ) : List ℕ → Prop
  | [] => True
  | t :: rest =>
      (∀ ys : List ℕ, ys.length = k → (∀ y ∈ ys, 0 < y) → ys.sum ≤ k + rest.length →
        t ≤ flooredTerm n D ys) ∧ RowBounds n D k rest

theorem rowBounds_replicate (n D : ℕ) : ∀ length, RowBounds n D 0 (List.replicate length D)
  | 0 => trivial
  | length + 1 => by
      refine ⟨fun ys hlength _ _ => ?_, rowBounds_replicate n D length⟩
      rw [List.length_eq_zero_iff.mp hlength, flooredTerm_nil]

namespace RowBounds

theorem quotient_le {t : ℕ} {rest ys : List ℕ} (h : RowBounds n D k (t :: rest))
    (hlength : ys.length = k) (hpos : ∀ y ∈ ys, 0 < y) (hsum : ys.sum ≤ k + rest.length) (x : ℕ) :
    t * D / (x * n) ≤ flooredTerm n D ys * D / (x * n) :=
  Nat.div_le_div_right (Nat.mul_le_mul_right D (h.1 ys hlength hpos hsum))

theorem leastQuotient_le {t first x : ℕ} {rest ys : List ℕ} (h : RowBounds n D k (t :: rest))
    (hlength : ys.length = k) (hpos : ∀ y ∈ ys, 0 < y) (hx : first ≤ x)
    (hsum : ys.sum + x ≤ k + rest.length + first) :
    leastQuotient n D first t rest ≤ flooredTerm n D ys * D / (x * n) := by
  induction rest generalizing t first with
  | nil =>
      -- the balances before take all of the sum
      have := List.length_le_sum_of_one_le ys hpos
      rw [List.length_nil] at hsum
      obtain rfl : first = x := by omega
      exact h.quotient_le hlength hpos (by omega) first
  | cons t' rest ih =>
      rcases hx.eq_or_lt with rfl | hlt
      · exact (Nat.min_le_left _ _).trans (h.quotient_le hlength hpos (by omega) first)
      · rw [List.length_cons] at hsum
        exact (Nat.min_le_right _ _).trans (ih h.2 hlt (by omega))

/-- **A row of bounds gives one of bounds for one balance more.** -/
theorem nextRow : ∀ {row : List ℕ}, RowBounds n D k row → RowBounds n D (k + 1) (nextRow n D row)
  | [], _ => trivial
  | t :: rest, h => by
      refine ⟨fun zs hlength hpos hsum => ?_, nextRow h.2⟩
      obtain rfl | ⟨ys, x, rfl⟩ := List.eq_nil_or_concat' zs
      · exact absurd hlength (Nat.succ_ne_zero k).symm
      rw [length_nextRow, List.sum_append, List.sum_singleton] at hsum
      rw [List.length_append, List.length_singleton, Nat.succ.injEq] at hlength
      rw [flooredTerm_concat]
      exact h.leastQuotient_le hlength (fun y hy => hpos y (List.mem_append_left _ hy))
        (hpos x (List.mem_append_right _ List.mem_cons_self)) (by omega)

theorem le {t : ℕ} {ys : List ℕ} (hlength : ys.length = k) (hpos : ∀ y ∈ ys, 0 < y) :
    ∀ {row : List ℕ} {gap : ℕ}, RowBounds n D k row → row[gap]? = some t →
      ys.sum + gap < k + row.length → t ≤ flooredTerm n D ys
  | [], _, _, ht, _ => nomatch ht
  | t' :: rest, 0, h, ht, hsum => by
      obtain rfl := Option.some.inj ht
      rw [List.length_cons] at hsum
      exact h.1 ys hlength hpos (by omega)
  | t' :: rest, gap + 1, h, ht, hsum => by
      rw [List.length_cons] at hsum
      exact le hlength hpos h.2 ht (by omega)

end RowBounds

theorem rowBounds_leastRow (n D length : ℕ) : ∀ k, RowBounds n D k (leastRow n D length k)
  | 0 => rowBounds_replicate n D length
  | k + 1 => (rowBounds_leastRow n D length k).nextRow

/-- The product term of positive balances is not below an entry of their row. -/
theorem exists_mem_leastRow_le {gap : ℕ} {xs : List ℕ} (hpos : ∀ x ∈ xs, 0 < x)
    (hsum : xs.sum + gap = D) :
    ∃ t, (t, gap) ∈ (leastRow xs.length D (D - xs.length + 1) xs.length).zipIdx ∧
      t ≤ flooredTerm xs.length D xs := by
  have hlength := List.length_le_sum_of_one_le xs hpos
  have hgap : gap < (leastRow xs.length D (D - xs.length + 1) xs.length).length := by
    rw [length_leastRow]
    omega
  refine ⟨_, List.mk_mem_zipIdx_iff_getElem?.mpr (List.getElem?_eq_getElem hgap), ?_⟩
  refine (rowBounds_leastRow _ _ _ _).le rfl hpos (List.getElem?_eq_getElem hgap) ?_
  rw [length_leastRow]
  omega

end StableSwap.Curve
