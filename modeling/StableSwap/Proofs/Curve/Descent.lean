import Mathlib
import StableSwap.Proofs.Curve.Balance
import StableSwap.Proofs.Overflow

/-!
# The solver for a balance comes down to the root

Every value of the iteration is on or above the root of the quadratic `y² + b·y = c + D·y`. Where the
parabola rises from its root on (`Quadratic.Rising`), a step from there does not go up
(`Quadratic.Above.next_le`) and halves the distance to the least number that is not below the root
(`Quadratic.Above.next_le_add`). A first step that does not overflow starts below `2¹²⁸`, so the rounds
are enough (`iterate_balanceStep_settles`).

Where the iteration stops, the last step leaves no room for two more units: the answer is the least
number above the root or one of the two that follow it (`missingBalance_tight`).
-/

namespace StableSwap.Curve
open Fixed (weis)

/-! ### Above the root -/

namespace Quadratic

variable {q : Quadratic} {D x y z d m k half : ℕ}

/-- `y` is not above the positive root of the quadratic of a balance. -/
def Below (q : Quadratic) (D y : ℕ) : Prop := y * y + q.b.val * y ≤ q.c.val + D * y

/-- The parabola rises from its root on: the root is positive, or the parabola rises at zero. -/
def Rising (q : Quadratic) (D : ℕ) : Prop := 0 < q.c.val ∨ D < q.b.val

/-- The divisor of a step from above the root is positive. -/
theorem Above.lt_double (h : q.Above D y) (hq : q.Rising D) : D < 2 * y + q.b.val := by
  unfold Above at h
  rcases hq with hc | hb
  · by_contra hle
    have := Nat.mul_le_mul_right y (not_lt.mp hle)
    nlinarith only [this, h, hc]
  · omega

/-- **A step from above the root does not go up.** -/
theorem Above.next_le (h : q.Above D y) (hd : D + d = 2 * y + q.b.val) (hpos : 0 < d) :
    ceilDiv (y * y + q.c.val) d ≤ y := by
  have hmul : D * y + y * d = 2 * (y * y) + q.b.val * y := by
    rw [Nat.mul_comm D, ← Nat.mul_add, hd]; ring
  rw [ceilDiv_le_iff hpos]
  unfold Above at h
  omega

/-- **A step halves the distance to a number above the root.** -/
theorem Above.next_le_add (h : q.Above D m) (hq : q.Rising D)
    (hd : D + d = 2 * (m + k) + q.b.val) (hpos : 0 < d) (hk : k ≤ 2 * half) :
    ceilDiv ((m + k) * (m + k) + q.c.val) d ≤ m + half := by
  -- `e` is the divisor of a step from `m`, and the step does not go up
  obtain ⟨e, he⟩ := Nat.exists_eq_add_of_lt (h.lt_double hq)
  have hde : d = e + 1 + 2 * k := by omega
  have hroot : m * m + q.c.val ≤ m * (e + 1) :=
    (ceilDiv_le_iff (Nat.succ_pos e)).mp (h.next_le (by omega) (Nat.succ_pos e))
  have hhalf : k * k ≤ half * d := by
    calc k * k ≤ 2 * half * k := Nat.mul_le_mul_right k hk
      _ = half * (2 * k) := by ring
      _ ≤ half * d := Nat.mul_le_mul_left half (by omega)
  rw [ceilDiv_le_iff hpos]
  calc (m + k) * (m + k) + q.c.val = m * m + q.c.val + (2 * m * k + k * k) := by ring
    _ ≤ m * (e + 1) + (2 * m * k + half * d) :=
        Nat.add_le_add hroot (Nat.add_le_add_left hhalf _)
    _ = (m + half) * d := by rw [hde]; ring

/-- A step that does not come down by more than one, and would not reach `z + 1` exactly, leaves `z` on
the lower side of the root. -/
theorem below_of_uncovered (hd : D + d = 2 * x + q.b.val) (hle : z + 2 ≤ x) (hge : x ≤ z + 3)
    (h : (z + 1) * d < x * x + q.c.val) : q.Below D z := by
  obtain ⟨k, rfl⟩ := Nat.exists_eq_add_of_le (show z ≤ x by omega)
  by_contra hbelow
  unfold Below at hbelow
  rw [not_le] at hbelow
  have hz : 0 < z := by
    rw [Nat.pos_iff_ne_zero]
    rintro rfl
    simp at hbelow
  -- above the root the parabola rises, by `e` for every unit
  have hrise : D < z + q.b.val := by
    refine Nat.lt_of_mul_lt_mul_right (a := z) ?_
    rw [Nat.add_mul]
    omega
  obtain ⟨e, he⟩ := Nat.exists_eq_add_of_lt hrise
  have hde : d = e + 1 + z + 2 * k := by omega
  have hc : q.c.val < z * (e + 1) := by
    have : D * z + z * (e + 1) = z * z + q.b.val * z := by
      calc D * z + z * (e + 1) = (D + e + 1) * z := by ring
        _ = z * z + q.b.val * z := by rw [← he]; ring
    omega
  have hroom : e + 1 + z + 2 * k + 1 < k * k := by
    have hexpand : (z + 1) * d = z * z + 2 * (z * k) + z * (e + 1) + (e + 1 + z + 2 * k) := by
      rw [hde]; ring
    have hsquare : (z + k) * (z + k) = z * z + 2 * (z * k) + k * k := by ring
    omega
  obtain rfl | rfl : k = 2 ∨ k = 3 := by omega
  · omega
  · omega

end Quadratic

/-! ### The start -/

section

variable {A D start x y : Amount} {xs : List Fixed} {index : ℕ} {q : Quadratic}

theorem balanceStart_ok (h : balanceStart q D = .ok start) :
    0 < D.val + q.b.val ∧
      start.val = ceilDiv (D.val * D.val + q.c.val) (D.val + q.b.val) := by
  simp only [balanceStart, bind_eq_ok, Amount.mul_eq_ok, Amount.add_eq_ok, Amount.divUp_eq_ok] at h
  obtain ⟨square, hsquare, numerator, hnumerator, divisor, hdivisor, hne, hstart⟩ := h
  rw [hnumerator, hsquare, hdivisor] at hstart
  exact ⟨hdivisor ▸ Nat.pos_of_ne_zero hne, hstart⟩

/-- The iteration starts above the root, with what a step from `D` would answer. -/
theorem balanceStart_above (h : balanceStart q D = .ok start) : q.Above D.val start.val := by
  obtain ⟨hpos, hstart⟩ := balanceStart_ok h
  refine Quadratic.above_of_covers (x := D.val) (d := D.val + q.b.val) (by omega) ?_
  rw [hstart]
  exact le_ceilDiv_mul _ hpos

/-- The parabola of a missing balance rises from its root on, if the iteration can be started. -/
theorem coefficients_rising (hq : coefficients A xs D index = .ok q)
    (hstart : balanceStart q D = .ok start) : q.Rising D.val := by
  rcases Nat.eq_zero_or_pos D.val with hD | hD
  · have := (balanceStart_ok hstart).1
    exact .inr (by omega)
  · obtain ⟨n, term, sum, -, hterms, -, -, hc⟩ := coefficients_terms hq
    obtain ⟨-, hterm, -⟩ := otherTerms_ok hterms
    have hterm' : 0 < term.val :=
      Nat.pos_of_mul_pos_right ((Nat.mul_pos hD (Nat.pow_pos hD)).trans_le hterm)
    exact .inl (Nat.pos_of_mul_pos_right
      ((Nat.mul_pos hterm' (Nat.mul_pos hD precision_pos)).trans_le hc))

/-! ### The steps -/

/-- One value of the iteration follows another. -/
def Quadratic.Step (q : Quadratic) (D y y' : Amount) : Prop := balanceStep q D y = .ok y'

theorem balanceStep_le (hx : q.Above D.val x.val) (h : balanceStep q D x = .ok y) :
    y.val ≤ x.val := by
  obtain ⟨d, hd, hpos, -, hy⟩ := balanceStep_ok h
  rw [hy]
  exact hx.next_le hd hpos

/-- From above the root the divisor of a step is positive, and no difference negative. -/
theorem balanceStep_onlyOverflows (hq : q.Rising D.val) (hx : q.Above D.val x.val) :
    OnlyOverflows (balanceStep q D x) := by
  have hlt := hx.lt_double hq
  refine (Amount.onlyOverflows_mul _ _).bind fun square _ => ?_
  refine (Amount.onlyOverflows_add _ _).bind fun numerator _ => ?_
  refine (Amount.onlyOverflows_mul _ _).bind fun double hdouble => ?_
  refine (Amount.onlyOverflows_add _ _).bind fun sum hsum => ?_
  have hdouble' : double.val = 2 * x.val := by
    rw [Amount.mul_eq_ok.mp hdouble, Nat.mul_comm]
    rfl
  rw [Amount.add_eq_ok, hdouble'] at hsum
  refine (Amount.onlyOverflows_sub (by omega)).bind fun denominator hdenominator => ?_
  rw [Amount.sub_eq_ok] at hdenominator
  exact Amount.onlyOverflows_divUp (by omega)

/-- **The iteration from above the root settles in time.** -/
theorem iterate_balanceStep_settles (hq : q.Rising D.val) (hstart : q.Above D.val start.val)
    (failure : MathError) : OnlyOverflows (iterate (balanceStep q D) failure maxRounds start) := by
  classical
  -- `m` is the least number above the root, and a value of rank `k` is above it by `2 ^ k` at most
  obtain ⟨m, hm, hleast⟩ : ∃ m, q.Above D.val m ∧ ∀ z, q.Above D.val z → m ≤ z :=
    ⟨Nat.find ⟨_, hstart⟩, Nat.find_spec ⟨_, hstart⟩, fun _ hz => Nat.find_min' _ hz⟩
  have hnext : ∀ k x y, q.Above D.val x.val ∧ x.val ≤ m + 2 ^ k → balanceStep q D x = .ok y →
      (y.dist x).val ≤ 1 ∨ ∃ j, j < k ∧ q.Above D.val y.val ∧ y.val ≤ m + 2 ^ j := by
    rintro k x y ⟨hx, hnear⟩ hy
    have hlow := hleast _ (balanceStep_above hy)
    have hle := balanceStep_le hx hy
    cases k with
    | zero =>
        rw [Amount.val_dist]
        omega
    | succ k =>
        obtain ⟨d, hd, hpos, -, hy'⟩ := balanceStep_ok hy
        obtain ⟨r, hr⟩ := Nat.exists_eq_add_of_le (hleast _ hx)
        refine .inr ⟨k, Nat.lt_succ_self k, balanceStep_above hy, ?_⟩
        rw [hr] at hd hy'
        rw [hy']
        exact hm.next_le_add hq hd hpos (by omega)
  -- the square of the start is an amount once the first step did not overflow
  cases hfirst : balanceStep q D start with
  | error cause =>
      rw [maxRounds, iterate, hfirst]
      exact .error (balanceStep_onlyOverflows hq hstart cause hfirst)
  | ok next =>
      obtain ⟨-, -, -, hsquare, -⟩ := balanceStep_ok hfirst
      have hnear : start.val ≤ m + 2 ^ 128 := by
        have hbound : Amount.bound = 2 ^ 128 * 2 ^ 128 := by decide
        rw [hbound] at hsquare
        have := Nat.mul_self_lt_mul_self_iff.mp hsquare
        omega
      exact iterate_onlyOverflows (fun _ x hx => balanceStep_onlyOverflows hq hx.1) hnext
        (by decide : 128 < maxRounds) ⟨hstart, hnear⟩

/-- Every value of the iteration is above the root. -/
theorem above_of_steps (hstart : q.Above D.val start.val)
    (h : Relation.ReflTransGen (q.Step D) start y) : q.Above D.val y.val := by
  induction h with
  | refl => exact hstart
  | tail _ hstep _ => exact balanceStep_above hstep

/-! ### Failures -/

theorem otherTerms_overflowsOrDivides {n : Amount} :
    ∀ (rest : List Fixed) (term sum : Amount), OverflowsOrDivides (otherTerms n D term sum rest)
  | [], _, _ => .ok _
  | _ :: rest, _, _ =>
      (Amount.onlyOverflows_mul _ _).orDivides.bind fun _ _ =>
        (Amount.overflowsOrDivides_mulDivUp _ _ _).bind fun _ _ =>
          (Amount.onlyOverflows_add _ _).orDivides.bind fun _ _ =>
            otherTerms_overflowsOrDivides rest _ _

theorem coefficients_overflowsOrDivides (A : Amount) (xs : List Fixed) (D : Amount) (index : ℕ) :
    OverflowsOrDivides (coefficients A xs D index) := by
  refine (Amount.onlyOverflows_count _).orDivides.bind fun n _ => ?_
  refine (Amount.onlyOverflows_mul _ _).orDivides.bind fun Ann _ => ?_
  refine (otherTerms_overflowsOrDivides _ _ _).bind fun terms _ => ?_
  refine (Amount.onlyOverflows_mul _ _).orDivides.bind fun scaledD _ => ?_
  refine (Amount.onlyOverflows_mul _ _).orDivides.bind fun divisor _ => ?_
  refine (Amount.overflowsOrDivides_mulDivUp _ _ _).bind fun c _ => ?_
  refine (Amount.overflowsOrDivides_mulDivDown _ _ _).bind fun share _ => ?_
  exact (Amount.onlyOverflows_add _ _).orDivides.bind fun b _ => .ok _

theorem balanceStart_overflowsOrDivides (q : Quadratic) (D : Amount) :
    OverflowsOrDivides (balanceStart q D) := by
  refine (Amount.onlyOverflows_mul _ _).orDivides.bind fun square _ => ?_
  refine (Amount.onlyOverflows_add _ _).orDivides.bind fun numerator _ => ?_
  refine (Amount.onlyOverflows_add _ _).orDivides.bind fun divisor _ => ?_
  exact Amount.overflowsOrDivides_divUp _ _

/-- The solver for a balance never runs out of rounds, and no difference on its way is negative. -/
theorem missingBalance_overflowsOrDivides (A : Amount) (xs : List Fixed) (D : Amount) (index : ℕ) :
    OverflowsOrDivides (missingBalance A xs D index) := by
  unfold missingBalance
  split
  · exact .ok _
  refine (coefficients_overflowsOrDivides A xs D index).bind fun q hq => ?_
  refine (balanceStart_overflowsOrDivides q D).bind fun start hstart => ?_
  have hsettles := iterate_balanceStep_settles (coefficients_rising hq hstart)
    (balanceStart_above hstart) .balanceDidNotConverge
  exact hsettles.orDivides.bind fun y _ => .ok _

end

/-! ### The missing balance -/

/-- **The solver for a balance answers, or an overflow or a division by zero is the cause**: it neither
runs out of rounds nor takes a difference that is negative. The divisor of each of its steps is
positive, and its values do not increase. -/
theorem missingBalance_settles (A D : Amount) (xs : List Fixed) (index : ℕ) :
    ((∃ y, missingBalance A xs D index = .ok y) ∨
      missingBalance A xs D index = .error .multiplicationOverflow ∨
      missingBalance A xs D index = .error .additionOverflow ∨
      missingBalance A xs D index = .error .divisionByZero) ∧
    ∀ q start y, coefficients A xs D index = .ok q → balanceStart q D = .ok start →
      Relation.ReflTransGen (q.Step D) start y →
      D.val < 2 * y.val + q.b.val ∧ ∀ y', q.Step D y y' → y' ≤ y := by
  refine ⟨(missingBalance_overflowsOrDivides A xs D index).cases, ?_⟩
  intro q start y hq hstart hsteps
  have habove := above_of_steps (balanceStart_above hstart) hsteps
  exact ⟨habove.lt_double (coefficients_rising hq hstart), fun y' hy' => balanceStep_le habove hy'⟩

/-- The first of two balances at the least amplification, after one step. -/
theorem missingBalance_settles_pair :
    let q : Quadratic := ⟨3500, 1687500⟩
    coefficients precision [⟨1000⟩, ⟨2000⟩] 3000 0 = .ok q ∧ balanceStart q 3000 = .ok 1645 ∧
      q.Step 3000 1645 1160 ∧
      (3000 : Amount).val < 2 * (1160 : Amount).val + q.b.val ∧
      ∀ y', q.Step 3000 1160 y' → y' ≤ 1160 := by
  intro q
  have hq : coefficients precision [⟨1000⟩, ⟨2000⟩] 3000 0 = .ok q := by decide +kernel
  have hstart : balanceStart q 3000 = .ok 1645 := by decide +kernel
  have hstep : q.Step 3000 1645 1160 := by
    change balanceStep q 3000 1645 = .ok 1160
    decide +kernel
  exact ⟨hq, hstart, hstep,
    (missingBalance_settles precision 3000 [⟨1000⟩, ⟨2000⟩] 0).2 q 1645 1160 hq hstart (.single hstep)⟩

/-- Where two successive values are close, the second is at most two units above the root. -/
theorem below_of_balanceStep {q : Quadratic} {D x y : Amount} (hx : q.Above D.val x.val)
    (h : balanceStep q D x = .ok y) (hclose : (y.dist x).val ≤ 1) (hy : 2 ≤ y.val) :
    q.Below D.val (y.val - 2) := by
  have hle := balanceStep_le hx h
  rw [Amount.val_dist] at hclose
  obtain ⟨d, hd, hpos, -, hquotient⟩ := balanceStep_ok h
  refine Quadratic.below_of_uncovered hd (by omega) (by omega) ?_
  -- one unit less than the answer does not cover the quotient
  rw [← not_le, ← ceilDiv_le_iff hpos, ← hquotient]
  omega

/-- **The balance that is solved for is tight**: it is on or above the root of the rounded quadratic,
two units less are not, and it is not below the exact balance. -/
theorem missingBalance_tight {A D : Amount} {xs : List Fixed} {index : ℕ} {y : Fixed}
    (hlen : 2 ≤ xs.length) (hi : index < xs.length) (h : missingBalance A xs D index = .ok y) :
    let n := xs.length
    let S := ((weis xs).eraseIdx index).sum
    let Q := ((weis xs).eraseIdx index).prod
    ∃ q, coefficients A xs D index = .ok q ∧ q.Above D.val y.wei.val ∧
      (2 ≤ y.wei.val → q.Below D.val (y.wei.val - 2)) ∧
      (D.val ^ (n + 1) * precision.val : ℤ) ≤
        (y.wei.val ^ 2 + (S - D.val) * y.wei.val) * (A.val * n) * n ^ n * Q +
          D.val * precision.val * y.wei.val * n ^ n * Q := by
  intro n S Q
  have hexact := missingBalance_atLeast hi h
  simp only [missingBalance, if_neg (show xs.length ≠ 1 by omega), bind_eq_ok, pure_eq_ok] at h
  obtain ⟨q, hq, start, hstart, y, hy, rfl⟩ := h
  obtain ⟨x, hx, hstep, hclose⟩ := iterate_last (P := fun x => q.Above D.val x.val)
    (fun _ _ _ hb => balanceStep_above hb) (balanceStart_above hstart) hy
  refine ⟨q, hq, balanceStep_above hstep, below_of_balanceStep hx hstep hclose, ?_⟩
  rw [Fixed.weis_set, atLeast_set_iff (by rwa [Fixed.length_weis]), Fixed.length_weis] at hexact
  change precision.val * D.val ^ (n + 1) + A.val * n * D.val * (n ^ n * (y.val * Q)) ≤
    (A.val * n * (y.val + S) + precision.val * D.val) * (n ^ n * (y.val * Q)) at hexact
  clear_value n S Q
  zify at hexact
  linarith only [hexact]

/-- The first of two balances at the least amplification, against the root of its quadratic. -/
theorem missingBalance_tight_pair :
    let xs : List Fixed := [⟨1000⟩, ⟨2000⟩]
    missingBalance precision xs 3000 0 = .ok ⟨1073⟩ ∧
      ∃ q, coefficients precision xs 3000 0 = .ok q ∧ q.Above 3000 1073 ∧ q.Below 3000 1071 := by
  intro xs
  have h : missingBalance precision xs 3000 0 = .ok ⟨1073⟩ := by decide +kernel
  obtain ⟨q, hq, habove, hbelow, -⟩ :=
    missingBalance_tight (by decide : 2 ≤ xs.length) (by decide : 0 < xs.length) h
  exact ⟨h, q, hq, habove, hbelow (by decide)⟩

end StableSwap.Curve
