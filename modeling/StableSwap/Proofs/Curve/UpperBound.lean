import Mathlib
import StableSwap.Proofs.Curve.LeastTerm
import StableSwap.Proofs.Curve.TermLoss

/-!
# The invariant is not above the sum

The exact invariant is not above the sum of the balances. The iteration for it can be: where small
balances come last, a product term far below the root is rounded to almost nothing, and the step that
follows jumps over the sum. It does not end there: the product term is large enough at the sum or above
it (`productTerm_outweighs`) that a step from the sum does not rise, one from a unit above it falls, and
one from further above falls too far to be the last (`invariantStep_le_of_outweighs`).

From 25 units on the term is large enough by the most it can lose (`productTerm_lowerBound`), and below
that by the least terms there are (`leastRow_outweighs`).
-/

namespace StableSwap.Curve
open Fixed (weis)

/-! ### Steps from the sum and above -/

/-- A product term `t` at a value `D` that exceeds the sum by `gap` keeps a step from `D` from ending
above the sum: at the sum the step does not rise, one unit above it falls, and further above it falls by
more than one unit. -/
def Outweighs (n D : ℕ) : (gap t : ℕ) → Prop
  | 0, t => D * (D + 1) < n * D + (D + n + 1) * t
  | 1, t => D < n + t
  | _ + 2, t => D * D ≤ n * D + (D - n - 1) * t + 1

instance (n D : ℕ) : ∀ gap t, Decidable (Outweighs n D gap t)
  | 0, _ => inferInstanceAs (Decidable (_ < _))
  | 1, _ => inferInstanceAs (Decidable (_ < _))
  | _ + 2, _ => inferInstanceAs (Decidable (_ ≤ _))

variable {n D S t u : ℕ}

theorem Outweighs.mono (htu : t ≤ u) : ∀ {gap : ℕ}, Outweighs n D gap t → Outweighs n D gap u
  | 0, h => lt_of_lt_of_le h (Nat.add_le_add_left (Nat.mul_le_mul_left _ htu) _)
  | 1, h => lt_of_lt_of_le h (Nat.add_le_add_left htu _)
  | _ + 2, h =>
      le_trans h (Nat.add_le_add_right (Nat.add_le_add_left (Nat.mul_le_mul_left _ htu) _) _)

section Quotients

-- `q` is the amplified sum and `e` the amplified value without one, both rounded down
variable {P a q e : ℕ}

/-- A step from the sum answers less than one more. -/
theorem Outweighs.lt_at_sum (h : Outweighs n D 0 t) (hq : n * D ≤ q) (he : e + D = q) :
    (q + n * t) * D < (D + 1) * (e + (n + 1) * t) := by
  unfold Outweighs at h
  calc (q + n * t) * D = D * e + D * D + n * t * D := by rw [← he]; ring
    _ < D * e + e + (D + n + 1) * t + n * t * D := by linarith
    _ = (D + 1) * (e + (n + 1) * t) := by ring

/-- A step from one unit above the sum falls, as its numerator is below its divisor. -/
theorem Outweighs.lt_one_above (h : Outweighs n D 1 t) (hq : q + n ≤ e + D) :
    q + n * t < e + (n + 1) * t := by
  unfold Outweighs at h
  rw [Nat.succ_mul]
  omega

/-- A step from further above the sum falls by more than one unit. -/
theorem Outweighs.lt_far_above {gap : ℕ} (h : Outweighs n D (gap + 2) t)
    (ha : P * n ≤ P + a) (hn : n ≤ S) (hD : S + (gap + 2) = D) (hq : P * q ≤ (P + a) * S)
    (he : a * D < P * e + P) : (q + n * t) * D < (D - 1) * (e + (n + 1) * t) := by
  change D * D ≤ n * D + (D - n - 1) * t + 1 at h
  -- `w` is the weight of the term in what is left of the value
  obtain ⟨w, rfl⟩ : ∃ w, D = n + w + 1 := ⟨D - n - 1, by omega⟩
  rw [show n + w + 1 - n - 1 = w by omega] at h
  rw [Nat.add_sub_cancel]
  have hone : S + 1 ≤ n + w := by omega
  have hsum := Nat.mul_le_mul_left ((P + a) * (n + w + 1)) hone
  have hfirst := Nat.mul_le_mul_right (n + w + 1) hq
  have hlast : (n + w) * (a * (n + w + 1) + 1) ≤ (n + w) * (P * e + P) := Nat.mul_le_mul_left _ he
  have hout := Nat.mul_le_mul_left P h
  have hcount := Nat.mul_le_mul_right (n + w + 1) ha
  refine Nat.lt_of_mul_lt_mul_left (a := P) ?_
  linarith only [hone, hsum, hfirst, hlast, hout, hcount]

end Quotients

/-- **The last step ends at the sum or below**, if the product term is large enough. -/
theorem invariantStep_le_of_outweighs {Ann n S D D' term : Amount} {xs : List Fixed} {gap : ℕ}
    (hAnn : precision.val * n.val ≤ Ann.val) (hn : 0 < n.val) (hS : n.val ≤ S.val)
    (hD : S.val + gap = D.val) (hterm : productTerm n D xs = .ok term)
    (hout : Outweighs n.val D.val gap term.val) (h : invariantStep Ann n S xs D = .ok D')
    (hclose : (D'.dist D).val ≤ 1) : D'.val ≤ S.val := by
  obtain ⟨t, ht, -, hdivisor, hD'⟩ := invariantStep_ok h
  obtain rfl : t = term := Except.ok.inj (ht.symm.trans hterm)
  obtain ⟨a, ha⟩ : ∃ a, Ann.val = precision.val + a :=
    Nat.exists_eq_add_of_le ((Nat.le_mul_of_pos_right _ hn).trans hAnn)
  rw [ha, Nat.add_sub_cancel_left] at hdivisor hD'
  rw [ha] at hAnn
  rw [Amount.val_dist] at hclose
  match gap with
  | 0 =>
      obtain rfl : S = D := Amount.ext hD
      rw [← Nat.lt_succ_iff, hD', Nat.div_lt_iff_lt_mul hdivisor]
      refine hout.lt_at_sum ?_ ?_
      · rw [Nat.le_div_iff_mul_le precision_pos, Nat.mul_comm, ← Nat.mul_assoc]
        exact Nat.mul_le_mul_right _ hAnn
      · rw [Nat.add_mul, Nat.add_comm (precision.val * S.val),
          Nat.add_mul_div_left _ _ precision_pos]
  | 1 =>
      have : D'.val < D.val := by
        rw [hD', Nat.div_lt_iff_lt_mul hdivisor, Nat.mul_comm D.val]
        refine Nat.mul_lt_mul_of_pos_right (hout.lt_one_above ?_) (by omega)
        rw [← Nat.add_mul_div_left _ _ precision_pos, ← Nat.add_mul_div_left _ _ precision_pos]
        refine Nat.div_le_div_right ?_
        rw [← hD, Nat.mul_add, Nat.mul_add, Nat.mul_one, Nat.mul_one, Nat.add_mul]
        omega
      omega
  | gap + 2 =>
      have : D'.val < D.val - 1 := by
        rw [hD', Nat.div_lt_iff_lt_mul hdivisor]
        exact hout.lt_far_above hAnn hS hD (Nat.mul_div_le _ _)
          (Nat.lt_mul_div_succ _ precision_pos)
      omega

/-! ### Large values -/

/-- A product term at the sum is enough if it lacks no more than one unit for each balance and one. -/
theorem outweighs_zero (htwo : 2 ≤ n) (hfive : n ≤ 5) (hD : 25 ≤ D) (ht : D - n ≤ t + 1) :
    Outweighs n D 0 t := by
  obtain ⟨w, rfl⟩ := Nat.exists_eq_add_of_le (show n + 1 ≤ D by omega)
  have hweight := Nat.mul_le_mul_left (n + 1 + w + n + 1) (show w ≤ t by omega)
  unfold Outweighs
  interval_cases n <;> linarith

/-- One unit above the sum `S`, where `n` powers of the quotient of both make up for one unit. -/
theorem outweighs_one (htwo : 2 ≤ n) (hS : n + 1 ≤ S)
    (h : (S + 1 - n) * (S + 1) ^ n ≤ (t + 1) * S ^ n) : Outweighs n (S + 1) 1 t := by
  obtain ⟨m, rfl⟩ := Nat.exists_eq_add_of_le' (show 1 ≤ n by omega)
  obtain ⟨c, rfl⟩ := Nat.exists_eq_add_of_le (show m ≤ S by omega)
  rw [show m + c + 1 - (m + 1) = c by omega] at h
  have htangent : (m + c + m + 1) * (m + c) ^ m ≤ (m + c + 1) ^ (m + 1) := by
    have := pow_tangent (Nat.cast_nonneg (m + c + 1)) (Nat.cast_nonneg (m + c)) m
    rw [← Nat.cast_le (α := ℚ)]
    push_cast at this ⊢
    linarith
  unfold Outweighs
  by_contra hlow
  have hcancel : c * (m + c + m + 1) ≤ (c + 1) * (m + c) := by
    refine Nat.le_of_mul_le_mul_right ?_ (Nat.pow_pos (by omega) : 0 < (m + c) ^ m)
    calc c * (m + c + m + 1) * (m + c) ^ m = c * ((m + c + m + 1) * (m + c) ^ m) := by ring
      _ ≤ c * (m + c + 1) ^ (m + 1) := Nat.mul_le_mul_left c htangent
      _ ≤ (t + 1) * (m + c) ^ (m + 1) := h
      _ ≤ (c + 1) * (m + c) ^ (m + 1) := Nat.mul_le_mul_right _ (by omega)
      _ = (c + 1) * (m + c) * (m + c) ^ m := by ring
  have hc : 2 * m ≤ c * m := Nat.mul_le_mul_right m (by omega)
  linarith

/-- Two units of the value are worth more than `m + 1` of `m` powers. -/
theorem pow_mul_add_two_le {m E : ℕ} (hm : 1 ≤ m) (hE : 2 * m ≤ E + 2) :
    E ^ m * (E + 2) ≤ (E + 2) ^ m * (E + 1 - m) := by
  induction m, hm using Nat.le_induction with
  | base => rw [pow_one, pow_one, Nat.add_sub_cancel, Nat.mul_comm]
  | succ m hm ih =>
      have hstep : E * (E + 1 - m) ≤ (E + 2) * (E + 1 - (m + 1)) := by
        obtain ⟨w, rfl⟩ := Nat.exists_eq_add_of_le (show m ≤ E by omega)
        rw [show m + w + 1 - m = w + 1 by omega, show m + w + 1 - (m + 1) = w by omega]
        linarith
      calc E ^ (m + 1) * (E + 2) = E * (E ^ m * (E + 2)) := by ring
        _ ≤ E * ((E + 2) ^ m * (E + 1 - m)) := Nat.mul_le_mul_left E (ih (by omega))
        _ = (E + 2) ^ m * (E * (E + 1 - m)) := by ring
        _ ≤ (E + 2) ^ m * ((E + 2) * (E + 1 - (m + 1))) := Nat.mul_le_mul_left _ hstep
        _ = (E + 2) ^ (m + 1) * (E + 1 - (m + 1)) := by ring

/-- Two units above the sum or more, where the term exceeds the value by two units. -/
theorem outweighs_two {gap : ℕ} (htwo : 2 ≤ n) (hD : 2 * n + 1 ≤ D) (hS : S + 2 ≤ D) (hpos : 0 < S)
    (h : (D - n) * D ^ n ≤ (t + 1) * S ^ n) : Outweighs n D (gap + 2) t := by
  have ht : D + 2 ≤ t := by
    by_contra hlow
    obtain ⟨m, rfl⟩ := Nat.exists_eq_add_of_le' (show 1 ≤ n by omega)
    obtain ⟨E, rfl⟩ := Nat.exists_eq_add_of_le' (show 2 ≤ D by omega)
    have hpow := pow_mul_add_two_le (show 1 ≤ m by omega) (show 2 * m ≤ E + 2 by omega)
    have hcancel : (E + 2) * (E + 2) ≤ (E + 4) * E := by
      refine Nat.le_of_mul_le_mul_right ?_ (Nat.pow_pos (by omega) : 0 < E ^ m)
      calc (E + 2) * (E + 2) * E ^ m = (E + 2) * (E ^ m * (E + 2)) := by ring
        _ ≤ (E + 2) * ((E + 2) ^ m * (E + 1 - m)) := Nat.mul_le_mul_left _ hpow
        _ = (E + 2 - (m + 1)) * (E + 2) ^ (m + 1) := by
          rw [show E + 2 - (m + 1) = E + 1 - m by omega]
          ring
        _ ≤ (t + 1) * S ^ (m + 1) := h
        _ ≤ (E + 4) * E ^ (m + 1) :=
          Nat.mul_le_mul (by omega) (Nat.pow_le_pow_left (by omega) _)
        _ = (E + 4) * E * E ^ m := by ring
    linarith
  obtain ⟨w, rfl⟩ := Nat.exists_eq_add_of_le (show n + 1 ≤ D by omega)
  have hweight := Nat.mul_le_mul_left w ht
  have hcount : n + (n + 1 + w) ≤ 2 * (n + 1 + w) := by omega
  change (n + 1 + w) * (n + 1 + w) ≤ n * (n + 1 + w) + (n + 1 + w - n - 1) * t + 1
  rw [show n + 1 + w - n - 1 = w by omega]
  linarith

/-- **A product term that is not far below the value outweighs.** -/
theorem outweighs_of_lowerBound {gap : ℕ} (htwo : 2 ≤ n) (hfive : n ≤ 5) (hlarge : 25 ≤ D)
    (hn : n ≤ S) (hD : S + gap = D) (h : (D - n) * D ^ n ≤ (t + 1) * S ^ n) :
    Outweighs n D gap t := by
  match gap with
  | 0 =>
      obtain rfl : S = D := hD
      exact outweighs_zero htwo hfive hlarge (Nat.le_of_mul_le_mul_right h (Nat.pow_pos (by omega)))
  | 1 =>
      obtain rfl : S + 1 = D := hD
      exact outweighs_one htwo (by omega) h
  | gap + 2 => exact outweighs_two htwo (by omega) (by omega) (by omega) h

/-! ### Small values -/

/-- Below 25 units, the least terms outweigh. -/
theorem leastRow_outweighs : ∀ n ∈ [2, 3, 4, 5], ∀ D < 25, n ≤ D →
    ∀ p ∈ (leastRow n D (D - n + 1) n).zipIdx, Outweighs n D p.2 p.1 := by
  decide +kernel

/-! ### The invariant -/

/-- **The product term of two to five balances, at their sum or above, outweighs.** -/
theorem productTerm_outweighs {n D term : Amount} {xs : List Fixed} {gap : ℕ}
    (hn : n.val = xs.length) (htwo : 2 ≤ xs.length) (hfive : xs.length ≤ 5)
    (hpos : ∀ x ∈ xs, 0 < x.wei.val) (hD : (weis xs).sum + gap = D.val)
    (h : productTerm n D xs = .ok term) : Outweighs n.val D.val gap term.val := by
  have hpos' : ∀ x ∈ weis xs, 0 < x := List.forall_mem_map.mpr hpos
  have hlength := List.length_le_sum_of_one_le _ hpos'
  rw [Fixed.length_weis] at hlength
  rw [hn]
  rcases Nat.lt_or_ge D.val 25 with hsmall | hlarge
  · obtain ⟨t, ht, hle⟩ := exists_mem_leastRow_le hpos' hD
    rw [Fixed.length_weis] at ht hle
    rw [productTerm_eq_flooredTerm h, hn]
    have hmem : xs.length ∈ [2, 3, 4, 5] := by
      simp only [List.mem_cons, List.not_mem_nil, or_false]
      omega
    exact (leastRow_outweighs _ hmem _ hsmall (by omega) _ ht).mono hle
  · refine outweighs_of_lowerBound htwo hfive hlarge hlength hD ?_
    exact productTerm_lowerBound hn (List.ne_nil_of_length_pos (by omega)) hfive hpos hlarge
      (by omega) h

/-- A value of the iteration follows another, and is too far from it for the iteration to end. -/
def GoesOn (Ann n S : Amount) (xs : List Fixed) (D D' : Amount) : Prop :=
  invariantStep Ann n S xs D = .ok D' ∧ 1 < (D'.dist D).val

/-- **The invariant is not above the sum of the balances**, of which there are two to five. A value that
the iteration goes through can be. -/
theorem invariant_le_sum :
    (∀ (A D : Amount) (xs : List Fixed), precision.val ≤ A.val → 2 ≤ xs.length → xs.length ≤ 5 →
      (∀ x ∈ xs, 0 < x.wei.val) → invariant A xs = .ok D → D.val ≤ (weis xs).sum) ∧
    ∃ (Ann n S D D' : Amount) (xs : List Fixed), 2 ≤ xs.length ∧ xs.length ≤ 5 ∧
      (∀ x ∈ xs, 0 < x.wei.val) ∧ n.val = xs.length ∧ Ann.val = precision.val * xs.length ∧
      S.val = (weis xs).sum ∧ Relation.ReflTransGen (GoesOn Ann n S xs) S D' ∧ S.val < D'.val ∧
      invariant precision xs = .ok D := by
  constructor
  · intro A D xs hA htwo hfive hpos h
    have hne : xs ≠ [] := List.ne_nil_of_length_pos (by omega)
    obtain ⟨-, hD⟩ | ⟨-, n, Ann, S, hn, hAnn, hS, h⟩ := invariant_ok hne hpos h
    · exact hD.le
    obtain ⟨x, -, hstep, hclose⟩ := iterate_last (P := fun _ => True) (fun _ _ _ _ => trivial)
      trivial h
    rw [← hS]
    -- from below the sum, the last step is too short to pass it
    rcases Nat.lt_or_ge x.val S.val with hlow | hhigh
    · rw [Amount.val_dist] at hclose
      omega
    obtain ⟨gap, hgap⟩ := Nat.exists_eq_add_of_le hhigh
    obtain ⟨term, hterm, -⟩ := invariantStep_ok hstep
    have hlength := List.length_le_sum_of_one_le _ (List.forall_mem_map.mpr hpos)
    rw [List.length_map] at hlength
    have hAnn' : precision.val * n.val ≤ Ann.val := by
      rw [hAnn, hn]
      exact Nat.mul_le_mul_right _ hA
    exact invariantStep_le_of_outweighs hAnn' (by omega) (hn.trans_le (hlength.trans_eq hS.symm))
      hgap.symm hterm (productTerm_outweighs hn htwo hfive hpos (hS ▸ hgap.symm) hterm) hstep hclose
  · let xs : List Fixed := [⟨6⟩, ⟨2⟩, ⟨1⟩, ⟨1⟩, ⟨1⟩]
    have hfirst : GoesOn 5000 5 11 xs 11 9 := by
      unfold GoesOn
      decide +kernel
    have hsecond : GoesOn 5000 5 11 xs 9 12 := by
      unfold GoesOn
      decide +kernel
    have hD : invariant precision xs = .ok 9 := by decide +kernel
    exact ⟨5000, 5, 11, 9, 12, xs, by decide, by decide, by decide, by decide, by decide, by decide,
      .tail (.single hfirst) hsecond, by decide, hD⟩

/-- Balances from which the iteration goes through a value above their sum. -/
theorem invariant_le_sum_eleven :
    let xs : List Fixed := [⟨6⟩, ⟨2⟩, ⟨1⟩, ⟨1⟩, ⟨1⟩]
    precision.val ≤ precision.val ∧ 2 ≤ xs.length ∧ xs.length ≤ 5 ∧ (∀ x ∈ xs, 0 < x.wei.val) ∧
      invariant precision xs = .ok 9 ∧ (9 : Amount).val ≤ (weis xs).sum := by
  intro xs
  have htwo : 2 ≤ xs.length := by decide
  have hfive : xs.length ≤ 5 := by decide
  have hpos : ∀ x ∈ xs, 0 < x.wei.val := by decide
  have h : invariant precision xs = .ok 9 := by decide +kernel
  exact ⟨le_rfl, htwo, hfive, hpos, h, invariant_le_sum.1 precision 9 xs le_rfl htwo hfive hpos h⟩

end StableSwap.Curve
