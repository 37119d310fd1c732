import Mathlib
import StableSwap.Proofs.Curve.Balance
import StableSwap.Proofs.Curve.Scratch

/-!
# Trades leave the invariant on the pool's side

A trade that succeeds has solved for one balance with the other side of the trade written into the
balances (`outGivenIn_ok`, `inGivenOut_ok`). So the balances with both sides written into them have
at least the invariant of the balances before.
-/

namespace StableSwap.Curve
open Fixed (weis)

section Trade

variable {A : Amount} {i j : ℕ} {xs : List Fixed}

/-! ### The exact invariant after a trade -/

/-- The balances `ys` are at least what `xs` become when `paidIn` is added at one index and
`paidOut` is taken at another. -/
structure Traded (xs ys : List ℕ) (i j paidIn paidOut : ℕ) : Prop where
  length_eq : xs.length = ys.length
  bought : xs.getD i 0 + paidIn ≤ ys.getD i 0
  sold : xs.getD j 0 ≤ ys.getD j 0 + paidOut
  others : ∀ k, k ≠ i → k ≠ j → xs.getD k 0 ≤ ys.getD k 0

/-- Where the two balances of a trade solve the equation, the balances after it do. -/
theorem Traded.atLeast {ys : List ℕ} {x y : Fixed} {D paidIn paidOut : ℕ}
    (h : Traded (weis xs) ys i j paidIn paidOut) (hi : i < xs.length) (hj : j < xs.length)
    (hij : i ≠ j) (hsolved : Polynomial.AtLeast A.val (weis ((xs.set i x).set j y)) D)
    (hx : x.wei.val ≤ ys.getD i 0) (hy : y.wei.val ≤ ys.getD j 0) :
    Polynomial.AtLeast A.val ys D := by
  have hlen := h.length_eq
  rw [Fixed.length_weis] at hlen
  refine hsolved.mono_getD (by simp [hlen]) fun k => ?_
  rw [Fixed.getD_weis]
  by_cases hkj : k = j
  · subst hkj
    rwa [getD_set_self _ _ _ (by simpa using hj)]
  rw [getD_set_of_ne _ _ _ (Ne.symm hkj)]
  by_cases hki : k = i
  · subst hki
    rwa [getD_set_self _ _ _ hi]
  rw [getD_set_of_ne _ _ _ (Ne.symm hki), ← Fixed.getD_weis]
  exact h.others k hki hkj

/-- **A trade with a fixed input keeps the exact invariant** at or above the one it was priced
at. -/
theorem outGivenIn_atLeast {amountIn out : Fixed} (hi : i < xs.length) (hj : j < xs.length)
    (hij : i ≠ j) (h : ((outGivenIn A i j amountIn).run xs).1 = .ok out) (hout : 0 < out.wei.val) :
    ∃ D, invariant A xs = .ok D ∧ ∀ ys, Traded (weis xs) ys i j amountIn.wei.val out.wei.val →
      Polynomial.AtLeast A.val ys D.val := by
  obtain ⟨D, grown, y, hD, hgrown, hy, hval⟩ := outGivenIn_ok hi h
  refine ⟨D, hD, fun ys ht => ?_⟩
  have hsolved := missingBalance_atLeast (by simpa using hj) hy
  have hbought := ht.bought
  have hsold := ht.sold
  rw [Fixed.getD_weis] at hbought hsold
  exact ht.atLeast hi hj hij hsolved (by omega) (by omega)

/-- **A trade with a fixed output keeps the exact invariant** at or above the one it was priced
at. -/
theorem inGivenOut_atLeast {amountOut paid : Fixed} (hi : i < xs.length) (hj : j < xs.length)
    (hij : i ≠ j) (h : ((inGivenOut A i j amountOut).run xs).1 = .ok paid) :
    ∃ D, invariant A xs = .ok D ∧ ∀ ys, Traded (weis xs) ys i j paid.wei.val amountOut.wei.val →
      Polynomial.AtLeast A.val ys D.val := by
  obtain ⟨D, shrunk, y, hD, hshrunk, hy, hval⟩ := inGivenOut_ok hj h
  refine ⟨D, hD, fun ys ht => ?_⟩
  have hsolved := missingBalance_atLeast (by simpa using hi) hy
  rw [List.set_comm _ _ (Ne.symm hij)] at hsolved
  have hbought := ht.bought
  have hsold := ht.sold
  rw [Fixed.getD_weis] at hbought hsold
  exact ht.atLeast hi hj hij hsolved (by omega) (by omega)

/-! ### The balances that a trade needs -/

/-- A trade with a fixed input pays out only if all other balances are positive. -/
theorem outGivenIn_others_pos {amountIn out : Fixed} (hi : i < xs.length) (hj : j < xs.length)
    (h : ((outGivenIn A i j amountIn).run xs).1 = .ok out) (hout : 0 < out.wei.val) :
    ∀ k < xs.length, k ≠ i → 0 < (xs.getD k 0).wei.val := by
  obtain ⟨D, grown, y, -, -, hy, hval⟩ := outGivenIn_ok hi h
  intro k hk hki
  by_cases hkj : k = j
  · subst hkj
    omega
  · have := missingBalance_getD_pos (by simpa using hj) (by simpa using hk) hkj hy
    rwa [getD_set_of_ne _ _ _ (Ne.symm hki)] at this

/-- A trade with a fixed output succeeds only if all other balances are positive. -/
theorem inGivenOut_others_pos {amountOut paid : Fixed} (hi : i < xs.length) (hj : j < xs.length)
    (h : ((inGivenOut A i j amountOut).run xs).1 = .ok paid) :
    ∀ k < xs.length, k ≠ i → 0 < (xs.getD k 0).wei.val := by
  obtain ⟨D, shrunk, y, -, hshrunk, hy, -⟩ := inGivenOut_ok hj h
  intro k hk hki
  have hpos := missingBalance_getD_pos (by simpa using hi) (by simpa using hk) hki hy
  by_cases hkj : k = j
  · subst hkj
    rw [getD_set_self _ _ _ hk] at hpos
    omega
  · rwa [getD_set_of_ne _ _ _ (Ne.symm hkj)] at hpos

/-! ### Buying back -/

/-- **Buying a token back costs more than the other token is short of.** Let `ws` be balances that
are not below the current ones, but for the token paid in and up to the amount bought. Where the
invariant of the current balances is not below that of `ws`, the token paid in ends above `ws`. -/
theorem inGivenOut_lt_add {amountOut paid : Fixed} {ws : List ℕ} (hA : 0 < A.val)
    (hi : i < xs.length) (hj : j < xs.length) (hij : i ≠ j) (hlen : xs.length = ws.length)
    (h : ((inGivenOut A i j amountOut).run xs).1 = .ok paid)
    (hback : (xs.getD j 0).wei.val ≤ ws.getD j 0 + amountOut.wei.val)
    (hothers : ∀ k, k ≠ i → k ≠ j → (xs.getD k 0).wei.val ≤ ws.getD k 0) :
    ∃ D, invariant A xs = .ok D ∧
      (Polynomial.AtMost A.val ws D.val → ws.getD i 0 < (xs.getD i 0).wei.val + paid.wei.val) := by
  obtain ⟨D, shrunk, y, hD, hshrunk, hy, hval⟩ := inGivenOut_ok hj h
  refine ⟨D, hD, fun hmost => ?_⟩
  by_contra hle
  have hi' : i < (xs.set j shrunk).length := by simpa using hi
  have hsolved := missingBalance_atLeast hi' hy
  -- the balances solved for are below `ws` one by one, and so is their invariant
  have hbelow : ∀ k, ((weis ((xs.set j shrunk).set i y)).getD k 0) ≤ ws.getD k 0 := by
    intro k
    rw [Fixed.getD_weis]
    by_cases hki : k = i
    · subst hki
      rw [getD_set_self _ _ _ hi']
      omega
    rw [getD_set_of_ne _ _ _ (Ne.symm hki)]
    by_cases hkj : k = j
    · subst hkj
      rw [getD_set_self _ _ _ hj]
      omega
    · rw [getD_set_of_ne _ _ _ (Ne.symm hkj)]
      exact hothers k hki hkj
  have hlt : (weis ((xs.set j shrunk).set i y)).getD i 0 < ws.getD i 0 := by
    rw [Fixed.getD_weis, getD_set_self _ _ _ hi']
    omega
  refine hsolved.not_atMost_of_getD_lt hA (by simpa using hlen) hbelow hlt ?_ hmost
  rw [List.forall_mem_iff_getElem]
  intro k hk
  rw [← List.getD_eq_getElem _ 0 hk]
  by_cases hki : k = i
  · subst hki
    exact Nat.zero_lt_of_lt hlt
  · refine Nat.lt_of_lt_of_le ?_ (hbelow k)
    rw [Fixed.getD_weis, getD_set_of_ne _ _ _ (Ne.symm hki)]
    exact missingBalance_getD_pos hi' (by simpa [hlen] using hk) hki hy

end Trade

end StableSwap.Curve
