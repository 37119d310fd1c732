import Mathlib
import StableSwap.Curve.Shares
import StableSwap.Proofs.Curve.Invariant

/-!
# Rounding of joins and exits

With the shares given, the invariant to reach is rounded up (`le_invariantAfterJoin`,
`le_invariantAfterExit`), and the fee moves the amount of the token to the pool's side of what the
balance that was solved for asks (`tokenInForExactShares_ok`, `tokenOutForExactShares_ok`).

With the amounts of a join given, each balance grows by no more than is paid of it (`Grown`), and the
shares grow by no more than the invariant (`sharesOutForExactIn_ok`); a join that pays nothing mints
nothing (`sharesOutForExactIn_of_zero`). With the amounts of an exit given, the fee only takes more
from each balance (`Shrunk`), and the shares shrink by no less than the invariant
(`sharesInForExactOut_ok`); an exit that takes all of one balance costs every share there is
(`sharesInForExactOut_drain`).
-/

namespace StableSwap.Curve
open Fixed (weis)

variable {A D : Amount} {xs : List Fixed} {index : ℕ} {fee : Fixed}

/-! ### The invariant for given shares -/

/-- An invariant scaled by the shares after to the shares before, both times rounded up. -/
theorem le_scaledUp {after supply ratio D D' : Fixed} (hratio : after.divUp supply = .ok ratio)
    (hD' : ratio.mulUp D = .ok D') :
    D.wei.val * after.wei.val ≤ D'.wei.val * supply.wei.val := by
  obtain ⟨hsupply, hratio⟩ := Fixed.divUp_eq_ok.mp hratio
  have hcover : after.wei.val * Fixed.unit.val ≤ ratio.wei.val * supply.wei.val := by
    rw [hratio]
    exact le_ceilDiv_mul _ hsupply
  have hcover' : ratio.wei.val * D.wei.val ≤ D'.wei.val * Fixed.unit.val := by
    rw [Fixed.mulUp_eq_ok.mp hD']
    exact le_ceilDiv_mul _ Fixed.unit_pos
  refine Nat.le_of_mul_le_mul_right ?_ Fixed.unit_pos
  calc D.wei.val * after.wei.val * Fixed.unit.val
      = D.wei.val * (after.wei.val * Fixed.unit.val) := Nat.mul_assoc _ _ _
    _ ≤ D.wei.val * (ratio.wei.val * supply.wei.val) := Nat.mul_le_mul_left _ hcover
    _ = ratio.wei.val * D.wei.val * supply.wei.val := by ring
    _ ≤ D'.wei.val * Fixed.unit.val * supply.wei.val := Nat.mul_le_mul_right _ hcover'
    _ = D'.wei.val * supply.wei.val * Fixed.unit.val := by ring

theorem le_invariantAfterJoin {shares supply D' : Amount}
    (h : invariantAfterJoin shares supply D = .ok D') :
    D.val * (supply.val + shares.val) ≤ D'.val * supply.val := by
  simp only [invariantAfterJoin, bind_eq_ok, Fixed.add_eq_ok, pure_eq_ok] at h
  obtain ⟨after, hafter, ratio, hratio, D', hD', rfl⟩ := h
  rw [← hafter]
  exact le_scaledUp hratio hD'

theorem le_invariantAfterExit {shares supply D' : Amount}
    (h : invariantAfterExit shares supply D = .ok D') :
    D.val * (supply.val - shares.val) ≤ D'.val * supply.val := by
  simp only [invariantAfterExit, bind_eq_ok, Fixed.sub_eq_ok, pure_eq_ok] at h
  obtain ⟨after, hafter, ratio, hratio, D', hD', rfl⟩ := h
  rw [Nat.sub_eq_of_eq_add' hafter]
  exact le_scaledUp hratio hD'

/-! ### Shares given -/

theorem splitTaxable_ok {amount nonTaxable taxable : Fixed}
    (h : splitTaxable xs index amount = .ok (nonTaxable, taxable)) :
    amount.wei.val = nonTaxable.wei.val + taxable.wei.val := by
  simp only [splitTaxable, bind_eq_ok, Fixed.sub_eq_ok, pure_eq_ok, Prod.mk.injEq] at h
  obtain ⟨_, -, _, -, taxable, -, nonTaxable, hsplit, rfl, rfl⟩ := h
  rw [hsplit, Nat.add_comm]

theorem tokenInForExactShares_ok {shares supply : Amount} {paid : Fixed}
    (h : tokenInForExactShares A xs index shares supply D fee = .ok paid) :
    ∃ D' y, invariantAfterJoin shares supply D = .ok D' ∧ missingBalance A xs D' index = .ok y ∧
      y.wei.val ≤ (xs.getD index 0).wei.val + paid.wei.val := by
  simp only [tokenInForExactShares, bind_eq_ok, Fixed.sub_eq_ok, Fixed.add_eq_ok,
    Prod.exists] at h
  obtain ⟨D', hD', y, hy, net, hnet, nonTaxable, taxable, hsplit, charged, hcharged, hpaid⟩ := h
  have hle := Fixed.le_divUp_complement hcharged
  have hsum := splitTaxable_ok hsplit
  exact ⟨D', y, hD', hy, by omega⟩

theorem tokenOutForExactShares_ok {shares supply : Amount} {paid : Fixed}
    (h : tokenOutForExactShares A xs index shares supply D fee = .ok paid) :
    ∃ D' y, invariantAfterExit shares supply D = .ok D' ∧ missingBalance A xs D' index = .ok y ∧
      y.wei.val + paid.wei.val ≤ (xs.getD index 0).wei.val := by
  simp only [tokenOutForExactShares, bind_eq_ok, Fixed.sub_eq_ok, Fixed.add_eq_ok,
    Prod.exists] at h
  obtain ⟨D', hD', y, hy, gross, hgross, nonTaxable, taxable, hsplit, net, hnet, hpaid⟩ := h
  have hle := Fixed.mulDown_complement_le hnet
  have hsum := splitTaxable_ok hsplit
  exact ⟨D', y, hD', hy, by omega⟩

/-- An exit that pays something out of one balance finds all of them positive. -/
theorem pos_of_tokenOutForExactShares {shares supply : Amount} {paid : Fixed}
    (hi : index < xs.length) (h : tokenOutForExactShares A xs index shares supply D fee = .ok paid)
    (hpaid : 0 < paid.wei.val) : ∀ x ∈ xs, 0 < x.wei.val := by
  obtain ⟨D', y, -, hy, hle⟩ := tokenOutForExactShares_ok h
  rw [List.getD_eq_getElem _ _ hi] at hle
  intro x hx
  obtain ⟨k, hk, rfl⟩ := List.mem_iff_getElem.mp hx
  by_cases hki : k = index
  · subst hki
    omega
  · -- there is another balance, and it was divided by
    refine missingBalance_others_pos hi ?_ hy _ (List.mem_eraseIdx_iff_getElem.mpr ⟨k, hk, hki, rfl⟩)
    omega

/-! ### Amounts of a join given -/

/-- The ratio of a balance after a join to the balance before is rounded down. -/
theorem joinRatios_ok {sum : Fixed} :
    ∀ {pairs : List (Fixed × Fixed)} {start mean : Fixed} {ratios : List Fixed},
      joinRatios sum start pairs = .ok (mean, ratios) →
        List.Forall₂ (fun pair ratio => ratio.wei.val * pair.1.wei.val ≤
          (pair.1.wei.val + pair.2.wei.val) * Fixed.unit.val) pairs ratios
  | [], start, mean, ratios, h => by
      cases h
      exact .nil
  | (balance, amountIn) :: rest, start, mean, ratios, h => by
      simp only [joinRatios, bind_eq_ok, pure_eq_ok, Prod.mk.injEq, Fixed.add_eq_ok] at h
      obtain ⟨_, -, after, hafter, ratio, hratio, _, -, next, -, ⟨mean', ratios'⟩, hrest, rfl,
        rfl⟩ := h
      refine .cons ?_ (joinRatios_ok hrest)
      rw [← hafter, (Fixed.divDown_eq_ok.mp hratio).2]
      exact Nat.div_mul_le_self _ _

/-- The part of a growth that is in proportion: what a balance grows by at the mean ratio. -/
def proportionalGrowth (mean balance : Fixed) : Except MathError Fixed :=
  if 1 < mean then do
    let growth ← mean.sub 1
    balance.mulDown growth
  else
    .ok 0

/-- The fee is withheld from what is paid beyond the proportional growth, where the ratio of the
balance is beyond the mean. -/
theorem balanceAfterJoin_eq (mean fee balance amountIn ratio : Fixed) :
    balanceAfterJoin mean fee balance amountIn ratio =
      if mean < ratio then do
        let nonTaxable ← proportionalGrowth mean balance
        let taxable ← amountIn.sub nonTaxable
        let withheld ← taxable.mulUp fee
        let net ← amountIn.sub withheld
        balance.add net
      else
        balance.add amountIn := by
  unfold balanceAfterJoin proportionalGrowth
  split
  · split
    · exact (bind_assoc _ _ _).symm
    · rfl
  · rfl

/-- A join withholds some of what is paid of a token, and no more than the fee on all of it. -/
theorem balanceAfterJoin_ok {mean balance amountIn ratio after : Fixed}
    (h : balanceAfterJoin mean fee balance amountIn ratio = .ok after) :
    ∃ withheld ≤ amountIn.wei.val,
      withheld ≤ ceilDiv (amountIn.wei.val * fee.wei.val) Fixed.unit.val ∧
        after.wei.val + withheld = balance.wei.val + amountIn.wei.val := by
  rw [balanceAfterJoin_eq] at h
  split at h
  · simp only [bind_eq_ok, Fixed.sub_eq_ok, Fixed.add_eq_ok] at h
    obtain ⟨nonTaxable, -, taxable, htaxable, withheld, hwithheld, net, hnet, hafter⟩ := h
    refine ⟨withheld.wei.val, by omega, ?_, by omega⟩
    rw [Fixed.mulUp_eq_ok.mp hwithheld]
    exact ceilDiv_le_ceilDiv Fixed.unit_pos (Nat.mul_le_mul_right _ (by omega))
  · exact ⟨0, Nat.zero_le _, Nat.zero_le _, Fixed.add_eq_ok.mp h⟩

/-- Balances after a join that withheld a fee: each has grown by no more than was paid of it, and at
most by the fee less than that. -/
structure Grown (xs ins : List Fixed) (fee : Fixed) (after : List Fixed) : Prop where
  length_eq : after.length = xs.length
  le : ∀ i < xs.length, (xs.getD i 0).wei.val ≤ (after.getD i 0).wei.val
  le_add : ∀ i < xs.length,
    (after.getD i 0).wei.val ≤ (xs.getD i 0).wei.val + (ins.getD i 0).wei.val
  withheld_le : ∀ i < xs.length,
    (xs.getD i 0).wei.val + (ins.getD i 0).wei.val - (after.getD i 0).wei.val ≤
      ceilDiv ((ins.getD i 0).wei.val * fee.wei.val) Fixed.unit.val

theorem balancesAfterJoin_grown {ins after : List Fixed} (hlen : xs.length = ins.length)
    (h : balancesAfterJoin xs ins fee = .ok after) : Grown xs ins fee after := by
  simp only [balancesAfterJoin, bind_eq_ok] at h
  obtain ⟨sum, -, ⟨mean, ratios⟩, hratios, h⟩ := h
  obtain ⟨hafter, hget⟩ := mapM_zip_zip_ok _ 0 hlen (joinRatios_ok hratios).length_eq.symm h 0 0 0
  have hwithheld : ∀ i < xs.length, ∃ withheld ≤ (ins.getD i 0).wei.val,
      withheld ≤ ceilDiv ((ins.getD i 0).wei.val * fee.wei.val) Fixed.unit.val ∧
        (after.getD i 0).wei.val + withheld = (xs.getD i 0).wei.val + (ins.getD i 0).wei.val :=
    fun i hi => balanceAfterJoin_ok (hget i hi)
  refine ⟨hafter, fun i hi => ?_, fun i hi => ?_, fun i hi => ?_⟩
  all_goals
    obtain ⟨withheld, hle, hfee, hsplit⟩ := hwithheld i hi
    omega

/-- **A join that pays nothing mints nothing**: it leaves the balances, and with them the
invariant. -/
theorem sharesOutForExactIn_of_zero {ins : List Fixed} {supply shares : Amount}
    (hlen : xs.length = ins.length) (hins : ∀ i < xs.length, (ins.getD i 0).wei.val = 0)
    (hD : invariant A xs = .ok D)
    (h : sharesOutForExactIn A xs ins supply D fee = .ok shares) : shares = 0 := by
  simp only [sharesOutForExactIn, bind_eq_ok] at h
  obtain ⟨after, hafter, D', hD', ratio, hratio, h⟩ := h
  have hgrown := balancesAfterJoin_grown hlen hafter
  obtain rfl : after = xs := by
    refine List.ext_getElem hgrown.length_eq fun i hi hi' => ?_
    have hle := hgrown.le i hi'
    have hge := hgrown.le_add i hi'
    rw [List.getD_eq_getElem _ _ hi, List.getD_eq_getElem _ _ hi'] at hle hge
    rw [hins i hi'] at hge
    exact Fixed.ext (Amount.ext (by omega))
  obtain rfl := Except.ok.inj (hD'.symm.trans hD)
  obtain ⟨hpos, hval⟩ := Fixed.divDown_eq_ok.mp hratio
  have hone : ¬ 1 < ratio := by
    rw [Fixed.lt_def, hval, Nat.mul_div_cancel_left _ hpos]
    exact lt_irrefl _
  rw [if_neg hone] at h
  exact (pure_eq_ok.mp h).symm

/-- Shares that grow by no more than a ratio of invariants that was rounded down. -/
theorem mul_le_of_divDown {supply after : ℕ} {D' : Amount} {ratio : Fixed}
    (hratio : Fixed.divDown ⟨D'⟩ ⟨D⟩ = .ok ratio)
    (h : after * Fixed.unit.val ≤ supply * ratio.wei.val) : after * D.val ≤ supply * D'.val := by
  have hfloor : ratio.wei.val * D.val ≤ D'.val * Fixed.unit.val := by
    rw [(Fixed.divDown_eq_ok.mp hratio).2]
    exact Nat.div_mul_le_self _ _
  refine Nat.le_of_mul_le_mul_right ?_ Fixed.unit_pos
  calc after * D.val * Fixed.unit.val
      = after * Fixed.unit.val * D.val := Nat.mul_right_comm _ _ _
    _ ≤ supply * ratio.wei.val * D.val := Nat.mul_le_mul_right _ h
    _ = supply * (ratio.wei.val * D.val) := Nat.mul_assoc _ _ _
    _ ≤ supply * (D'.val * Fixed.unit.val) := Nat.mul_le_mul_left _ hfloor
    _ = supply * D'.val * Fixed.unit.val := (Nat.mul_assoc _ _ _).symm

/-- **A join mints no more than the invariant grows.** The growth is that of the balances after the
fee, each of which has grown by no more than was paid of it. -/
theorem sharesOutForExactIn_ok {ins : List Fixed} {supply shares : Amount}
    (hlen : xs.length = ins.length)
    (h : sharesOutForExactIn A xs ins supply D fee = .ok shares) :
    ∃ after D', balancesAfterJoin xs ins fee = .ok after ∧ invariant A after = .ok D' ∧
      Grown xs ins fee after ∧
      (0 < shares.val → (supply.val + shares.val) * D.val ≤ supply.val * D'.val) := by
  simp only [sharesOutForExactIn, bind_eq_ok] at h
  obtain ⟨after, hafter, D', hD', ratio, hratio, h⟩ := h
  refine ⟨after, D', hafter, hD', balancesAfterJoin_grown hlen hafter, fun hpos => ?_⟩
  split at h
  · simp only [bind_eq_ok, Fixed.sub_eq_ok, Fixed.wei_one, pure_eq_ok] at h
    obtain ⟨growth, hgrowth, minted, hminted, rfl⟩ := h
    refine mul_le_of_divDown hratio ?_
    have hfloor : minted.wei.val * Fixed.unit.val ≤ supply.val * growth.wei.val := by
      rw [Fixed.mulDown_eq_ok.mp hminted]
      exact Nat.div_mul_le_self _ _
    rw [hgrowth, Nat.add_mul, Nat.mul_add]
    exact Nat.add_le_add_left hfloor _
  · rw [← pure_eq_ok.mp h] at hpos
    exact absurd hpos (Nat.lt_irrefl 0)

/-! ### Amounts of an exit given -/

/-- The ratio of a balance after an exit to the balance before is rounded up. -/
theorem exitRatios_ok {sum : Fixed} :
    ∀ {pairs : List (Fixed × Fixed)} {start mean : Fixed} {ratios : List Fixed},
      exitRatios sum start pairs = .ok (mean, ratios) →
        List.Forall₂ (fun pair ratio => pair.1.wei.val * Fixed.unit.val ≤
          ratio.wei.val * pair.1.wei.val + pair.2.wei.val * Fixed.unit.val) pairs ratios
  | [], start, mean, ratios, h => by
      cases h
      exact .nil
  | (balance, amountOut) :: rest, start, mean, ratios, h => by
      simp only [exitRatios, bind_eq_ok, pure_eq_ok, Prod.mk.injEq, Fixed.sub_eq_ok] at h
      obtain ⟨_, -, after, hafter, ratio, hratio, _, -, next, -, ⟨mean', ratios'⟩, hrest, rfl,
        rfl⟩ := h
      refine .cons ?_ (exitRatios_ok hrest)
      obtain ⟨hpos, hval⟩ := Fixed.divUp_eq_ok.mp hratio
      have hceil : after.wei.val * Fixed.unit.val ≤ ratio.wei.val * balance.wei.val := by
        rw [hval]
        exact le_ceilDiv_mul _ hpos
      calc balance.wei.val * Fixed.unit.val
          = after.wei.val * Fixed.unit.val + amountOut.wei.val * Fixed.unit.val := by
            rw [hafter, Nat.add_mul, Nat.add_comm]
        _ ≤ ratio.wei.val * balance.wei.val + amountOut.wei.val * Fixed.unit.val :=
            Nat.add_le_add_right hceil _

theorem le_amountWithFee {mean balance amountOut ratio gross : Fixed}
    (h : amountWithFee mean fee balance amountOut ratio = .ok gross) :
    amountOut.wei.val ≤ gross.wei.val := by
  unfold amountWithFee at h
  split at h
  · simp only [bind_eq_ok, Fixed.sub_eq_ok, Fixed.add_eq_ok] at h
    obtain ⟨nonTaxable, -, taxable, htaxable, charged, hcharged, hgross⟩ := h
    have := Fixed.le_divUp_complement hcharged
    omega
  · cases h
    exact le_rfl

/-- Balances after an exit: each is less by at least what was paid of it. -/
structure Shrunk (xs outs after : List Fixed) : Prop where
  length_eq : after.length = xs.length
  add_le : ∀ i < xs.length,
    (after.getD i 0).wei.val + (outs.getD i 0).wei.val ≤ (xs.getD i 0).wei.val

theorem balancesAfterExit_shrunk {outs after : List Fixed} (hlen : xs.length = outs.length)
    (h : balancesAfterExit xs outs fee = .ok after) : Shrunk xs outs after := by
  simp only [balancesAfterExit, bind_eq_ok] at h
  obtain ⟨sum, -, ⟨mean, ratios⟩, hratios, h⟩ := h
  obtain ⟨hafter, hget⟩ := mapM_zip_zip_ok _ 0 hlen (exitRatios_ok hratios).length_eq.symm h 0 0 0
  refine ⟨hafter, fun i hi => ?_⟩
  have hstep := hget i hi
  simp only [balanceAfterExit, bind_eq_ok, Fixed.sub_eq_ok] at hstep
  obtain ⟨gross, hgross, hsub⟩ := hstep
  have := le_amountWithFee hgross
  omega

/-- **An exit burns no fewer shares than the invariant shrinks by.** The invariant is that of the
balances after the fee, each of which is less by at least what was paid of it. -/
theorem sharesInForExactOut_ok {outs : List Fixed} {supply shares : Amount}
    (hlen : xs.length = outs.length)
    (h : sharesInForExactOut A xs outs supply D fee = .ok shares) :
    ∃ after D', balancesAfterExit xs outs fee = .ok after ∧ invariant A after = .ok D' ∧
      Shrunk xs outs after ∧ shares.val ≤ supply.val ∧
      (supply.val - shares.val) * D.val ≤ supply.val * D'.val := by
  simp only [sharesInForExactOut, bind_eq_ok, pure_eq_ok] at h
  obtain ⟨after, hafter, D', hD', ratio, hratio, burned, hburned, rfl⟩ := h
  have hval := Fixed.mulUp_eq_ok.mp hburned
  rw [Fixed.val_complement] at hval
  refine ⟨after, D', hafter, hD', balancesAfterExit_shrunk hlen hafter, ?_,
    mul_le_of_divDown hratio ?_⟩
  · rw [hval, ceilDiv_le_iff Fixed.unit_pos]
    exact Nat.mul_le_mul_left _ (Nat.sub_le _ _)
  · have hcover : supply.val * (Fixed.unit.val - ratio.wei.val) ≤
        burned.wei.val * Fixed.unit.val := by
      rw [hval]
      exact le_ceilDiv_mul _ Fixed.unit_pos
    rw [Nat.sub_mul, Nat.sub_le_iff_le_add]
    calc supply.val * Fixed.unit.val
        ≤ supply.val * (ratio.wei.val + (Fixed.unit.val - ratio.wei.val)) :=
          Nat.mul_le_mul_left _ (by omega)
      _ = supply.val * ratio.wei.val + supply.val * (Fixed.unit.val - ratio.wei.val) :=
          Nat.mul_add _ _ _
      _ ≤ supply.val * ratio.wei.val + burned.wei.val * Fixed.unit.val :=
          Nat.add_le_add_left hcover _

/-- **An exit that takes all of a balance costs every share there is.** -/
theorem sharesInForExactOut_drain {outs : List Fixed} {supply shares : Amount} {i : ℕ}
    (hlen : xs.length = outs.length) (hi : i < xs.length)
    (hdrain : (xs.getD i 0).wei.val ≤ (outs.getD i 0).wei.val)
    (h : sharesInForExactOut A xs outs supply D fee = .ok shares) : shares = supply := by
  simp only [sharesInForExactOut, bind_eq_ok, pure_eq_ok] at h
  obtain ⟨after, hafter, D', hD', ratio, hratio, shares', hshares, rfl⟩ := h
  obtain ⟨hlen', hle⟩ := balancesAfterExit_shrunk hlen hafter
  -- the balance is zero afterwards, and with it the invariant and the ratio
  have hzero : (after.getD i 0).wei.val = 0 := by
    have := hle i hi
    omega
  have hD'_zero : D'.val = 0 := by
    by_contra hne
    have hpos := ((invariant_pos_iff hD').mp (Nat.pos_of_ne_zero hne)).2
    rw [List.getD_eq_getElem _ _ (hlen' ▸ hi)] at hzero
    exact (hpos _ (List.getElem_mem _)).ne' hzero
  have hratio_zero : ratio.wei.val = 0 := by
    rw [(Fixed.divDown_eq_ok.mp hratio).2, hD'_zero, Nat.zero_mul, Nat.zero_div]
  apply Amount.ext
  rw [Fixed.mulUp_eq_ok.mp hshares, Fixed.val_complement, hratio_zero, Nat.sub_zero]
  exact ceilDiv_mul_self _ Fixed.unit_pos

end StableSwap.Curve
