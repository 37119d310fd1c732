import Mathlib
import StableSwap.Proofs.Pool.Invariant
import StableSwap.Proofs.Pool.Terms

/-!
# Joins and exits with given amounts

Where all amounts are given, the shares follow from the invariant of the balances less the fee. They
follow in favour of those who hold the other shares (`exactTokens_favor_holders`): a join mints no more
than that invariant grows, an exit burns no less than it shrinks, and the pool holds at least the
balances it was taken of.
-/

namespace StableSwap

/-! ### Movements -/

namespace LiquidityBasis

variable {b : LiquidityBasis} {l l' : Ledger} {delta : Delta} {scaled' after : List Fixed}

/-- Balances that a ledger's worth covers, token by token. -/
theorem forall₂_le_upscaleAll (hm : b.Measures l) (hlen : l'.balances.length = l.balances.length)
    (hscaled' : b.scaling.upscaleAll l'.balances = .ok scaled')
    (hafter : after.length = b.scaled.length)
    (h : ∀ i < b.scaled.length, (after.getD i 0).wei.val ≤
      l'.held i * (b.scaling.factorAt i).wei.val / Fixed.unit.val) :
    List.Forall₂ (· ≤ ·) after scaled' := by
  have hworth := Scaling.weis_upscaleAll hscaled'
  have hlen' : after.length = scaled'.length := by
    rw [hafter, hm.length_scaled, ← Fixed.length_weis scaled', hworth, Scaling.length_worth, hlen,
      hm.tokenCount, Nat.min_self]
  refine List.forall₂_iff_get.mpr ⟨hlen', fun i hi hi' => ?_⟩
  have hle := h i (hafter ▸ hi)
  rw [Ledger.held, ← Scaling.getD_worth, ← hworth, Fixed.getD_weis, List.getD_eq_getElem _ _ hi,
    List.getD_eq_getElem _ _ hi'] at hle
  exact Fixed.le_def.mpr hle

/-- After a join with given amounts, the ledger holds at least the balances that the invariant was
taken of: what a token is worth grows by at least what the amount of it is worth. -/
theorem exactTokensIn_holds {amountsIn : List Amount} {minSharesOut : Amount} (hm : b.Measures l)
    (h : b.exactTokensIn amountsIn minSharesOut = .ok delta) (hl : l.apply delta = .ok l')
    (hscaled' : b.scaling.upscaleAll l'.balances = .ok scaled') :
    ∃ ins after, b.scaling.upscaleAll amountsIn = .ok ins ∧ b.scaled.length = ins.length ∧
      Curve.sharesOutForExactIn b.amplification b.scaled ins b.supply b.invariant b.swapFee =
        .ok delta.shares ∧
      Curve.balancesAfterJoin b.scaled ins b.swapFee = .ok after ∧
      List.Forall₂ (· ≤ ·) after scaled' := by
  obtain ⟨hcount, ins, shares, rfl, hins, hshares⟩ := exactTokensIn_ok h
  obtain ⟨-, hlen, hheld, -⟩ := Ledger.apply_inward_ok hl
  have hscaled := hm.length_upscaled hcount hins
  obtain ⟨after, -, hafter, -, hgrown, -⟩ := Curve.sharesOutForExactIn_ok hscaled hshares
  refine ⟨ins, after, hins, hscaled, hshares, hafter,
    forall₂_le_upscaleAll hm hlen hscaled' hgrown.length_eq fun i hi => ?_⟩
  calc (after.getD i 0).wei.val
      ≤ (b.scaled.getD i 0).wei.val + (ins.getD i 0).wei.val := hgrown.le_add i hi
    _ = l.held i * (b.scaling.factorAt i).wei.val / Fixed.unit.val + (ins.getD i 0).wei.val := by
        rw [hm.getD_scaled]
    _ ≤ l'.held i * (b.scaling.factorAt i).wei.val / Fixed.unit.val :=
        Scaling.worth_add_le (Scaling.covers_upscaleAll hins i) (hheld i)

/-- After an exit with given amounts, the ledger holds at least the balances that the invariant was
taken of: what a token is worth shrinks by at most what the amount of it counts for. -/
theorem exactTokensOut_holds {amountsOut : List Amount} {maxSharesIn : Amount} (hm : b.Measures l)
    (h : b.exactTokensOut amountsOut maxSharesIn = .ok delta) (hl : l.apply delta = .ok l')
    (hscaled' : b.scaling.upscaleAll l'.balances = .ok scaled') :
    ∃ outs after, b.scaling.upscaleAllUp amountsOut = .ok outs ∧ b.scaled.length = outs.length ∧
      Curve.sharesInForExactOut b.amplification b.scaled outs b.supply b.invariant b.swapFee =
        .ok delta.shares ∧
      Curve.balancesAfterExit b.scaled outs b.swapFee = .ok after ∧
      List.Forall₂ (· ≤ ·) after scaled' := by
  obtain ⟨hcount, outs, shares, rfl, houts, hshares, -⟩ := exactTokensOut_ok h
  obtain ⟨-, hlen, hheld, -⟩ := Ledger.apply_outward_ok hl
  rw [hm.balances] at hcount
  obtain ⟨hlenOuts, hcovered⟩ :=
    Scaling.coveredBy_upscaleAllUp (hcount.trans hm.tokenCount.symm) houts
  have hscaled : b.scaled.length = outs.length := by rw [hm.length_scaled, hlenOuts, hcount]
  obtain ⟨after, -, hafter, -, hshrunk, -⟩ := Curve.sharesInForExactOut_ok hscaled hshares
  refine ⟨outs, after, houts, hscaled, hshares, hafter,
    forall₂_le_upscaleAll hm hlen hscaled' hshrunk.length_eq fun i hi => ?_⟩
  refine Nat.le_of_add_le_add_right (b := (outs.getD i 0).wei.val) ?_
  calc (after.getD i 0).wei.val + (outs.getD i 0).wei.val
      ≤ (b.scaled.getD i 0).wei.val := hshrunk.add_le i hi
    _ = l.held i * (b.scaling.factorAt i).wei.val / Fixed.unit.val := hm.getD_scaled i
    _ ≤ l'.held i * (b.scaling.factorAt i).wei.val / Fixed.unit.val + (outs.getD i 0).wei.val :=
        Scaling.worth_le_add (hcovered i (hlenOuts ▸ hscaled ▸ hi)) (hheld i)

end LiquidityBasis

namespace Pool

variable {p p' : Pool} {ctx : Context} {outcome : LiquidityOutcome}

/-! ### Operations -/

/-- What a join or exit other than the first is computed against: the pool with its protocol fees
settled, in the common unit. -/
structure Basis (p : Pool) (ctx : Context) (feeMint : Amount) (b : LiquidityBasis) : Prop where
  amplification : b.amplification = ctx.amplification.scaled
  swapFee : b.swapFee = p.config.swapFee
  measured : p.Measured ctx b.scaling b.scaled b.invariant
  supply : b.supply.val = p.ledger.supply.val + feeMint.val

theorem Moves.basis {request : LiquidityRequest} {l : Ledger} {b : LiquidityBasis} {delta : Delta}
    (h : p.Moves request ctx outcome p' l b delta) : p.Basis ctx outcome.protocolFee.amount b where
  amplification := h.amplification
  swapFee := h.swapFee
  measured := h.measured
  supply := h.measures.supply ▸ h.supply

/-- **Joins and exits with given amounts favour the holders.** For a join, each balance that the
invariant is taken of lies between the balance and the balance with the amount, at most the fee on the
amount is withheld, and the shares grow by no more than the invariant. For an exit, each balance that
the invariant is taken of is at most the balance less the amount, no more shares are burned than there
are, and the shares shrink by no less than the invariant. In a pool, both are computed against the pool,
which afterwards holds at least the balances that the invariant was taken of. -/
theorem exactTokens_favor_holders :
    (∀ (A : Amount) (xs ins : List Fixed) (supply D : Amount) (fee : Fixed) (shares : Amount),
      xs.length = ins.length → Curve.sharesOutForExactIn A xs ins supply D fee = .ok shares →
      ∃ after D', Curve.balancesAfterJoin xs ins fee = .ok after ∧
        Curve.invariant A after = .ok D' ∧ Curve.Grown xs ins fee after ∧
        (0 < shares.val → (supply.val + shares.val) * D.val ≤ supply.val * D'.val)) ∧
    (∀ (A : Amount) (xs outs : List Fixed) (supply D : Amount) (fee : Fixed) (shares : Amount),
      xs.length = outs.length → Curve.sharesInForExactOut A xs outs supply D fee = .ok shares →
      ∃ after D', Curve.balancesAfterExit xs outs fee = .ok after ∧
        Curve.invariant A after = .ok D' ∧ Curve.Shrunk xs outs after ∧ shares.val ≤ supply.val ∧
        (supply.val - shares.val) * D.val ≤ supply.val * D'.val) ∧
    (∀ (p p' : Pool) (ctx : Context) (amountsIn : List Amount) (minSharesOut : Amount)
        (outcome : LiquidityOutcome), p.Shaped →
      p.joinExit (.exactTokensInForShares amountsIn minSharesOut) ctx = .ok (outcome, p') →
      ∃ b ins after scaled', p.Basis ctx outcome.protocolFee.amount b ∧
        b.scaling.upscaleAll amountsIn = .ok ins ∧ b.scaled.length = ins.length ∧
        Curve.sharesOutForExactIn b.amplification b.scaled ins b.supply b.invariant b.swapFee =
          .ok outcome.shares ∧
        Curve.balancesAfterJoin b.scaled ins b.swapFee = .ok after ∧
        b.scaling.upscaleAll p'.ledger.balances = .ok scaled' ∧
        List.Forall₂ (· ≤ ·) after scaled') ∧
    (∀ (p p' : Pool) (ctx : Context) (amountsOut : List Amount) (maxSharesIn : Amount)
        (outcome : LiquidityOutcome), p.Shaped →
      p.joinExit (.sharesInForExactTokens amountsOut maxSharesIn) ctx = .ok (outcome, p') →
      ∃ b outs after scaled', p.Basis ctx outcome.protocolFee.amount b ∧
        b.scaling.upscaleAllUp amountsOut = .ok outs ∧ b.scaled.length = outs.length ∧
        Curve.sharesInForExactOut b.amplification b.scaled outs b.supply b.invariant b.swapFee =
          .ok outcome.shares ∧
        Curve.balancesAfterExit b.scaled outs b.swapFee = .ok after ∧
        b.scaling.upscaleAll p'.ledger.balances = .ok scaled' ∧
        List.Forall₂ (· ≤ ·) after scaled') := by
  refine ⟨fun A xs ins supply D fee shares => Curve.sharesOutForExactIn_ok,
    fun A xs outs supply D fee shares => Curve.sharesInForExactOut_ok,
    fun p p' ctx amountsIn minSharesOut outcome hp h => ?_,
    fun p p' ctx amountsOut maxSharesIn outcome hp h => ?_⟩
  · obtain ⟨l, b, delta, hmoves⟩ := joinExit_later hp h fun _ => nofun
    obtain ⟨scaled', hscaled'⟩ := hmoves.left_worth
    obtain ⟨ins, after, hins, hlen, hminted, hafter, hle⟩ :=
      LiquidityBasis.exactTokensIn_holds hmoves.measures hmoves.computed hmoves.applied hscaled'
    exact ⟨b, ins, after, scaled', hmoves.basis, hins, hlen, hmoves.shares ▸ hminted, hafter,
      hscaled', hle⟩
  · obtain ⟨l, b, delta, hmoves⟩ := joinExit_later hp h fun _ => nofun
    obtain ⟨scaled', hscaled'⟩ := hmoves.left_worth
    obtain ⟨outs, after, houts, hlen, hburned, hafter, hle⟩ :=
      LiquidityBasis.exactTokensOut_holds hmoves.measures hmoves.computed hmoves.applied hscaled'
    exact ⟨b, outs, after, scaled', hmoves.basis, houts, hlen, hmoves.shares ▸ hburned, hafter,
      hscaled', hle⟩

/-- A join of one of the first token, and an exit of one of it, in the pool of two tokens. -/
theorem exactTokens_favor_holders_paired :
    (∃ outcome p' b ins after scaled',
      paired.joinExit (.exactTokensInForShares [1000000, 0] 1) (uncharged pair) =
          .ok (outcome, p') ∧
        outcome.shares = 999498758082716000 ∧
        paired.Basis (uncharged pair) outcome.protocolFee.amount b ∧
        b.scaling.upscaleAll [1000000, 0] = .ok ins ∧ Curve.Grown b.scaled ins b.swapFee after ∧
        b.scaling.upscaleAll p'.ledger.balances = .ok scaled' ∧
        List.Forall₂ (· ≤ ·) after scaled') ∧
    ∃ outcome p' b outs after scaled',
      paired.joinExit (.sharesInForExactTokens [1000000, 0] 2000000000000000000) (uncharged pair) =
          .ok (outcome, p') ∧
        outcome.shares = 1000501746150380000 ∧
        paired.Basis (uncharged pair) outcome.protocolFee.amount b ∧
        b.scaling.upscaleAllUp [1000000, 0] = .ok outs ∧ Curve.Shrunk b.scaled outs after ∧
        b.scaling.upscaleAll p'.ledger.balances = .ok scaled' ∧
        List.Forall₂ (· ≤ ·) after scaled' := by
  have hp : paired.Shaped := ⟨by decide +kernel, by decide +kernel⟩
  obtain ⟨hjoin, hexit, hjoined, hexited⟩ := exactTokens_favor_holders
  constructor
  · obtain ⟨⟨outcome, p'⟩, h, hvalue⟩ := map_eq_ok.mp
      (by decide +kernel : (paired.joinExit (.exactTokensInForShares [1000000, 0] 1)
        (uncharged pair)).map (·.1.shares) = .ok (999498758082716000 : Amount))
    obtain ⟨b, ins, after, scaled', hb, hins, hlen, hshares, hafter, hscaled', hle⟩ :=
      hjoined _ _ _ _ _ _ hp h
    obtain ⟨_, -, hafter', -, hgrown, -⟩ := hjoin _ _ _ _ _ _ _ hlen hshares
    obtain rfl := Except.ok.inj (hafter'.symm.trans hafter)
    exact ⟨outcome, p', b, ins, _, scaled', h, hvalue, hb, hins, hgrown, hscaled', hle⟩
  · obtain ⟨⟨outcome, p'⟩, h, hvalue⟩ := map_eq_ok.mp
      (by decide +kernel : (paired.joinExit
        (.sharesInForExactTokens [1000000, 0] 2000000000000000000) (uncharged pair)).map
        (·.1.shares) = .ok (1000501746150380000 : Amount))
    obtain ⟨b, outs, after, scaled', hb, houts, hlen, hshares, hafter, hscaled', hle⟩ :=
      hexited _ _ _ _ _ _ hp h
    obtain ⟨_, -, hafter', -, hshrunk, -⟩ := hexit _ _ _ _ _ _ _ hlen hshares
    obtain rfl := Except.ok.inj (hafter'.symm.trans hafter)
    exact ⟨outcome, p', b, outs, _, scaled', h, hvalue, hb, houts, hshrunk, hscaled', hle⟩

end Pool

end StableSwap
