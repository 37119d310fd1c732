import Mathlib
import StableSwap.Proofs.Settlement

/-!
# The share of the pool that is minted

What the protocol is owed is a value in units of the invariant (`Growth.owedValue`), and a part of the
total invariant (`Growth.ownedPart`). A settlement mints on top of the supply as many shares as make
that part of all shares, where nothing but rounding is missing (`Snapshot.settle_mints_ownedPart`). The
part is less than one: where the protocol would own everything, there is no number of shares to mint
and the settlement fails.
-/

namespace StableSwap

variable {tokens : List Token} {fees : ProtocolFees} {balances : List Amount} {rates : List Fixed}
  {supply minted : Amount} {s : Snapshot} {settlement : Settlement}

namespace Growth

variable {g : Growth} {previous : Amount} {value p : Fixed}

/-- What the protocol is owed: its share of what came from trades and its share of the yield on top,
each rounded down. -/
def owedValue (g : Growth) (fees : ProtocolFees) (previous : Amount) : ℕ :=
  (g.swapFee.val - previous.val) * fees.swapShare.wei.val / Fixed.unit.val +
    (g.nonExempt.val - max g.swapFee.val previous.val) * fees.yieldShare.wei.val / Fixed.unit.val

/-- That value as a part of the total invariant, in units of 10⁻¹⁸ and rounded down. -/
def ownedPart (g : Growth) (fees : ProtocolFees) (previous : Amount) : ℕ :=
  g.owedValue fees previous * Fixed.unit.val / g.total.val

theorem protocolValue_ok (h : g.protocolValue fees previous = .ok value) :
    value.wei.val = g.owedValue fees previous := by
  simp only [protocolValue, bind_eq_ok, Fixed.mulDown_eq_ok] at h
  obtain ⟨ofSwaps, hswaps, ofYield, hyield, hsum⟩ := h
  rw [Fixed.add_eq_ok.mp hsum, hswaps, hyield, fromSwaps, fromYield, Amount.val_monus,
    Amount.val_monus, Amount.val_max, owedValue]

theorem ownedPart_mul_le (g : Growth) (fees : ProtocolFees) (previous : Amount) :
    g.ownedPart fees previous * g.total.val ≤ g.owedValue fees previous * Fixed.unit.val :=
  Nat.div_mul_le_self _ _

/-- The shares owed are minted for the part that the protocol is owed, and are worth no more. -/
theorem mintedFor_ownedPart (h : g.sharesOwed fees previous supply = .ok minted) :
    MintedFor supply.val (g.ownedPart fees previous) minted.val ∧
      minted.val * g.total.val ≤ (supply.val + minted.val) * g.owedValue fees previous := by
  obtain ⟨p, hp, hminted⟩ := sharesOwed_ok h
  obtain ⟨value, hvalue, -, hpart⟩ := ownership_ok hp
  have hpart : p.wei.val = g.ownedPart fees previous := by
    rw [hpart, protocolValue_ok hvalue, ownedPart]
  rw [hpart] at hminted
  refine ⟨hminted, ?_⟩
  -- the part is no more than the value by the total, and the shares no more than the part of all
  refine Nat.le_of_mul_le_mul_right ?_ Fixed.unit_pos
  calc minted.val * g.total.val * Fixed.unit.val
      = minted.val * Fixed.unit.val * g.total.val := Nat.mul_right_comm _ _ _
    _ ≤ (supply.val + minted.val) * g.ownedPart fees previous * g.total.val :=
        Nat.mul_le_mul_right _ hminted.mul_unit_le
    _ = (supply.val + minted.val) * (g.ownedPart fees previous * g.total.val) := Nat.mul_assoc _ _ _
    _ ≤ (supply.val + minted.val) * (g.owedValue fees previous * Fixed.unit.val) :=
        Nat.mul_le_mul_left _ (g.ownedPart_mul_le fees previous)
    _ = (supply.val + minted.val) * g.owedValue fees previous * Fixed.unit.val :=
        (Nat.mul_assoc _ _ _).symm

end Growth

namespace Snapshot

/-- **A settlement mints the part of the pool that the protocol is owed**, up to rounding in favour of
the other holders, and takes a snapshot of the pool with it. Without growth it mints nothing and keeps
the snapshot. -/
theorem settle_mints_ownedPart
    (h : s.settle tokens fees balances rates supply = .ok settlement) :
    ∃ g, s.growth tokens balances rates = .ok g ∧
      (g.total ≤ s.invariant → settlement.minted = 0 ∧ settlement.snapshot = s) ∧
      (s.invariant < g.total →
        Growth.MintedFor supply.val (g.ownedPart fees s.invariant) settlement.minted.val ∧
        settlement.minted.val * g.total.val ≤
          (supply.val + settlement.minted.val) * g.owedValue fees s.invariant ∧
        ∃ after : Amount, after.val = supply.val + settlement.minted.val ∧
          settlement.snapshot = ⟨g.total, after, s.amplification, rates⟩) := by
  obtain ⟨g, hg, ⟨hle, rfl⟩ | ⟨hgrown, minted, howed, after, hafter, rfl⟩⟩ := settle_eq_ok.mp h
  · refine ⟨g, hg, fun _ => ⟨rfl, rfl⟩, fun hgrown => ?_⟩
    exact absurd hgrown (Nat.not_lt.mpr hle)
  · refine ⟨g, hg, fun hle => absurd hgrown (Nat.not_lt.mpr hle), fun _ => ?_⟩
    obtain ⟨hminted, hworth⟩ := Growth.mintedFor_ownedPart howed
    exact ⟨hminted, hworth, after, Amount.add_eq_ok.mp hafter, rfl⟩

/-- A settlement after trades tripled the balances and rates fell to a third: nearly all of the pool is
owed. -/
theorem settle_mints_ownedPart_fallen :
    ∃ g settlement,
      even.settle ratedPair .halves [3000000000000000000000, 3000000000000000000000]
        [⟨334000000000000000⟩, ⟨334000000000000000⟩] 2000000000000000000000 = .ok settlement ∧
      even.growth ratedPair [3000000000000000000000, 3000000000000000000000]
        [⟨334000000000000000⟩, ⟨334000000000000000⟩] = .ok g ∧
      even.invariant < g.total ∧
      g.ownedPart .halves even.invariant = 998003992015968063 ∧
      settlement.minted.val = 999999999999999562126000 ∧
      Growth.MintedFor 2000000000000000000000 (g.ownedPart .halves even.invariant)
        settlement.minted.val ∧
      settlement.minted.val * g.total.val ≤
        (2000000000000000000000 + settlement.minted.val) * g.owedValue .halves even.invariant := by
  have h : even.settle ratedPair .halves [3000000000000000000000, 3000000000000000000000]
      [⟨334000000000000000⟩, ⟨334000000000000000⟩] 2000000000000000000000 =
        .ok ⟨999999999999999562126000, ⟨2004000000000000000000, 1001999999999999562126000, 200000,
          [⟨334000000000000000⟩, ⟨334000000000000000⟩]⟩⟩ := by decide +kernel
  have hg : even.growth ratedPair [3000000000000000000000, 3000000000000000000000]
      [⟨334000000000000000⟩, ⟨334000000000000000⟩] = .ok ⟨6000000000000000000000,
        2004000000000000000000, 2004000000000000000000⟩ := by decide +kernel
  have hgrown : even.invariant < 2004000000000000000000 := by decide
  obtain ⟨g, hg', -, hmints⟩ := settle_mints_ownedPart h
  obtain rfl := Except.ok.inj (hg.symm.trans hg')
  obtain ⟨hminted, hworth, -⟩ := hmints hgrown
  exact ⟨_, _, h, hg, hgrown, by decide, rfl, hminted, hworth⟩

end Snapshot

end StableSwap
