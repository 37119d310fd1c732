import Mathlib
import StableSwap.Proofs.Settlement

/-!
# The high-water mark

A settlement raises the invariant of the snapshot to the total invariant that it measured, or keeps it
and mints nothing (`Snapshot.settle_highWater`). So over settlements in a row it is the highest so
far, and what was charged once and lost since is not charged again when it is recovered
(`Snapshot.settleAll_highWater`).
-/

namespace StableSwap

/-- What a settlement depends on besides the tokens and the snapshot. -/
structure Occasion where
  /-- The fees at that time. -/
  fees : ProtocolFees
  /-- The balances at that time. -/
  balances : List Amount
  /-- The rates at that time. -/
  rates : List Fixed
  /-- The shares at that time. -/
  supply : Amount

namespace Snapshot

variable {tokens : List Token} {fees : ProtocolFees} {balances : List Amount} {rates : List Fixed}
  {supply : Amount} {s : Snapshot} {settlement : Settlement} {occasions : List Occasion}
  {settlements : List Settlement}

/-- Settles on one occasion after another, each time from the snapshot of the settlement before. -/
def settleAll (s : Snapshot) (tokens : List Token) :
    List Occasion → Except PoolError (List Settlement)
  | [] => return []
  | o :: rest => do
    let settlement ← s.settle tokens o.fees o.balances o.rates o.supply
    let later ← settlement.snapshot.settleAll tokens rest
    return settlement :: later

/-- One settlement raises the invariant of the snapshot to the total one, or keeps it and mints
nothing. -/
theorem settle_highWater (h : s.settle tokens fees balances rates supply = .ok settlement) :
    ∃ T, invariantAt s.amplification tokens balances rates = .ok T ∧
      settlement.snapshot.invariant = max s.invariant T ∧
      settlement.snapshot.amplification = s.amplification ∧
      (settlement.minted ≠ 0 → s.invariant < T) := by
  obtain ⟨g, hg, ⟨hle, rfl⟩ | ⟨hgrown, minted, -, after, -, rfl⟩⟩ := settle_eq_ok.mp h
  · refine ⟨g.total, (growth_eq_ok.mp hg).2.2, Amount.ext ?_, rfl, fun hne => absurd rfl hne⟩
    rw [Amount.val_max, max_eq_left (Amount.le_def.mp hle)]
  · refine ⟨g.total, (growth_eq_ok.mp hg).2.2, Amount.ext ?_, rfl, fun _ => hgrown⟩
    rw [Amount.val_max, max_eq_right (Amount.lt_def.mp hgrown).le]

/-- **The invariant of the snapshot is a high-water mark.** After each of some settlements in a row
it is the highest of the first one and all total invariants so far, and shares are minted only by a
settlement whose total invariant exceeds all of these before it. -/
theorem settleAll_highWater (h : s.settleAll tokens occasions = .ok settlements) :
    settlements.length = occasions.length ∧
      ∃ totals,
        List.Forall₂ (fun o T =>
          invariantAt s.amplification tokens o.balances o.rates = .ok T) occasions totals ∧
        ∀ k settlement T, settlements[k]? = some settlement → totals[k]? = some T →
          settlement.snapshot.invariant = (totals.take (k + 1)).foldl max s.invariant ∧
          settlement.snapshot.amplification = s.amplification ∧
          (settlement.minted ≠ 0 →
            s.invariant < T ∧ ∀ earlier ∈ totals.take k, earlier < T) := by
  -- the later settlements start from the first one's snapshot, whose invariant is already the
  -- maximum of both
  induction occasions generalizing s settlements with
  | nil =>
      obtain rfl := pure_eq_ok.mp h
      refine ⟨rfl, [], .nil, fun k settlement T hk => ?_⟩
      simp at hk
  | cons o rest ih =>
      simp only [settleAll, bind_eq_ok, pure_eq_ok] at h
      obtain ⟨first, hfirst, later, hlater, rfl⟩ := h
      obtain ⟨T, hT, hinvariant, hamplification, hminted⟩ := settle_highWater hfirst
      obtain ⟨hlength, totals, htotals, hall⟩ := ih hlater
      rw [hamplification] at htotals
      refine ⟨congrArg (· + 1) hlength, T :: totals, .cons hT htotals, ?_⟩
      intro k settlement T' hk hT'
      cases k with
      | zero =>
          cases hk
          cases hT'
          exact ⟨hinvariant, hamplification, fun hne => ⟨hminted hne, List.forall_mem_nil _⟩⟩
      | succ k =>
          obtain ⟨hmark, hsame, hexceeds⟩ := hall k settlement T' hk hT'
          rw [hinvariant] at hmark hexceeds
          refine ⟨hmark, hsame.trans hamplification, fun hne => ?_⟩
          obtain ⟨hmax, hearlier⟩ := hexceeds hne
          rw [Amount.lt_def, Amount.val_max, max_lt_iff] at hmax
          refine ⟨hmax.1, ?_⟩
          rw [List.take_succ_cons, List.forall_mem_cons]
          exact ⟨hmax.2, hearlier⟩

/-- A thousand of each token while both have one rate. -/
def atRate (rate : Amount) : Occasion :=
  ⟨.halves, [1000000000000000000000, 1000000000000000000000], [⟨rate⟩, ⟨rate⟩],
    2000000000000000000000⟩

/-- Rates that rise by a tenth, fall back, recover in part, and rise further. -/
def risesAndFalls : List Occasion :=
  [atRate 1100000000000000000, atRate 1000000000000000000, atRate 1050000000000000000,
    atRate 1200000000000000000]

/-- The recovery is free, and the last rise is charged from the highest rate before. -/
theorem settleAll_highWater_risesAndFalls :
    ∃ settlements, even.settleAll ratedPair risesAndFalls = .ok settlements ∧
      settlements.map (fun settlement => settlement.minted.val) =
        [95238095238095236897, 0, 0, 86956521739130433330] ∧
      settlements.length = risesAndFalls.length ∧
      ∃ totals,
        List.Forall₂ (fun o T =>
          invariantAt even.amplification ratedPair o.balances o.rates = .ok T) risesAndFalls totals ∧
        ∀ k settlement T, settlements[k]? = some settlement → totals[k]? = some T →
          settlement.snapshot.invariant = (totals.take (k + 1)).foldl max even.invariant ∧
          settlement.snapshot.amplification = even.amplification ∧
          (settlement.minted ≠ 0 →
            even.invariant < T ∧ ∀ earlier ∈ totals.take k, earlier < T) := by
  obtain ⟨settlements, h, hminted⟩ := map_eq_ok.mp
    (by decide +kernel : (even.settleAll ratedPair risesAndFalls).map
      (List.map fun settlement => settlement.minted.val) =
        .ok [95238095238095236897, 0, 0, 86956521739130433330])
  exact ⟨settlements, h, hminted, settleAll_highWater h⟩

end Snapshot

end StableSwap
