import Mathlib
import StableSwap.Settlement
import StableSwap.Proofs.Rates
import StableSwap.Proofs.Rounding

/-!
# What a settlement mints

A settlement that succeeds has measured the growth. Either there was none, and the snapshot stays; or
the shares that are owed were minted, and the total invariant is that of the new snapshot
(`Snapshot.settle_eq_ok`). What follows from it:

* Settling again mints nothing (`Snapshot.settle_again`).
* The protocol is never owed more than half of what the pool gained at the rates that are charged
  (`Growth.two_mul_sharesOwed_le`). Where these rates make more of the balances than the current ones,
  that may be more than half of the growth (`Snapshot.settle_fallen_rates`).
* Where only rates of exempt tokens changed, none of it is charged as yield
  (`Snapshot.settle_of_onlyExemptDiffer`).
-/

namespace StableSwap

variable {tokens : List Token} {fees : ProtocolFees} {balances : List Amount} {rates : List Fixed}
  {supply : Amount} {s : Snapshot} {g : Growth} {settlement : Settlement}

/-! ### Rates of exempt tokens -/

/-- Token by token, only what belongs to a token that is exempt from yield fees may differ. -/
def OnlyExemptDiffer {α : Type} (tokens : List Token) (old new : List α) : Prop :=
  List.Forall₂ (fun was is => was.1.exemptFromYieldFee = false → is.2 = was.2)
    (tokens.zip old) (tokens.zip new)

theorem OnlyExemptDiffer.refl {α : Type} (tokens : List Token) (xs : List α) :
    OnlyExemptDiffer tokens xs xs :=
  List.forall₂_same.mpr fun _ _ _ => rfl

theorem onlyExemptDiffer_cons {α : Type} {token : Token} {x y : α} {old new : List α} :
    OnlyExemptDiffer (token :: tokens) (x :: old) (y :: new) ↔
      (token.exemptFromYieldFee = false → y = x) ∧ OnlyExemptDiffer tokens old new :=
  List.forall₂_cons

/-- What is the same at every token that owes yield fees differs at exempt ones only. -/
theorem onlyExemptDiffer_of_getElem? {α : Type} {tokens : List Token} {old new : List α}
    (hlen : new.length = old.length)
    (h : ∀ (i : ℕ) (token : Token), tokens[i]? = some token → token.exemptFromYieldFee = false →
      new[i]? = old[i]?) : OnlyExemptDiffer tokens old new := by
  induction tokens generalizing old new with
  | nil => exact .nil
  | cons token tokens ih =>
      cases old with
      | nil =>
          obtain rfl := List.length_eq_zero_iff.mp hlen
          exact .nil
      | cons x old =>
          cases new with
          | nil => exact nomatch hlen
          | cons y new =>
              refine onlyExemptDiffer_cons.mpr ⟨fun hcharged => ?_, ?_⟩
              · exact Option.some.inj (h 0 token rfl hcharged)
              · exact ih (Nat.succ.inj hlen) fun i => h (i + 1)

/-- Where caches differ at exempt tokens only, so do the rates, at whatever times. -/
theorem OnlyExemptDiffer.currentRates {tokens : List Token} {caches caches' : List RateCache}
    {now now' : ℕ} {old new : List Fixed} (hd : OnlyExemptDiffer tokens caches caches')
    (h : currentRates tokens caches now = .ok old)
    (h' : currentRates tokens caches' now' = .ok new) : OnlyExemptDiffer tokens old new := by
  induction tokens generalizing caches caches' old new with
  | nil => exact .nil
  | cons token tokens ih =>
      cases caches with
      | nil =>
          cases caches' with
          | nil =>
              obtain rfl := pure_eq_ok.mp h
              obtain rfl := pure_eq_ok.mp h'
              exact .nil
          | cons _ _ => exact nomatch hd
      | cons cache caches =>
          cases caches' with
          | nil => exact nomatch hd
          | cons cache' caches' =>
              obtain ⟨hkept, hrest⟩ := onlyExemptDiffer_cons.mp hd
              simp only [StableSwap.currentRates, List.zip_cons_cons, List.mapM_cons, bind_eq_ok,
                pure_eq_ok, Token.currentRate_eq_ok] at h h'
              obtain ⟨rate, hrate, rates, hrates, rfl⟩ := h
              obtain ⟨rate', hrate', rates', hrates', rfl⟩ := h'
              refine onlyExemptDiffer_cons.mpr ⟨fun hcharged => ?_, ih hrest hrates hrates'⟩
              -- one cache has one rate, however often and late it is read
              rw [hkept hcharged] at hrate'
              exact RateCache.rateAt_unique hrate hrate'

/-- The rates that are charged are then the old ones, as far as there are tokens. -/
theorem OnlyExemptDiffer.zip_chargedRates {old new : List Fixed}
    (h : OnlyExemptDiffer tokens old new) :
    tokens.zip (chargedRates tokens old new) = tokens.zip old := by
  induction tokens generalizing old new with
  | nil => rfl
  | cons token tokens ih =>
      cases old with
      | nil => rfl
      | cons was old =>
          cases new with
          | nil => exact nomatch h
          | cons is new =>
              obtain ⟨hkept, hrest⟩ := onlyExemptDiffer_cons.mp h
              have hrate : token.chargedRate was is = was := by
                unfold Token.chargedRate
                split
                · rfl
                · rename_i hcharged
                  exact hkept (Bool.eq_false_of_not_eq_true hcharged)
              have hrest := ih hrest
              rw [chargedRates] at hrest ⊢
              simp only [List.zip_cons_cons, List.map_cons, hrate, hrest]

theorem OnlyExemptDiffer.invariantAt_chargedRates {old new : List Fixed}
    (h : OnlyExemptDiffer tokens old new) (A : Amount) (balances : List Amount) :
    invariantAt A tokens balances (chargedRates tokens old new) =
      invariantAt A tokens balances old := by
  rw [invariantAt, Scaling.ofRates, h.zip_chargedRates, invariantAt, Scaling.ofRates]

/-! ### Growth -/

namespace Snapshot

theorem growth_eq_ok :
    s.growth tokens balances rates = .ok g ↔
      invariantAt s.amplification tokens balances s.rates = .ok g.swapFee ∧
      invariantAt s.amplification tokens balances (chargedRates tokens s.rates rates) =
        .ok g.nonExempt ∧
      invariantAt s.amplification tokens balances rates = .ok g.total := by
  simp only [growth, bind_eq_ok, pure_eq_ok]
  constructor
  · rintro ⟨_, hswap, _, hcharged, _, htotal, rfl⟩
    exact ⟨hswap, hcharged, htotal⟩
  · rintro ⟨hswap, hcharged, htotal⟩
    exact ⟨_, hswap, _, hcharged, _, htotal, rfl⟩

/-- Where no rate changed, the three invariants are one. -/
theorem growth_self {D : Amount}
    (h : invariantAt s.amplification tokens balances s.rates = .ok D) :
    s.growth tokens balances s.rates = .ok ⟨D, D, D⟩ :=
  growth_eq_ok.mpr
    ⟨h, ((OnlyExemptDiffer.refl tokens s.rates).invariantAt_chargedRates _ _).trans h, h⟩

/-- Where only rates of exempt tokens changed, there is no yield that is charged. -/
theorem nonExempt_eq_swapFee (hd : OnlyExemptDiffer tokens s.rates rates)
    (h : s.growth tokens balances rates = .ok g) : g.nonExempt = g.swapFee := by
  obtain ⟨hswap, hcharged, -⟩ := growth_eq_ok.mp h
  rw [hd.invariantAt_chargedRates, hswap] at hcharged
  exact (Except.ok.inj hcharged).symm

end Snapshot

/-! ### Shares owed -/

/-- The same fees without a share of yield. -/
def ProtocolFees.withoutYield (fees : ProtocolFees) : ProtocolFees :=
  { fees with yieldShare := 0, yieldShare_le := ProtocolFees.zero.yieldShare_le }

namespace Growth

variable {previous minted : Amount} {value p : Fixed}

/-- A share of at most one half of a number is at most half of it. -/
theorem two_mul_le_of_mulDown {x share c : Fixed} (hshare : share ≤ maxProtocolShare)
    (h : x.mulDown share = .ok c) : 2 * c.wei.val ≤ x.wei.val := by
  rw [Fixed.mulDown_eq_ok.mp h]
  have hhalf : 2 * share.wei.val ≤ Fixed.unit.val := Nat.mul_le_mul_left 2 hshare
  calc 2 * (x.wei.val * share.wei.val / Fixed.unit.val)
      ≤ 2 * (x.wei.val * share.wei.val) / Fixed.unit.val := Nat.mul_div_le_mul_div_assoc _ _ _
    _ ≤ x.wei.val * Fixed.unit.val / Fixed.unit.val := by
        refine Nat.div_le_div_right ?_
        rw [Nat.mul_left_comm]
        exact Nat.mul_le_mul_left _ hhalf
    _ = x.wei.val := Nat.mul_div_cancel _ Fixed.unit_pos

/-- What the protocol is owed is at most half of what the pool gained at the rates that are
charged. -/
theorem two_mul_protocolValue_le (h : g.protocolValue fees previous = .ok value) :
    2 * value.wei.val ≤ max g.swapFee.val g.nonExempt.val - previous.val := by
  simp only [protocolValue, bind_eq_ok] at h
  obtain ⟨ofSwaps, hswaps, ofYield, hyield, hsum⟩ := h
  have hswaps := two_mul_le_of_mulDown fees.swapShare_le hswaps
  have hyield := two_mul_le_of_mulDown fees.yieldShare_le hyield
  rw [fromSwaps, Amount.val_monus] at hswaps
  rw [fromYield, Amount.val_monus, Amount.val_max] at hyield
  rw [Fixed.add_eq_ok.mp hsum]
  omega

/-- The share of the pool that the protocol is owed is what it is owed by the total invariant. -/
theorem ownership_ok (h : g.ownership fees previous = .ok p) :
    ∃ value, g.protocolValue fees previous = .ok value ∧ 0 < g.total.val ∧
      p.wei.val = value.wei.val * Fixed.unit.val / g.total.val := by
  obtain ⟨value, hvalue, hp⟩ := bind_eq_ok.mp h
  exact ⟨value, hvalue, Fixed.divDown_eq_ok.mp hp⟩

/-- So many shares were minted on top of a supply for a part of the whole, in units of 10⁻¹⁸. The
exact number is `supply · part / (1 - part)`, and both of its roundings take from what is minted. -/
structure MintedFor (supply part minted : ℕ) : Prop where
  part_lt : part < Fixed.unit.val
  le : minted * (Fixed.unit.val - part) ≤ supply * part
  lt : supply * part < (minted + 1) * (Fixed.unit.val - part) + Fixed.unit.val

theorem mintedFor_zero (supply : ℕ) : MintedFor supply 0 0 :=
  ⟨Fixed.unit_pos, by simp, by simp⟩

/-- The minted shares are at most that part of all shares after minting. -/
theorem MintedFor.mul_unit_le {supply part minted : ℕ} (h : MintedFor supply part minted) :
    minted * Fixed.unit.val ≤ (supply + minted) * part := by
  have hle := h.le
  rw [Nat.mul_sub, Nat.sub_le_iff_le_add] at hle
  rwa [Nat.add_mul]

/-- The shares owed are those to mint for the share of the pool that the protocol is owed. -/
theorem sharesOwed_ok (h : g.sharesOwed fees previous supply = .ok minted) :
    ∃ p, g.ownership fees previous = .ok p ∧ MintedFor supply.val p.wei.val minted.val := by
  obtain ⟨p, hp, h⟩ := bind_eq_ok.mp h
  refine ⟨p, hp, ?_⟩
  by_cases hzero : p = 0
  · rw [if_pos hzero] at h
    obtain rfl := pure_eq_ok.mp h
    rw [hzero]
    exact mintedFor_zero _
  · simp only [if_neg hzero, bind_eq_ok, pure_eq_ok, Fixed.mulDown_eq_ok, Fixed.divDown_eq_ok,
      Fixed.val_complement] at h
    obtain ⟨part, hpart, shares, ⟨hrest, hshares⟩, rfl⟩ := h
    -- the part of the supply is floored, and then its quotient by what is left to the others
    have hle : part.wei.val * Fixed.unit.val ≤ supply.val * p.wei.val := by
      rw [hpart]
      exact Nat.div_mul_le_self _ _
    have hlt : supply.val * p.wei.val < part.wei.val * Fixed.unit.val + Fixed.unit.val := by
      rw [hpart]
      exact Nat.lt_div_mul_add Fixed.unit_pos
    have hle' : shares.wei.val * (Fixed.unit.val - p.wei.val) ≤ part.wei.val * Fixed.unit.val := by
      rw [hshares]
      exact Nat.div_mul_le_self _ _
    have hlt' : part.wei.val * Fixed.unit.val <
        (shares.wei.val + 1) * (Fixed.unit.val - p.wei.val) := by
      rw [hshares, Nat.add_one_mul]
      exact Nat.lt_div_mul_add hrest
    exact ⟨Nat.lt_of_sub_pos hrest, hle'.trans hle, hlt.trans (Nat.add_lt_add_right hlt' _)⟩

/-- **The protocol gets at most half of what the pool gained at the rates that are charged**, valued
at the total invariant after minting. -/
theorem two_mul_sharesOwed_le (h : g.sharesOwed fees previous supply = .ok minted) :
    2 * minted.val * g.total.val ≤
      (supply.val + minted.val) * (max g.swapFee.val g.nonExempt.val - previous.val) := by
  obtain ⟨p, hp, hminted⟩ := sharesOwed_ok h
  obtain ⟨value, hvalue, -, hval⟩ := ownership_ok hp
  have hworth : p.wei.val * g.total.val ≤ value.wei.val * Fixed.unit.val := by
    rw [hval]
    exact Nat.div_mul_le_self _ _
  refine Nat.le_of_mul_le_mul_right ?_ Fixed.unit_pos
  calc 2 * minted.val * g.total.val * Fixed.unit.val
      = 2 * (minted.val * Fixed.unit.val * g.total.val) := by ring
    _ ≤ 2 * ((supply.val + minted.val) * p.wei.val * g.total.val) :=
        Nat.mul_le_mul_left _ (Nat.mul_le_mul_right _ hminted.mul_unit_le)
    _ = 2 * (supply.val + minted.val) * (p.wei.val * g.total.val) := by ring
    _ ≤ 2 * (supply.val + minted.val) * (value.wei.val * Fixed.unit.val) :=
        Nat.mul_le_mul_left _ hworth
    _ = (supply.val + minted.val) * (2 * value.wei.val) * Fixed.unit.val := by ring
    _ ≤ (supply.val + minted.val) * (max g.swapFee.val g.nonExempt.val - previous.val) *
          Fixed.unit.val :=
        Nat.mul_le_mul_right _ (Nat.mul_le_mul_left _ (two_mul_protocolValue_le hvalue))

/-- Where the protocol is owed nothing, it gets no shares. -/
theorem sharesOwed_eq_zero (hpos : 0 < g.total.val)
    (h : g.protocolValue fees previous = .ok 0) : g.sharesOwed fees previous supply = .ok 0 := by
  have hown : g.ownership fees previous = .ok 0 :=
    bind_eq_ok.mpr ⟨0, h, Fixed.divDown_eq_ok.mpr ⟨hpos, by simp⟩⟩
  exact bind_eq_ok.mpr ⟨0, hown, rfl⟩

/-- With no fees there is nothing to mint, which a settlement does not even compute. -/
theorem sharesOwed_of_isZero (hpos : 0 < g.total.val) (hfees : fees.isZero = true) :
    g.sharesOwed fees previous supply = .ok 0 := by
  obtain ⟨hswap, hyield⟩ : fees.swapShare = 0 ∧ fees.yieldShare = 0 := by
    simpa [ProtocolFees.isZero] using hfees
  refine sharesOwed_eq_zero hpos ?_
  simp only [protocolValue, hswap, hyield, Fixed.mulDown_zero_right, bind_eq_ok]
  exact ⟨0, rfl, 0, rfl, rfl⟩

/-- Where no charged rate changed, there is no yield. -/
theorem fromYield_eq_zero (hg : g.nonExempt = g.swapFee) (previous : Amount) :
    g.fromYield previous = 0 := by
  rw [fromYield, hg, Amount.eq_zero_iff, Amount.val_monus, Amount.val_max]
  exact Nat.sub_eq_zero_of_le (le_max_left _ _)

/-- Without yield its share does not matter. -/
theorem sharesOwed_withoutYield (hg : g.nonExempt = g.swapFee) (fees : ProtocolFees)
    (previous supply : Amount) :
    g.sharesOwed fees.withoutYield previous supply = g.sharesOwed fees previous supply := by
  have hvalue : g.protocolValue fees.withoutYield previous = g.protocolValue fees previous := by
    rw [protocolValue, protocolValue, fromYield_eq_zero hg]
    simp only [ProtocolFees.withoutYield]
    rw [show (⟨0⟩ : Fixed) = 0 from rfl, Fixed.mulDown_zero_left, Fixed.mulDown_zero_left]
  rw [sharesOwed, ownership, hvalue, sharesOwed, ownership]

/-- Without yield and trades that gained something, the protocol gets no shares. -/
theorem sharesOwed_of_swapFee_le (hg : g.nonExempt = g.swapFee) (hpos : 0 < g.total.val)
    (hle : g.swapFee ≤ previous) : g.sharesOwed fees previous supply = .ok 0 := by
  have hswaps : g.fromSwaps previous = 0 := by
    rw [fromSwaps, Amount.eq_zero_iff, Amount.val_monus]
    exact Nat.sub_eq_zero_of_le hle
  refine sharesOwed_eq_zero hpos ?_
  rw [protocolValue, fromYield_eq_zero hg, hswaps, show (⟨0⟩ : Fixed) = 0 from rfl,
    Fixed.mulDown_zero_left, Fixed.mulDown_zero_left]
  rfl

end Growth

/-! ### Two tokens with rates -/

/-- Two tokens of eighteen decimals whose rates are reported. -/
def ratedPair : List Token :=
  [{ address := 1
     decimals := 18
     rateProvider := some 4
     cacheDuration := ⟨300, 0⟩ },
   { address := 2
     decimals := 18
     rateProvider := some 5
     cacheDuration := ⟨300, 0⟩ }]

/-- Half of the swap fees and half of the yield, the most there can be. -/
def ProtocolFees.halves : ProtocolFees :=
  ⟨.nobody, maxProtocolShare, maxProtocolShare, by decide, by decide⟩

/-- The snapshot of a thousand of each token at rate one. -/
def Snapshot.even : Snapshot :=
  ⟨2000000000000000000000, 2000000000000000000000, 200000, [1, 1]⟩

/-! ### Single settlements -/

namespace Snapshot

/-- **What a settlement does.** Without growth it leaves the snapshot, otherwise it mints the shares
owed and takes a new one. -/
theorem settle_eq_ok :
    s.settle tokens fees balances rates supply = .ok settlement ↔
      ∃ g, s.growth tokens balances rates = .ok g ∧
        (g.total ≤ s.invariant ∧ ⟨0, s⟩ = settlement ∨
          s.invariant < g.total ∧ ∃ minted, g.sharesOwed fees s.invariant supply = .ok minted ∧
            ∃ after, supply.add minted = .ok after ∧
              ⟨minted, ⟨g.total, after, s.amplification, rates⟩⟩ = settlement) := by
  rw [settle, bind_eq_ok]
  refine exists_congr fun g => ?_
  rw [mapError_eq_ok]
  refine and_congr_right fun _ => ?_
  by_cases hgrown : g.total ≤ s.invariant
  · have hnot : ¬ s.invariant < g.total := Nat.not_lt.mpr hgrown
    simp only [hgrown, hnot, if_true, true_and, false_and, or_false, pure_eq_ok]
  · have hlt : s.invariant < g.total := Nat.lt_of_not_le hgrown
    simp only [hgrown, hlt, if_false, false_and, false_or, true_and]
    -- without fees `sharesOwed` is skipped, and would have been zero
    split
    · rename_i hfees
      simp only [Growth.sharesOwed_of_isZero (Nat.zero_lt_of_lt hlt) hfees, bind_eq_ok,
        mapError_eq_ok, pure_eq_ok, Except.ok.injEq]
    · simp only [bind_eq_ok, mapError_eq_ok, pure_eq_ok]

/-- A new snapshot is of the supply after minting, at the current rates. -/
theorem settle_ok (h : s.settle tokens fees balances rates supply = .ok settlement) :
    settlement = ⟨0, s⟩ ∨
      settlement.snapshot.supply.val = supply.val + settlement.minted.val ∧
      settlement.snapshot.rates = rates := by
  obtain ⟨g, -, ⟨-, rfl⟩ | ⟨-, minted, -, after, hafter, rfl⟩⟩ := settle_eq_ok.mp h
  · exact .inl rfl
  · exact .inr ⟨Amount.add_eq_ok.mp hafter, rfl⟩

/-- Without growth nothing happens, whatever the fees and the supply. -/
theorem settle_of_le (hg : s.growth tokens balances rates = .ok g) (hle : g.total ≤ s.invariant)
    (fees : ProtocolFees) (supply : Amount) :
    s.settle tokens fees balances rates supply = .ok ⟨0, s⟩ :=
  settle_eq_ok.mpr ⟨g, hg, .inl ⟨hle, rfl⟩⟩

/-- At the rates of the snapshot nothing happens, unless the balances grew. -/
theorem settle_self {D : Amount} (h : invariantAt s.amplification tokens balances s.rates = .ok D)
    (hle : D ≤ s.invariant) (fees : ProtocolFees) (supply : Amount) :
    s.settle tokens fees balances s.rates supply = .ok ⟨0, s⟩ :=
  settle_of_le (growth_self h) hle fees supply

/-- **Settling again mints nothing** and leaves the snapshot. -/
theorem settle_again (h : s.settle tokens fees balances rates supply = .ok settlement)
    (fees' : ProtocolFees) (supply' : Amount) :
    settlement.snapshot.settle tokens fees' balances rates supply' =
      .ok ⟨0, settlement.snapshot⟩ := by
  obtain ⟨g, hg, ⟨hle, rfl⟩ | ⟨-, minted, -, after, -, rfl⟩⟩ := settle_eq_ok.mp h
  · exact settle_of_le hg hle fees' supply'
  · obtain ⟨-, -, htotal⟩ := growth_eq_ok.mp hg
    exact settle_self (s := ⟨g.total, after, s.amplification, rates⟩) htotal (Nat.le_refl _)
      fees' supply'

/-- **Changes of exempt rates are not charged as yield.** The settlement is the one without a share
of yield, and mints nothing unless trades gained something. -/
theorem settle_of_onlyExemptDiffer (hd : OnlyExemptDiffer tokens s.rates rates)
    (h : s.settle tokens fees balances rates supply = .ok settlement) :
    s.settle tokens fees.withoutYield balances rates supply = .ok settlement ∧
      ∃ D, invariantAt s.amplification tokens balances s.rates = .ok D ∧
        (D ≤ s.invariant → settlement.minted = 0) := by
  obtain ⟨g, hg, hcases⟩ := settle_eq_ok.mp h
  have hyield := nonExempt_eq_swapFee hd hg
  refine ⟨?_, g.swapFee, (growth_eq_ok.mp hg).1, fun hle => ?_⟩
  · rw [settle_eq_ok]
    refine ⟨g, hg, ?_⟩
    rwa [Growth.sharesOwed_withoutYield hyield]
  · rcases hcases with ⟨-, rfl⟩ | ⟨hgrown, minted, howed, after, -, rfl⟩
    · rfl
    · rw [Growth.sharesOwed_of_swapFee_le hyield (Nat.zero_lt_of_lt hgrown) hle] at howed
      exact (Except.ok.inj howed).symm

/-! ### The share of the growth -/

/-- **The protocol gets at most half of what the pool gained at the rates that are charged**, and so
at most half of the growth where these rates make no more of the balances than the current ones. -/
theorem settle_at_most_half (hg : s.growth tokens balances rates = .ok g)
    (hgrown : s.invariant < g.total)
    (h : s.settle tokens fees balances rates supply = .ok settlement) :
    2 * settlement.minted.val * g.total.val ≤
        (supply.val + settlement.minted.val) *
          (max g.swapFee.val g.nonExempt.val - s.invariant.val) ∧
      (g.swapFee ≤ g.total → g.nonExempt ≤ g.total →
        2 * settlement.minted.val * g.total.val ≤
            (supply.val + settlement.minted.val) * (g.total.val - s.invariant.val) ∧
          settlement.minted.val ≤ supply.val) := by
  obtain ⟨g', hg', ⟨hle, -⟩ | ⟨-, minted, howed, after, -, rfl⟩⟩ := settle_eq_ok.mp h
  · obtain rfl : g = g' := Except.ok.inj (hg.symm.trans hg')
    exact absurd hgrown (Nat.not_lt.mpr hle)
  · obtain rfl : g = g' := Except.ok.inj (hg.symm.trans hg')
    have hhalf := Growth.two_mul_sharesOwed_le howed
    refine ⟨hhalf, fun hswap hcharged => ?_⟩
    have hgrowth : 2 * minted.val * g.total.val ≤
        (supply.val + minted.val) * (g.total.val - s.invariant.val) :=
      hhalf.trans (Nat.mul_le_mul_left _ (Nat.sub_le_sub_right (max_le hswap hcharged) _))
    refine ⟨hgrowth, ?_⟩
    -- the growth is no more than the total, by which both sides can be divided
    have hle : 2 * minted.val ≤ supply.val + minted.val :=
      Nat.le_of_mul_le_mul_right (hgrowth.trans (Nat.mul_le_mul_left _ (Nat.sub_le _ _)))
        (Nat.zero_lt_of_lt hgrown)
    show minted.val ≤ supply.val
    omega

/-- A settlement after a trade and a rise of the first token's rate by a tenth. -/
theorem settle_at_most_half_risen :
    ∃ g settlement,
      even.growth ratedPair [1010000000000000000000, 1000000000000000000000]
        [⟨1100000000000000000⟩, 1] = .ok g ∧
      even.invariant < g.total ∧
      even.settle ratedPair .halves [1010000000000000000000, 1000000000000000000000]
        [⟨1100000000000000000⟩, 1] 2000000000000000000000 = .ok settlement ∧
      settlement.minted.val = 53994567872984624735 ∧
      g.swapFee ≤ g.total ∧ g.nonExempt ≤ g.total ∧
      2 * settlement.minted.val * g.total.val ≤
        (2000000000000000000000 + settlement.minted.val) * (g.total.val - even.invariant.val) ∧
      settlement.minted.val ≤ 2000000000000000000000 := by
  have hg : even.growth ratedPair [1010000000000000000000, 1000000000000000000000]
      [⟨1100000000000000000⟩, 1] = .ok ⟨2009999876237646566883, 2110985441215274903340,
        2110985441215274903340⟩ := by decide +kernel
  have h : even.settle ratedPair .halves [1010000000000000000000, 1000000000000000000000]
      [⟨1100000000000000000⟩, 1] 2000000000000000000000 =
        .ok ⟨53994567872984624735, ⟨2110985441215274903340, 2053994567872984624735, 200000,
          [⟨1100000000000000000⟩, 1]⟩⟩ := by decide +kernel
  have hgrown : even.invariant < 2110985441215274903340 := by decide
  exact ⟨_, _, hg, hgrown, h, rfl, by decide, by decide,
    (settle_at_most_half hg hgrown h).2 (by decide) (by decide)⟩

/-- Where rates fall by less than trades gained, half of the gain may be much more than half of the
growth, and more than half of the pool. -/
theorem settle_fallen_rates :
    ∃ g settlement,
      even.growth ratedPair [2500000000000000000000, 2500000000000000000000]
        [⟨402000000000000000⟩, ⟨402000000000000000⟩] = .ok g ∧
      even.invariant < g.total ∧
      even.settle ratedPair .halves [2500000000000000000000, 2500000000000000000000]
        [⟨402000000000000000⟩, ⟨402000000000000000⟩] 2000000000000000000000 = .ok settlement ∧
      (2000000000000000000000 + settlement.minted.val) * (g.total.val - even.invariant.val) <
        2 * settlement.minted.val * g.total.val ∧
      2000000000000000000000 < settlement.minted.val := by
  refine ⟨⟨5000000000000000000000, 2010000000000000000000, 2010000000000000000000⟩,
    ⟨5882352941176470574325, ⟨2010000000000000000000, 7882352941176470574325, 200000,
      [⟨402000000000000000⟩, ⟨402000000000000000⟩]⟩⟩, ?_, ?_, ?_, ?_, ?_⟩
  all_goals decide +kernel

end Snapshot

end StableSwap
