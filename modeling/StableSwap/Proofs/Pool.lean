import Mathlib
import StableSwap.Pool
import StableSwap.Proofs.Liquidity
import StableSwap.Proofs.Settlement

/-!
# What an operation of a pool does

An operation that succeeds, taken apart into its stages. Settling moves no tokens: it adds the
minted shares to the supply, and either keeps the snapshot or takes one of the ledger it leaves
(`settle_ok`). A join or exit applies one movement to the settled ledger and takes a snapshot
(`joinExit_ok`, and `Moves` for all but the first); a trade moves two balances of it (`swap_ok`).

A pool is `Shaped` when it has a balance and a cache for each of its tokens, as every pool has that
operations lead to.
-/

namespace StableSwap

namespace Pool

open Mutation

variable {p p' : Pool} {request : LiquidityRequest} {ctx : Context} {rates : List Fixed}
  {scaling : Scaling}

/-- The pool has a balance and a cache for each of its tokens. -/
structure Shaped (p : Pool) : Prop where
  balances : p.ledger.balances.length = p.config.tokenCount
  caches : p.caches.length = p.config.tokenCount

/-- There is a rate for each token. -/
theorem Shaped.length_rates (hp : p.Shaped) {now : ℕ} (h : p.rates now = .ok rates) :
    rates.length = p.config.tokenCount := by
  rw [← (mapM_eq_ok.mp h).length_eq, List.length_zip, hp.caches, Config.tokenCount, Nat.min_self]

/-- There is a factor for each token. -/
theorem Shaped.tokenCount_scaling (hp : p.Shaped) {now : ℕ} (hrates : p.rates now = .ok rates)
    (h : p.scaling rates = .ok scaling) : scaling.tokenCount = p.config.tokenCount := by
  obtain ⟨factors, hfactors, rfl⟩ := map_eq_ok.mp (mapError_eq_ok.mp h)
  rw [Scaling.tokenCount, ← (mapM_eq_ok.mp hfactors).length_eq, List.length_zip,
    hp.length_rates hrates, Config.tokenCount, Nat.min_self]

/-- What the curve makes of a pool: the factors of the tokens at a time, the balances in the common
unit and their invariant. -/
structure Measured (p : Pool) (ctx : Context) (scaling : Scaling) (scaled : List Fixed)
    (D : Amount) : Prop where
  factors : ∃ rates, p.rates ctx.timestamp = .ok rates ∧ p.scaling rates = .ok scaling
  balances : scaling.upscaleAll p.ledger.balances = .ok scaled
  invariant : Curve.invariant ctx.amplification.scaled scaled = .ok D

/-- The tokens have one factor each at a time. -/
theorem scaling_unique {now : ℕ} {scaling' : Scaling}
    (h : ∃ rates, p.rates now = .ok rates ∧ p.scaling rates = .ok scaling)
    (h' : ∃ rates, p.rates now = .ok rates ∧ p.scaling rates = .ok scaling') :
    scaling = scaling' := by
  obtain ⟨rates, hrates, hscaling⟩ := h
  obtain ⟨rates', hrates', hscaling'⟩ := h'
  obtain rfl : rates = rates' := Except.ok.inj (hrates.symm.trans hrates')
  exact Except.ok.inj (hscaling.symm.trans hscaling')

/-- A pool has one measure. -/
theorem Measured.unique {scaling' : Scaling} {scaled scaled' : List Fixed} {D D' : Amount}
    (h : p.Measured ctx scaling scaled D) (h' : p.Measured ctx scaling' scaled' D') :
    scaling = scaling' ∧ scaled = scaled' ∧ D = D' := by
  obtain rfl := scaling_unique h.factors h'.factors
  obtain rfl : scaled = scaled' := Except.ok.inj (h.balances.symm.trans h'.balances)
  exact ⟨rfl, rfl, Except.ok.inj (h.invariant.symm.trans h'.invariant)⟩

theorem Shaped.length_scaled {scaled : List Fixed} (hp : p.Shaped)
    (hcount : scaling.tokenCount = p.config.tokenCount)
    (h : scaling.upscaleAll p.ledger.balances = .ok scaled) :
    scaled.length = p.config.tokenCount := by
  rw [← Fixed.length_weis, Scaling.weis_upscaleAll h, Scaling.length_worth, hp.balances, hcount,
    Nat.min_self]

/-! ### The stages of an operation -/

/-- Settling a pool settles its snapshot and mints. -/
theorem settle_eq_ok {settled : Settled} :
    p.settle rates ctx = .ok settled ↔
      ∃ s settlement ledger, p.snapshot = some s ∧
        s.settle p.config.tokens ctx.protocolFees p.ledger.balances rates p.ledger.supply =
          .ok settlement ∧
        p.ledger.mint settlement.minted = .ok ledger ∧
        ⟨ledger, settlement.snapshot, ⟨ctx.protocolFees.recipient, settlement.minted⟩⟩ =
          settled := by
  unfold settle
  cases p.snapshot with
  | none => exact ⟨nofun, nofun⟩
  | some s =>
      simp only [bind_eq_ok, pure_eq_ok]
      constructor
      · rintro ⟨settlement, hsettlement, ledger, hledger, rfl⟩
        exact ⟨s, settlement, ledger, rfl, hsettlement, hledger, rfl⟩
      · rintro ⟨_, settlement, ledger, ⟨⟩, hsettlement, hledger, rfl⟩
        exact ⟨settlement, hsettlement, ledger, hledger, rfl⟩

/-- Settling moves no tokens and adds what it mints to the shares. It either mints nothing and keeps
the snapshot, or takes one of the ledger it leaves. -/
theorem settle_ok {settled : Settled} (h : p.settle rates ctx = .ok settled) :
    ∃ snapshot, p.snapshot = some snapshot ∧ settled.ledger.balances = p.ledger.balances ∧
      settled.ledger.supply.val = p.ledger.supply.val + settled.protocolFee.amount.val ∧
      (settled.snapshot = snapshot ∧ settled.protocolFee.amount = 0 ∨
        settled.snapshot.supply = settled.ledger.supply ∧ settled.snapshot.rates = rates) := by
  obtain ⟨snapshot, settlement, ledger, hsnapshot, hsettlement, hledger, rfl⟩ := settle_eq_ok.mp h
  obtain ⟨hbalances, hsupply⟩ := Ledger.mint_ok hledger
  refine ⟨snapshot, hsnapshot, hbalances, hsupply, ?_⟩
  rcases Snapshot.settle_ok hsettlement with rfl | ⟨hs, hr⟩
  · exact .inl ⟨rfl, rfl⟩
  · exact .inr ⟨Amount.ext (hs.trans hsupply.symm), hr⟩

theorem Shaped.length_settled {settled : Settled} (hp : p.Shaped)
    (h : p.settle rates ctx = .ok settled) :
    settled.ledger.balances.length = p.config.tokenCount := by
  obtain ⟨-, -, hbalances, -⟩ := settle_ok h
  rw [hbalances, hp.balances]

/-- A first join is booked in a pool without shares, whole for the ledger and less the locked shares
for the caller. No fee is due. -/
theorem bookFirst_ok {amountsIn : List Amount} {booking : Booking}
    (h : p.bookFirst amountsIn scaling ctx = .ok booking) :
    p.ledger.supply = 0 ∧
      ∃ delta, firstJoin amountsIn ctx.amplification.scaled scaling = .ok delta ∧
        p.ledger.apply delta = .ok booking.ledger ∧
        booking.shares = delta.shares.monus lockedShares ∧ booking.amounts = delta.amounts ∧
        booking.protocolFee.amount = 0 := by
  simp only [bookFirst, error_unless_eq_ok, bind_eq_ok, pure_eq_ok] at h
  obtain ⟨hsupply, delta, hdelta, ledger, hledger, rfl⟩ := h
  exact ⟨by simpa [Ledger.isInitialized] using hsupply, delta, hdelta, hledger, rfl, rfl, rfl⟩

/-- Another join or exit is booked in the settled ledger. -/
theorem bookLater_ok {booking : Booking} (h : p.bookLater request rates scaling ctx = .ok booking) :
    ∃ settled basis delta, p.settle rates ctx = .ok settled ∧
      p.liquidityBasis settled scaling ctx = .ok basis ∧ basis.compute request = .ok delta ∧
      settled.ledger.apply delta = .ok booking.ledger ∧ booking.shares = delta.shares ∧
      booking.amounts = delta.amounts ∧ booking.protocolFee = settled.protocolFee := by
  simp only [bookLater, bind_eq_ok, pure_eq_ok] at h
  obtain ⟨settled, hsettled, basis, hbasis, delta, hdelta, ledger, hledger, rfl⟩ := h
  exact ⟨settled, basis, delta, hsettled, hbasis, hdelta, hledger, rfl, rfl, rfl⟩

/-- A join or exit is computed against the ledger it finds, in the common unit. -/
theorem liquidityBasis_ok {settled : Settled} {basis : LiquidityBasis}
    (hcount : scaling.tokenCount = settled.ledger.balances.length)
    (h : p.liquidityBasis settled scaling ctx = .ok basis) :
    basis.amplification = ctx.amplification.scaled ∧ basis.scaling = scaling ∧
      basis.Measures settled.ledger := by
  simp only [liquidityBasis, bind_eq_ok, mapError_eq_ok, pure_eq_ok] at h
  obtain ⟨scaled, hscaled, D, hD, rfl⟩ := h
  exact ⟨rfl, rfl, ⟨rfl, rfl, hcount, hscaled, hD⟩⟩

theorem liquidityBasis_swapFee {settled : Settled} {basis : LiquidityBasis}
    (h : p.liquidityBasis settled scaling ctx = .ok basis) :
    basis.swapFee = p.config.swapFee := by
  simp only [liquidityBasis, bind_eq_ok, pure_eq_ok] at h
  obtain ⟨_, -, _, -, rfl⟩ := h
  rfl

/-- A join or exit is the first join or a later one. -/
theorem book_ok {booking : Booking} (h : p.book request rates scaling ctx = .ok booking) :
    (∃ amountsIn, request = .init amountsIn ∧ p.bookFirst amountsIn scaling ctx = .ok booking) ∨
      p.bookLater request rates scaling ctx = .ok booking := by
  unfold book at h
  split at h
  · exact .inl ⟨_, rfl, h⟩
  · exact .inr h

theorem length_book {booking : Booking} (h : p.book request rates scaling ctx = .ok booking) :
    booking.ledger.balances.length = p.ledger.balances.length := by
  rcases book_ok h with ⟨amountsIn, rfl, hfirst⟩ | hlater
  · obtain ⟨-, delta, -, hledger, -⟩ := bookFirst_ok hfirst
    exact Ledger.length_apply hledger
  · obtain ⟨settled, basis, delta, hsettled, -, -, hledger, -⟩ := bookLater_ok hlater
    obtain ⟨-, -, hbalances, -⟩ := settle_ok hsettled
    rw [Ledger.length_apply hledger, hbalances]

/-- A snapshot is taken of the shares of a ledger, at the rates of the moment. -/
theorem snapshotOf_ok {ledger : Ledger} {snapshot : Snapshot}
    (h : snapshotOf ledger rates scaling ctx = .ok snapshot) :
    snapshot.supply = ledger.supply ∧ snapshot.rates = rates := by
  simp only [snapshotOf, bind_eq_ok, pure_eq_ok] at h
  obtain ⟨_, -, _, -, rfl⟩ := h
  exact ⟨rfl, rfl⟩

theorem snapshotOf_scaled {ledger : Ledger} {snapshot : Snapshot}
    (h : snapshotOf ledger rates scaling ctx = .ok snapshot) :
    ∃ scaled, scaling.upscaleAll ledger.balances = .ok scaled := by
  simp only [snapshotOf, bind_eq_ok, mapError_eq_ok] at h
  obtain ⟨scaled, hscaled, -⟩ := h
  exact ⟨scaled, hscaled⟩

/-! ### All or nothing

The assignments of an operation stand behind its last step that can fail. -/

/-- The cache is assigned last. -/
theorem refresh_commits (p : Pool) (index : ℕ) (answer : ProviderAnswer) (now : ℕ) :
    (Change.refresh index answer now).Commits p (do
      let (token, cache) ← p.tokenAt index
      let cache ← cache.refreshed token answer now
      return ((cache.rateAt now).getD 0, { p with caches := p.caches.set index cache })) :=
  (answers_query _).bind_commits fun (_, _) => (answers_lift _).bind_commits fun _ =>
    commits_of_run rfl

/-- The ledger and the snapshot are assigned when the snapshot could be taken. -/
theorem joinExit_commits (p : Pool) (request : LiquidityRequest) (ctx : Context) :
    (Change.joinExit request ctx).Commits p (do
      let rates ← p.rates ctx.timestamp
      let scaling ← p.scaling rates
      let booking ← p.book request rates scaling ctx
      let snapshot ← snapshotOf booking.ledger rates scaling ctx
      return (⟨request.kindName, request.flow, booking.shares, booking.amounts,
        booking.protocolFee⟩, { p with ledger := booking.ledger, snapshot := some snapshot })) :=
  (answers_query _).bind_commits fun _ => (answers_query _).bind_commits fun _ =>
    (answers_query _).bind_commits fun _ => (answers_lift _).bind_commits fun _ =>
      commits_of_run rfl

/-- The ledger and the snapshot are assigned when the traded balances could be. -/
theorem swap_commits (p : Pool) (request : SwapRequest) (ctx : Context) :
    (Change.swap request ctx).Commits p (do
      p.config.checkIndex request.tokenIn
      p.config.checkIndex request.tokenOut
      let rates ← p.rates ctx.timestamp
      let scaling ← p.scaling rates
      let settled ← p.settle rates ctx
      let basis ← p.swapBasis settled scaling ctx
      let amounts ← basis.compute request
      let ledger ← settled.ledger.swap request.tokenIn amounts.amountIn request.tokenOut
        amounts.amountOut
      return (⟨amounts, settled.protocolFee⟩,
        { p with ledger := ledger, snapshot := some settled.snapshot })) :=
  (answers_query _).bind_commits fun _ => (answers_query _).bind_commits fun _ =>
    (answers_query _).bind_commits fun _ => (answers_query _).bind_commits fun _ =>
      (answers_query _).bind_commits fun _ => (answers_query _).bind_commits fun _ =>
        (answers_lift _).bind_commits fun _ => (answers_lift _).bind_commits fun _ =>
          commits_of_run rfl

/-! ### What an operation does -/

/-- A refresh changes one cache. -/
theorem refresh_ok {index : ℕ} {answer : ProviderAnswer} {now : ℕ} {rate : Fixed}
    (h : p.refresh index answer now = .ok (rate, p')) :
    ∃ token cache cache', p.tokenAt index = .ok (token, cache) ∧
      cache.refreshed token answer now = .ok cache' ∧
      p' = { p with caches := p.caches.set index cache' } := by
  rw [refresh, (refresh_commits p index answer now).result_eq] at h
  simp only [bind_eq_ok, pure_eq_ok, Prod.mk.injEq] at h
  obtain ⟨⟨token, cache⟩, htoken, cache', hcache', -, rfl⟩ := h
  exact ⟨token, cache, cache', htoken, hcache', rfl⟩

/-- A join or exit changes the ledger, and takes a snapshot of the changed one. -/
theorem joinExit_ok {outcome : LiquidityOutcome} (h : p.joinExit request ctx = .ok (outcome, p')) :
    ∃ rates scaling booking snapshot, p.rates ctx.timestamp = .ok rates ∧
      p.scaling rates = .ok scaling ∧ p.book request rates scaling ctx = .ok booking ∧
      snapshotOf booking.ledger rates scaling ctx = .ok snapshot ∧
      outcome = ⟨request.kindName, request.flow, booking.shares, booking.amounts,
        booking.protocolFee⟩ ∧
      p' = { p with ledger := booking.ledger, snapshot := some snapshot } := by
  rw [joinExit, (joinExit_commits p request ctx).result_eq] at h
  simp only [bind_eq_ok, pure_eq_ok, Prod.mk.injEq] at h
  obtain ⟨rates, hrates, scaling, hscaling, booking, hbooking, snapshot, hsnapshot, rfl, rfl⟩ := h
  exact ⟨rates, scaling, booking, snapshot, hrates, hscaling, hbooking, hsnapshot, rfl, rfl⟩

/-- A join or exit other than the first: a movement of the ledger with its fees settled, computed
against that ledger in the common unit. What it leaves has a worth there too. -/
structure Moves (p : Pool) (request : LiquidityRequest) (ctx : Context) (outcome : LiquidityOutcome)
    (p' : Pool) (l : Ledger) (b : LiquidityBasis) (delta : Delta) : Prop where
  balances : l.balances = p.ledger.balances
  supply : l.supply.val = p.ledger.supply.val + outcome.protocolFee.amount.val
  measures : b.Measures l
  computed : b.compute request = .ok delta
  applied : l.apply delta = .ok p'.ledger
  amounts : outcome.amounts = delta.amounts
  shares : outcome.shares = delta.shares
  amplification : b.amplification = ctx.amplification.scaled
  swapFee : b.swapFee = p.config.swapFee
  measured : p.Measured ctx b.scaling b.scaled b.invariant
  left_worth : ∃ scaled', b.scaling.upscaleAll p'.ledger.balances = .ok scaled'

/-- Every join or exit but the first is a movement of the settled ledger. -/
theorem joinExit_later {outcome : LiquidityOutcome} (hp : p.Shaped)
    (h : p.joinExit request ctx = .ok (outcome, p')) (hne : ∀ amountsIn, request ≠ .init amountsIn) :
    ∃ l b delta, p.Moves request ctx outcome p' l b delta := by
  obtain ⟨rates, scaling, booking, snapshot, hrates, hscaling, hbooking, hsnapshot, rfl, rfl⟩ :=
    joinExit_ok h
  rcases book_ok hbooking with ⟨amountsIn, rfl, -⟩ | hlater
  · exact absurd rfl (hne amountsIn)
  obtain ⟨settled, b, delta, hsettled, hbasis, hdelta, hledger, hshares, hamounts, hfee⟩ :=
    bookLater_ok hlater
  obtain ⟨-, -, hbalances, hsupply, -⟩ := settle_ok hsettled
  obtain ⟨hA, rfl, hm⟩ := liquidityBasis_ok
    ((hp.tokenCount_scaling hrates hscaling).trans (hp.length_settled hsettled).symm) hbasis
  exact ⟨settled.ledger, b, delta, {
    balances := hbalances
    supply := hfee ▸ hsupply
    measures := hm
    computed := hdelta
    applied := hledger
    amounts := hamounts
    shares := hshares
    amplification := hA
    swapFee := liquidityBasis_swapFee hbasis
    measured := ⟨⟨rates, hrates, hscaling⟩, hbalances ▸ hm.scaled, hA ▸ hm.invariant⟩
    left_worth := snapshotOf_scaled hsnapshot }⟩

/-- A trade changes the settled ledger, and keeps the snapshot that settling left. -/
theorem swap_ok {request : SwapRequest} {outcome : SwapOutcome}
    (h : p.swap request ctx = .ok (outcome, p')) :
    request.tokenIn < p.config.tokenCount ∧ request.tokenOut < p.config.tokenCount ∧
      ∃ rates scaling settled basis ledger, p.rates ctx.timestamp = .ok rates ∧
        p.scaling rates = .ok scaling ∧ p.settle rates ctx = .ok settled ∧
        p.swapBasis settled scaling ctx = .ok basis ∧
        basis.compute request = .ok outcome.amounts ∧
        settled.ledger.swap request.tokenIn outcome.amounts.amountIn request.tokenOut
          outcome.amounts.amountOut = .ok ledger ∧
        outcome.protocolFee = settled.protocolFee ∧
        p' = { p with ledger := ledger, snapshot := some settled.snapshot } := by
  rw [swap, (swap_commits p request ctx).result_eq] at h
  simp only [Config.checkIndex, bind_eq_ok, error_if_eq_ok, pure_eq_ok, Prod.mk.injEq] at h
  obtain ⟨-, ⟨hin, -⟩, -, ⟨hout, -⟩, rates, hrates, scaling, hscaling, settled, hsettled, basis,
    hbasis, amounts, hamounts, ledger, hledger, rfl, rfl⟩ := h
  exact ⟨hin, hout, rates, scaling, settled, basis, ledger, hrates, hscaling, hsettled, hbasis,
    hamounts, hledger, rfl, rfl⟩

theorem swapBasis_ok {settled : Settled} {basis : SwapBasis}
    (h : p.swapBasis settled scaling ctx = .ok basis) :
    basis.amplification = ctx.amplification.scaled ∧ basis.scaling = scaling ∧
      scaling.upscaleAll settled.ledger.balances = .ok basis.scaled := by
  simp only [swapBasis, bind_eq_ok, mapError_eq_ok, pure_eq_ok] at h
  obtain ⟨scaled, hscaled, rfl⟩ := h
  exact ⟨rfl, rfl, hscaled⟩

end Pool

end StableSwap
