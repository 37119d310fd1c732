import Mathlib
import StableSwap.Proofs.Pool.Conservation
import StableSwap.Proofs.Pool.Invariant

/-!
# What backs a share

A proportional join takes each token's part rounded up, a proportional exit gives it rounded down
(`joinAll_ok`, `exitAll_ok`). So neither lowers what backs a share, the shares that the protocol was
owed before included (`joinExit_backed`), and over a run of them without such shares the backing of a
share only grows (`run_backed`). An exit of as many shares as a join brought gives back no more than
the join took, whatever the rates became in between (`exit_le_join`).
-/

namespace StableSwap

/-- A join or exit of all tokens in proportion. -/
def LiquidityRequest.IsProportional : LiquidityRequest → Prop
  | .allTokensInForExactShares .. | .exactSharesInForAllTokens .. => True
  | _ => False

namespace Event

/-- The rate of a token was refreshed. -/
def IsRefresh : Event → Prop
  | refreshed .. => True
  | _ => False

theorem IsRefresh.refreshesOnly {event : Event} (h : event.IsRefresh) :
    event.RefreshesOnly fun _ => True := by
  cases event with
  | refreshed _ _ _ _ => trivial
  | joinedExited _ _ _ | swapped _ _ _ => exact h.elim

/-- A proportional join or exit, before which the protocol was owed nothing. -/
def IsProportional : Event → Prop
  | joinedExited request _ outcome =>
    request.IsProportional ∧ outcome.protocolFee.amount.val = 0
  | _ => False

end Event

namespace Pool

variable {config : Config} {p p' p₁ p₂ : Pool} {ctx joinCtx exitCtx : Context}
  {outcome joined exited : LiquidityOutcome} {shares : Amount} {maxima minima : List Amount} {i : ℕ}

/-! ### Single joins and exits -/

/-- A token's part of the pool that a join or exit is computed against is its part of the settled
pool. -/
theorem Moves.part_settled {request : LiquidityRequest} {l : Ledger} {b : LiquidityBasis}
    {delta : Delta} (h : p.Moves request ctx outcome p' l b delta) (part : ℕ → ℕ → ℕ) (hp : p.Shaped)
    (hi : i < p.config.tokenCount)
    (hparts : ∀ i < b.balances.length, 0 < b.supply.val ∧
      (delta.amounts.getD i 0).val = part (b.balances.getD i 0).val b.supply.val) :
    0 < l.supply.val ∧
      (outcome.amounts.getD i 0).val = part (p.ledger.held i) l.supply.val := by
  obtain ⟨hpos, hpart⟩ := hparts i (by rwa [h.measures.balances, h.balances, hp.balances])
  rw [h.measures.balances, h.measures.supply, ← Ledger.held, Ledger.held_congr h.balances] at hpart
  rw [h.measures.supply] at hpos
  exact ⟨hpos, h.amounts ▸ hpart⟩

/-- A proportional join takes a token's part of the settled pool, rounded up. -/
theorem joinAll_ok (hp : p.Shaped) (hi : i < p.config.tokenCount)
    (h : p.joinExit (.allTokensInForExactShares shares maxima) ctx = .ok (outcome, p')) :
    ∃ supply, supply = p.ledger.supply.val + outcome.protocolFee.amount.val ∧ 0 < supply ∧
      (outcome.amounts.getD i 0).val = ceilDiv (p.ledger.held i * shares.val) supply ∧
      p'.ledger.held i = p.ledger.held i + (outcome.amounts.getD i 0).val ∧
      p'.ledger.supply.val = supply + shares.val := by
  obtain ⟨l, b, delta, hmoves⟩ := joinExit_later hp h nofun
  obtain ⟨amounts, rfl, hparts⟩ := LiquidityBasis.allTokensIn_ok hmoves.computed
  obtain ⟨hpos, hpart⟩ := hmoves.part_settled (fun held supply => ceilDiv (held * shares.val) supply)
    hp hi hparts
  obtain ⟨-, -, hheld, hminted⟩ := Ledger.apply_inward_ok hmoves.applied
  refine ⟨l.supply.val, hmoves.supply, hpos, hpart, ?_, hminted⟩
  rw [hheld, Ledger.held_congr hmoves.balances, hmoves.amounts]

/-- A proportional exit gives a token's part of the settled pool, rounded down. -/
theorem exitAll_ok (hp : p.Shaped) (hi : i < p.config.tokenCount)
    (h : p.joinExit (.exactSharesInForAllTokens shares minima) ctx = .ok (outcome, p')) :
    ∃ supply, supply = p.ledger.supply.val + outcome.protocolFee.amount.val ∧ 0 < supply ∧
      (outcome.amounts.getD i 0).val = p.ledger.held i * shares.val / supply ∧
      p'.ledger.held i + (outcome.amounts.getD i 0).val = p.ledger.held i ∧
      p'.ledger.supply.val + shares.val = supply := by
  obtain ⟨l, b, delta, hmoves⟩ := joinExit_later hp h nofun
  obtain ⟨-, amounts, rfl, hparts⟩ := LiquidityBasis.allTokensOut_ok hmoves.computed
  obtain ⟨hpos, hpart⟩ := hmoves.part_settled (fun held supply => held * shares.val / supply)
    hp hi hparts
  obtain ⟨-, -, hheld, hburned, -⟩ := Ledger.apply_outward_ok hmoves.applied
  refine ⟨l.supply.val, hmoves.supply, hpos, hpart, ?_, hburned⟩
  rw [hmoves.amounts, hheld, Ledger.held_congr hmoves.balances]

/-- **A proportional join or exit does not lower what backs a share** of the settled pool. -/
theorem joinExit_backed {request : LiquidityRequest} (hp : p.Shaped)
    (hi : i < p.config.tokenCount) (hr : request.IsProportional)
    (h : p.joinExit request ctx = .ok (outcome, p')) :
    0 < p.ledger.supply.val + outcome.protocolFee.amount.val ∧
      p.ledger.held i * p'.ledger.supply.val ≤
        p'.ledger.held i * (p.ledger.supply.val + outcome.protocolFee.amount.val) := by
  cases request with
  | allTokensInForExactShares shares maxima =>
      obtain ⟨supply, rfl, hpos, hpart, hheld, hsupply⟩ := joinAll_ok hp hi h
      refine ⟨hpos, ?_⟩
      have hup := le_ceilDiv_mul (p.ledger.held i * shares.val) hpos
      rw [← hpart] at hup
      rw [hheld, hsupply, Nat.mul_add, Nat.add_mul]
      exact Nat.add_le_add_left hup _
  | exactSharesInForAllTokens shares minima =>
      obtain ⟨supply, rfl, hpos, hpart, hheld, hsupply⟩ := exitAll_ok hp hi h
      refine ⟨hpos, ?_⟩
      have hdown := Nat.div_mul_le_self (p.ledger.held i * shares.val)
        (p.ledger.supply.val + outcome.protocolFee.amount.val)
      rw [← hpart] at hdown
      refine Nat.le_of_add_le_add_right (Nat.le_trans ?_ (Nat.add_le_add_left hdown _))
      rw [← Nat.add_mul, hheld, ← hsupply, Nat.mul_add]
  | init _ | exactTokensInForShares _ _ | tokenInForExactShares _ _ _
  | exactSharesInForOneToken _ _ _ | sharesInForExactTokens _ _ => exact hr.elim

/-! ### Runs -/

/-- Where nothing happened but refreshes, the ledger is the same. -/
theorem run_refreshed {operations : List Operation} (hp : p.Sound)
    (h : ∀ event ∈ p.history operations, event.IsRefresh) :
    (p.run operations).Sound ∧ (p.run operations).config = p.config ∧
      (p.run operations).ledger = p.ledger := by
  obtain ⟨hconfig, hledger, -, -, -⟩ :=
    run_refreshesOnly fun event hevent => (h event hevent).refreshesOnly
  have hsound := run_induction (motive := fun q _ => q.Sound)
    (fun hq hstep => (hq.step hstep).1) hp operations
  exact ⟨hsound, hconfig, hledger⟩

/-- **Over a run of proportional joins and exits what backs a share only grows**, as long as the
protocol is owed nothing. -/
theorem run_backed {operations : List Operation} (hp : p.Sound) (hi : i < p.config.tokenCount)
    (h : ∀ event ∈ p.history operations, event.IsRefresh ∨ event.IsProportional) :
    p.ledger.held i * (p.run operations).ledger.supply.val ≤
      (p.run operations).ledger.held i * p.ledger.supply.val := by
  refine (run_induction (motive := fun q past =>
    (∀ event ∈ past, event.IsRefresh ∨ event.IsProportional) →
      (q.Sound ∧ q.config = p.config) ∧
        p.ledger.held i * q.ledger.supply.val ≤ q.ledger.held i * p.ledger.supply.val)
    ?_ ?_ operations h).2
  · intro q past event q' ih hstep hall
    obtain ⟨⟨hq, hconfig⟩, hle⟩ := ih fun e he => hall e (List.mem_append_left _ he)
    have hevent := hall event (List.mem_append_right _ (List.mem_singleton_self event))
    obtain ⟨hq', hconfig'⟩ := hq.step hstep
    refine ⟨⟨hq', hconfig'.trans hconfig⟩, ?_⟩
    cases hstep with
    | refreshed h =>
        obtain ⟨-, hledger, -⟩ := refresh_frame h
        rwa [hledger]
    | joinedExited h =>
        obtain ⟨hr, hfee⟩ := hevent.resolve_left id
        obtain ⟨hpos, hback⟩ := joinExit_backed hq.toShaped (hconfig ▸ hi) hr h
        rw [hfee, Nat.add_zero] at hpos hback
        -- the shares in between are some, and cancel
        refine Nat.le_of_mul_le_mul_right ?_ hpos
        calc p.ledger.held i * q'.ledger.supply.val * q.ledger.supply.val
            = p.ledger.held i * q.ledger.supply.val * q'.ledger.supply.val := by ring
          _ ≤ q.ledger.held i * p.ledger.supply.val * q'.ledger.supply.val :=
              Nat.mul_le_mul_right _ hle
          _ = q.ledger.held i * q'.ledger.supply.val * p.ledger.supply.val := by ring
          _ ≤ q'.ledger.held i * q.ledger.supply.val * p.ledger.supply.val :=
              Nat.mul_le_mul_right _ hback
          _ = q'.ledger.held i * p.ledger.supply.val * q.ledger.supply.val := by ring
    | swapped _ => exact (hevent.elim id id).elim
  · exact fun _ => ⟨⟨hp, rfl⟩, le_rfl⟩

/-! ### A join and an exit -/

/-- **An exit of as many shares as a join brought gives back no more than the join took**, of every
token, where nothing but refreshes happened in between. -/
theorem exit_le_join {between : List Operation} (hp : p.Sound) (hi : i < p.config.tokenCount)
    (hjoin : p.joinExit (.allTokensInForExactShares shares maxima) joinCtx = .ok (joined, p₁))
    (hbetween : ∀ event ∈ p₁.history between, event.IsRefresh)
    (hexit : (p₁.run between).joinExit (.exactSharesInForAllTokens shares minima) exitCtx =
      .ok (exited, p₂)) :
    (exited.amounts.getD i 0).val ≤ (joined.amounts.getD i 0).val := by
  obtain ⟨hp₁, hconfig₁⟩ := hp.step (.joinedExited hjoin)
  obtain ⟨hq, hconfig, hledger⟩ := run_refreshed hp₁ hbetween
  obtain ⟨supply, -, hpos, hin, hheld, hsupply⟩ := joinAll_ok hp.toShaped hi hjoin
  obtain ⟨supply', hsupply', -, hout, -⟩ :=
    exitAll_ok hq.toShaped (by rwa [hconfig, hconfig₁]) hexit
  rw [hledger] at hsupply' hout
  have hup := le_ceilDiv_mul (p.ledger.held i * shares.val) hpos
  rw [← hin] at hup
  rw [hout]
  -- the exit is measured against the shares of the join and all before it, or more
  refine Nat.div_le_of_le_mul ?_
  calc p₁.ledger.held i * shares.val
      = p.ledger.held i * shares.val + (joined.amounts.getD i 0).val * shares.val := by
        rw [hheld, Nat.add_mul]
    _ ≤ (joined.amounts.getD i 0).val * supply + (joined.amounts.getD i 0).val * shares.val :=
        Nat.add_le_add_right hup _
    _ = (supply + shares.val) * (joined.amounts.getD i 0).val := by ring
    _ ≤ supply' * (joined.amounts.getD i 0).val := Nat.mul_le_mul_right _ (by omega)

/-! ### All runs -/

/-- **Proportional joins and exits never lower what backs a share.** After any past, a single one
does not; a run of them without protocol fees does not; and an exit that undoes a join, with only
refreshes in between, gives back no more of any token than the join took. -/
theorem run_proportional (config : Config) (past : List Operation) (i : ℕ)
    (hi : i < config.tokenCount) :
    let p := (ofConfig config).run past
    (∀ request ctx outcome p', request.IsProportional →
      p.joinExit request ctx = .ok (outcome, p') →
      p.ledger.held i * p'.ledger.supply.val ≤
        p'.ledger.held i * (p.ledger.supply.val + outcome.protocolFee.amount.val)) ∧
    (∀ operations, (∀ event ∈ p.history operations, event.IsRefresh ∨ event.IsProportional) →
      p.ledger.held i * (p.run operations).ledger.supply.val ≤
        (p.run operations).ledger.held i * p.ledger.supply.val) ∧
    ∀ shares maxima joinCtx joined p₁ between minima exitCtx exited p₂,
      p.joinExit (.allTokensInForExactShares shares maxima) joinCtx = .ok (joined, p₁) →
      (∀ event ∈ p₁.history between, event.IsRefresh) →
      (p₁.run between).joinExit (.exactSharesInForAllTokens shares minima) exitCtx =
        .ok (exited, p₂) →
      (exited.amounts.getD i 0).val ≤ (joined.amounts.getD i 0).val := by
  intro p
  have hreached : Reached config p ((ofConfig config).history past) := run_reached config past
  have hp := hreached.sound
  have hi' : i < p.config.tokenCount := hreached.config_eq ▸ hi
  refine ⟨fun _ _ _ _ hr h => (joinExit_backed hp.toShaped hi' hr h).2,
    fun _ h => run_backed hp hi' h, ?_⟩
  intro shares maxima joinCtx joined p₁ between minima exitCtx exited p₂ hjoin hbetween hexit
  exact exit_le_join hp hi' hjoin hbetween hexit

/-- A join of one share of the pool of two tokens and an exit of it, of the first token. -/
theorem run_proportional_paired :
    ∃ joined p₁ exited p₂,
      paired.joinExit (.allTokensInForExactShares 1000000000000000000
        [1000000000, 1000000000000000000000]) (uncharged pair) = .ok (joined, p₁) ∧
      p₁.joinExit (.exactSharesInForAllTokens 1000000000000000000 [0, 0]) (uncharged pair) =
        .ok (exited, p₂) ∧
      joined.amounts = [500000, 500000000000000000] ∧
      exited.amounts = [500000, 500000000000000000] ∧
      paired.ledger.held 0 * p₁.ledger.supply.val ≤
        p₁.ledger.held 0 * (paired.ledger.supply.val + joined.protocolFee.amount.val) ∧
      p₁.ledger.held 0 * p₂.ledger.supply.val ≤
        p₂.ledger.held 0 * (p₁.ledger.supply.val + exited.protocolFee.amount.val) ∧
      (exited.amounts.getD 0 0).val ≤ (joined.amounts.getD 0 0).val := by
  have h : (do
      let joined ← paired.joinExit (.allTokensInForExactShares 1000000000000000000
        [1000000000, 1000000000000000000000]) (uncharged pair)
      let exited ← joined.2.joinExit (.exactSharesInForAllTokens 1000000000000000000 [0, 0])
        (uncharged pair)
      return (joined.1.amounts, exited.1.amounts)) =
        .ok ([500000, 500000000000000000], [500000, 500000000000000000]) := by
    decide +kernel
  simp only [bind_eq_ok, pure_eq_ok, Prod.exists, Prod.mk.injEq] at h
  obtain ⟨joined, p₁, hjoin, exited, p₂, hexit, hpaid, hreceived⟩ := h
  let past : List Operation :=
    [.joinExit (.init [1000000000, 1000000000000000000000]) (uncharged pair)]
  let join : Operation := .joinExit (.allTokensInForExactShares 1000000000000000000
    [1000000000, 1000000000000000000000]) (uncharged pair)
  have hp₁ : (ofConfig pair).run (past ++ [join]) = p₁ := by
    rw [run_concat]
    exact attempt_joinExit hjoin
  obtain ⟨hsingle, -, htrip⟩ := run_proportional pair past 0 (by decide)
  obtain ⟨hsingle₁, -⟩ := run_proportional pair (past ++ [join]) 0 (by decide)
  rw [hp₁] at hsingle₁
  exact ⟨joined, p₁, exited, p₂, hjoin, hexit, hpaid, hreceived,
    hsingle (.allTokensInForExactShares _ _) _ _ _ trivial hjoin,
    hsingle₁ (.exactSharesInForAllTokens _ _) _ _ _ trivial hexit,
    htrip _ _ _ _ _ [] _ _ _ _ hjoin (List.forall_mem_nil _) hexit⟩

end Pool

end StableSwap
