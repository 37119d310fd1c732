import Mathlib
import StableSwap.Proofs.Pool.Reachable

/-!
# Conservation

What the events of a run report to have moved is what the pool holds. One step changes the balances
by what its event reports, and the shares by those minted, burned and settled, and the locked ones at
the first join (`Step.balances`, `Step.supply`). So over a run the sums agree (`run_accounted`).
Operations that fail or only refresh a rate move nothing.
-/

namespace StableSwap

namespace Event

/-- The rate of a token was refreshed, at an index with a property. -/
def RefreshesOnly (P : ℕ → Prop) : Event → Prop
  | refreshed index .. => P index
  | _ => False

/-! ### What an event reports -/

/-- What was paid in of the token at an index. -/
def paidIn (i : ℕ) : Event → ℕ
  | refreshed .. => 0
  | joinedExited _ _ outcome => outcome.flow.brought (outcome.amounts.getD i 0).val
  | swapped request _ outcome => if request.tokenIn = i then outcome.amounts.amountIn.val else 0

/-- What was paid out of the token at an index. -/
def paidOut (i : ℕ) : Event → ℕ
  | refreshed .. => 0
  | joinedExited _ _ outcome => outcome.flow.taken (outcome.amounts.getD i 0).val
  | swapped request _ outcome => if request.tokenOut = i then outcome.amounts.amountOut.val else 0

/-- The shares minted to the caller. -/
def minted : Event → ℕ
  | joinedExited _ _ outcome => outcome.flow.brought outcome.shares.val
  | _ => 0

/-- The shares burned from the caller. -/
def burned : Event → ℕ
  | joinedExited _ _ outcome => outcome.flow.taken outcome.shares.val
  | _ => 0

/-- The shares minted to the protocol. -/
def protocolFee : Event → ℕ
  | refreshed .. => 0
  | joinedExited _ _ outcome => outcome.protocolFee.amount.val
  | swapped _ _ outcome => outcome.protocolFee.amount.val

end Event

namespace Pool

variable {config : Config} {p p' : Pool} {event : Event}

/-! ### One step -/

theorem joinExit_balances {request : LiquidityRequest} {ctx : Context}
    {outcome : LiquidityOutcome} (h : p.joinExit request ctx = .ok (outcome, p')) (i : ℕ) :
    p'.ledger.held i + outcome.flow.taken (outcome.amounts.getD i 0).val =
      p.ledger.held i + outcome.flow.brought (outcome.amounts.getD i 0).val := by
  obtain ⟨rates, scaling, booking, snapshot, -, -, hbooking, -, rfl, rfl⟩ := joinExit_ok h
  rcases book_ok hbooking with ⟨amountsIn, rfl, hfirst⟩ | hlater
  · obtain ⟨-, delta, hdelta, hledger, -, hamounts, -⟩ := bookFirst_ok hfirst
    obtain ⟨shares, rfl, -⟩ := firstJoin_ok hdelta
    rw [hamounts]
    exact (Ledger.apply_ok hledger).1 i
  · obtain ⟨settled, basis, delta, hsettled, -, hdelta, hledger, -, hamounts, -⟩ :=
      bookLater_ok hlater
    obtain ⟨-, -, hbalances, -⟩ := settle_ok hsettled
    have hmove := (Ledger.apply_ok hledger).1 i
    rw [LiquidityBasis.compute_flow hdelta] at hmove
    rw [Ledger.held_congr hbalances] at hmove
    rw [hamounts]
    exact hmove

theorem joinExit_supply {request : LiquidityRequest} {ctx : Context} {outcome : LiquidityOutcome}
    (h : p.joinExit request ctx = .ok (outcome, p')) :
    p'.ledger.supply.val + outcome.flow.taken outcome.shares.val =
      p.ledger.supply.val + outcome.flow.brought outcome.shares.val +
        outcome.protocolFee.amount.val +
        if (Event.joinedExited request ctx outcome).isFirstJoin then lockedShares.val else 0 := by
  obtain ⟨rates, scaling, booking, snapshot, -, -, hbooking, -, rfl, rfl⟩ := joinExit_ok h
  rcases book_ok hbooking with ⟨amountsIn, rfl, hfirst⟩ | hlater
  · obtain ⟨-, delta, hdelta, hledger, hshares, -, hfee⟩ := bookFirst_ok hfirst
    obtain ⟨shares, rfl, -, hlocked⟩ := firstJoin_ok hdelta
    have hmove := (Ledger.apply_ok hledger).2
    simp only [Event.isFirstJoin, LiquidityRequest.flow, Flow.taken, Flow.brought, hshares, hfee,
      Amount.val_monus, Amount.val_zero, if_true] at hmove ⊢
    omega
  · obtain ⟨settled, basis, delta, hsettled, -, hdelta, hledger, hshares, -, hfee⟩ :=
      bookLater_ok hlater
    obtain ⟨-, -, -, hsupply, -⟩ := settle_ok hsettled
    have hmove := (Ledger.apply_ok hledger).2
    rw [LiquidityBasis.compute_flow hdelta, ← hshares] at hmove
    rw [Event.isFirstJoin_eq_false (LiquidityBasis.compute_ne_init hdelta), hfee]
    simp only [Bool.false_eq_true, if_false, Nat.add_zero]
    omega

theorem swap_balances {request : SwapRequest} {ctx : Context} {outcome : SwapOutcome}
    (hp : p.Shaped) (h : p.swap request ctx = .ok (outcome, p')) (i : ℕ) :
    p'.ledger.held i + (if request.tokenOut = i then outcome.amounts.amountOut.val else 0) =
      p.ledger.held i + if request.tokenIn = i then outcome.amounts.amountIn.val else 0 := by
  obtain ⟨hin, -, rates, scaling, settled, basis, ledger, -, -, hsettled, -, hamounts, hledger, -,
    rfl⟩ := swap_ok h
  obtain ⟨-, -, hbalances, -⟩ := settle_ok hsettled
  have hij := SwapBasis.tokenIn_ne_tokenOut hamounts
  obtain ⟨-, hbought, hsold, -, hothers⟩ :=
    Ledger.swap_ok (hp.length_settled hsettled ▸ hin) hij hledger
  rw [← Ledger.held_congr hbalances]
  by_cases hiin : request.tokenIn = i
  · subst hiin
    rw [if_neg (Ne.symm hij), if_pos rfl]
    exact hbought
  rw [if_neg hiin]
  by_cases hiout : request.tokenOut = i
  · subst hiout
    rw [if_pos rfl]
    exact hsold
  · rw [if_neg hiout]
    exact hothers i (Ne.symm hiin) (Ne.symm hiout)

theorem swap_supply {request : SwapRequest} {ctx : Context} {outcome : SwapOutcome}
    (hp : p.Shaped) (h : p.swap request ctx = .ok (outcome, p')) :
    p'.ledger.supply.val = p.ledger.supply.val + outcome.protocolFee.amount.val := by
  obtain ⟨hin, -, rates, scaling, settled, basis, ledger, -, -, hsettled, -, hamounts, hledger,
    hfee, rfl⟩ := swap_ok h
  obtain ⟨-, -, -, hsupply, -⟩ := settle_ok hsettled
  obtain ⟨hsame, -⟩ := Ledger.swap_ok (hp.length_settled hsettled ▸ hin)
    (SwapBasis.tokenIn_ne_tokenOut hamounts) hledger
  rw [hsame, hsupply, hfee]

/-- **A step moves the tokens that its event reports.** -/
theorem Step.balances (hp : p.Shaped) (h : p.Step event p') (i : ℕ) :
    p'.ledger.held i + event.paidOut i = p.ledger.held i + event.paidIn i := by
  cases h with
  | refreshed h =>
      obtain ⟨_, _, _, -, -, rfl⟩ := refresh_ok h
      rfl
  | joinedExited h => exact joinExit_balances h i
  | swapped h => exact swap_balances hp h i

/-- **A step changes the shares as its event reports**, and by the locked ones at a first join. -/
theorem Step.supply (hp : p.Shaped) (h : p.Step event p') :
    p'.ledger.supply.val + event.burned =
      p.ledger.supply.val + event.minted + event.protocolFee +
        if event.isFirstJoin then lockedShares.val else 0 := by
  cases h with
  | refreshed h =>
      obtain ⟨_, _, _, -, -, rfl⟩ := refresh_ok h
      rfl
  | joinedExited h => exact joinExit_supply h
  | swapped h => exact swap_supply hp h

/-! ### Runs -/

/-- The pool holds what the events report to have moved. -/
structure Accounted (p : Pool) (events : List Event) : Prop where
  /-- Each token was paid in or is paid out. -/
  balances : ∀ i, p.ledger.held i + (events.map (Event.paidOut i)).sum =
    (events.map (Event.paidIn i)).sum
  /-- Each share is one of the locked ones of a first join, or was minted and not burned. -/
  supply : p.ledger.supply.val + (events.map Event.burned).sum =
    (events.map Event.minted).sum + (events.map Event.protocolFee).sum +
      events.countP Event.isFirstJoin * lockedShares.val

theorem accounted_ofConfig (config : Config) : (ofConfig config).Accounted [] where
  balances := Ledger.held_empty _
  supply := rfl

theorem Accounted.step {past : List Event} (ha : p.Accounted past) (hp : p.Shaped)
    (h : p.Step event p') : p'.Accounted (past ++ [event]) where
  balances := by
    intro i
    have hstep := h.balances hp i
    have hpast := ha.balances i
    simp only [List.map_append, List.map_singleton, List.sum_append, List.sum_singleton]
    omega
  supply := by
    have hstep := h.supply hp
    have hpast := ha.supply
    simp only [List.map_append, List.map_singleton, List.sum_append, List.sum_singleton,
      List.countP_append, List.countP_singleton, Nat.add_mul, ite_mul, Nat.one_mul, Nat.zero_mul]
    omega

theorem run_accounted (config : Config) (operations : List Operation) :
    ((ofConfig config).run operations).Accounted ((ofConfig config).history operations) := by
  refine (run_induction (p := ofConfig config)
    (motive := fun p past => p.Accounted past ∧ Reached config p past) ?_ ?_ operations).1
  · rintro q past event q' ⟨ha, hr⟩ h
    exact ⟨ha.step hr.sound.toShaped h, hr.step h⟩
  · exact ⟨accounted_ofConfig config, reached_ofConfig config⟩

/-- A refresh changes nothing but what is known of the rate of its token. -/
theorem refresh_frame {index : ℕ} {answer : ProviderAnswer} {now : ℕ} {rate : Fixed}
    (h : p.refresh index answer now = .ok (rate, p')) :
    p'.config = p.config ∧ p'.ledger = p.ledger ∧ p'.snapshot = p.snapshot ∧
      ∀ k ≠ index, p'.caches[k]? = p.caches[k]? := by
  obtain ⟨_, _, _, -, -, rfl⟩ := refresh_ok h
  exact ⟨rfl, rfl, rfl, fun k hk => List.getElem?_set_ne (Ne.symm hk)⟩

/-- Where nothing happened but refreshes, all but the rates of these tokens is the same. -/
theorem run_refreshesOnly {P : ℕ → Prop} {operations : List Operation}
    (h : ∀ event ∈ p.history operations, event.RefreshesOnly P) :
    (p.run operations).config = p.config ∧ (p.run operations).ledger = p.ledger ∧
      (p.run operations).snapshot = p.snapshot ∧
      (p.run operations).caches.length = p.caches.length ∧
      ∀ i, ¬ P i → (p.run operations).caches[i]? = p.caches[i]? := by
  refine run_induction (motive := fun q past => (∀ event ∈ past, event.RefreshesOnly P) →
    q.config = p.config ∧ q.ledger = p.ledger ∧ q.snapshot = p.snapshot ∧
      q.caches.length = p.caches.length ∧ ∀ i, ¬ P i → q.caches[i]? = p.caches[i]?)
    ?_ ?_ operations h
  · intro q past event q' ih hstep hall
    obtain ⟨hconfig, hledger, hsnapshot, hlen, hcaches⟩ :=
      ih fun e he => hall e (List.mem_append_left _ he)
    have hevent := hall event (List.mem_append_right _ (List.mem_singleton_self event))
    cases hstep with
    | refreshed h =>
        obtain ⟨_, _, _, -, -, rfl⟩ := refresh_ok h
        refine ⟨hconfig, hledger, hsnapshot, (List.length_set ..).trans hlen, fun i hi => ?_⟩
        have hne : ∀ index, P index → index ≠ i := fun _ hindex heq => hi (heq ▸ hindex)
        exact (List.getElem?_set_ne (hne _ hevent)).trans (hcaches i hi)
    | joinedExited _ | swapped _ => exact hevent.elim
  · exact fun _ => ⟨rfl, rfl, rfl, rfl, fun _ _ => rfl⟩

/-- Where no two events are first joins, counting them asks whether there is one. -/
theorem countP_firstJoin {events : List Event} (h : events.countP Event.isFirstJoin ≤ 1) (n : ℕ) :
    events.countP Event.isFirstJoin * n = if events.any Event.isFirstJoin then n else 0 := by
  by_cases hany : events.any Event.isFirstJoin = true
  · have : 0 < events.countP Event.isFirstJoin :=
      List.countP_pos_iff.mpr (List.any_eq_true.mp hany)
    rw [if_pos hany, le_antisymm h this, Nat.one_mul]
  · have : events.countP Event.isFirstJoin = 0 := by
      rw [List.countP_eq_zero]
      exact fun event hevent hfirst => hany (List.any_eq_true.mpr ⟨event, hevent, hfirst⟩)
    rw [if_neg hany, this, Nat.zero_mul]

/-- **Conservation over whole runs.** Each balance is what was paid in less what was paid out. The
shares are the locked ones of the first join, those minted less those burned, and those settled. An
operation that fails leaves the pool and its history as they were, and a refresh changes nothing but
what is known of one rate. -/
theorem run_conserved (config : Config) (operations : List Operation) :
    let p := (ofConfig config).run operations
    let events := (ofConfig config).history operations
    (∀ i < config.tokenCount, p.ledger.held i + (events.map (Event.paidOut i)).sum =
      (events.map (Event.paidIn i)).sum) ∧
    p.ledger.supply.val + (events.map Event.burned).sum =
      (if events.any Event.isFirstJoin then 1000000 else 0) + (events.map Event.minted).sum +
        (events.map Event.protocolFee).sum ∧
    (∀ operation cause, p.perform operation = .error cause →
      (ofConfig config).run (operations ++ [operation]) = p ∧
        (ofConfig config).history (operations ++ [operation]) = events) ∧
    ∀ index answer now rate p', p.refresh index answer now = .ok (rate, p') →
      p'.config = p.config ∧ p'.ledger = p.ledger ∧ p'.snapshot = p.snapshot ∧
        ∀ k ≠ index, p'.caches[k]? = p.caches[k]? := by
  intro p events
  have haccounted : p.Accounted events := run_accounted config operations
  have hreached : Reached config p events := run_reached config operations
  refine ⟨fun i _ => haccounted.balances i, ?_, fun _ _ h => run_concat_of_error h,
    fun _ _ _ _ _ h => refresh_frame h⟩
  have hsupply := haccounted.supply
  rw [countP_firstJoin hreached.consistent.once] at hsupply
  rw [hsupply, Nat.add_comm, Nat.add_assoc]
  rfl

end Pool

end StableSwap
