import Mathlib
import StableSwap.Ledger
import StableSwap.Proofs.Rounding

/-!
# Movements of the ledger

What each movement does to the ledger, token by token (`Ledger.held`) and to the shares. Together
with the check that a movement passes, this is all later proofs know of it.

* `apply_inward_ok`, `apply_outward_ok`: joins and exits, and both as one (`apply_ok`).
* `mint_ok`: shares for the protocol.
* `swap_ok`: trades.
-/

namespace StableSwap

/-- What a flow brings to the pool of a number of units. -/
def Flow.brought : Flow → ℕ → ℕ
  | inward, n => n
  | outward, _ => 0

/-- What a flow takes from the pool of a number of units. -/
def Flow.taken : Flow → ℕ → ℕ
  | inward, _ => 0
  | outward, n => n

namespace Ledger

variable {l l' : Ledger}

/-- What the ledger holds of the token at an index. -/
def held (l : Ledger) (index : ℕ) : ℕ := (l.balances.getD index 0).val

/-- Holdings depend on the balances alone. -/
theorem held_congr (h : l.balances = l'.balances) (index : ℕ) : l.held index = l'.held index := by
  rw [held, h, held]

/-- Nothing is held of a token the ledger does not know. -/
theorem held_of_le {index : ℕ} (h : l.balances.length ≤ index) : l.held index = 0 := by
  rw [held, List.getD_eq_default _ _ h, Amount.val_zero]

/-- A token that is held is one of the ledger. -/
theorem lt_of_held_pos {index : ℕ} (h : 0 < l.held index) : index < l.balances.length := by
  by_contra hlt
  exact h.ne' (held_of_le (Nat.le_of_not_lt hlt))

/-- What holds of all balances holds of the holdings of all tokens. -/
theorem forall_mem_balances {P : ℕ → Prop} :
    (∀ b ∈ l.balances, P b.val) ↔ ∀ i < l.balances.length, P (l.held i) := by
  rw [List.forall_mem_iff_getElem]
  refine forall₂_congr fun i hi => ?_
  rw [held, List.getD_eq_getElem _ _ hi]

@[simp] theorem length_empty_balances (n : ℕ) : (empty n).balances.length = n :=
  List.length_replicate

@[simp] theorem held_empty (n index : ℕ) : (empty n).held index = 0 := by
  rw [held, empty, List.getD_eq_getElem?_getD, List.getElem?_getD_replicate_default_eq,
    Amount.val_zero]

/-- Holdings and shares are all there is to a ledger of a number of tokens. -/
theorem ext_held (hlen : l.balances.length = l'.balances.length)
    (hheld : ∀ i, l.held i = l'.held i) (hsupply : l.supply = l'.supply) : l = l' := by
  obtain ⟨balances, supply⟩ := l
  obtain ⟨balances', supply'⟩ := l'
  obtain rfl : supply = supply' := hsupply
  have hsame : balances = balances' := by
    refine List.ext_getElem hlen fun i hi hi' => Amount.ext ?_
    have := hheld i
    rwa [held, held, List.getD_eq_getElem _ _ hi, List.getD_eq_getElem _ _ hi'] at this
  rw [hsame]

theorem isInitialized_eq_false : l.isInitialized = false ↔ l.supply = 0 := by
  simp [isInitialized]

/-! ### Joins and exits -/

/-- A join brings an amount of every token, and mints its shares. -/
theorem apply_inward_ok {amounts : List Amount} {shares : Amount}
    (h : l.apply ⟨.inward, amounts, shares⟩ = .ok l') :
    amounts.length = l.balances.length ∧ l'.balances.length = l.balances.length ∧
      (∀ i, l'.held i = l.held i + (amounts.getD i 0).val) ∧
      l'.supply.val = l.supply.val + shares.val := by
  simp only [apply, ne_eq, error_unless_eq_ok, not_not, bind_eq_ok, mapError_eq_ok,
    Amount.add_eq_ok, pure_eq_ok] at h
  obtain ⟨hlen, balances, hbalances, supply, hsupply, rfl⟩ := h
  obtain ⟨hlen', hget⟩ := mapM_zip_ok hlen.symm hbalances 0 0 0
  refine ⟨hlen, hlen', fun i => ?_, hsupply⟩
  rcases Nat.lt_or_ge i l.balances.length with hi | hi
  · exact Amount.add_eq_ok.mp (mapError_eq_ok.mp (hget i hi))
  · rw [held_of_le (hlen' ▸ hi), held_of_le hi, List.getD_eq_default _ _ (hlen ▸ hi),
      Amount.val_zero]

/-- An exit takes an amount of every token, none of which is more than is held, and burns shares that
are not locked. -/
theorem apply_outward_ok {amounts : List Amount} {shares : Amount}
    (h : l.apply ⟨.outward, amounts, shares⟩ = .ok l') :
    amounts.length = l.balances.length ∧ l'.balances.length = l.balances.length ∧
      (∀ i, l'.held i + (amounts.getD i 0).val = l.held i) ∧
      l'.supply.val + shares.val = l.supply.val ∧
      shares.val ≤ l.supply.val - lockedShares.val := by
  simp only [apply, ne_eq, error_unless_eq_ok, not_not, bind_eq_ok, pure_eq_ok] at h
  obtain ⟨hlen, hburnable, balances, hbalances, rfl⟩ := h
  have hshares : shares.val ≤ l.supply.val - lockedShares.val := Nat.le_of_not_lt hburnable
  obtain ⟨hlen', hget⟩ := mapM_zip_ok hlen.symm hbalances 0 0 0
  refine ⟨hlen, hlen', fun i => ?_, ?_, hshares⟩
  · rcases Nat.lt_or_ge i l.balances.length with hi | hi
    · have := Amount.sub_eq_ok.mp (mapError_eq_ok.mp (hget i hi))
      rw [held, held, this, Nat.add_comm]
    · rw [held_of_le (hlen' ▸ hi), held_of_le hi, List.getD_eq_default _ _ (hlen ▸ hi),
        Amount.val_zero]
  · rw [Amount.val_monus]
    omega

/-- A join or exit moves its amounts and shares, in its direction. -/
theorem apply_ok {delta : Delta} (h : l.apply delta = .ok l') :
    (∀ i, l'.held i + delta.flow.taken (delta.amounts.getD i 0).val =
      l.held i + delta.flow.brought (delta.amounts.getD i 0).val) ∧
    l'.supply.val + delta.flow.taken delta.shares.val =
      l.supply.val + delta.flow.brought delta.shares.val := by
  obtain ⟨flow, amounts, shares⟩ := delta
  cases flow with
  | inward =>
      obtain ⟨-, -, hheld, hsupply⟩ := apply_inward_ok h
      exact ⟨hheld, hsupply⟩
  | outward =>
      obtain ⟨-, -, hheld, hsupply, -⟩ := apply_outward_ok h
      exact ⟨hheld, hsupply⟩

/-- A join or exit keeps the number of tokens. -/
theorem length_apply {delta : Delta} (h : l.apply delta = .ok l') :
    l'.balances.length = l.balances.length := by
  obtain ⟨flow, amounts, shares⟩ := delta
  cases flow with
  | inward => exact (apply_inward_ok h).2.1
  | outward => exact (apply_outward_ok h).2.1

theorem length_amounts_of_apply {delta : Delta} (h : l.apply delta = .ok l') :
    delta.amounts.length = l.balances.length := by
  obtain ⟨flow, amounts, shares⟩ := delta
  cases flow with
  | inward => exact (apply_inward_ok h).1
  | outward => exact (apply_outward_ok h).1

/-- No join or exit touches the locked shares. -/
theorem lockedShares_le_apply {delta : Delta} (hlocked : lockedShares.val ≤ l.supply.val)
    (h : l.apply delta = .ok l') : lockedShares.val ≤ l'.supply.val := by
  obtain ⟨flow, amounts, shares⟩ := delta
  cases flow with
  | inward =>
      obtain ⟨-, -, -, hsupply⟩ := apply_inward_ok h
      omega
  | outward =>
      obtain ⟨-, -, -, hsupply, hburnable⟩ := apply_outward_ok h
      omega

/-! ### Shares for the protocol -/

/-- Shares for the protocol cost no tokens. -/
theorem mint_ok {shares : Amount} (h : l.mint shares = .ok l') :
    l'.balances = l.balances ∧ l'.supply.val = l.supply.val + shares.val := by
  simp only [mint, bind_eq_ok, mapError_eq_ok, Amount.add_eq_ok, pure_eq_ok] at h
  obtain ⟨supply, hsupply, rfl⟩ := h
  exact ⟨rfl, hsupply⟩

theorem mint_zero (l : Ledger) : l.mint 0 = .ok l :=
  bind_eq_ok.mpr ⟨l.supply, mapError_eq_ok.mpr (Amount.add_eq_ok.mpr rfl), rfl⟩

/-! ### Trades -/

theorem length_swap {i j : ℕ} {amountIn amountOut : Amount}
    (h : l.swap i amountIn j amountOut = .ok l') : l'.balances.length = l.balances.length := by
  simp only [swap, error_unless_eq_ok, bind_eq_ok, pure_eq_ok] at h
  obtain ⟨-, received, -, rfl⟩ := h
  rw [List.length_set, List.length_set]

/-- A trade that would take all that is held of a token is refused. -/
theorem lt_held_of_swap {i j : ℕ} {amountIn amountOut : Amount}
    (h : l.swap i amountIn j amountOut = .ok l') : amountOut.val < l.held j := by
  simp only [swap, error_unless_eq_ok] at h
  exact Nat.lt_of_not_le h.1

/-- A trade brings what is paid and takes what is sold, but not all that is held. All else stays: the
other tokens and the shares. -/
theorem swap_ok {i j : ℕ} {amountIn amountOut : Amount} (hi : i < l.balances.length) (hij : i ≠ j)
    (h : l.swap i amountIn j amountOut = .ok l') :
    l'.supply = l.supply ∧ l'.held i = l.held i + amountIn.val ∧
      l'.held j + amountOut.val = l.held j ∧ 0 < l'.held j ∧
      ∀ k, k ≠ i → k ≠ j → l'.held k = l.held k := by
  simp only [swap, error_unless_eq_ok, bind_eq_ok, mapError_eq_ok, Amount.add_eq_ok,
    pure_eq_ok, Amount.le_def, Nat.not_le] at h
  obtain ⟨hlt, received, hreceived, rfl⟩ := h
  have hj : j < l.balances.length := lt_of_held_pos (Nat.zero_lt_of_lt hlt)
  rw [getD_set_of_ne _ _ _ (Ne.symm hij)] at hreceived
  have hsold : ∀ a b : Amount, ((l.balances.set j a).set i b).getD j 0 = a := by
    intro a b
    rw [getD_set_of_ne _ _ _ hij, getD_set_self _ _ _ hj]
  refine ⟨rfl, ?_, ?_, ?_, fun k hki hkj => ?_⟩
  · rw [held, getD_set_self _ _ _ (by simpa using hi), hreceived, held]
  · rw [held, hsold, Amount.val_monus, held]
    omega
  · rw [held, hsold, Amount.val_monus]
    omega
  · rw [held, getD_set_of_ne _ _ _ (Ne.symm hki), getD_set_of_ne _ _ _ (Ne.symm hkj), held]

end Ledger

end StableSwap
