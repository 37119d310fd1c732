import Mathlib
import StableSwap.Rates
import StableSwap.Proofs.Success

/-!
# Rates

A provider that answers zero is refused, so a rate that was reported is positive, however old it is
(`currentRates_pos`). A cache has one rate: what is fresh at two times is the same
(`RateCache.rateAt_unique`).
-/

namespace StableSwap

/-- The rate reported for a token is not zero. -/
def RateCache.Positive : RateCache → Prop
  | unit | empty _ => True
  | cached rate _ _ => 0 < rate.wei.val

namespace RateCache

variable {cache cache' : RateCache} {token : Token} {now : ℕ}

theorem positive_ofToken (token : Token) : (ofToken token).Positive := by
  unfold ofToken
  split
  · trivial
  · trivial

theorem Positive.rateAt {rate : Fixed} (hc : cache.Positive) (h : cache.rateAt now = some rate) :
    0 < rate.wei.val := by
  cases cache with
  | unit =>
      cases h
      decide
  | empty duration => exact nomatch h
  | cached reported updatedAt duration =>
      rw [RateCache.rateAt, Option.ite_none_right_eq_some] at h
      obtain ⟨-, ⟨⟩⟩ := h
      exact hc

/-- A rate that is fresh at two times is the same. -/
theorem rateAt_unique {now' : ℕ} {rate rate' : Fixed} (h : cache.rateAt now = some rate)
    (h' : cache.rateAt now' = some rate') : rate' = rate := by
  cases cache with
  | unit => exact Option.some.inj (h'.symm.trans h)
  | empty duration => exact nomatch h
  | cached reported updatedAt duration =>
      rw [RateCache.rateAt, Option.ite_none_right_eq_some] at h h'
      exact Option.some.inj (h'.2.symm.trans h.2)

/-- A provider that answers is one that reports a rate. -/
theorem answered_ok {duration : ℕ} {answer : ProviderAnswer}
    (h : answered token duration now answer = .ok cache') :
    ∃ value : Amount, answer = .rate value ∧ 0 < value.val ∧
      cache' = .cached ⟨value⟩ now duration := by
  cases answer with
  | failure reason => exact nomatch h
  | rate value =>
      rw [answered, error_unless_eq_ok] at h
      obtain ⟨hne, ⟨⟩⟩ := h
      exact ⟨value, rfl, Nat.pos_of_ne_zero fun h0 => hne (Amount.eq_zero_iff.mpr h0), rfl⟩

/-- A refresh that succeeds records the rate that was reported. -/
theorem refreshed_ok {answer : ProviderAnswer} (h : cache.refreshed token answer now = .ok cache') :
    ∃ (value : Amount) (duration : ℕ), answer = .rate value ∧ 0 < value.val ∧
      cache' = .cached ⟨value⟩ now duration := by
  cases cache with
  | unit => exact nomatch h
  | empty duration | cached _ _ duration =>
      obtain ⟨value, rfl, hpos, rfl⟩ := answered_ok h
      exact ⟨value, duration, rfl, hpos, rfl⟩

theorem positive_refreshed {answer : ProviderAnswer}
    (h : cache.refreshed token answer now = .ok cache') : cache'.Positive := by
  obtain ⟨value, duration, -, hpos, rfl⟩ := refreshed_ok h
  exact hpos

end RateCache

theorem Token.currentRate_eq_ok {token : Token} {cache : RateCache} {now : ℕ} {rate : Fixed} :
    token.currentRate cache now = .ok rate ↔ cache.rateAt now = some rate := by
  unfold Token.currentRate
  cases cache.rateAt now with
  | none => exact ⟨nofun, nofun⟩
  | some found => rw [Except.ok.injEq, Option.some.injEq]

theorem Token.currentRate_eq_error {token : Token} {cache : RateCache} {now : ℕ}
    {cause : PoolError} : token.currentRate cache now = .error cause ↔
      cache.rateAt now = none ∧ cause = .staleRate token.address := by
  unfold Token.currentRate
  cases cache.rateAt now with
  | none => rw [Except.error.injEq, eq_self_iff_true, true_and, eq_comm]
  | some found => exact ⟨nofun, fun h => nomatch h.1⟩

/-- The rates of all tokens are positive if all that were reported are. -/
theorem currentRates_pos {tokens : List Token} {caches : List RateCache} {now : ℕ}
    {rates : List Fixed} (hcaches : ∀ cache ∈ caches, cache.Positive)
    (h : currentRates tokens caches now = .ok rates) : ∀ rate ∈ rates, 0 < rate.wei.val := by
  intro rate hrate
  obtain ⟨⟨token, cache⟩, hmem, hcurrent⟩ := exists_of_mem_mapM h hrate
  exact (hcaches cache (List.of_mem_zip hmem).2).rateAt (Token.currentRate_eq_ok.mp hcurrent)

end StableSwap
