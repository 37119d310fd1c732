import Mathlib
import StableSwap.Pool.History
import StableSwap.Proofs.Pool

/-!
# Runs and their histories

An operation that fails leaves the pool as it was, since all that it assigns is assigned last
(`perform_commits`). So one that succeeds is a step of the pool (`step_of_perform`), one that fails
leaves no trace (`run_concat_of_error`), and what holds of a pool and the events that led to it holds
after every run, if every step keeps it (`run_induction`).
-/

namespace StableSwap.Pool

variable {p p' : Pool} {operation : Operation} {event : Event} {cause : PoolError}

/-! ### Single operations -/

theorem perform_refresh (p : Pool) (index : ℕ) (answer : ProviderAnswer) (now : ℕ) :
    p.perform (.refresh index answer now) =
      (p.refresh index answer now).map fun (rate, p) => (.refreshed index answer now rate, p) :=
  ((refresh_commits p index answer now).self.bind_pure _).result_eq

theorem perform_joinExit (p : Pool) (request : LiquidityRequest) (ctx : Context) :
    p.perform (.joinExit request ctx) =
      (p.joinExit request ctx).map fun (outcome, p) => (.joinedExited request ctx outcome, p) :=
  ((joinExit_commits p request ctx).self.bind_pure _).result_eq

theorem perform_swap (p : Pool) (request : SwapRequest) (ctx : Context) :
    p.perform (.swap request ctx) =
      (p.swap request ctx).map fun (outcome, p) => (.swapped request ctx outcome, p) :=
  ((swap_commits p request ctx).self.bind_pure _).result_eq

/-- **An operation is all or nothing**: where it fails, the pool is left as it was. -/
theorem perform_commits (p : Pool) (operation : Operation) :
    (Change.perform operation).Commits p (p.perform operation) := by
  cases operation with
  | refresh index answer now => exact ((refresh_commits p index answer now).bind_pure _).self
  | joinExit request ctx => exact ((joinExit_commits p request ctx).bind_pure _).self
  | swap request ctx => exact ((swap_commits p request ctx).bind_pure _).self

theorem attempt_of_ok (h : p.perform operation = .ok (event, p')) : p.attempt operation = p' := by
  rw [attempt, Mutation.result_eq_ok.mp h]

theorem attempt_of_error (h : p.perform operation = .error cause) : p.attempt operation = p := by
  rw [attempt, (perform_commits p operation).run_of_error h]

theorem attempt_joinExit {request : LiquidityRequest} {ctx : Context} {outcome : LiquidityOutcome}
    (h : p.joinExit request ctx = .ok (outcome, p')) :
    p.attempt (.joinExit request ctx) = p' := by
  have hperform : p.perform (.joinExit request ctx) =
      .ok (.joinedExited request ctx outcome, p') := by
    rw [perform_joinExit, h]
    rfl
  exact attempt_of_ok hperform

theorem history_cons_of_ok (h : p.perform operation = .ok (event, p')) (rest : List Operation) :
    p.history (operation :: rest) = event :: p'.history rest := by
  rw [history, Mutation.result_eq_ok.mp h]

theorem history_cons_of_error (h : p.perform operation = .error cause) (rest : List Operation) :
    p.history (operation :: rest) = p.history rest := by
  rw [history, (perform_commits p operation).run_of_error h]

/-- A pool goes over into another, and something happens. -/
inductive Step (p : Pool) : Event → Pool → Prop where
  | refreshed {index : ℕ} {answer : ProviderAnswer} {now : ℕ} {rate : Fixed} {p' : Pool}
      (h : p.refresh index answer now = .ok (rate, p')) :
      Step p (.refreshed index answer now rate) p'
  | joinedExited {request : LiquidityRequest} {ctx : Context} {outcome : LiquidityOutcome}
      {p' : Pool} (h : p.joinExit request ctx = .ok (outcome, p')) :
      Step p (.joinedExited request ctx outcome) p'
  | swapped {request : SwapRequest} {ctx : Context} {outcome : SwapOutcome} {p' : Pool}
      (h : p.swap request ctx = .ok (outcome, p')) :
      Step p (.swapped request ctx outcome) p'

/-- An operation that succeeds is a step. -/
theorem step_of_perform (h : p.perform operation = .ok (event, p')) : p.Step event p' := by
  cases operation with
  | refresh index answer now =>
      rw [perform_refresh, map_eq_ok] at h
      obtain ⟨⟨rate, _⟩, h, ⟨⟩⟩ := h
      exact .refreshed h
  | joinExit request ctx =>
      rw [perform_joinExit, map_eq_ok] at h
      obtain ⟨⟨outcome, _⟩, h, ⟨⟩⟩ := h
      exact .joinedExited h
  | swap request ctx =>
      rw [perform_swap, map_eq_ok] at h
      obtain ⟨⟨outcome, _⟩, h, ⟨⟩⟩ := h
      exact .swapped h

/-! ### Runs -/

theorem run_cons (p : Pool) (operation : Operation) (rest : List Operation) :
    p.run (operation :: rest) = (p.attempt operation).run rest := rfl

theorem run_concat (p : Pool) (operations : List Operation) (operation : Operation) :
    p.run (operations ++ [operation]) = (p.run operations).attempt operation := by
  rw [run, List.foldl_concat, run]

/-- **What every step keeps holds after every run**, of the pool and the events so far. -/
theorem run_induction {motive : Pool → List Event → Prop}
    (step : ∀ {q : Pool} {past : List Event} {event : Event} {q' : Pool},
      motive q past → q.Step event q' → motive q' (past ++ [event]))
    (start : motive p []) (operations : List Operation) :
    motive (p.run operations) (p.history operations) := by
  have aux : ∀ (operations : List Operation) (q : Pool) (past : List Event), motive q past →
      motive (q.run operations) (past ++ q.history operations) := by
    intro operations
    induction operations with
    | nil =>
        intro q past hq
        rwa [history, List.append_nil]
    | cons operation rest ih =>
        intro q past hq
        rw [run_cons]
        cases hperform : q.perform operation with
        | error cause =>
            rw [attempt_of_error hperform, history_cons_of_error hperform]
            exact ih q past hq
        | ok result =>
            obtain ⟨event, q'⟩ := result
            rw [attempt_of_ok hperform, history_cons_of_ok hperform, List.append_cons]
            exact ih q' _ (step hq (step_of_perform hperform))
  exact aux operations p [] start

/-- An operation that fails at the end of a run leaves the pool and its history as they were. -/
theorem run_concat_of_error {operations : List Operation}
    (h : (p.run operations).perform operation = .error cause) :
    p.run (operations ++ [operation]) = p.run operations ∧
      p.history (operations ++ [operation]) = p.history operations := by
  refine ⟨by rw [run_concat, attempt_of_error h], ?_⟩
  induction operations generalizing p with
  | nil => exact history_cons_of_error h []
  | cons first rest ih =>
      rw [run_cons] at h
      rw [List.cons_append]
      cases hfirst : p.perform first with
      | error _ =>
          rw [attempt_of_error hfirst] at h
          rw [history_cons_of_error hfirst, history_cons_of_error hfirst, ih h]
      | ok result =>
          obtain ⟨event, q⟩ := result
          rw [attempt_of_ok hfirst] at h
          rw [history_cons_of_ok hfirst, history_cons_of_ok hfirst, ih h]

end StableSwap.Pool
