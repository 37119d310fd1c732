/-!
# Mutations

A mutation changes a state and answers, or fails. What it did to the state stays when it fails, so
whether a failure leaves a trace depends on the order of its parts: all that can fail has to come
before the first change, or after the changes were taken back.

* `Mutation.run` gives the answer and the state left behind, also where there is no answer;
  `Mutation.result` forgets the state that a failure leaves behind.
* `Mutation.Answers` is said of a mutation that, answering or failing, leaves the state as it found
  it, and it tells the answer.
* `Mutation.Commits` is said of a mutation that leaves the state as it found it if it fails, and it
  tells the answer and the new state.
-/

namespace StableSwap

/-- A computation on a state. What it did to the state stays when it fails. -/
abbrev Mutation (ε σ α : Type) : Type := ExceptT ε (StateM σ) α

namespace Mutation

variable {ε σ α β : Type} {s s' : σ}

/-- The answer of a mutation and the state left behind. -/
def run (x : Mutation ε σ α) (s : σ) : Except ε α × σ := (ExceptT.run x).run s

/-- The answer of a mutation together with the state left behind, or the cause of its failure. -/
def result (x : Mutation ε σ α) (s : σ) : Except ε (α × σ) :=
  match x.run s with
  | (.ok a, s') => .ok (a, s')
  | (.error cause, _) => .error cause

/-- Looks at the state, which may fail, and leaves it alone. -/
def query (look : σ → Except ε α) : Mutation ε σ α := do
  (look (← get) : Except ε α)

theorem result_eq_ok {x : Mutation ε σ α} {a : α} :
    x.result s = .ok (a, s') ↔ x.run s = (.ok a, s') := by
  rw [result]
  rcases x.run s with ⟨cause | b, t⟩
  · simp
  · simp

/-! ### One part after another -/

theorem run_bind (x : Mutation ε σ α) (f : α → Mutation ε σ β) (s : σ) :
    (x >>= f).run s = match x.run s with
      | (.ok a, t) => (f a).run t
      | (.error cause, t) => (.error cause, t) := by
  simp only [run, ExceptT.run, StateT.run, bind, ExceptT.bind, ExceptT.mk, StateT.bind]
  rcases x s with ⟨cause | a, t⟩
  · rfl
  · rfl

theorem run_bind_eq_ok {x : Mutation ε σ α} {f : α → Mutation ε σ β} {b : β} :
    (x >>= f).run s = (.ok b, s') ↔
      ∃ a t, x.run s = (.ok a, t) ∧ (f a).run t = (.ok b, s') := by
  rw [run_bind]
  rcases x.run s with ⟨cause | a, t⟩
  · simp
  · constructor
    · exact fun h => ⟨a, t, rfl, h⟩
    · rintro ⟨_, _, ⟨⟩, h⟩
      exact h

theorem run_lift_eq_ok {x : Except ε α} {a : α} :
    run (liftM x : Mutation ε σ α) s = (.ok a, s') ↔ x = .ok a ∧ s = s' := by
  show ((x, s) : Except ε α × σ) = (.ok a, s') ↔ _
  simp

theorem run_fst_eq_ok {x : Mutation ε σ α} {a : α} :
    (x.run s).1 = .ok a ↔ ∃ t, x.run s = (.ok a, t) := by
  rcases x.run s with ⟨r, t⟩
  simp

/-! ### Mutations that leave the state as it was -/

/-- From the state `s` a mutation gives `answer`, which may be a failure, and leaves `s` behind. -/
def Answers (x : Mutation ε σ α) (s : σ) (answer : Except ε α) : Prop := x.run s = (answer, s)

theorem Answers.fst {x : Mutation ε σ α} {answer : Except ε α} (h : x.Answers s answer) :
    (x.run s).1 = answer := congrArg Prod.fst h

theorem Answers.snd {x : Mutation ε σ α} {answer : Except ε α} (h : x.Answers s answer) :
    (x.run s).2 = s := congrArg Prod.snd h

theorem answers_pure (a : α) : Answers (pure a : Mutation ε σ α) s (.ok a) := rfl

theorem answers_lift (x : Except ε α) : Answers (liftM x : Mutation ε σ α) s x := rfl

theorem answers_query (look : σ → Except ε α) : (query look).Answers s (look s) := rfl

/-- Where each of two parts leaves the state as it was, so does the whole, whichever fails. -/
theorem Answers.bind {x : Mutation ε σ α} {f : α → Mutation ε σ β} {answer : Except ε α}
    {answer' : α → Except ε β} (h : x.Answers s answer) (hf : ∀ a, (f a).Answers s (answer' a)) :
    (x >>= f).Answers s (answer >>= answer') := by
  unfold Answers at *
  rw [run_bind, h]
  cases answer with
  | error cause => rfl
  | ok a => exact hf a

theorem Answers.get_bind {f : σ → Mutation ε σ β} {answer : Except ε β}
    (h : (f s).Answers s answer) : (get >>= f).Answers s answer := by
  unfold Answers
  rw [run_bind]
  exact h

/-! ### Mutations that leave the state as it was if they fail -/

/-- From the state `s` a mutation succeeds with the answer and the new state that `answer` tells, or
it fails as `answer` does and leaves `s` behind. -/
def Commits (x : Mutation ε σ α) (s : σ) (answer : Except ε (α × σ)) : Prop :=
  x.run s = match answer with
    | .ok (a, s') => (.ok a, s')
    | .error cause => (.error cause, s)

/-- A mutation that succeeds commits. -/
theorem commits_of_run {x : Mutation ε σ α} {a : α} (h : x.run s = (.ok a, s')) :
    x.Commits s (.ok (a, s')) := h

theorem Commits.result_eq {x : Mutation ε σ α} {answer : Except ε (α × σ)}
    (h : x.Commits s answer) : x.result s = answer := by
  rw [result, h]
  rcases answer with cause | ⟨a, t⟩
  · rfl
  · rfl

theorem Commits.self {x : Mutation ε σ α} {answer : Except ε (α × σ)} (h : x.Commits s answer) :
    x.Commits s (x.result s) := by
  rwa [h.result_eq]

/-- Nothing comes of a mutation that fails. -/
theorem Commits.run_of_error {x : Mutation ε σ α} {answer : Except ε (α × σ)} {cause : ε}
    (h : x.Commits s answer) (hfails : answer = .error cause) : x.run s = (.error cause, s) := by
  rw [h, hfails]

/-- What leaves the state as it was may come first. -/
theorem Answers.bind_commits {x : Mutation ε σ α} {f : α → Mutation ε σ β} {answer : Except ε α}
    {answer' : α → Except ε (β × σ)} (h : x.Answers s answer)
    (hf : ∀ a, (f a).Commits s (answer' a)) : (x >>= f).Commits s (answer >>= answer') := by
  unfold Commits
  rw [run_bind, h]
  cases answer with
  | error cause => rfl
  | ok a => exact hf a

/-- What cannot fail may come last. -/
theorem Commits.bind_pure {x : Mutation ε σ α} {answer : Except ε (α × σ)} (f : α → β)
    (h : x.Commits s answer) :
    (x >>= fun a => pure (f a)).Commits s (answer.map fun (a, s') => (f a, s')) := by
  unfold Commits
  rw [run_bind, h]
  rcases answer with cause | ⟨a, t⟩
  · rfl
  · rfl

end Mutation

end StableSwap
