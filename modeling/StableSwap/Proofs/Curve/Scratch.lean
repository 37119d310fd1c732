import Mathlib
import StableSwap.Curve.Trade
import StableSwap.Proofs.Rounding

/-!
# Trades give the scratch balances back

A trade writes its known side into the scratch balances, solves for the other balance and takes the
known side back. What is written stays where a computation fails (`Scratch.run_modifyBalance_bind`),
so every way out of a trade has to come after the change was taken back.

* `Scratch.answers_undone`: a change that is taken back before anything else can fail.
* `answers_outGivenIn`, `answers_inGivenOut`: both trades, with their answers in terms of the
  balances alone.
* `trades_restore`: the balances after either trade are those before it, and what a trade pays out
  is nothing or less than the balance it is paid from.
-/

namespace StableSwap.Curve

namespace Scratch

open Mutation

variable {β : Type} {xs : List Fixed} {index : ℕ}

theorem run_modifyBalance (change : Fixed → Except MathError Fixed) (xs : List Fixed) :
    (modifyBalance index change).run xs = match change (xs.getD index 0) with
      | .ok y => (.ok (), xs.set index y)
      | .error e => (.error e, xs) := by
  rw [modifyBalance, run_bind]
  show Mutation.run (liftM (change (xs.getD index 0)) >>= _) xs = _
  rw [run_bind]
  cases change (xs.getD index 0) with
  | error e => rfl
  | ok y => rfl

/-- What follows a change finds the changed balance, and where the change fails nothing follows. -/
theorem run_modifyBalance_bind (change : Fixed → Except MathError Fixed) (f : Unit → Scratch β)
    (xs : List Fixed) :
    (modifyBalance index change >>= f).run xs = match change (xs.getD index 0) with
      | .ok y => (f ()).run (xs.set index y)
      | .error e => (.error e, xs) := by
  rw [run_bind, run_modifyBalance]
  cases change (xs.getD index 0) with
  | error e => rfl
  | ok y => rfl

theorem answers_balance_bind {f : Fixed → Scratch β} {answer : Except MathError β}
    (h : (f (xs.getD index 0)).Answers xs answer) : (balance index >>= f).Answers xs answer := by
  unfold Answers
  rw [run_bind]
  exact h

/-- A change that is taken back at once leaves the balances as they were. The changed balances are
seen in between, and all that can fail comes before the change or after it was taken back. -/
theorem answers_undone {change undo : Fixed → Except MathError Fixed}
    {next : List Fixed → Scratch β} {answer : Fixed → Except MathError β}
    (hindex : index < xs.length) (hundo : ∀ x y, change x = .ok y → undo y = .ok x)
    (hnext : ∀ y, (next (xs.set index y)).Answers xs (answer y)) :
    Answers (do
      modifyBalance index change
      let changed ← get
      modifyBalance index undo
      next changed) xs (change (xs.getD index 0) >>= answer) := by
  unfold Answers
  rw [run_modifyBalance_bind]
  cases hchange : change (xs.getD index 0) with
  | error e => rfl
  | ok y =>
      -- while the change is in place, the only step that could fail is the one that undoes it
      show Mutation.run (modifyBalance index undo >>= _) (xs.set index y) = _
      rw [run_modifyBalance_bind, getD_set_self _ _ _ hindex, hundo _ _ hchange]
      show (next (xs.set index y)).run ((xs.set index y).set index (xs.getD index 0)) = _
      rw [List.set_set, set_getD_self _ _ hindex]
      exact hnext y

end Scratch

/-! ### Trades -/

section Trade

open Scratch Mutation

variable {A : Amount} {i j : ℕ} {xs : List Fixed}

/-- The output, from the balances with the input added. -/
theorem answers_outGivenIn {amountIn : Fixed} (hi : i < xs.length) :
    (outGivenIn A i j amountIn).Answers xs (do
      let D ← invariant A xs
      let grown ← (xs.getD i 0).add amountIn
      let after ← missingBalance A (xs.set i grown) D j
      return ⟨((xs.getD j 0).wei.monus after.wei).monus 1⟩) := by
  unfold outGivenIn
  refine Answers.get_bind ((answers_lift _).bind fun D => ?_)
  refine answers_undone hi (fun x y h => ?_) fun grown => ?_
  · rw [Fixed.add_eq_ok] at h
    rw [Fixed.sub_eq_ok, h, Nat.add_comm]
  · exact (answers_lift _).bind fun after => answers_balance_bind (answers_pure _)

/-- The input, from the balances with the output taken out. -/
theorem answers_inGivenOut {amountOut : Fixed} (hj : j < xs.length) :
    (inGivenOut A i j amountOut).Answers xs (do
      let D ← invariant A xs
      let shrunk ← (xs.getD j 0).sub amountOut
      let after ← missingBalance A (xs.set j shrunk) D i
      let paid ← after.sub (xs.getD i 0)
      paid.add ⟨1⟩) := by
  unfold inGivenOut
  refine Answers.get_bind ((answers_lift _).bind fun D => ?_)
  refine answers_undone hj (fun x y h => ?_) fun shrunk => ?_
  · rw [Fixed.sub_eq_ok] at h
    rw [Fixed.add_eq_ok, h, Nat.add_comm]
  · exact (answers_lift _).bind fun after =>
      answers_balance_bind ((answers_lift _).bind fun paid => answers_lift _)

/-! ### What was solved for -/

theorem outGivenIn_ok {amountIn out : Fixed} (hi : i < xs.length)
    (h : ((outGivenIn A i j amountIn).run xs).1 = .ok out) :
    ∃ D grown y, invariant A xs = .ok D ∧
      grown.wei.val = (xs.getD i 0).wei.val + amountIn.wei.val ∧
      missingBalance A (xs.set i grown) D j = .ok y ∧
      out.wei.val = (xs.getD j 0).wei.val - y.wei.val - 1 := by
  rw [(answers_outGivenIn hi).fst] at h
  simp only [bind_eq_ok, pure_eq_ok, Fixed.add_eq_ok] at h
  obtain ⟨D, hD, grown, hgrown, y, hy, rfl⟩ := h
  exact ⟨D, grown, y, hD, hgrown, hy, rfl⟩

theorem inGivenOut_ok {amountOut paid : Fixed} (hj : j < xs.length)
    (h : ((inGivenOut A i j amountOut).run xs).1 = .ok paid) :
    ∃ D shrunk y, invariant A xs = .ok D ∧
      (xs.getD j 0).wei.val = amountOut.wei.val + shrunk.wei.val ∧
      missingBalance A (xs.set j shrunk) D i = .ok y ∧
      paid.wei.val + (xs.getD i 0).wei.val = y.wei.val + 1 := by
  rw [(answers_inGivenOut hj).fst] at h
  simp only [bind_eq_ok, Fixed.add_eq_ok, Fixed.sub_eq_ok] at h
  obtain ⟨D, hD, shrunk, hshrunk, y, hy, net, hnet, hpaid⟩ := h
  refine ⟨D, shrunk, y, hD, hshrunk, hy, ?_⟩
  rw [Amount.val_one] at hpaid
  omega

/-- What a trade takes is one unit more than the curve asks for, so it is never nothing. -/
theorem inGivenOut_pos {amountOut paid : Fixed}
    (h : ((inGivenOut A i j amountOut).run xs).1 = .ok paid) : 0 < paid.wei.val := by
  obtain ⟨zs, h⟩ := run_fst_eq_ok.mp h
  simp only [inGivenOut, run_bind_eq_ok, run_lift_eq_ok, Fixed.add_eq_ok] at h
  obtain ⟨_, _, -, _, _, -, _, _, -, _, _, -, _, _, -, _, _, -, _, _, -, _, _, -, hpaid, -⟩ := h
  have : Amount.val 1 = 1 := Amount.val_one
  omega

/-! ### What is left behind -/

/-- **A trade gives the scratch balances back**, whether it answers or fails, and what it pays out
is nothing or less than the balance it is paid from. -/
theorem trades_restore (amount : Fixed) (hi : i < xs.length) (hj : j < xs.length) :
    ((outGivenIn A i j amount).run xs).2 = xs ∧ ((inGivenOut A i j amount).run xs).2 = xs ∧
      ∀ out, ((outGivenIn A i j amount).run xs).1 = .ok out → out = 0 ∨ out < xs[j] := by
  refine ⟨(answers_outGivenIn hi).snd, (answers_inGivenOut hj).snd, fun out hout => ?_⟩
  obtain ⟨-, -, y, -, -, -, hval⟩ := outGivenIn_ok hi hout
  rw [List.getD_eq_getElem _ _ hj] at hval
  by_cases hpos : 0 < xs[j].wei.val
  · exact .inr (Fixed.lt_def.mpr (by omega))
  · exact .inl (Fixed.ext (Amount.eq_zero_iff.mpr (by omega)))

/-- Two tokens and an amount that is the whole balance of the second: as an input it is traded, as
an output it fails at the solver, with nothing of the second left in the scratch balances. -/
theorem trades_restore_drained :
    let xs : List Fixed := [⟨1000⟩, ⟨2000⟩]
    0 < xs.length ∧ 1 < xs.length ∧
      (outGivenIn precision 0 1 ⟨2000⟩).run xs = (.ok ⟨1496⟩, xs) ∧
      (inGivenOut precision 0 1 ⟨2000⟩).run xs = (.error .divisionByZero, xs) ∧
      (⟨1496⟩ : Fixed) < xs[1] := by
  intro xs
  have hi : 0 < xs.length := by decide
  have hj : 1 < xs.length := by decide
  have hout : ((outGivenIn precision 0 1 ⟨2000⟩).run xs).1 = .ok ⟨1496⟩ := by decide +kernel
  have hfails : ((inGivenOut precision 0 1 ⟨2000⟩).run xs).1 = .error .divisionByZero := by
    decide +kernel
  obtain ⟨hrestored, hrestored', hlt⟩ := trades_restore (A := precision) ⟨2000⟩ hi hj
  refine ⟨hi, hj, Prod.ext hout hrestored, Prod.ext hfails hrestored', ?_⟩
  exact (hlt _ hout).resolve_left (by decide)

end Trade

end StableSwap.Curve
