import Mathlib
import StableSwap.Fixed
import StableSwap.Proofs.Success

/-!
# Computations that fail by overflow only

Every checked operation names the cause of its failure. What holds of the causes of each step of a
chain holds of the cause the chain fails by (`FailsOnlyBy`). Where divisors are not zero and differences
not negative, a chain of operations can fail in no other way than by a sum or a product that is no
amount (`OnlyOverflows`); where the divisors are not known, by a division as well
(`OverflowsOrDivides`). Where it is only asked which difference may be negative, all other causes are
let through (`UnderflowsOnlyIf`).
-/

namespace StableSwap

/-! ### Causes of a kind -/

/-- A computation succeeds, or fails by a cause of which `P` holds. -/
def FailsOnlyBy {α : Type} (P : MathError → Prop) (x : Except MathError α) : Prop :=
  ∀ cause, x = .error cause → P cause

namespace FailsOnlyBy

variable {α β : Type} {P Q : MathError → Prop} {x : Except MathError α}

theorem ok (a : α) : FailsOnlyBy P (.ok a) := nofun

theorem error {cause : MathError} (h : P cause) :
    FailsOnlyBy P (.error cause : Except MathError α) := by
  rintro _ ⟨⟩
  exact h

/-- Causes of one kind are of every wider kind. -/
theorem mono (h : FailsOnlyBy P x) (hPQ : ∀ cause, P cause → Q cause) : FailsOnlyBy Q x :=
  fun cause hcause => hPQ cause (h cause hcause)

/-- What a step needs may be taken from what the step before it answered. -/
theorem bind {f : α → Except MathError β} (hx : FailsOnlyBy P x)
    (hf : ∀ a, x = .ok a → FailsOnlyBy P (f a)) : FailsOnlyBy P (x >>= f) := by
  cases x with
  | error cause => exact error (hx cause rfl)
  | ok a => exact hf a rfl

/-- What is made of the answer does not fail. -/
theorem map {f : α → β} (hx : FailsOnlyBy P x) : FailsOnlyBy P (x.map f) := by
  cases x with
  | error cause => exact error (hx cause rfl)
  | ok a => exact ok (f a)

/-- A fold fails by what one of its steps fails by. -/
theorem foldlM {f : β → α → Except MathError β} {xs : List α}
    (h : ∀ b, ∀ a ∈ xs, FailsOnlyBy P (f b a)) : ∀ b, FailsOnlyBy P (xs.foldlM f b) := by
  induction xs with
  | nil => exact ok
  | cons a xs ih =>
      intro b
      rw [List.foldlM_cons]
      exact (h b a List.mem_cons_self).bind fun b' _ =>
        ih (fun b a ha => h b a (List.mem_cons_of_mem _ ha)) b'

/-- So does a step taken for each entry of a list. -/
theorem mapM {f : α → Except MathError β} :
    ∀ {xs : List α}, (∀ a ∈ xs, FailsOnlyBy P (f a)) → FailsOnlyBy P (xs.mapM f)
  | [], _ => ok []
  | a :: xs, h => by
      rw [List.mapM_cons]
      refine (h a List.mem_cons_self).bind fun b _ => ?_
      exact (mapM fun a ha => h a (List.mem_cons_of_mem _ ha)).bind fun bs _ => ok _

end FailsOnlyBy

/-! ### Overflows -/

/-- A sum or a product is no amount. -/
def MathError.IsOverflow : MathError → Prop
  | .additionOverflow | .multiplicationOverflow => True
  | _ => False

theorem MathError.isOverflow_addition : additionOverflow.IsOverflow := trivial

theorem MathError.isOverflow_multiplication : multiplicationOverflow.IsOverflow := trivial

/-- A computation succeeds, or fails by the overflow of a sum or a product. -/
def OnlyOverflows {α : Type} (x : Except MathError α) : Prop := FailsOnlyBy MathError.IsOverflow x

/-- It answers, or says which of the two overflowed. -/
theorem OnlyOverflows.cases {α : Type} {x : Except MathError α} (h : OnlyOverflows x) :
    (∃ a, x = .ok a) ∨ x = .error .additionOverflow ∨ x = .error .multiplicationOverflow := by
  cases x with
  | ok a => exact .inl ⟨a, rfl⟩
  | error cause =>
      have hcause := h cause rfl
      cases cause with
      | additionOverflow => exact .inr (.inl rfl)
      | multiplicationOverflow => exact .inr (.inr rfl)
      | _ => exact hcause.elim

/-! ### Overflows and divisions by zero -/

/-- A computation succeeds, or fails by an overflow or a division by zero. -/
def OverflowsOrDivides {α : Type} (x : Except MathError α) : Prop :=
  FailsOnlyBy (fun cause => cause.IsOverflow ∨ cause = .divisionByZero) x

section

variable {α : Type} {x : Except MathError α}

/-- A division by zero may be let through as well. -/
theorem OnlyOverflows.orDivides (h : OnlyOverflows x) : OverflowsOrDivides x :=
  FailsOnlyBy.mono h fun _ => .inl

/-- It answers, or says which of the three failed. -/
theorem OverflowsOrDivides.cases (h : OverflowsOrDivides x) :
    (∃ a, x = .ok a) ∨ x = .error .multiplicationOverflow ∨ x = .error .additionOverflow ∨
      x = .error .divisionByZero := by
  cases x with
  | ok a => exact .inl ⟨a, rfl⟩
  | error cause =>
      rcases h cause rfl with hoverflow | rfl
      · have herror : OnlyOverflows (.error cause : Except _ α) := .error hoverflow
        rcases herror.cases with ⟨_, ⟨⟩⟩ | hadd | hmul
        · exact .inr (.inr (.inl hadd))
        · exact .inr (.inl hmul)
      · exact .inr (.inr (.inr rfl))

end

/-! ### Differences -/

/-- A computation fails by a negative difference only in a given case. -/
def UnderflowsOnlyIf {α : Type} (Q : Prop) (x : Except MathError α) : Prop :=
  FailsOnlyBy (fun cause => cause = .subtractionOverflow → Q) x

section

variable {α : Type} {Q : Prop} {x : Except MathError α}

/-- Other causes than a negative difference do not count. -/
theorem underflowsOnlyIf_iff : UnderflowsOnlyIf Q x ↔ (x = .error .subtractionOverflow → Q) :=
  ⟨fun h hx => h _ hx rfl, fun h _ hx hcause => h (hcause ▸ hx)⟩

/-- No overflow and no division by zero is a negative difference. -/
theorem OverflowsOrDivides.underflowsOnlyIf (h : OverflowsOrDivides x) : UnderflowsOnlyIf Q x := by
  refine h.mono fun _ hcause => ?_
  rintro rfl
  rcases hcause with hoverflow | hdivides
  · exact hoverflow.elim
  · exact nomatch hdivides

theorem UnderflowsOnlyIf.mono {Q' : Prop} (h : UnderflowsOnlyIf Q x) (hQ : Q → Q') :
    UnderflowsOnlyIf Q' x :=
  FailsOnlyBy.mono h fun _ hcause heq => hQ (hcause heq)

end

/-! ### Operations on amounts -/

namespace Amount

variable {a b c : Amount}

/-- A number that is no amount is refused by the cause of the operation that made it. -/
theorem onlyOverflows_narrow {cause : MathError} (h : cause.IsOverflow) (n : ℕ) :
    OnlyOverflows (narrow cause n) := by
  unfold narrow
  split
  · exact .ok _
  · exact .error h

/-- The length of a list is refused as a factor is. -/
theorem onlyOverflows_count (n : ℕ) : OnlyOverflows (count n) :=
  onlyOverflows_narrow MathError.isOverflow_multiplication n

/-- A sum fails only if it is no amount. -/
theorem onlyOverflows_add (a b : Amount) : OnlyOverflows (a.add b) :=
  onlyOverflows_narrow MathError.isOverflow_addition _

theorem onlyOverflows_mul (a b : Amount) : OnlyOverflows (a.mul b) :=
  onlyOverflows_narrow MathError.isOverflow_multiplication _

/-- A difference that is not negative does not fail. -/
theorem onlyOverflows_sub (h : b.val ≤ a.val) : OnlyOverflows (a.sub b) := by
  unfold sub
  rw [if_pos h]
  exact .ok _

/-- A quotient by anything but zero does not fail. -/
theorem onlyOverflows_divUp (h : 0 < b.val) : OnlyOverflows (a.divUp b) := by
  unfold divUp
  rw [if_neg h.ne']
  exact .ok _

/-- Where the divisor is not zero, the quotient of a product fails only if it is no amount. -/
theorem onlyOverflows_mulDivDown (h : 0 < c.val) : OnlyOverflows (mulDivDown a b c) := by
  unfold mulDivDown
  rw [if_neg h.ne']
  exact onlyOverflows_narrow MathError.isOverflow_multiplication _

/-- A division that refuses zero, whatever the divisor is. -/
theorem overflowsOrDivides_ite {x : Except MathError Amount} (h : OnlyOverflows x) :
    OverflowsOrDivides (if c.val = 0 then .error .divisionByZero else x) := by
  split
  · exact FailsOnlyBy.error (.inr rfl)
  · exact h.orDivides

theorem overflowsOrDivides_divUp (a b : Amount) : OverflowsOrDivides (a.divUp b) :=
  overflowsOrDivides_ite (.ok _)

/-- The rounded quotients of a product, by any divisor. -/
theorem overflowsOrDivides_mulDivDown (a b c : Amount) : OverflowsOrDivides (mulDivDown a b c) :=
  overflowsOrDivides_ite (onlyOverflows_narrow MathError.isOverflow_multiplication _)

theorem overflowsOrDivides_mulDivUp (a b c : Amount) : OverflowsOrDivides (mulDivUp a b c) :=
  overflowsOrDivides_ite (onlyOverflows_narrow MathError.isOverflow_multiplication _)

end Amount

/-! ### Operations on fixed point numbers -/

namespace Fixed

variable (a b : Fixed)

/-- The operations on numbers with 18 decimals fail as those on their units do. -/
theorem overflowsOrDivides_add : OverflowsOrDivides (a.add b) :=
  (Amount.onlyOverflows_add _ _).orDivides.map

theorem overflowsOrDivides_mulDown : OverflowsOrDivides (a.mulDown b) :=
  (Amount.overflowsOrDivides_mulDivDown _ _ _).map

theorem overflowsOrDivides_mulUp : OverflowsOrDivides (a.mulUp b) :=
  (Amount.overflowsOrDivides_mulDivUp _ _ _).map

theorem overflowsOrDivides_divDown : OverflowsOrDivides (a.divDown b) :=
  (Amount.overflowsOrDivides_mulDivDown _ _ _).map

theorem overflowsOrDivides_divUp : OverflowsOrDivides (a.divUp b) :=
  (Amount.overflowsOrDivides_mulDivUp _ _ _).map

variable {a b} in
/-- A difference that is not negative. -/
theorem overflowsOrDivides_sub (h : b.wei.val ≤ a.wei.val) : OverflowsOrDivides (a.sub b) :=
  (Amount.onlyOverflows_sub h).orDivides.map

/-- A difference is refused if it is negative. -/
theorem underflowsOnlyIf_sub : UnderflowsOnlyIf (a.wei.val < b.wei.val) (a.sub b) := by
  by_cases h : a.wei.val < b.wei.val
  · exact underflowsOnlyIf_iff.mpr fun _ => h
  · exact (overflowsOrDivides_sub (Nat.le_of_not_lt h)).underflowsOnlyIf

end Fixed

end StableSwap
