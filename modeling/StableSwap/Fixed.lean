import StableSwap.Amount

/-!
# Fixed point numbers

Numbers with eighteen decimals, held as the amount of their units of 10⁻¹⁸. Products and quotients
are rounded to a unit in the direction the name says; the intermediate product is never rounded.
-/

namespace StableSwap

/-- A number with eighteen decimals. -/
@[ext] structure Fixed where
  /-- The number times 10¹⁸. -/
  wei : Amount
  deriving DecidableEq

namespace Fixed

/-- How many decimals there are. -/
def decimals : Nat := 18

/-- The units in one. -/
def unit : Amount := ⟨1000000000000000000, by decide⟩

instance : OfNat Fixed 0 := ⟨⟨0⟩⟩

instance : OfNat Fixed 1 := ⟨⟨unit⟩⟩

instance : Inhabited Fixed := ⟨0⟩

instance : LE Fixed := ⟨fun a b => a.wei ≤ b.wei⟩

instance : LT Fixed := ⟨fun a b => a.wei < b.wei⟩

instance (a b : Fixed) : Decidable (a ≤ b) := inferInstanceAs (Decidable (a.wei ≤ b.wei))

instance (a b : Fixed) : Decidable (a < b) := inferInstanceAs (Decidable (a.wei < b.wei))

theorem le_def {a b : Fixed} : a ≤ b ↔ a.wei.val ≤ b.wei.val := Iff.rfl

theorem lt_def {a b : Fixed} : a < b ↔ a.wei.val < b.wei.val := Iff.rfl

@[simp] theorem wei_zero : (0 : Fixed).wei = 0 := rfl

@[simp] theorem val_unit : unit.val = 1000000000000000000 := rfl

@[simp] theorem wei_one : (1 : Fixed).wei = unit := rfl

/-- The power of ten `10ᵉ`; with more than 59 zeros it would be out of range. -/
def tenPow (e : Fin 60) : Fixed :=
  ⟨Nat.pow 10 (e.val + 18),
    Nat.lt_of_le_of_lt (Nat.pow_le_pow_right (by decide) (by omega : e.val + 18 ≤ 77)) (by decide)⟩

/-- The sum. -/
def add (a b : Fixed) : Except MathError Fixed := (a.wei.add b.wei).map mk

/-- The difference, which must not be negative. -/
def sub (a b : Fixed) : Except MathError Fixed := (a.wei.sub b.wei).map mk

/-- The product rounded down. -/
def mulDown (a b : Fixed) : Except MathError Fixed := (Amount.mulDivDown a.wei b.wei unit).map mk

/-- The product rounded up. -/
def mulUp (a b : Fixed) : Except MathError Fixed := (Amount.mulDivUp a.wei b.wei unit).map mk

/-- The quotient rounded down. -/
def divDown (a b : Fixed) : Except MathError Fixed := (Amount.mulDivDown a.wei unit b.wei).map mk

/-- The quotient rounded up. -/
def divUp (a b : Fixed) : Except MathError Fixed := (Amount.mulDivUp a.wei unit b.wei).map mk

/-- What is missing to one, or zero from one on. -/
def complement (a : Fixed) : Fixed := ⟨unit.monus a.wei⟩

@[simp] theorem val_complement (a : Fixed) : a.complement.wei.val = unit.val - a.wei.val := rfl

end Fixed

end StableSwap
