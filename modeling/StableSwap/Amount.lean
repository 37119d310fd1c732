/-!
# Amounts

Natural numbers below 2²⁵⁶: token balances, share supplies, invariants. Each operation answers the
exact result when it is an amount and names its overflow when it is not.

A product that feeds a division is formed in full; only the quotient has to be an amount
(`mulDivDown`, `mulDivUp`). Every checked operation names its own overflow, so the cause of a
failure says which operation of a formula it came from.
-/

namespace StableSwap

/-! ### Causes of failure -/

/-- Why a computation on amounts has no answer. A multiplication also overflows where only the
quotient of the product is no amount. -/
inductive MathError where
  | additionOverflow
  | subtractionOverflow
  | multiplicationOverflow
  | divisionByZero
  | invariantDidNotConverge
  | balanceDidNotConverge
  deriving DecidableEq

namespace MathError

def message : MathError → String
  | additionOverflow => "addition overflow"
  | subtractionOverflow => "subtraction overflow"
  | multiplicationOverflow => "multiplication overflow"
  | divisionByZero => "division by zero"
  | invariantDidNotConverge => "stable invariant didn't converge"
  | balanceDidNotConverge => "stable get balance didn't converge"

/-- Whether an iteration ran out of rounds, as opposed to an operation having no answer. -/
def isConvergence : MathError → Bool
  | invariantDidNotConverge | balanceDidNotConverge => true
  | _ => false

end MathError

/-! ### Amounts and operations on them -/

/-- The quotient of `a` and `b` rounded up. -/
def ceilDiv (a b : Nat) : Nat := (a + b - 1) / b

theorem ceilDiv_le_self (a b : Nat) : ceilDiv a b ≤ a := by
  unfold ceilDiv
  rcases Nat.eq_zero_or_pos b with rfl | hb
  · simp
  rcases Nat.eq_zero_or_pos a with rfl | ha
  · exact Nat.le_of_eq (Nat.div_eq_of_lt (by omega))
  · apply Nat.div_le_of_le_mul
    obtain ⟨a, rfl⟩ := Nat.exists_eq_add_of_lt ha
    obtain ⟨b, rfl⟩ := Nat.exists_eq_add_of_lt hb
    simp only [Nat.zero_add, Nat.add_mul, Nat.mul_add, Nat.one_mul, Nat.mul_one]
    omega

/-- The least number that is no amount. -/
def Amount.bound : Nat := Nat.pow 2 256

theorem Amount.bound_pos : 0 < Amount.bound := Nat.two_pow_pos 256

/-- A natural number below 2²⁵⁶. -/
@[ext] structure Amount where
  /-- The number itself. -/
  val : Nat
  /-- It is below the bound. -/
  val_lt : val < Amount.bound
  deriving DecidableEq

namespace Amount

/-- Literals are taken modulo the bound, as for the fixed width integers. -/
instance (n : Nat) : OfNat Amount n := ⟨⟨n % bound, Nat.mod_lt _ bound_pos⟩⟩

instance : Inhabited Amount := ⟨0⟩

instance : LE Amount := ⟨fun a b => a.val ≤ b.val⟩

instance : LT Amount := ⟨fun a b => a.val < b.val⟩

instance (a b : Amount) : Decidable (a ≤ b) := inferInstanceAs (Decidable (a.val ≤ b.val))

instance (a b : Amount) : Decidable (a < b) := inferInstanceAs (Decidable (a.val < b.val))

instance : Max Amount := maxOfLe

theorem le_def {a b : Amount} : a ≤ b ↔ a.val ≤ b.val := Iff.rfl

theorem lt_def {a b : Amount} : a < b ↔ a.val < b.val := Iff.rfl

@[simp] theorem val_zero : (0 : Amount).val = 0 := rfl

@[simp] theorem val_one : (1 : Amount).val = 1 := rfl

theorem eq_zero_iff {a : Amount} : a = 0 ↔ a.val = 0 := by
  rw [Amount.ext_iff, val_zero]

/-- The largest amount. -/
def greatest : Amount := ⟨bound - 1, Nat.sub_lt bound_pos Nat.one_pos⟩

/-- The amount `n`, or `failure` when `n` is none. -/
def narrow (failure : MathError) (n : Nat) : Except MathError Amount :=
  if h : n < bound then .ok ⟨n, h⟩ else .error failure

/-- The amount `n`, if `n` is one. -/
def ofNat? (n : Nat) : Option Amount :=
  if h : n < bound then some ⟨n, h⟩ else none

/-- The number of things counted, as a factor in later products. -/
def count (n : Nat) : Except MathError Amount := narrow .multiplicationOverflow n

/-- The sum. -/
def add (a b : Amount) : Except MathError Amount := narrow .additionOverflow (a.val + b.val)

/-- The difference, which must not be negative. -/
def sub (a b : Amount) : Except MathError Amount :=
  if b.val ≤ a.val then
    .ok ⟨a.val - b.val, Nat.lt_of_le_of_lt (Nat.sub_le _ _) a.val_lt⟩
  else
    .error .subtractionOverflow

/-- The product. -/
def mul (a b : Amount) : Except MathError Amount :=
  narrow .multiplicationOverflow (a.val * b.val)

/-- The quotient rounded down. -/
def divDown (a b : Amount) : Except MathError Amount :=
  if b.val = 0 then .error .divisionByZero
  else .ok ⟨a.val / b.val, Nat.lt_of_le_of_lt (Nat.div_le_self _ _) a.val_lt⟩

/-- The quotient rounded up. -/
def divUp (a b : Amount) : Except MathError Amount :=
  if b.val = 0 then .error .divisionByZero
  else .ok ⟨ceilDiv a.val b.val, Nat.lt_of_le_of_lt (ceilDiv_le_self _ _) a.val_lt⟩

/-- `a · b / c` rounded down, with the product in full. -/
def mulDivDown (a b c : Amount) : Except MathError Amount :=
  if c.val = 0 then .error .divisionByZero
  else narrow .multiplicationOverflow (a.val * b.val / c.val)

/-- `a · b / c` rounded up, with the product in full. -/
def mulDivUp (a b c : Amount) : Except MathError Amount :=
  if c.val = 0 then .error .divisionByZero
  else narrow .multiplicationOverflow (ceilDiv (a.val * b.val) c.val)

/-- The difference, or zero when it is negative. -/
def monus (a b : Amount) : Amount :=
  ⟨a.val - b.val, Nat.lt_of_le_of_lt (Nat.sub_le _ _) a.val_lt⟩

/-- How far apart two amounts are. -/
def dist (a b : Amount) : Amount := if b < a then a.monus b else b.monus a

@[simp] theorem val_monus (a b : Amount) : (a.monus b).val = a.val - b.val := rfl

@[simp] theorem val_dist (a b : Amount) :
    (a.dist b).val = (a.val - b.val) + (b.val - a.val) := by
  unfold dist
  split <;> rename_i h <;> simp only [lt_def] at h <;> simp only [val_monus] <;> omega

@[simp] theorem val_max (a b : Amount) : (max a b).val = max a.val b.val := by
  show (if a ≤ b then b else a).val = _
  split <;> rename_i h <;> rw [le_def] at h <;> omega

/-! ### When the operations succeed -/

theorem narrow_eq_ok {e : MathError} {n : Nat} {a : Amount} :
    narrow e n = .ok a ↔ a.val = n := by
  unfold narrow
  split <;> rename_i h
  · rw [Except.ok.injEq, Amount.ext_iff]; exact eq_comm
  · constructor
    · intro h'; cases h'
    · rintro rfl; exact absurd a.val_lt h

theorem ofNat?_eq_some_iff {n : Nat} {a : Amount} : ofNat? n = some a ↔ a.val = n := by
  unfold ofNat?
  split <;> rename_i h
  · rw [Option.some.injEq, Amount.ext_iff]; exact eq_comm
  · constructor
    · intro h'; cases h'
    · rintro rfl; exact absurd a.val_lt h

theorem ofNat?_eq_none_iff {n : Nat} : ofNat? n = none ↔ bound ≤ n := by
  rw [← Nat.not_lt, ofNat?]
  by_cases h : n < bound
  · simp [h]
  · simp [h]

theorem add_eq_ok {a b c : Amount} : a.add b = .ok c ↔ c.val = a.val + b.val := narrow_eq_ok

theorem mul_eq_ok {a b c : Amount} : a.mul b = .ok c ↔ c.val = a.val * b.val := narrow_eq_ok

theorem sub_eq_ok {a b c : Amount} : a.sub b = .ok c ↔ a.val = b.val + c.val := by
  unfold sub
  split <;> rename_i h
  · rw [Except.ok.injEq, Amount.ext_iff]; constructor <;> (simp only; omega)
  · constructor
    · intro h'; cases h'
    · omega

theorem divDown_eq_ok {a b c : Amount} :
    a.divDown b = .ok c ↔ b.val ≠ 0 ∧ c.val = a.val / b.val := by
  unfold divDown
  split <;> rename_i h
  · simp [h]
  · rw [Except.ok.injEq, Amount.ext_iff]; simp [h, eq_comm]

theorem divUp_eq_ok {a b c : Amount} :
    a.divUp b = .ok c ↔ b.val ≠ 0 ∧ c.val = ceilDiv a.val b.val := by
  unfold divUp
  split <;> rename_i h
  · simp [h]
  · rw [Except.ok.injEq, Amount.ext_iff]; simp [h, eq_comm]

theorem mulDivDown_eq_ok {a b c d : Amount} :
    mulDivDown a b c = .ok d ↔ c.val ≠ 0 ∧ d.val = a.val * b.val / c.val := by
  unfold mulDivDown
  split <;> rename_i h
  · simp [h]
  · rw [narrow_eq_ok]; simp [h]

theorem mulDivUp_eq_ok {a b c d : Amount} :
    mulDivUp a b c = .ok d ↔ c.val ≠ 0 ∧ d.val = ceilDiv (a.val * b.val) c.val := by
  unfold mulDivUp
  split <;> rename_i h
  · simp [h]
  · rw [narrow_eq_ok]; simp [h]

end Amount

end StableSwap
