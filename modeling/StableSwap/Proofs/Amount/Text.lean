import Mathlib
import StableSwap.Amount.Text
import StableSwap.Proofs.Success

/-!
# Reading written amounts

`Amount.ofDigits` takes one digit after the other and refuses as soon as the digits read so far are
no amount. It refuses none too early: further digits never make a number smaller.

* `ofDigits_eq_ok`: it reads exactly the decimal forms of amounts, leading zeros included.
* `ofDigits_eq_error`: what it refuses, it refuses for the first character at which the text stops
  being one (`FirstFault`).
-/

namespace StableSwap.Amount

/-- The number that digits write. -/
def written (digits : List Char) : ℕ := Nat.ofDigitChars 10 digits 0

/-- Digits that write an amount. -/
structure IsDecimal (digits : List Char) : Prop where
  /-- All of them are digits. -/
  isDigit : ∀ c ∈ digits, c.isDigit = true
  /-- The number is below the bound. -/
  lt_bound : written digits < bound

/-- The amount that digits write. -/
def IsDecimal.amount {digits : List Char} (h : IsDecimal digits) : Amount :=
  ⟨written digits, h.lt_bound⟩

/-- The first character at which a text is no longer the decimal form of an amount, and why. -/
inductive FirstFault : List Char → DecimalError → Prop where
  /-- The character is no digit. -/
  | notADigit {before after : List Char} {c : Char} (hbefore : IsDecimal before)
      (hc : c.isDigit = false) : FirstFault (before ++ c :: after) .notADigit
  /-- The number up to and with this digit is no amount. -/
  | tooLarge {before after : List Char} {c : Char} (hbefore : IsDecimal before)
      (hc : c.isDigit = true) (hbound : bound ≤ written (before ++ [c])) :
      FirstFault (before ++ c :: after) .tooLarge

/-! ### Numbers of digits -/

@[simp] theorem written_nil : written [] = 0 := rfl

theorem written_concat (digits : List Char) (c : Char) :
    written (digits ++ [c]) = 10 * written digits + Text.digitValue c := by
  rw [written, Nat.ofDigitChars_append, Nat.ofDigitChars_cons, Nat.ofDigitChars_nil, ← written,
    Text.digitValue]

theorem digitValue_lt {c : Char} (hc : c.isDigit = true) : Text.digitValue c < 10 := by
  have hle := (Char.isDigit_iff_toNat.mp hc).2
  rw [Text.digitValue]
  exact Nat.lt_succ_of_le (Nat.sub_le_sub_right hle _)

/-- A number of `n` digits is below `10ⁿ`. -/
theorem written_lt {digits : List Char} (h : ∀ c ∈ digits, c.isDigit = true) :
    written digits < 10 ^ digits.length := by
  induction digits using List.reverseRecOn with
  | nil => exact Nat.one_pos
  | append_singleton digits c ih =>
      have hdigits := ih fun d hd => h d (List.mem_append_left _ hd)
      have hc := digitValue_lt (h c (List.mem_append_right _ (List.mem_singleton_self c)))
      rw [written_concat, List.length_append, List.length_singleton, pow_succ]
      linarith

/-! ### One digit -/

theorem appendDigit_eq_ok {a b : Amount} {c : Char} :
    a.appendDigit c = .ok b ↔ c.isDigit = true ∧ b.val = 10 * a.val + Text.digitValue c := by
  rw [appendDigit, error_if_eq_ok, ← ofNat?_eq_some_iff]
  cases ofNat? (10 * a.val + Text.digitValue c) with
  | none => simp
  | some n => simp

theorem appendDigit_eq_error {a : Amount} {c : Char} {cause : DecimalError} :
    a.appendDigit c = .error cause ↔ c.isDigit = false ∧ cause = .notADigit ∨
      c.isDigit = true ∧ bound ≤ 10 * a.val + Text.digitValue c ∧ cause = .tooLarge := by
  rw [appendDigit, error_if_eq_error, or_comm, Bool.not_eq_true, ← ofNat?_eq_none_iff,
    eq_comm (a := cause), eq_comm (a := cause)]
  cases ofNat? (10 * a.val + Text.digitValue c) with
  | none => simp
  | some n => simp

/-! ### All digits -/

theorem ofDigits_eq_ok {digits : List Char} {a : Amount} :
    ofDigits digits = .ok a ↔ (∀ c ∈ digits, c.isDigit = true) ∧ a.val = written digits := by
  induction digits using List.reverseRecOn generalizing a with
  | nil =>
      rw [ofDigits, List.foldlM_nil, pure_eq_ok, written_nil, ← eq_zero_iff, eq_comm]
      exact ⟨fun h => ⟨nofun, h⟩, And.right⟩
  | append_singleton digits c ih =>
      have hsplit : ofDigits (digits ++ [c]) = ofDigits digits >>= fun b => b.appendDigit c := by
        rw [ofDigits, List.foldlM_append, ← ofDigits]
        simp
      rw [hsplit, bind_eq_ok, List.forall_mem_append, List.forall_mem_singleton, written_concat]
      constructor
      · rintro ⟨b, hb, ha⟩
        obtain ⟨hdigits, hval⟩ := ih.mp hb
        obtain ⟨hc, hnext⟩ := appendDigit_eq_ok.mp ha
        exact ⟨⟨hdigits, hc⟩, hval ▸ hnext⟩
      · rintro ⟨⟨hdigits, hc⟩, hval⟩
        -- Digits only add to a number, so before the last one it was an amount too.
        have hlt : written digits < bound := by
          have := a.val_lt
          omega
        exact ⟨⟨written digits, hlt⟩, ih.mpr ⟨hdigits, rfl⟩, appendDigit_eq_ok.mpr ⟨hc, hval⟩⟩

theorem IsDecimal.ofDigits_eq {digits : List Char} (h : IsDecimal digits) :
    ofDigits digits = .ok h.amount :=
  ofDigits_eq_ok.mpr ⟨h.isDigit, rfl⟩

theorem exists_isDecimal {digits : List Char} {a : Amount} (ha : ofDigits digits = .ok a) :
    ∃ h : IsDecimal digits, h.amount = a := by
  obtain ⟨hdigits, hval⟩ := ofDigits_eq_ok.mp ha
  exact ⟨⟨hdigits, hval ▸ a.val_lt⟩, Amount.ext hval.symm⟩

/-- A text is refused for the first character at which it is no decimal form of an amount. -/
theorem ofDigits_eq_error {digits : List Char} {cause : DecimalError} :
    ofDigits digits = .error cause ↔ FirstFault digits cause := by
  rw [ofDigits, foldlM_eq_error]
  constructor
  · rintro ⟨before, c, after, a, rfl, ha, hfault⟩
    obtain ⟨hbefore, rfl⟩ := exists_isDecimal ha
    rcases appendDigit_eq_error.mp hfault with ⟨hc, rfl⟩ | ⟨hc, hbound, rfl⟩
    · exact .notADigit hbefore hc
    · refine .tooLarge hbefore hc ?_
      rw [written_concat]
      exact hbound
  · rintro (⟨hbefore, hc⟩ | ⟨hbefore, hc, hbound⟩)
    · exact ⟨_, _, _, _, rfl, hbefore.ofDigits_eq, appendDigit_eq_error.mpr (.inl ⟨hc, rfl⟩)⟩
    · rw [written_concat] at hbound
      exact ⟨_, _, _, _, rfl, hbefore.ofDigits_eq,
        appendDigit_eq_error.mpr (.inr ⟨hc, hbound, rfl⟩)⟩

end StableSwap.Amount
