import Mathlib
import StableSwap.Document.Schema
import StableSwap.Proofs.Fixed.Text

/-!
# Numbers and amounts that are written and read again

A fixed point number is written as digits, a point and eighteen more digits (`splits_toText`,
`isNumber_toText`), and these write the number itself (`written_toText`). So it is read back as what
it was (`ofText_toText`), and no two numbers have one text. An amount is read back as well
(`Amount.ofDecimal_toDecimal`).
-/

namespace StableSwap

namespace Amount

/-- An amount is read back from its decimal form. -/
theorem ofDecimal_toDecimal (a : Amount) : ofDecimal a.toDecimal = .ok a := by
  rw [ofDecimal, toDecimal, String.toList_ofList, ofDigits_eq_ok]
  exact ⟨fun c hc => Nat.isDigit_of_mem_toDigits (by decide) (by decide) hc,
    Nat.ofDigitChars_ten_toDigits.symm⟩

end Amount

namespace Fixed

/-! ### The decimals -/

section

variable {units : ℕ}

theorem isDigit_of_mem_decimalDigits {c : Char} (hc : c ∈ decimalDigits units) :
    c.isDigit = true := by
  rcases List.mem_append.mp hc with hzero | hdigit
  · rw [List.eq_of_mem_replicate hzero]
    rfl
  · exact Nat.isDigit_of_mem_toDigits (by decide) (by decide) hdigit

/-- Less than one is written with exactly eighteen decimals. -/
theorem length_decimalDigits (h : units < unit.val) : (decimalDigits units).length = decimals := by
  have hlength : (Nat.toDigits 10 units).length ≤ decimals :=
    (Nat.length_toDigits_le_iff (by decide) (by decide)).mpr (unit_val_eq ▸ h)
  rw [decimalDigits, List.length_append, List.length_replicate, Nat.sub_add_cancel hlength]

/-- The zeros in front do not count. -/
theorem written_decimalDigits (units : ℕ) : Amount.written (decimalDigits units) = units := by
  rw [Amount.written, decimalDigits, Nat.ofDigitChars_append, Nat.ofDigitChars_replicate_zero,
    Nat.mul_zero, Nat.ofDigitChars_ten_toDigits]

end

/-! ### The text of a number -/

section

variable (a : Fixed)

/-- The digits before the point. -/
def wholeDigits : List Char := Nat.toDigits 10 (a.wei.val / unit.val)

/-- The digits behind it. -/
def fractionDigits : List Char := decimalDigits (a.wei.val % unit.val)

theorem isDigit_of_mem_wholeDigits {c : Char} (hc : c ∈ a.wholeDigits) : c.isDigit = true :=
  Nat.isDigit_of_mem_toDigits (by decide) (by decide) hc

theorem isDigit_of_mem_fractionDigits {c : Char} (hc : c ∈ a.fractionDigits) : c.isDigit = true :=
  isDigit_of_mem_decimalDigits hc

theorem length_fractionDigits : a.fractionDigits.length = decimals :=
  length_decimalDigits (Nat.mod_lt _ (by decide))

theorem splits_toText : Splits a.toText.toList a.wholeDigits a.fractionDigits := by
  rw [toText, String.toList_ofList]
  refine .atPoint fun hpoint => ?_
  exact absurd (a.isDigit_of_mem_wholeDigits hpoint) (by decide)

theorem isNumber_toText : IsNumber a.wholeDigits a.fractionDigits where
  whole_ne_nil := List.ne_nil_of_length_pos Nat.length_toDigits_pos
  fraction_ne_nil := List.ne_nil_of_length_pos (a.length_fractionDigits ▸ (by decide))
  size_le := by
    rw [size_of_digits fun _ => a.isDigit_of_mem_fractionDigits, length_fractionDigits]
  isDigit := List.forall_mem_append.mpr
    ⟨fun _ => a.isDigit_of_mem_wholeDigits, fun _ => a.isDigit_of_mem_fractionDigits⟩

theorem written_toText : written a.wholeDigits a.fractionDigits = a.wei.val := by
  have hwhole : Amount.written a.wholeDigits = a.wei.val / unit.val :=
    Nat.ofDigitChars_ten_toDigits
  have hfraction : Amount.written a.fractionDigits = a.wei.val % unit.val :=
    written_decimalDigits _
  rw [written, hwhole, hfraction, length_fractionDigits, Nat.sub_self, pow_zero, mul_one,
    ← unit_val_eq]
  exact Nat.div_add_mod' _ _

/-- **A number is read back from its text.** -/
theorem ofText_toText : ofText a.toText = .ok a :=
  (ofChars_eq_ok a.splits_toText).mpr ⟨a.isNumber_toText, a.written_toText.symm⟩

theorem toText_injective : Function.Injective toText := by
  intro a b h
  have hread : (.ok a : Except FixedTextError Fixed) = .ok b := by
    rw [← ofText_toText a, h, ofText_toText]
  exact Except.ok.inj hread

end

/-- **Written numbers and amounts are read back as what they were.** The text of a number is digits
with exactly eighteen decimals; no two numbers have one text; a text that is read, and then written,
has the same value again; and so have the documents of numbers and amounts. -/
theorem toText_roundTrip :
    (∀ a : Fixed, ofText a.toText = .ok a ∧ ∃ whole fraction,
      a.toText.toList = whole ++ '.' :: fraction ∧ fraction.length = 18 ∧
        whole ≠ [] ∧ ∀ c ∈ whole ++ fraction, c.isDigit = true) ∧
    (∀ a b : Fixed, a ≠ b → a.toText ≠ b.toText) ∧
    (∀ text a, ofText text = .ok a → ofText a.toText = ofText text) ∧
    (∀ a : Fixed, Document.readFixed (.text a.toText) = .ok a) ∧
    ∀ v : Amount, Document.readAmount (Document.ofAmount v) = .ok v := by
  refine ⟨fun a => ⟨ofText_toText a, a.wholeDigits, a.fractionDigits, ?_, length_fractionDigits a,
    a.isNumber_toText.whole_ne_nil, a.isNumber_toText.isDigit⟩, fun a b => toText_injective.ne,
    fun text a h => ?_, fun a => ?_, fun v => ?_⟩
  · rw [toText, String.toList_ofList]
    rfl
  · rw [ofText_toText, h]
  · change (ofText a.toText).mapError _ = _
    rw [ofText_toText]
    rfl
  · change (Amount.ofDecimal v.toDecimal).mapError _ = _
    rw [Amount.ofDecimal_toDecimal]
    rfl

/-- Zeros in front and missing decimals are not kept. -/
theorem toText_roundTrip_padded :
    ofText "007.25" = .ok ⟨7250000000000000000⟩ ∧
      (⟨7250000000000000000⟩ : Fixed).toText = "7.250000000000000000" ∧
      ofText "7.250000000000000000" = ofText "007.25" := by
  have h : ofText "007.25" = .ok ⟨7250000000000000000⟩ := by decide +kernel
  have htext : (⟨7250000000000000000⟩ : Fixed).toText = "7.250000000000000000" := by
    decide +kernel
  exact ⟨h, htext, htext ▸ toText_roundTrip.2.2.1 "007.25" _ h⟩

end Fixed

end StableSwap
