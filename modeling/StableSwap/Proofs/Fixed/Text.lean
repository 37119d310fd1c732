import Mathlib
import StableSwap.Fixed.Text
import StableSwap.Proofs.Amount.Text

/-!
# Reading written fixed point numbers

A text is taken apart at its first point (`Splits`), in exactly one way (`exists_splits`,
`Splits.splitAtPoint_eq`). What `Fixed.ofText` answers depends on the two parts only.

* `ofChars_eq_ok`: it accepts digits with at most eighteen decimals (`IsNumber`) if the number they
  write (`written`) is in range, and answers that number.
* `ofChars_eq_error`: it refuses everything else, for the first of the reasons in `Refused`. Decimals
  are filled up with zeros before they are read, and those of a number are always an amount
  (`IsNumber.isDecimal_padded`), so the range is left by the whole part or by the sum only.
-/

namespace StableSwap.Fixed

/-- A text is taken apart at its first point; one without a point has the decimals `0`. -/
inductive Splits : List Char → List Char → List Char → Prop where
  /-- There is no point. -/
  | withoutPoint {text : List Char} (h : '.' ∉ text) : Splits text text ['0']
  /-- There is a point, and none before it. -/
  | atPoint {whole fraction : List Char} (h : '.' ∉ whole) :
      Splits (whole ++ '.' :: fraction) whole fraction

/-- How many bytes a text takes. -/
def size (text : List Char) : ℕ := (String.ofList text).utf8ByteSize

/-- Both parts are there, and there are at most eighteen decimals. -/
structure HasParts (whole fraction : List Char) : Prop where
  /-- There is something before the point. -/
  whole_ne_nil : whole ≠ []
  /-- There is something behind it. -/
  fraction_ne_nil : fraction ≠ []
  /-- The decimals take at most eighteen bytes. -/
  size_le : size fraction ≤ decimals

/-- Digits, and at least one and at most eighteen more of them behind the point. -/
structure IsNumber (whole fraction : List Char) : Prop extends HasParts whole fraction where
  /-- All of them are digits. -/
  isDigit : ∀ c ∈ whole ++ fraction, c.isDigit = true

/-- The units that the parts write. -/
def written (whole fraction : List Char) : ℕ :=
  Amount.written whole * 10 ^ decimals +
    Amount.written fraction * 10 ^ (decimals - fraction.length)

/-- Why the parts are no number: each reason excludes those above it. -/
inductive Refused (whole fraction : List Char) : FixedTextError → Prop where
  /-- A part is missing. -/
  | emptyPart (h : whole = [] ∨ fraction = []) : Refused whole fraction .emptyPart
  /-- There are too many decimals. -/
  | tooPrecise (hwhole : whole ≠ []) (hfraction : fraction ≠ []) (h : decimals < size fraction) :
      Refused whole fraction (.tooPrecise (size fraction))
  /-- The part before the point is no amount. -/
  | inWhole {cause : DecimalError} (hparts : HasParts whole fraction)
      (h : Amount.FirstFault whole cause) : Refused whole fraction (.part cause)
  /-- The decimals, filled up to eighteen, are no amount. -/
  | inFraction {cause : DecimalError} (hparts : HasParts whole fraction)
      (hwhole : Amount.IsDecimal whole) (h : Amount.FirstFault (padded fraction) cause) :
      Refused whole fraction (.part cause)
  /-- It is a number, and its whole part is an amount, but the number is out of range. -/
  | tooLarge (hnumber : IsNumber whole fraction) (hwhole : Amount.IsDecimal whole)
      (h : Amount.bound ≤ written whole fraction) : Refused whole fraction .tooLarge

/-! ### The first point -/

theorem exists_splits (text : List Char) : ∃ whole fraction, Splits text whole fraction := by
  by_cases h : '.' ∈ text
  · obtain ⟨whole, fraction, rfl, hwhole⟩ := List.eq_append_cons_of_mem h
    exact ⟨whole, fraction, .atPoint hwhole⟩
  · exact ⟨text, ['0'], .withoutPoint h⟩

theorem Splits.splitAtPoint_eq {text whole fraction : List Char}
    (h : Splits text whole fraction) : splitAtPoint text = (whole, fraction) := by
  have hkept : ∀ {part : List Char}, '.' ∉ part → ∀ c ∈ part, (c != '.') = true := by
    intro part hpart c hc
    rw [bne_iff_ne]
    exact ne_of_mem_of_not_mem hc hpart
  cases h with
  | withoutPoint h =>
      have hnone := List.dropWhile_eq_nil_iff.mpr (hkept h)
      rw [splitAtPoint, hnone]
  | atPoint h =>
      have hbehind : (whole ++ '.' :: fraction).dropWhile (· != '.') = '.' :: fraction := by
        rw [List.dropWhile_append_of_pos (hkept h)]
        rfl
      rw [splitAtPoint, hbehind, List.takeWhile_append_of_pos (hkept h)]
      simp

/-! ### Sizes and padding -/

theorem byteLength_eq (text : List Char) : byteLength text = size text := by
  rw [size, String.utf8ByteSize_ofList]
  induction text with
  | nil => rfl
  | cons c text ih => rw [byteLength, String.utf8Len_cons, ih, Nat.add_comm]

theorem utf8Size_of_isDigit {c : Char} (h : c.isDigit = true) : c.utf8Size = 1 := by
  have hle := (Char.isDigit_iff_toNat.mp h).2
  exact Char.utf8Size_eq_one_iff.mpr (Nat.le_trans hle (by decide))

theorem size_of_digits {text : List Char} (h : ∀ c ∈ text, c.isDigit = true) :
    size text = text.length := by
  rw [← byteLength_eq]
  induction text with
  | nil => rfl
  | cons c text ih =>
      rw [List.forall_mem_cons] at h
      rw [byteLength, utf8Size_of_isDigit h.1, ih h.2, List.length_cons, Nat.add_comm]

theorem isDigit_padded {text : List Char} :
    (∀ c ∈ padded text, c.isDigit = true) ↔ ∀ c ∈ text, c.isDigit = true := by
  have hzeros : ∀ n, ∀ c ∈ List.replicate n '0', c.isDigit = true := by
    intro n c hc
    rw [List.eq_of_mem_replicate hc]
    rfl
  rw [padded, List.forall_mem_append]
  exact ⟨And.left, fun h => ⟨h, hzeros _⟩⟩

theorem written_padded (text : List Char) :
    Amount.written (padded text) = Amount.written text * 10 ^ (decimals - text.length) := by
  rw [Amount.written, padded, Nat.ofDigitChars_append, Nat.ofDigitChars_replicate_zero,
    ← Amount.written, Nat.mul_comm]

theorem length_padded {text : List Char} (h : text.length ≤ decimals) :
    (padded text).length = decimals := by
  rw [padded, List.length_append, List.length_replicate, Nat.add_sub_cancel' h]

/-! ### The parts -/

theorem unit_val_eq : unit.val = 10 ^ decimals := by norm_num [decimals]

theorem ofParts_eq_ok {whole units : Amount} {a : Fixed} :
    ofParts whole units = .ok a ↔ a.wei.val = unit.val * whole.val + units.val := by
  rw [ofParts, ← Amount.ofNat?_eq_some_iff]
  cases Amount.ofNat? (unit.val * whole.val + units.val) with
  | none => simp
  | some wei => simp [Fixed.ext_iff, eq_comm]

theorem ofParts_eq_error {whole units : Amount} {cause : FixedTextError} :
    ofParts whole units = .error cause ↔
      Amount.bound ≤ unit.val * whole.val + units.val ∧ cause = .tooLarge := by
  rw [ofParts, ← Amount.ofNat?_eq_none_iff, eq_comm (a := cause)]
  cases Amount.ofNat? (unit.val * whole.val + units.val) with
  | none => simp
  | some wei => simp

theorem hasParts_iff {whole fraction : List Char} : HasParts whole fraction ↔
    ¬ (whole = [] ∨ fraction = []) ∧ ¬ decimals < byteLength fraction := by
  rw [not_or, not_lt, byteLength_eq]
  exact ⟨fun h => ⟨⟨h.whole_ne_nil, h.fraction_ne_nil⟩, h.size_le⟩,
    fun h => ⟨h.1.1, h.1.2, h.2⟩⟩

theorem isNumber_iff {whole fraction : List Char} : IsNumber whole fraction ↔
    HasParts whole fraction ∧ (∀ c ∈ whole, c.isDigit = true) ∧
      ∀ c ∈ padded fraction, c.isDigit = true := by
  rw [isDigit_padded, ← List.forall_mem_append]
  exact ⟨fun h => ⟨h.toHasParts, h.isDigit⟩, fun h => ⟨h.1, h.2⟩⟩

theorem written_eq (whole fraction : List Char) : written whole fraction =
    unit.val * Amount.written whole + Amount.written (padded fraction) := by
  rw [written, written_padded, unit_val_eq, Nat.mul_comm]

/-- The whole part of a number in range is an amount. -/
theorem IsNumber.isDecimal_whole {whole fraction : List Char} (h : IsNumber whole fraction)
    (hlt : written whole fraction < Amount.bound) : Amount.IsDecimal whole where
  isDigit := (isNumber_iff.mp h).2.1
  lt_bound := by
    refine lt_of_le_of_lt ?_ hlt
    rw [written_eq]
    exact Nat.le_add_right_of_le (Nat.le_mul_of_pos_left _ (by decide))

/-- The decimals of a number are always an amount. -/
theorem IsNumber.isDecimal_padded {whole fraction : List Char} (h : IsNumber whole fraction) :
    Amount.IsDecimal (padded fraction) := by
  obtain ⟨hparts, -, hdigits⟩ := isNumber_iff.mp h
  have hlength : fraction.length ≤ decimals := by
    rw [← size_of_digits (isDigit_padded.mp hdigits)]
    exact hparts.size_le
  refine ⟨hdigits, (Amount.written_lt hdigits).trans ?_⟩
  rw [length_padded hlength, ← unit_val_eq]
  exact unit.val_lt

section

variable {text whole fraction : List Char} (h : Splits text whole fraction)

include h

theorem ofChars_eq_ok {a : Fixed} :
    ofChars text = .ok a ↔ IsNumber whole fraction ∧ a.wei.val = written whole fraction := by
  simp only [ofChars, h.splitAtPoint_eq, error_unless_eq_ok, bind_eq_ok, mapError_eq_ok,
    ofParts_eq_ok]
  rw [written_eq]
  constructor
  · rintro ⟨hne, hsize, u, hu, v, hv, ha⟩
    obtain ⟨hwhole, rfl⟩ := Amount.exists_isDecimal hu
    obtain ⟨hfraction, rfl⟩ := Amount.exists_isDecimal hv
    have hparts := hasParts_iff.mpr ⟨hne, hsize⟩
    exact ⟨isNumber_iff.mpr ⟨hparts, hwhole.isDigit, hfraction.isDigit⟩, ha⟩
  · rintro ⟨hnumber, ha⟩
    obtain ⟨hne, hsize⟩ := hasParts_iff.mp hnumber.toHasParts
    have hlt : written whole fraction < Amount.bound := by
      rw [written_eq, ← ha]
      exact a.wei.val_lt
    exact ⟨hne, hsize, _, (hnumber.isDecimal_whole hlt).ofDigits_eq, _,
      hnumber.isDecimal_padded.ofDigits_eq, ha⟩

theorem ofChars_eq_error {cause : FixedTextError} :
    ofChars text = .error cause ↔ Refused whole fraction cause := by
  simp only [ofChars, h.splitAtPoint_eq, error_unless_eq_error, bind_eq_error, mapError_eq_ok,
    mapError_eq_error, Amount.ofDigits_eq_error, ofParts_eq_error]
  -- One case for each step that can refuse, with the steps before it done.
  constructor
  · rintro (⟨hempty, rfl⟩ | ⟨hne, ⟨hsize, rfl⟩ | ⟨hsize, ⟨c, hfault, rfl⟩ |
        ⟨u, hu, ⟨c, hfault, rfl⟩ | ⟨v, hv, hbound, rfl⟩⟩⟩⟩)
    · exact .emptyPart hempty
    · rw [byteLength_eq] at hsize ⊢
      exact .tooPrecise (not_or.mp hne).1 (not_or.mp hne).2 hsize
    · exact .inWhole (hasParts_iff.mpr ⟨hne, hsize⟩) hfault
    · obtain ⟨hwhole, -⟩ := Amount.exists_isDecimal hu
      exact .inFraction (hasParts_iff.mpr ⟨hne, hsize⟩) hwhole hfault
    · obtain ⟨hwhole, rfl⟩ := Amount.exists_isDecimal hu
      obtain ⟨hfraction, rfl⟩ := Amount.exists_isDecimal hv
      have hparts := hasParts_iff.mpr ⟨hne, hsize⟩
      have hnumber := isNumber_iff.mpr ⟨hparts, hwhole.isDigit, hfraction.isDigit⟩
      refine .tooLarge hnumber hwhole ?_
      rw [written_eq]
      exact hbound
  · rintro (hempty | ⟨hwhole, hfraction, hsize⟩ | ⟨hparts, hfault⟩ | ⟨hparts, hwhole, hfault⟩ |
        ⟨hnumber, hwhole, hbound⟩)
    · exact .inl ⟨hempty, rfl⟩
    · rw [← byteLength_eq] at hsize ⊢
      exact .inr ⟨not_or.mpr ⟨hwhole, hfraction⟩, .inl ⟨hsize, rfl⟩⟩
    · obtain ⟨hne, hsize⟩ := hasParts_iff.mp hparts
      exact .inr ⟨hne, .inr ⟨hsize, .inl ⟨_, hfault, rfl⟩⟩⟩
    · obtain ⟨hne, hsize⟩ := hasParts_iff.mp hparts
      exact .inr ⟨hne, .inr ⟨hsize, .inr ⟨_, hwhole.ofDigits_eq, .inl ⟨_, hfault, rfl⟩⟩⟩⟩
    · obtain ⟨hne, hsize⟩ := hasParts_iff.mp hnumber.toHasParts
      rw [written_eq] at hbound
      exact .inr ⟨hne, .inr ⟨hsize, .inr ⟨_, hwhole.ofDigits_eq,
        .inr ⟨_, hnumber.isDecimal_padded.ofDigits_eq, hbound, rfl⟩⟩⟩⟩

end

/-- A text is read if its two parts are a number that is in range, and the answer is the number they
write. What is refused is refused for the first of the reasons. -/
theorem ofText_exact (text : String) :
    (∃ whole fraction, Splits text.toList whole fraction) ∧
      ∀ whole fraction, Splits text.toList whole fraction →
        ((∃ a, ofText text = .ok a) ↔
            IsNumber whole fraction ∧ written whole fraction < Amount.bound) ∧
          (∀ a, ofText text = .ok a → a.wei.val = written whole fraction) ∧
          ∀ cause, ofText text = .error cause ↔ Refused whole fraction cause := by
  refine ⟨exists_splits _, fun whole fraction h => ⟨?_, ?_, fun cause => ofChars_eq_error h⟩⟩
  · constructor
    · rintro ⟨a, ha⟩
      obtain ⟨hnumber, hval⟩ := (ofChars_eq_ok h).mp ha
      exact ⟨hnumber, hval ▸ a.wei.val_lt⟩
    · rintro ⟨hnumber, hlt⟩
      exact ⟨⟨⟨written whole fraction, hlt⟩⟩, (ofChars_eq_ok h).mpr ⟨hnumber, rfl⟩⟩
  · exact fun a ha => ((ofChars_eq_ok h).mp ha).2

theorem ofText_exact_points :
    (∃ a, ofText "007.25" = .ok a ∧ a.wei.val = 7250000000000000000) ∧
      ofText "1.2.3" = .error (.part .notADigit) := by
  constructor
  · have hpoint : '.' ∉ ['0', '0', '7'] := by decide
    obtain ⟨hok, hval, -⟩ := (ofText_exact "007.25").2 _ ['2', '5'] (.atPoint hpoint)
    have hwritten : written ['0', '0', '7'] ['2', '5'] = 7250000000000000000 := by decide +kernel
    have hlt : written ['0', '0', '7'] ['2', '5'] < Amount.bound := by
      rw [hwritten]
      decide
    obtain ⟨a, ha⟩ := hok.mpr ⟨⟨⟨by decide, by decide, by decide⟩, by simp⟩, hlt⟩
    exact ⟨a, ha, (hval a ha).trans hwritten⟩
  · have hpoint : '.' ∉ ['1'] := by decide
    obtain ⟨-, -, herror⟩ := (ofText_exact "1.2.3").2 _ ['2', '.', '3'] (.atPoint hpoint)
    obtain ⟨hwhole, -⟩ := Amount.exists_isDecimal (show Amount.ofDigits ['1'] = .ok 1 by decide)
    obtain ⟨hbefore, -⟩ := Amount.exists_isDecimal (show Amount.ofDigits ['2'] = .ok 2 by decide)
    have hfault : Amount.FirstFault (['2'] ++ '.' :: '3' :: List.replicate 15 '0') .notADigit :=
      .notADigit hbefore rfl
    exact (herror _).mpr (.inFraction ⟨by decide, by decide, by decide⟩ hwhole hfault)

end StableSwap.Fixed
