import Mathlib
import StableSwap.UserData.Format
import StableSwap.Proofs.Success

/-!
# Words of encoded requests

Writing a number in big-endian bytes and reading it back are inverse to each other (`ofBytes_toBytes`,
`toBytes_ofBytes`). So reading the word at an offset finds the amount that is there, and there is one
exactly if 32 bytes are left (`wordAt?_eq_some_iff`, `exists_hasWord_iff`); and the same for lists of
amounts (`wordsAt?_eq_some_iff`, `exists_hasWords_iff`).
-/

namespace StableSwap.UserData

/-! ### Bytes -/

@[simp] theorem length_toBytes (width n : ℕ) : (toBytes width n).length = width := by
  induction width with
  | zero => rfl
  | succ width ih => rw [toBytes, List.length_cons, ih]

@[simp] theorem length_word (n : ℕ) : (word n).length = wordSize := length_toBytes _ n

/-- The first byte counts most. -/
theorem ofBytes_cons (b : UInt8) (bytes : List UInt8) :
    ofBytes (b :: bytes) = 256 ^ bytes.length * b.toNat + ofBytes bytes := by
  have hfold : ∀ (bytes : List UInt8) (n : ℕ), bytes.foldl (fun n b => 256 * n + b.toNat) n =
      256 ^ bytes.length * n + ofBytes bytes := by
    intro bytes
    induction bytes with
    | nil => simp [ofBytes]
    | cons c bytes ih =>
        intro n
        rw [ofBytes, List.foldl_cons, List.foldl_cons, ih, ih, List.length_cons]
        ring
  rw [ofBytes, List.foldl_cons, hfold, Nat.mul_zero, Nat.zero_add]

/-- A number of bytes is below the power of 256 for their number. -/
theorem ofBytes_lt (bytes : List UInt8) : ofBytes bytes < 256 ^ bytes.length := by
  induction bytes with
  | nil => exact Nat.one_pos
  | cons b bytes ih =>
      have hb := b.toNat_lt
      rw [ofBytes_cons, List.length_cons, Nat.pow_succ]
      calc 256 ^ bytes.length * b.toNat + ofBytes bytes
          < 256 ^ bytes.length * b.toNat + 256 ^ bytes.length := Nat.add_lt_add_left ih _
        _ = 256 ^ bytes.length * (b.toNat + 1) := by ring
        _ ≤ 256 ^ bytes.length * 256 := Nat.mul_le_mul_left _ hb

/-- Of a number that has no room in the bytes, the last digits to the base 256 are written. -/
theorem ofBytes_toBytes (width n : ℕ) : ofBytes (toBytes width n) = n % 256 ^ width := by
  induction width with
  | zero => rw [pow_zero, Nat.mod_one]; rfl
  | succ width ih =>
      rw [toBytes, ofBytes_cons, length_toBytes, ih, Nat.mod_pow_succ, UInt8.toNat_ofNat',
        Nat.mod_eq_of_lt (Nat.mod_lt _ (by decide)), Nat.add_comm, Nat.pow_eq]

/-- Bytes of one length that write the same number are the same. -/
theorem ofBytes_inj {bytes bytes' : List UInt8} (hlen : bytes.length = bytes'.length)
    (h : ofBytes bytes = ofBytes bytes') : bytes = bytes' := by
  induction bytes generalizing bytes' with
  | nil => exact (List.length_eq_zero_iff.mp hlen.symm).symm
  | cons b bytes ih =>
      cases bytes' with
      | nil => exact nomatch hlen
      | cons c bytes' =>
          have hlen' : bytes.length = bytes'.length := Nat.succ.inj hlen
          have hlt := ofBytes_lt bytes
          have hlt' := ofBytes_lt bytes'
          rw [ofBytes_cons, ofBytes_cons, ← hlen'] at h
          rw [← hlen'] at hlt'
          have hpos : 0 < 256 ^ bytes.length := Nat.pow_pos (by decide)
          have hhead := congrArg (· / 256 ^ bytes.length) h
          have htail := congrArg (· % 256 ^ bytes.length) h
          simp only [Nat.mul_add_div hpos, Nat.div_eq_of_lt, hlt, hlt', Nat.add_zero,
            Nat.mul_add_mod, Nat.mod_eq_of_lt] at hhead htail
          rw [UInt8.toNat_inj.mp hhead, ih hlen' htail]

/-- A number is written by the bytes it was read from. -/
theorem toBytes_ofBytes (bytes : List UInt8) : toBytes bytes.length (ofBytes bytes) = bytes := by
  refine ofBytes_inj (length_toBytes _ _) ?_
  rw [ofBytes_toBytes, Nat.mod_eq_of_lt (ofBytes_lt bytes)]

/-! ### Words -/

variable {data : List UInt8} {offset : ℕ} {amount amount' : Amount} {amounts : List Amount}

/-- The numbers of 32 bytes are the amounts. -/
theorem pow_wordSize : 256 ^ wordSize = Amount.bound := by
  rw [Amount.bound, wordSize, Nat.pow_eq]
  norm_num

theorem ofBytes_word (amount : Amount) : ofBytes (word amount.val) = amount.val := by
  rw [word, ofBytes_toBytes, pow_wordSize, Nat.mod_eq_of_lt amount.val_lt]

theorem HasWord.le_length (h : HasWord data offset amount) : offset + wordSize ≤ data.length := by
  have hlen := congrArg List.length h
  rw [List.length_take, List.length_drop, length_word] at hlen
  have : 0 < wordSize := by decide
  omega

/-- There is one amount at an offset. -/
theorem HasWord.unique (h : HasWord data offset amount) (h' : HasWord data offset amount') :
    amount = amount' := by
  apply Amount.ext
  rw [← ofBytes_word amount, ← ofBytes_word amount', ← h, ← h']

/-- Where 32 bytes are left there is a word, that of the number they write. -/
theorem exists_hasWord (hle : offset + wordSize ≤ data.length) :
    ∃ amount : Amount, amount.val = ofBytes ((data.drop offset).take wordSize) ∧
      HasWord data offset amount := by
  have hlen : ((data.drop offset).take wordSize).length = wordSize := by
    rw [List.length_take, List.length_drop]
    omega
  have hlt := ofBytes_lt ((data.drop offset).take wordSize)
  have hinv := toBytes_ofBytes ((data.drop offset).take wordSize)
  rw [hlen] at hlt hinv
  exact ⟨⟨_, hlt.trans_eq pow_wordSize⟩, rfl, hinv.symm⟩

/-- **There is a word wherever 32 bytes are left.** -/
theorem exists_hasWord_iff :
    (∃ amount, HasWord data offset amount) ↔ offset + wordSize ≤ data.length := by
  constructor
  · rintro ⟨amount, h⟩
    exact h.le_length
  · intro hle
    obtain ⟨amount, -, h⟩ := exists_hasWord hle
    exact ⟨amount, h⟩

/-- Reading a word finds the amount that is there. -/
theorem wordAt?_eq_some_iff : wordAt? data offset = some amount ↔ HasWord data offset amount := by
  constructor
  · intro h
    rw [wordAt?, Option.ite_none_right_eq_some, Amount.ofNat?_eq_some_iff] at h
    obtain ⟨hle, hval⟩ := h
    obtain ⟨found, hfound, hword⟩ := exists_hasWord hle
    rwa [Amount.ext (hval.trans hfound.symm)]
  · intro h
    rw [wordAt?, if_pos h.le_length, Amount.ofNat?_eq_some_iff, h, ofBytes_word]

/-- Reading a size finds the amount that is there if it fits 32 bits. -/
theorem sizeAt?_eq_some_iff {size : ℕ} :
    sizeAt? data offset = some size ↔ HasNumber data offset 32 size := by
  unfold sizeAt? HasNumber
  constructor
  · intro h
    split at h
    · rename_i amount hword
      rw [Option.ite_none_right_eq_some] at h
      obtain ⟨hlt, ⟨⟩⟩ := h
      exact ⟨amount, wordAt?_eq_some_iff.mp hword, rfl, hlt⟩
    · exact nomatch h
  · rintro ⟨amount, hword, rfl, hlt⟩
    rw [wordAt?_eq_some_iff.mpr hword]
    exact if_pos hlt

/-! ### Lists of words -/

theorem mapM_eq_some {α β : Type} {f : α → Option β} :
    ∀ {xs : List α} {ys : List β},
      xs.mapM f = some ys ↔ List.Forall₂ (fun x y => f x = some y) xs ys
  | [], ys => by
      rw [List.mapM_nil, List.forall₂_nil_left_iff, Option.pure_def, Option.some.injEq, eq_comm]
  | x :: xs, ys => by
      simp only [List.mapM_cons, List.forall₂_cons_left_iff, Option.bind_eq_bind,
        Option.bind_eq_some_iff, Option.pure_def, Option.some.injEq, mapM_eq_some]
      constructor
      · rintro ⟨y, hy, zs, hzs, rfl⟩
        exact ⟨y, zs, hy, hzs, rfl⟩
      · rintro ⟨y, zs, hy, hzs, rfl⟩
        exact ⟨y, hy, zs, hzs, rfl⟩

/-- A step for each index gave the entries of a list. -/
theorem mapM_range_eq_some {α : Type} {f : ℕ → Option α} {n : ℕ} {ys : List α} :
    (List.range n).mapM f = some ys ↔
      ys.length = n ∧ ∀ i y, ys[i]? = some y → f i = some y := by
  rw [mapM_eq_some, List.forall₂_iff_get]
  constructor
  · rintro ⟨hlen, hget⟩
    refine ⟨hlen.symm.trans List.length_range, fun i y hy => ?_⟩
    obtain ⟨hi, rfl⟩ := List.getElem?_eq_some_iff.mp hy
    have := hget i (hlen ▸ hi) hi
    rwa [List.get_eq_getElem, List.getElem_range] at this
  · rintro ⟨hlen, hget⟩
    refine ⟨List.length_range.trans hlen.symm, fun i _ hi => ?_⟩
    rw [List.get_eq_getElem, List.getElem_range]
    exact hget i _ (List.getElem?_eq_getElem hi)

/-- Reading a list of words finds the amounts that are there. -/
theorem wordsAt?_eq_some_iff :
    wordsAt? data offset = some amounts ↔ HasWords data offset amounts := by
  simp only [wordsAt?, Option.bind_eq_bind, Option.bind_eq_some_iff,
    Option.ite_none_right_eq_some, sizeAt?_eq_some_iff, mapM_range_eq_some, wordAt?_eq_some_iff]
  constructor
  · rintro ⟨start, hstart, _, hlength, hle, rfl, hwords⟩
    exact ⟨start, hstart, hlength, hle, hwords⟩
  · rintro ⟨start, hstart, hlength, hle, hwords⟩
    exact ⟨start, hstart, _, hlength, hle, rfl, hwords⟩

/-- **There is a list wherever the offset and the length are sizes and enough bytes are left.** -/
theorem exists_hasWords_iff : (∃ amounts, HasWords data offset amounts) ↔
    ∃ start length, HasNumber data offset 32 start ∧ HasNumber data start 32 length ∧
      start + wordSize + wordSize * length ≤ data.length := by
  constructor
  · rintro ⟨amounts, start, hstart, hlength, hle, -⟩
    exact ⟨start, amounts.length, hstart, hlength, hle⟩
  · rintro ⟨start, length, hstart, hlength, hle⟩
    have hword : ∀ i : Fin length, ∃ amount,
        HasWord data (start + wordSize + wordSize * i) amount := by
      intro i
      have := Nat.mul_le_mul_left wordSize i.isLt
      rw [exists_hasWord_iff]
      rw [Nat.mul_succ] at this
      omega
    choose amount hamount using hword
    refine ⟨List.ofFn amount, start, hstart, by rwa [List.length_ofFn], by rwa [List.length_ofFn],
      fun i a ha => ?_⟩
    rw [List.getElem?_ofFn, Option.dite_none_right_eq_some] at ha
    obtain ⟨hi, ⟨⟩⟩ := ha
    exact hamount ⟨i, hi⟩

end StableSwap.UserData
