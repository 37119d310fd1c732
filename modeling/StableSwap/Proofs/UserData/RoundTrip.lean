import Mathlib
import StableSwap.Proofs.UserData.Decoding

/-!
# Encoding and decoding requests

Decoding undoes encoding, whatever bytes follow. A word stays where it is when bytes follow it
(`HasWord.append`), and it is at the length of the bytes before it (`hasWord_append`), so the words of
an encoded request are where its format has them.
-/

namespace StableSwap.UserData

/-- Reads a request of either direction. -/
def decode : Flow → List UInt8 → List Amount → Except PoolError LiquidityRequest
  | .inward => decodeJoin
  | .outward => decodeExit

/-! ### Words of encoded requests -/

variable {data : List UInt8} {offset : ℕ} {amount : Amount}

theorem hasWord_append (before : List UInt8) (hlen : before.length = offset) (amount : Amount) :
    HasWord (before ++ word amount.val) offset amount := by
  rw [HasWord, ← hlen, List.drop_left, List.take_of_length_le (length_word _).le]

theorem HasWord.append (h : HasWord data offset amount) (rest : List UInt8) :
    HasWord (data ++ rest) offset amount := by
  have hle := h.le_length
  rw [HasWord, List.drop_append_of_le_length (by omega), List.take_append_of_le_length, h]
  rw [List.length_drop]
  omega

theorem HasNumber.append {bits n : ℕ} (h : HasNumber data offset bits n) (rest : List UInt8) :
    HasNumber (data ++ rest) offset bits n := by
  obtain ⟨amount, hword, hn⟩ := h
  exact ⟨amount, hword.append rest, hn⟩

theorem hasNumber_append (before : List UInt8) (hlen : before.length = offset) {bits n : ℕ}
    (hbits : bits ≤ 256) (hn : n < Nat.pow 2 bits) :
    HasNumber (before ++ word n) offset bits n := by
  have hlt : n < Amount.bound := hn.trans_le (Nat.pow_le_pow_right (by decide) hbits)
  exact ⟨⟨n, hlt⟩, hasWord_append before hlen ⟨n, hlt⟩, rfl, hn⟩

theorem words_cons (amount : Amount) (amounts : List Amount) :
    words (amount :: amounts) = word amount.val ++ words amounts := List.flatMap_cons

theorem length_words (amounts : List Amount) :
    (words amounts).length = wordSize * amounts.length := by
  induction amounts with
  | nil => rfl
  | cons a amounts ih =>
      rw [words_cons, List.length_append, length_word, ih, List.length_cons]
      ring

/-- Each word of a list is behind those before it. -/
theorem hasWord_words {i : ℕ} {amounts : List Amount} (before rest : List UInt8)
    (h : amounts[i]? = some amount) :
    HasWord (before ++ words amounts ++ rest) (before.length + wordSize * i) amount := by
  induction amounts generalizing before i with
  | nil => exact nomatch h
  | cons a amounts ih =>
      rw [words_cons, ← List.append_assoc before]
      cases i with
      | zero =>
          obtain rfl : a = amount := Option.some.inj h
          exact ((hasWord_append before rfl a).append _).append _
      | succ i =>
          have hi := ih (before ++ word a.val) h
          rw [List.length_append, length_word] at hi
          rwa [Nat.mul_succ, Nat.add_comm (wordSize * i), ← Nat.add_assoc]

/-- A list of amounts is written where its offset says. -/
theorem hasWords_append {amounts : List Amount} (before : List UInt8) (start : ℕ)
    (hlen : before.length = start) (h : HasNumber before offset 32 start)
    (hlt : amounts.length < Nat.pow 2 32) (rest : List UInt8) :
    HasWords (before ++ lengthAndWords amounts ++ rest) offset amounts := by
  rw [lengthAndWords, ← List.append_assoc before]
  refine ⟨start, ((h.append _).append _).append _,
    ((hasNumber_append before hlen (by decide) hlt).append _).append _, ?_, fun i a ha => ?_⟩
  · simp only [List.length_append, length_word, length_words, hlen]
    omega
  · have hi := hasWord_words (before ++ word amounts.length) rest ha
    rwa [List.length_append, length_word, hlen] at hi

/-! ### Requests -/

theorem hasWord_kind (kind : Amount) (rest : List UInt8) : HasWord (word kind.val ++ rest) 0 kind :=
  (hasWord_append [] rfl kind).append rest

theorem hasWord_second (kind : ℕ) (amount : Amount) (rest : List UInt8) :
    HasWord (word kind ++ word amount.val ++ rest) 32 amount :=
  (hasWord_append (word kind) (length_word kind) amount).append rest

theorem hasAmountsAndBound_append {amounts : List Amount} (kind : ℕ) (bound : Amount)
    (hlt : amounts.length < Nat.pow 2 32) (rest : List UInt8) :
    HasAmountsAndBound (word kind ++ word 96 ++ word bound.val ++ lengthAndWords amounts ++ rest)
      amounts bound where
  hamounts := by
    refine hasWords_append _ 96 ?_ ?_ hlt rest
    · simp [wordSize]
    · exact (hasNumber_append (word kind) (length_word kind) (by decide) (by decide)).append _
  hbound := by
    refine ((hasWord_append _ ?_ bound).append _).append _
    simp [wordSize]

theorem hasSharesAndIndex_append {index : ℕ} (kind : ℕ) (shares : Amount)
    (hlt : index < Nat.pow 2 64) (rest : List UInt8) :
    HasSharesAndIndex (word kind ++ word shares.val ++ word index ++ rest) shares index where
  hshares := (hasWord_second kind shares _).append _
  hindex := by
    refine (hasNumber_append _ ?_ (by decide) hlt).append _
    simp [wordSize]

variable {limits : List Amount} {request : LiquidityRequest}

/-- **Decoding undoes encoding.** A request that fits its encoding is read back, with the limits of a
list that has them, whatever bytes follow. -/
theorem decode_encode (h : Encodable limits request) (trailing : List UInt8) :
    decode request.flow (encode request ++ trailing) limits = .ok request := by
  cases request with
  | init amounts =>
      refine (reads_decodeJoin.ok_iff _).mpr (.init ?_ ?_)
      · exact ((hasWord_kind 0 _).append _).append _
      · refine hasWords_append _ 64 (by simp [wordSize]) ?_ h _
        exact hasNumber_append _ (length_word _) (by decide) (by decide)
  | exactTokensInForShares amounts bound =>
      refine (reads_decodeJoin.ok_iff _).mpr (.exactTokensInForShares ?_ ?_)
      · exact (((hasWord_kind 1 _).append _).append _).append _
      · exact hasAmountsAndBound_append 1 bound h trailing
  | tokenInForExactShares index shares limit =>
      refine (reads_decodeJoin.ok_iff _).mpr (.tokenInForExactShares ?_ ?_ h.2)
      · exact ((hasWord_kind 2 _).append _).append _
      · exact hasSharesAndIndex_append 2 shares h.1 trailing
  | allTokensInForExactShares shares perToken =>
      obtain rfl : perToken = limits := h
      refine (reads_decodeJoin.ok_iff _).mpr (.allTokensInForExactShares ?_ ?_)
      · exact (hasWord_kind 3 _).append _
      · exact hasWord_second 3 shares trailing
  | exactSharesInForOneToken shares index limit =>
      refine (reads_decodeExit.ok_iff _).mpr (.exactSharesInForOneToken ?_ ?_ h.2)
      · exact ((hasWord_kind 0 _).append _).append _
      · exact hasSharesAndIndex_append 0 shares h.1 trailing
  | sharesInForExactTokens amounts bound =>
      refine (reads_decodeExit.ok_iff _).mpr (.sharesInForExactTokens ?_ ?_)
      · exact (((hasWord_kind 1 _).append _).append _).append _
      · exact hasAmountsAndBound_append 1 bound h trailing
  | exactSharesInForAllTokens shares perToken =>
      obtain rfl : perToken = limits := h
      refine (reads_decodeExit.ok_iff _).mpr (.exactSharesInForAllTokens ?_ ?_)
      · exact (hasWord_kind 2 _).append _
      · exact hasWord_second 2 shares trailing

/-- A join that pays two amounts, with a byte behind it. -/
theorem decode_encode_twoAmounts :
    Encodable [] (.exactTokensInForShares [5, 6] 42) ∧
      decode .inward (encode (.exactTokensInForShares [5, 6] 42) ++ [255]) [] =
        .ok (.exactTokensInForShares [5, 6] 42) := by
  have hfits : Encodable [] (.exactTokensInForShares [5, 6] 42) := by
    unfold Encodable
    decide
  exact ⟨hfits, decode_encode hfits [255]⟩

end StableSwap.UserData
