import Mathlib
import StableSwap.Proofs.UserData.Words

/-!
# Decoding requests

The decoders read exactly their formats. Each part of a request is read exactly (`Reads`), and so is
one part after another (`Reads.bind`); the kind is read first and tells which parts follow.

* `reads_decodeJoin`, `reads_decodeExit`: a decoder answers the request that the bytes are, misses
  the limit of a token when only that is lacking, and finds fault with all other bytes.
-/

namespace StableSwap.UserData

/-! ### Reading one part after another -/

section

variable {α β : Type} {answer : Except PoolError α} {format : α → Prop} {lacking : ℕ → Prop}

/-- No limit is lacking. -/
def NoneLacking (_ : ℕ) : Prop := False

theorem Reads.pure (a : α) : Reads (pure a) (· = a) NoneLacking where
  ok_iff _ := pure_eq_ok.trans eq_comm
  lacking_iff _ := ⟨nofun, nofun⟩
  error _ := nofun

/-- Bytes that are nothing are refused as such. -/
theorem Reads.fault {fault : UserDataFault} (hformat : ∀ a, ¬ format a)
    (hlacking : ∀ index, ¬ lacking index) :
    Reads (.error (.invalidUserData fault)) format lacking where
  ok_iff a := ⟨nofun, fun ha => absurd ha (hformat a)⟩
  lacking_iff index := ⟨nofun, fun hi => absurd hi (hlacking index)⟩
  error := by
    rintro cause ⟨⟩
    exact .inr ⟨fault, rfl⟩

/-- A part that is read, and then the rest. -/
theorem Reads.bind {next : α → Except PoolError β} {format' : α → β → Prop}
    {lacking' : α → ℕ → Prop} (h : Reads answer format lacking)
    (hnext : ∀ a, format a → Reads (next a) (format' a) (lacking' a)) :
    Reads (answer >>= next) (fun b => ∃ a, format a ∧ format' a b)
      (fun index => lacking index ∨ ∃ a, format a ∧ lacking' a index) := by
  cases answer with
  | error cause =>
      have hnone : ∀ a, ¬ format a := fun a ha => nomatch (h.ok_iff a).mpr ha
      refine ⟨fun b => ⟨nofun, ?_⟩, fun index => ?_, ?_⟩
      · rintro ⟨a, ha, -⟩
        exact absurd ha (hnone a)
      · rw [← h.lacking_iff]
        constructor
        · rintro ⟨⟩
          exact .inl rfl
        · rintro (hcause | ⟨a, ha, -⟩)
          · rw [Except.error.inj hcause]
            rfl
          · exact absurd ha (hnone a)
      · rintro _ ⟨⟩
        exact h.error _ rfl
  | ok a =>
      have ha : format a := (h.ok_iff a).mp rfl
      have hunique : ∀ {a'}, format a' → a = a' := fun ha' =>
        Except.ok.inj ((h.ok_iff _).mpr ha')
      refine ⟨fun b => ((hnext a ha).ok_iff b).trans ⟨fun hb => ⟨a, ha, hb⟩, ?_⟩,
        fun index => ((hnext a ha).lacking_iff index).trans ⟨fun hi => .inr ⟨a, ha, hi⟩, ?_⟩,
        (hnext a ha).error⟩
      · rintro ⟨a', ha', hb⟩
        rwa [hunique ha']
      · rintro (hi | ⟨a', ha', hi⟩)
        · exact nomatch (h.lacking_iff index).mpr hi
        · rwa [hunique ha']

theorem Reads.congr {format' : α → Prop} {lacking' : ℕ → Prop} (h : Reads answer format lacking)
    (hformat : ∀ a, format' a ↔ format a) (hlacking : ∀ index, lacking' index ↔ lacking index) :
    Reads answer format' lacking' where
  ok_iff a := (h.ok_iff a).trans (hformat a).symm
  lacking_iff index := (h.lacking_iff index).trans (hlacking index).symm
  error := h.error

/-- A part that is read and renamed. -/
theorem Reads.map (h : Reads answer format lacking) (f : α → β) :
    Reads (answer >>= fun a => Pure.pure (f a)) (fun b => ∃ a, format a ∧ b = f a) lacking := by
  refine (h.bind fun a _ => Reads.pure (f a)).congr (fun _ => Iff.rfl) fun index => ?_
  simp only [NoneLacking, and_false, exists_false, or_false]

theorem reads_required {found : Option α} (h : ∀ a, found = some a ↔ format a) :
    Reads (required found) format NoneLacking := by
  cases found with
  | none => exact .fault (fun a ha => nomatch (h a).mpr ha) fun _ => id
  | some a =>
      refine (Reads.pure a).congr (fun b => ?_) fun _ => Iff.rfl
      rw [← h, Option.some.injEq, eq_comm]

end

/-! ### Parts -/

variable {data : List UInt8} {limits : List Amount}

theorem HasWord.iff_eq {offset : ℕ} {amount amount' : Amount} (h : HasWord data offset amount) :
    HasWord data offset amount' ↔ amount = amount' := by
  constructor
  · exact h.unique
  · rintro rfl
    exact h

theorem reads_word (offset : ℕ) :
    Reads (required (wordAt? data offset)) (HasWord data offset) NoneLacking :=
  reads_required fun _ => wordAt?_eq_some_iff

theorem reads_words :
    Reads (required (wordsAt? data 32)) (HasWords data 32) NoneLacking :=
  reads_required fun _ => wordsAt?_eq_some_iff

theorem reads_kindWord : Reads (kindWord data) (HasWord data 0) NoneLacking := by
  unfold kindWord
  split
  · rename_i hlt
    refine .fault (fun kind hkind => ?_) fun _ => id
    have := hkind.le_length
    omega
  · exact reads_word 0

theorem reads_tokenIndex (word : Amount) :
    Reads (tokenIndex word) (fun index => word.val = index ∧ index < Nat.pow 2 64)
      NoneLacking := by
  unfold tokenIndex
  split
  · rename_i hlt
    refine (Reads.pure word.val).congr (fun index => ?_) fun _ => Iff.rfl
    constructor
    · rintro ⟨rfl, -⟩
      rfl
    · rintro rfl
      exact ⟨rfl, hlt⟩
  · rename_i hge
    refine .fault ?_ fun _ => id
    rintro index ⟨rfl, hlt⟩
    exact hge hlt

theorem reads_limitAt (index : ℕ) :
    Reads (limitAt limits index) (fun limit => limits[index]? = some limit)
      (fun missing => missing = index ∧ limits.length ≤ index) := by
  unfold limitAt
  split
  · rename_i limit hlimit
    refine (Reads.pure limit).congr (fun other => ?_) fun missing => iff_of_false ?_ not_false
    · rw [hlimit, Option.some.injEq, eq_comm]
    · rintro ⟨-, hle⟩
      rw [List.getElem?_eq_none hle] at hlimit
      exact nomatch hlimit
  · rename_i hnone
    refine ⟨fun _ => ?_, fun missing => ?_, ?_⟩
    · rw [hnone]
      exact ⟨nofun, nofun⟩
    · have hle := List.getElem?_eq_none_iff.mp hnone
      constructor
      · rintro ⟨⟩
        exact ⟨rfl, hle⟩
      · rintro ⟨rfl, -⟩
        rfl
    · rintro _ ⟨⟩
      exact .inl ⟨index, rfl⟩

theorem reads_amountsAndBound :
    Reads (amountsAndBound data) (fun (amounts, bound) => HasAmountsAndBound data amounts bound)
      NoneLacking := by
  refine (reads_words.bind fun amounts _ => (reads_word 64).bind fun bound _ =>
    Reads.pure (amounts, bound)).congr ?_ ?_
  · rintro ⟨amounts, bound⟩
    constructor
    · intro h
      exact ⟨amounts, h.hamounts, bound, h.hbound, rfl⟩
    · rintro ⟨_, hamounts, _, hbound, ⟨⟩⟩
      exact ⟨hamounts, hbound⟩
  · simp [NoneLacking]

theorem reads_sharesAndToken :
    Reads (sharesAndToken data limits)
      (fun (shares, index, limit) =>
        HasSharesAndIndex data shares index ∧ limits[index]? = some limit)
      (fun index => (∃ shares, HasSharesAndIndex data shares index) ∧ limits.length ≤ index) := by
  refine ((reads_word 32).bind fun shares _ => (reads_word 64).bind fun word _ =>
    (reads_tokenIndex word).bind fun index _ => (reads_limitAt index).bind fun limit _ =>
      Reads.pure (shares, index, limit)).congr ?_ ?_
  · rintro ⟨shares, index, limit⟩
    constructor
    · rintro ⟨⟨hshares, word, hword, hindex⟩, hlimit⟩
      exact ⟨shares, hshares, word, hword, index, hindex, limit, hlimit, rfl⟩
    · rintro ⟨_, hshares, word, hword, _, hindex, _, hlimit, ⟨⟩⟩
      exact ⟨⟨hshares, word, hword, hindex⟩, hlimit⟩
  · intro index
    simp only [NoneLacking, false_or, and_false, exists_false, or_false]
    constructor
    · rintro ⟨⟨shares, hshares, word, hword, hindex⟩, hle⟩
      exact ⟨shares, hshares, word, hword, index, hindex, rfl, hle⟩
    · rintro ⟨shares, hshares, word, hword, _, hindex, rfl, hle⟩
      exact ⟨⟨shares, hshares, word, hword, hindex⟩, hle⟩

/-- The kind is read first, and each kind is followed by its own parts. -/
theorem reads_kind {α : Type} {next : Amount → Except PoolError α} {format : α → Prop}
    {lacking : ℕ → Prop} (hnext : ∀ kind, HasWord data 0 kind → Reads (next kind) format lacking)
    (hformat : ∀ a, format a → ∃ kind, HasWord data 0 kind)
    (hlacking : ∀ index, lacking index → ∃ kind, HasWord data 0 kind) :
    Reads (kindWord data >>= next) format lacking := by
  refine (reads_kindWord.bind hnext).congr (fun a => ?_) fun index => ?_
  · constructor
    · intro ha
      obtain ⟨kind, hkind⟩ := hformat a ha
      exact ⟨kind, hkind, ha⟩
    · rintro ⟨_, _, ha⟩
      exact ha
  · constructor
    · intro hindex
      obtain ⟨kind, hkind⟩ := hlacking index hindex
      exact .inr ⟨kind, hkind, hindex⟩
    · rintro (⟨⟨⟩⟩ | ⟨_, _, hindex⟩)
      exact hindex

/-! ### Kinds -/

section

variable {format : LiquidityRequest → Prop} {lacking : ℕ → Prop} {kind : Amount}

/-- A request of a known kind is made of the part behind the kind. -/
theorem Reads.ofKind {α : Type} {answer : Except PoolError α} {part : α → Prop}
    {missing : ℕ → Prop} (h : Reads answer part missing) (known : Amount)
    (hkind : HasWord data 0 kind) (hknown : kind.val = known.val) (request : α → LiquidityRequest)
    (hformat : (∀ k, HasWord data 0 k ↔ known = k) →
      (∀ r, format r ↔ ∃ a, part a ∧ r = request a) ∧ ∀ index, lacking index ↔ missing index) :
    Reads (answer >>= fun a => Pure.pure (request a)) format lacking := by
  obtain rfl : kind = known := Amount.ext hknown
  obtain ⟨hrequest, hlacking⟩ := hformat fun _ => hkind.iff_eq
  exact (h.map request).congr hrequest hlacking

/-- No request has a kind other than the known ones. -/
theorem reads_otherKind {kinds : List Amount} {fault : UserDataFault} (hkind : HasWord data 0 kind)
    (hother : ∀ known ∈ kinds, kind.val ≠ known.val)
    (hformat : ∀ r, format r → ∃ known ∈ kinds, HasWord data 0 known)
    (hlacking : ∀ index, lacking index → ∃ known ∈ kinds, HasWord data 0 known) :
    Reads (.error (.invalidUserData fault) : Except PoolError LiquidityRequest) format lacking := by
  have hnone : ∀ known ∈ kinds, ¬ HasWord data 0 known := fun known hmem hknown =>
    hother known hmem (congrArg Amount.val (hkind.unique hknown))
  refine .fault (fun r hr => ?_) fun index hindex => ?_
  · obtain ⟨known, hmem, hknown⟩ := hformat r hr
    exact hnone known hmem hknown
  · obtain ⟨known, hmem, hknown⟩ := hlacking index hindex
    exact hnone known hmem hknown

end

/-! ### Requests -/

attribute [mk_iff joinFormat_iff] JoinFormat
attribute [mk_iff exitFormat_iff] ExitFormat
attribute [mk_iff lacksLimit_iff] LacksLimit

theorem JoinFormat.exists_kind {request : LiquidityRequest} (h : JoinFormat data limits request) :
    ∃ kind ∈ ([0, 1, 2, 3] : List Amount), HasWord data 0 kind := by
  cases h with
  | init h => exact ⟨0, by simp, h⟩
  | exactTokensInForShares h => exact ⟨1, by simp, h⟩
  | tokenInForExactShares h => exact ⟨2, by simp, h⟩
  | allTokensInForExactShares h => exact ⟨3, by simp, h⟩

theorem ExitFormat.exists_kind {request : LiquidityRequest} (h : ExitFormat data limits request) :
    ∃ kind ∈ ([0, 1, 2] : List Amount), HasWord data 0 kind := by
  cases h with
  | exactSharesInForOneToken h => exact ⟨0, by simp, h⟩
  | sharesInForExactTokens h => exact ⟨1, by simp, h⟩
  | exactSharesInForAllTokens h => exact ⟨2, by simp, h⟩

/-- A join is read exactly. -/
theorem reads_decodeJoin :
    Reads (decodeJoin data limits) (JoinFormat data limits) (LacksLimit data limits 2) := by
  have hlacking : ∀ index, LacksLimit data limits 2 index →
      ∃ kind ∈ ([0, 1, 2, 3] : List Amount), HasWord data 0 kind :=
    fun _ h => ⟨2, by simp, h.hkind⟩
  -- in each branch the word of the kind is known, which leaves one case of the format
  refine reads_kind (fun kind hkind => ?_) (fun _ h => h.exists_kind.imp fun _ => And.right)
    fun _ h => ⟨_, h.hkind⟩
  split
  case h_1 h =>
    refine reads_words.ofKind 0 hkind h .init fun hiff => ?_
    simp +decide [joinFormat_iff, lacksLimit_iff, hiff, NoneLacking]
  case h_2 h =>
    refine reads_amountsAndBound.ofKind 1 hkind h
      (fun (amounts, bound) => .exactTokensInForShares amounts bound) fun hiff => ?_
    simp +decide [joinFormat_iff, lacksLimit_iff, hiff, NoneLacking]
  case h_3 h =>
    refine reads_sharesAndToken.ofKind 2 hkind h
      (fun (shares, index, limit) => .tokenInForExactShares index shares limit) fun hiff => ?_
    simp +decide [joinFormat_iff, lacksLimit_iff, hiff, and_assoc]
  case h_4 h =>
    refine (reads_word 32).ofKind 3 hkind h (.allTokensInForExactShares · limits) fun hiff => ?_
    simp +decide [joinFormat_iff, lacksLimit_iff, hiff, NoneLacking]
  case h_5 h₀ h₁ h₂ h₃ =>
    exact reads_otherKind hkind (by simpa using ⟨h₀, h₁, h₂, h₃⟩)
      (fun _ h => h.exists_kind) hlacking

/-- An exit is read exactly. -/
theorem reads_decodeExit :
    Reads (decodeExit data limits) (ExitFormat data limits) (LacksLimit data limits 0) := by
  have hlacking : ∀ index, LacksLimit data limits 0 index →
      ∃ kind ∈ ([0, 1, 2] : List Amount), HasWord data 0 kind :=
    fun _ h => ⟨0, by simp, h.hkind⟩
  refine reads_kind (fun kind hkind => ?_) (fun _ h => h.exists_kind.imp fun _ => And.right)
    fun _ h => ⟨_, h.hkind⟩
  split
  case h_1 h =>
    refine reads_sharesAndToken.ofKind 0 hkind h
      (fun (shares, index, limit) => .exactSharesInForOneToken shares index limit) fun hiff => ?_
    simp +decide [exitFormat_iff, lacksLimit_iff, hiff, and_assoc]
  case h_2 h =>
    refine reads_amountsAndBound.ofKind 1 hkind h
      (fun (amounts, bound) => .sharesInForExactTokens amounts bound) fun hiff => ?_
    simp +decide [exitFormat_iff, lacksLimit_iff, hiff, NoneLacking]
  case h_3 h =>
    refine (reads_word 32).ofKind 2 hkind h (.exactSharesInForAllTokens · limits) fun hiff => ?_
    simp +decide [exitFormat_iff, lacksLimit_iff, hiff, NoneLacking]
  case h_4 h₀ h₁ h₂ =>
    exact reads_otherKind hkind (by simpa using ⟨h₀, h₁, h₂⟩) (fun _ h => h.exists_kind) hlacking

/-- **The decoders accept exactly their formats.** They answer the request that the bytes are; they
refuse a token index exactly when everything but its limit is there; and all other bytes are refused
as such. A word is there wherever 32 bytes are, and a list wherever its offset and its length are
below 2³² and its words are. -/
theorem decode_exact (data : List UInt8) (limits : List Amount) :
    Reads (decodeJoin data limits) (JoinFormat data limits) (LacksLimit data limits 2) ∧
    Reads (decodeExit data limits) (ExitFormat data limits) (LacksLimit data limits 0) ∧
    ∀ offset, ((∃ amount, HasWord data offset amount) ↔ offset + wordSize ≤ data.length) ∧
      ((∃ amounts, HasWords data offset amounts) ↔
        ∃ start length, HasNumber data offset 32 start ∧ HasNumber data start 32 length ∧
          start + wordSize + wordSize * length ≤ data.length) :=
  ⟨reads_decodeJoin, reads_decodeExit, fun _ => ⟨exists_hasWord_iff, exists_hasWords_iff⟩⟩

end StableSwap.UserData
