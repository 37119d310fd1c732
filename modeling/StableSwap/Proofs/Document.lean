import Mathlib.Order.Nat
import StableSwap.Document.Json.Reader
import StableSwap.Document.Toml.Reader

/-!
# Budgets of readers

A reader of repeated parts counts down from a budget and refuses where it is used up. With the budget
of the text it never is: a larger one reads the same (`Reader.Covers.budget_bind`), so a document is
refused for what it says alone (`Json.document_agreeBelow`, `Toml.document_agreeBelow`).

Two runs of a reader with different budgets are compared. `AgreeBelow n` is agreement on the texts of
fewer than `n` characters, and a bound less by one will do behind a character that is taken
(`AgreeBelow.taken`, `AgreeBelow.ite`). `Covers` says that budgets of twice a bound agree below it.
Each repetition has one round, which takes a character or, for the items of a list and the members of
a table, reads a value that takes one.

* `Json.textTail_covers`, `Json.value_covers` and `Json.items_members_cover` are the repetitions of
  one format.
* `Toml.skipSpace_covers`, `Toml.lineTail_covers`, `Toml.blockTail_covers`, `Toml.dottedKey_covers`,
  `Toml.value_covers`, `Toml.items_members_cover` and `Toml.lines_cover` are those of the other.
-/

namespace StableSwap.Text.Reader

variable {α β σ : Type} {n : Nat}

/-! ### Runs -/

theorem run_bind (x : Reader α) (f : α → Reader β) (text : List Char) :
    (x >>= f).run text =
      match x.run text with
      | some (a, rest) => (f a).run rest
      | none => none := rfl

/-- Two readers in a row accept what the second accepts of what the first leaves. -/
theorem run_bind_eq_some {x : Reader α} {f : α → Reader β} {text rest : List Char} {b : β}
    (h : (x >>= f).run text = some (b, rest)) :
    ∃ a between, x.run text = some (a, between) ∧ (f a).run between = some (b, rest) := by
  rw [run_bind] at h
  split at h
  next a between ha => exact ⟨a, between, ha, h⟩
  next => cases h

/-- No reader leaves more than it finds. -/
theorem length_le {x : Reader α} {text rest : List Char} {a : α} (h : x.run text = some (a, rest)) :
    rest.length ≤ text.length :=
  (x.suffix h).length_le

/-! ### Taking characters -/

/-- Where the reader answers `a`, it has taken a character or more. -/
def Takes (x : Reader α) (a : α) : Prop :=
  ∀ ⦃text rest⦄, x.run text = some (a, rest) → rest.length < text.length

theorem refuse_takes (a : α) : (refuse : Reader α).Takes a := nofun

theorem pure_takes {a b : α} (h : a ≠ b) : (pure a : Reader α).Takes b := by
  rintro text rest ⟨⟩
  exact absurd rfl h

/-- One of two readers in a row takes a character. -/
theorem bind_takes {x : Reader α} {f : α → Reader β} {b : β} (h : ∀ a, x.Takes a ∨ (f a).Takes b) :
    (x >>= f).Takes b := by
  intro text rest hb
  obtain ⟨a, between, ha, hb⟩ := run_bind_eq_some hb
  rcases h a with hx | hf
  · exact (length_le hb).trans_lt (hx ha)
  · exact (hf hb).trans_le (length_le ha)

theorem next_takes (c : Char) : next.Takes c := by
  intro text rest h
  cases text with
  | nil => cases h
  | cons d tail => cases h; exact Nat.lt_succ_self _

/-- A character that is said to come next has been taken. -/
theorem accept_takes (c : Char) : (accept c).Takes true := by
  refine bind_takes fun ahead => .inr ?_
  split
  · exact bind_takes fun d => .inl (next_takes d)
  · exact pure_takes Bool.false_ne_true

theorem expect_takes (c : Char) (a : Unit) : (expect c).Takes a :=
  bind_takes fun
    | true => .inl (accept_takes c)
    | false => .inr (refuse_takes _)

theorem acceptAll_takes {cs : List Char} (h : cs ≠ []) : (acceptAll cs).Takes true := by
  intro text rest ht
  obtain ⟨ahead, _, ⟨⟩, ht⟩ := run_bind_eq_some ht
  split at ht
  next prefixed =>
    cases ht
    have := (List.isPrefixOf_iff_prefix.mp prefixed).length_le
    have := List.length_pos_iff.mpr h
    simp only [List.length_drop]
    omega
  next => cases ht

/-! ### Readers that agree -/

/-- The readers read every text of fewer than `n` characters alike. -/
def AgreeBelow (n : Nat) (x y : Reader α) : Prop :=
  ∀ ⦃text⦄, text.length < n → x.run text = y.run text

namespace AgreeBelow

variable {x y : Reader α} {f g : α → Reader β}

theorem zero (x y : Reader α) : AgreeBelow 0 x y := fun _ h => absurd h (Nat.not_lt_zero _)

theorem refl (x : Reader α) : AgreeBelow n x x := fun _ _ => rfl

/-- Readers that agree in a row. -/
theorem bind (hx : AgreeBelow n x y) (hf : ∀ a, AgreeBelow n (f a) (g a)) :
    AgreeBelow n (x >>= f) (y >>= g) := by
  intro text ht
  rw [run_bind, run_bind, ← hx ht]
  split
  next a rest ha => exact hf a ((length_le ha).trans_lt ht)
  next => rfl

/-- The same reader in front. -/
theorem after (hf : ∀ a, AgreeBelow n (f a) (g a)) : AgreeBelow n (x >>= f) (x >>= g) :=
  (refl x).bind hf

/-- Behind a reader that takes a character the texts are shorter. -/
theorem taken (hx : ∀ a, x.Takes a) (hf : ∀ a, AgreeBelow n (f a) (g a)) :
    AgreeBelow (n + 1) (x >>= f) (x >>= g) := by
  intro text ht
  rw [run_bind, run_bind]
  split
  next a rest ha => exact hf a ((hx a ha).trans_le (Nat.le_of_lt_succ ht))
  next => rfl

/-- Behind a character that is taken if it comes next the texts are shorter if it did. -/
theorem ite {x : Reader Bool} {t t' e e' : Reader β} (hx : x.Takes true) (ht : AgreeBelow n t t')
    (he : AgreeBelow (n + 1) e e') :
    AgreeBelow (n + 1) (x >>= fun b => if b then t else e) (x >>= fun b => if b then t' else e') := by
  intro text hn
  rw [run_bind, run_bind]
  split
  next a rest ha =>
    cases a with
    | false => exact he ((length_le ha).trans_lt hn)
    | true => exact ht ((hx ha).trans_le (Nat.le_of_lt_succ hn))
  next => rfl

/-- What stands in brackets, if anything does. -/
theorem bracketed {opening closing : Char} {skip : Reader Unit} {empty t t' : Reader β}
    (ht : AgreeBelow n t t') :
    AgreeBelow (n + 1)
      (do expect opening; skip; if ← accept closing then empty else t)
      (do expect opening; skip; if ← accept closing then empty else t') := by
  refine .taken (expect_takes _) fun _ => .after fun _ => .after fun closed => ?_
  cases closed with
  | true => exact .refl _
  | false => exact ht

end AgreeBelow

/-! ### Budgets that cover a text -/

/-- With any two budgets from `least` on, the texts of fewer than `n` characters are read alike. -/
def AgreeFrom (least n : Nat) (x : Nat → Reader α) : Prop :=
  ∀ ⦃fuel more⦄, least ≤ fuel → least ≤ more → AgreeBelow n (x fuel) (x more)

namespace AgreeFrom

variable {least : Nat} {x : Nat → Reader α}

theorem zero (least : Nat) (x : Nat → Reader α) : AgreeFrom least 0 x := fun _ _ _ _ => .zero _ _

/-- What agrees from a budget on agrees from a larger one on. -/
theorem mono {greater : Nat} (h : AgreeFrom least n x) (hl : least ≤ greater) :
    AgreeFrom greater n x :=
  fun _ _ hf hm => h (hl.trans hf) (hl.trans hm)

/-- One round, which leaves one less to the next. -/
theorem succ (h : ∀ ⦃fuel more⦄, least ≤ fuel → least ≤ more →
    AgreeBelow n (x (fuel + 1)) (x (more + 1))) : AgreeFrom (least + 1) n x := by
  intro fuel more hf hm
  obtain ⟨fuel, rfl⟩ := Nat.exists_eq_add_of_le' (Nat.le_of_add_left_le hf)
  obtain ⟨more, rfl⟩ := Nat.exists_eq_add_of_le' (Nat.le_of_add_left_le hm)
  exact h (Nat.le_of_succ_le_succ hf) (Nat.le_of_succ_le_succ hm)

end AgreeFrom

/-- A budget of twice a bound covers the texts below the bound. -/
def Covers (x : Nat → Reader α) : Prop := ∀ n, AgreeFrom (2 * n) n x

/-- Texts are read with their own budgets as with any one that covers them all. -/
theorem Covers.budget_bind {x : Nat → Reader α} (h : Covers x) {fuel : Nat} (hf : 2 * n ≤ fuel)
    (f : α → Reader β) : AgreeBelow n (budget >>= fun own => x own >>= f) (x fuel >>= f) := by
  intro text ht
  have hown : AgreeBelow (text.length + 1) (x (2 * text.length + 2)) (x fuel) :=
    h _ le_rfl ((Nat.mul_le_mul_left 2 ht).trans hf)
  exact hown.bind (fun a => .refl (f a)) (Nat.lt_succ_self _)

/-- A repetition that takes a character in each round. -/
theorem covers_of_round {x : Nat → σ → Reader α}
    (round : ∀ n fuel more, (∀ s, AgreeBelow n (x fuel s) (x more s)) →
      ∀ s, AgreeBelow (n + 1) (x (fuel + 1) s) (x (more + 1) s)) (s : σ) :
    Covers (x · s) := by
  suffices h : ∀ n s, AgreeFrom n n (x · s) from fun n => (h n s).mono (by omega)
  intro n
  induction n with
  | zero => exact fun s => .zero _ _
  | succ n ih => exact fun s => .succ fun fuel more hf hm => round n fuel more (ih · hf hm) s

end StableSwap.Text.Reader

namespace StableSwap.Document.Json

open Text Text.Reader

/-- Each round takes a character of the text. -/
theorem textTail_covers (reversed : List Char) : Covers (textTail · reversed) := by
  refine covers_of_round (fun n fuel more ih reversed => ?_) reversed
  refine .taken next_takes fun c => ?_
  split
  · exact .refl _
  · exact .after fun c => ih (c :: reversed)
  · split
    · exact .refl _
    · exact ih _

section Values

variable {least n : Nat}

/-- The bracket in front of the items is taken. -/
theorem value_round (hi : AgreeFrom least n items) (hm : AgreeFrom least n members) :
    AgreeFrom (least + 1) (n + 1) value := by
  refine .succ fun fuel more hf hg => .after fun ahead => ?_
  -- a text, a list, a table, or a word or number; only lists and tables go further down
  split
  · exact .refl _
  · exact .bracketed ((hi hf hg).bind fun _ => .refl _)
  · exact .bracketed ((hm hf hg).bind fun _ => .refl _)
  · exact .refl _

/-- The item stands at the front of the text still, the items behind it follow a comma. -/
theorem items_round (hv : AgreeFrom least (n + 1) value) (hi : AgreeFrom least n items) :
    AgreeFrom (least + 1) (n + 1) items :=
  .succ fun _ _ hf hg =>
    .after fun _ => (hv hf hg).bind fun _ => .after fun _ =>
      .ite (accept_takes _) ((hi hf hg).bind fun _ => .refl _) (.refl _)

/-- So do the members of a table. -/
theorem members_round (hv : AgreeFrom least (n + 1) value) (hm : AgreeFrom least n members) :
    AgreeFrom (least + 1) (n + 1) members :=
  .succ fun _ _ hf hg =>
    .after fun _ => .after fun _ => .after fun _ => .after fun _ => .after fun _ =>
      (hv hf hg).bind fun _ => .after fun _ =>
        .ite (accept_takes _) ((hm hf hg).bind fun _ => .refl _) (.refl _)

end Values

/-- Two rounds to each character: the value that a bracket opens, and its first item. -/
theorem items_members_cover : Covers items ∧ Covers members := by
  rw [Covers, Covers, ← forall_and]
  intro n
  induction n with
  | zero => exact ⟨.zero _ _, .zero _ _⟩
  | succ n ih =>
    have hv : AgreeFrom (2 * n + 1) (n + 1) value := value_round ih.1 ih.2
    have hi : AgreeFrom (2 * n + 1) n items := ih.1.mono (Nat.le_succ _)
    have hm : AgreeFrom (2 * n + 1) n members := ih.2.mono (Nat.le_succ _)
    exact ⟨items_round hv hi, members_round hv hm⟩

theorem value_covers : Covers value
  | 0 => .zero _ _
  | n + 1 => (value_round (items_members_cover.1 n) (items_members_cover.2 n)).mono (by omega)

/-- **A document has the budget it needs**: with any other that is enough it reads the same. -/
theorem document_agreeBelow {n fuel : Nat} (hf : 2 * n ≤ fuel) :
    AgreeBelow n document (do
      skipBlanks
      let v ← value fuel
      skipBlanks
      return v) :=
  .after fun _ => value_covers.budget_bind hf _

end StableSwap.Document.Json

namespace StableSwap.Document.Toml

open Text Text.Reader

/-! ### Parts of a line -/

theorem lineEnd_takes : lineEnd.Takes true := by
  refine bind_takes fun ended => ?_
  cases ended with
  | true => exact .inl (accept_takes _)
  | false => exact .inr (acceptAll_takes (List.cons_ne_nil _ _))

/-- Each round but the last takes a line end. -/
theorem skipSpace_covers : Covers skipSpace :=
  covers_of_round (x := fun fuel (_ : Unit) => skipSpace fuel)
    (fun _ _ _ ih _ => .after fun _ => .after fun _ => .ite lineEnd_takes (ih ()) (.refl _)) ()

/-- Each round takes a character of the text. -/
theorem lineTail_covers (quote : Char) (escapes : Bool) (reversed : List Char) :
    Covers (lineTail quote escapes · reversed) := by
  refine covers_of_round (fun n fuel more ih reversed => ?_) reversed
  refine .taken next_takes fun c => ?_
  split
  · exact .refl _
  · split
    · exact .after fun c => ih (c :: reversed)
    · split
      · exact ih _
      · exact .refl _

/-- Each round takes a line end or a character of the text. -/
theorem blockTail_covers (quote : Char) (escapes : Bool) (reversed : List Char) :
    Covers (blockTail quote escapes · reversed) := by
  refine covers_of_round (fun n fuel more ih reversed => ?_) reversed
  refine .after fun closing => ?_
  cases closing with
  | some own => exact .refl _
  | none =>
    refine .ite lineEnd_takes (ih _) (.taken next_takes fun c => ?_)
    split
    · refine .after fun skipped => ?_
      split
      · exact ih _
      · exact .after fun c => ih (c :: reversed)
    · split
      · exact ih _
      · exact .refl _

/-- Each round but the last takes a point. -/
theorem dottedKey_covers : Covers dottedKey :=
  covers_of_round (x := fun fuel (_ : Unit) => dottedKey fuel)
    (fun _ _ _ ih _ => .after fun _ => .after fun _ => .after fun _ =>
      .ite (accept_takes _) ((ih ()).bind fun _ => .refl _) (.refl _)) ()

/-! ### Values -/

section Values

variable {least n : Nat}

/-- The bracket in front of the items is taken. -/
theorem value_round (hi : AgreeFrom least n items)
    (hm : ∀ tree, AgreeFrom least n (members · tree)) : AgreeFrom (least + 1) (n + 1) value := by
  refine .succ fun fuel more hf hg => .after fun ahead => ?_
  -- a text in either quotes, a list, a table, or a word
  split
  · exact .refl _
  · exact .refl _
  · exact .taken (expect_takes _) fun _ => (hi hf hg).bind fun _ => .refl _
  · exact .bracketed ((hm [] hf hg).bind fun _ => .refl _)
  · exact .refl _

theorem items_round (hv : AgreeFrom least (n + 1) value) (hi : AgreeFrom least n items) :
    AgreeFrom (least + 1) (n + 1) items := by
  refine .succ fun fuel more hf hg => .after fun _ => .after fun _ => .after fun closed => ?_
  split
  · exact .refl _
  · refine (hv hf hg).bind fun item => .after fun _ => .after fun _ => ?_
    exact .ite (accept_takes _) ((hi hf hg).bind fun _ => .refl _) (.refl _)

theorem members_round (hv : AgreeFrom least (n + 1) value)
    (hm : ∀ tree, AgreeFrom least n (members · tree)) (tree : Tree) :
    AgreeFrom (least + 1) (n + 1) (members · tree) :=
  .succ fun _ _ hf hg =>
    .after fun _ => .after fun _ => .after fun _ => .after fun _ =>
      (hv hf hg).bind fun _ => .after fun _ => .after fun tree =>
        .ite (accept_takes _) (hm tree hf hg) (.refl _)

end Values

theorem items_members_cover : Covers items ∧ ∀ tree, Covers (members · tree) := by
  suffices h : ∀ n, AgreeFrom (2 * n) n items ∧ ∀ tree, AgreeFrom (2 * n) n (members · tree) from
    ⟨fun n => (h n).1, fun tree n => (h n).2 tree⟩
  intro n
  induction n with
  | zero => exact ⟨.zero _ _, fun _ => .zero _ _⟩
  | succ n ih =>
    have hv : AgreeFrom (2 * n + 1) (n + 1) value := value_round ih.1 ih.2
    have hi : AgreeFrom (2 * n + 1) n items := ih.1.mono (Nat.le_succ _)
    have hm tree : AgreeFrom (2 * n + 1) n (members · tree) := (ih.2 tree).mono (Nat.le_succ _)
    exact ⟨items_round hv hi, members_round hv hm⟩

theorem value_covers : Covers value
  | 0 => .zero _ _
  | n + 1 => (value_round (items_members_cover.1 n) (items_members_cover.2 · n)).mono (by omega)

/-! ### Lines -/

/-- A key with a value has its equals sign, a header its bracket. -/
theorem statement_takes (progress after : Progress) : (statement progress).Takes after := by
  have keyed : (keyValue progress).Takes after :=
    bind_takes fun _ => .inr <| bind_takes fun _ => .inr <|
      bind_takes fun _ => .inl (expect_takes _ _)
  refine bind_takes fun isItem => ?_
  cases isItem with
  | true => exact .inl (acceptAll_takes (List.cons_ne_nil _ _))
  | false =>
    refine .inr (bind_takes fun isTable => ?_)
    cases isTable with
    | true => exact .inl (accept_takes _)
    | false => exact .inr keyed

/-- Each round but the last takes a statement. -/
theorem lines_cover (progress : Progress) : Covers (lines · progress) := by
  refine covers_of_round (fun n fuel more ih progress => ?_) progress
  refine .after fun _ => .after fun _ => .after fun ended => ?_
  split
  · exact .refl _
  · exact .taken (statement_takes progress) fun progress => .after fun _ => ih progress

/-- **A document has the budget it needs** for its lines: with any other that is enough it reads the
same. -/
theorem document_agreeBelow {n fuel : Nat} (hf : 2 * n ≤ fuel) :
    AgreeBelow n document (do
      let _ ← accept '\uFEFF'
      let progress ← lines fuel ⟨[], []⟩
      return .table (membersToValues progress.tree)) :=
  .after fun _ => (lines_cover ⟨[], []⟩).budget_bind hf _

end StableSwap.Document.Toml
