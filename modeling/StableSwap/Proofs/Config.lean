import Mathlib
import StableSwap.Config

/-!
# Accepted configurations

Parameters are accepted if no check finds a fault, and what the checks leave is `Parameters.Admissible`
(`Parameters.fault?_eq_none_iff`). Comparing each address with the next one is enough for the whole
order (`Parameters.ascending_iff`), so an address belongs to one token at most, and the index of a
token is the position of its address (`Config.tokenIndex_eq_ok_iff`). The pool's own address is not
among them: sorted into their list, it leaves the others in their order
(`Config.filter_registeredTokens`).
-/

namespace StableSwap

/-! ### The checks -/

/-- Two checks, one after the other, find nothing. -/
theorem ite_some_eq_none {α : Type} {c : Prop} [Decidable c] {fault : α} {rest : Option α} :
    (if c then some fault else rest) = none ↔ ¬ c ∧ rest = none := by
  by_cases hc : c
  · simp [hc]
  · simp [hc]

/-- A token that breaks no rule. -/
structure Token.Admissible (token : Token) : Prop where
  decimals_le : token.decimals ≤ 18
  /-- Rates that are asked for are kept for some time. -/
  duration_ne_zero : token.rateProvider ≠ none → token.cacheDuration ≠ .zero
  /-- Only rates that are asked for can be exempt. -/
  provided : token.exemptFromYieldFee = true → token.rateProvider ≠ none

theorem Token.fault?_eq_none_iff {token : Token} : token.fault? = none ↔ token.Admissible := by
  rw [fault?, ite_some_eq_none, ite_some_eq_none, ite_some_eq_none, Nat.not_lt, not_and, not_and',
    Option.isSome_iff_ne_none, Option.isNone_iff_eq_none]
  exact ⟨fun h => ⟨h.1, h.2.1, h.2.2.1⟩,
    fun h => ⟨h.decimals_le, h.duration_ne_zero, h.provided, rfl⟩⟩

namespace Parameters

/-- Neighbours in order are enough: each address is below all that follow it. -/
theorem pairwise_iff_zip_tail : ∀ {addresses : List Address},
    (∀ pair ∈ addresses.zip addresses.tail, pair.1 < pair.2) ↔ addresses.Pairwise (· < ·)
  | [] => by simp
  | [a] => by simp
  | a :: b :: rest => by
      rw [List.tail_cons, List.zip_cons_cons, List.forall_mem_cons, List.pairwise_cons,
        ← pairwise_iff_zip_tail]
      refine and_congr_left fun hrest => ⟨fun hab c hc => ?_, fun h => h b List.mem_cons_self⟩
      rcases List.mem_cons.mp hc with rfl | hc
      · exact hab
      · have hbc := (List.pairwise_cons.mp (pairwise_iff_zip_tail.mp hrest)).1 c hc
        exact Nat.lt_trans hab hbc

theorem ascending_iff {p : Parameters} : p.Ascending ↔ p.addresses.Pairwise (· < ·) :=
  pairwise_iff_zip_tail

/-- Parameters that break no rule. -/
structure Admissible (p : Parameters) : Prop where
  tokens_pos : 1 ≤ p.tokens.length
  tokens_le : p.tokens.length ≤ 5
  /-- The addresses of the tokens ascend, and so are different. -/
  sorted : p.addresses.Pairwise (· < ·)
  /-- The pool is no token of its own. -/
  address_notMem : p.address ∉ p.addresses
  tokens_admissible : ∀ token ∈ p.tokens, token.Admissible
  /-- The fee is less than all. -/
  swapFee_lt : p.swapFee.wei.val < 10 ^ 18

theorem fault?_eq_none_iff {p : Parameters} : p.fault? = none ↔ p.Admissible := by
  have hfee : p.swapFee < 1 ↔ p.swapFee.wei.val < 10 ^ 18 := Iff.rfl
  have htokens : p.tokens.findSome? Token.fault? = none ↔ ∀ token ∈ p.tokens, token.Admissible := by
    simp only [List.findSome?_eq_none_iff, Token.fault?_eq_none_iff]
  rw [fault?, ite_some_eq_none, ite_some_eq_none, ite_some_eq_none, not_or, Nat.not_lt, not_not,
    ascending_iff]
  constructor
  · rintro ⟨⟨hpos, hle⟩, hsorted, hpool, hrest⟩
    split at hrest
    · exact nomatch hrest
    rename_i hfaults
    split at hrest
    · rename_i hlt
      exact ⟨Nat.pos_of_ne_zero hpos, hle, hsorted, hpool, htokens.mp hfaults, hfee.mp hlt⟩
    · exact nomatch hrest
  · intro h
    refine ⟨⟨Nat.pos_iff_ne_zero.mp h.tokens_pos, h.tokens_le⟩, h.sorted, h.address_notMem, ?_⟩
    rw [htokens.mpr h.tokens_admissible]
    exact if_pos (hfee.mpr h.swapFee_lt)

end Parameters

namespace Config

/-- A configuration has the parameters that were accepted for it. -/
theorem ofParameters_eq_ok_iff {p : Parameters} {c : Config} :
    ofParameters p = .ok c ↔ c.toParameters = p := by
  unfold ofParameters
  split
  · rename_i haccepted
    rw [Except.ok.injEq]
    constructor
    · rintro rfl
      rfl
    · rintro rfl
      rfl
  · rename_i fault hfault
    refine ⟨nofun, ?_⟩
    rintro rfl
    rw [c.accepted] at hfault
    exact nomatch hfault

theorem admissible (c : Config) : c.Admissible := Parameters.fault?_eq_none_iff.mp c.accepted

theorem exists_ofParameters_eq_ok_iff {p : Parameters} :
    (∃ c, ofParameters p = .ok c) ↔ p.Admissible := by
  simp only [ofParameters_eq_ok_iff]
  constructor
  · rintro ⟨c, rfl⟩
    exact c.admissible
  · exact fun h => ⟨⟨p, Parameters.fault?_eq_none_iff.mpr h⟩, rfl⟩

/-! ### The index of an address -/

/-- Two tokens of one address are the same. -/
theorem index_unique (config : Config) {i j : ℕ} {token other : Token}
    (htoken : config.tokens[i]? = some token) (hother : config.tokens[j]? = some other)
    (h : token.address = other.address) : i = j := by
  have hlt : ∀ {i j : ℕ} {token other : Token}, config.tokens[i]? = some token →
      config.tokens[j]? = some other → i < j → token.address < other.address := by
    intro i j token other htoken hother hij
    obtain ⟨hi, rfl⟩ := List.getElem?_eq_some_iff.mp htoken
    obtain ⟨hj, rfl⟩ := List.getElem?_eq_some_iff.mp hother
    exact List.pairwise_iff_getElem.mp (List.pairwise_map.mp config.admissible.sorted) i j hi hj hij
  rcases lt_trichotomy i j with hij | hij | hij
  · exact absurd (h ▸ hlt htoken hother hij) (Nat.lt_irrefl _)
  · exact hij
  · exact absurd (h ▸ hlt hother htoken hij) (Nat.lt_irrefl _)

theorem tokenIndex_ok {c : Config} {address : Address} {index : ℕ}
    (h : c.tokenIndex address = .ok index) :
    ∃ token, c.tokens[index]? = some token ∧ token.address = address := by
  unfold tokenIndex at h
  split at h
  · rename_i i hfound
    obtain rfl := Except.ok.inj h
    obtain ⟨hi, haddress, -⟩ := List.findIdx?_eq_some_iff_getElem.mp hfound
    exact ⟨_, List.getElem?_eq_getElem hi, by simpa using haddress⟩
  · exact nomatch h

/-- The index is missing exactly for the addresses that no token has, and these are named. -/
theorem tokenIndex_eq_error_iff {c : Config} {address : Address} {cause : PoolError} :
    c.tokenIndex address = .error cause ↔
      address ∉ c.addresses ∧ cause = .invalidTokenIndex (.address address) := by
  have hnone : c.tokens.findIdx? (·.address = address) = none ↔ address ∉ c.addresses := by
    simp [List.findIdx?_eq_none_iff, Parameters.addresses]
  rw [← hnone, eq_comm (a := cause), tokenIndex]
  cases c.tokens.findIdx? (·.address = address) with
  | none => simp
  | some index => simp

/-- **The index of a token is the position of its address.** -/
theorem tokenIndex_eq_ok_iff {c : Config} {address : Address} {index : ℕ} :
    c.tokenIndex address = .ok index ↔
      ∃ token, c.tokens[index]? = some token ∧ token.address = address := by
  refine ⟨tokenIndex_ok, ?_⟩
  rintro ⟨token, htoken, rfl⟩
  cases hfound : c.tokenIndex token.address with
  | ok i =>
      obtain ⟨other, hother, haddress⟩ := tokenIndex_ok hfound
      rw [c.index_unique hother htoken haddress]
  | error cause =>
      have hmem := List.mem_map_of_mem (f := Token.address) (List.mem_of_getElem? htoken)
      exact absurd hmem (tokenIndex_eq_error_iff.mp hfound).1

/-! ### The registered tokens -/

theorem registeredTokens_perm (c : Config) :
    c.registeredTokens.Perm (c.addresses ++ [c.address]) :=
  List.mergeSort_perm _ _

theorem nodup_addresses (c : Config) : c.addresses.Nodup := by
  refine List.Pairwise.imp (fun {a b} hlt => ?_) c.admissible.sorted
  rintro rfl
  exact Nat.lt_irrefl _ hlt

/-- The registered tokens ascend. -/
theorem registeredTokens_sorted (c : Config) : c.registeredTokens.Pairwise (· < ·) := by
  have hle : c.registeredTokens.Pairwise (· ≤ ·) := by
    refine (List.pairwise_mergeSort (fun a b d hab hbd => ?_) (fun a b => ?_) _).imp
      of_decide_eq_true
    · exact decide_eq_true (Nat.le_trans (of_decide_eq_true hab) (of_decide_eq_true hbd))
    · simpa [Address.le_def] using Nat.le_total a.val b.val
  have hnodup : c.registeredTokens.Nodup := by
    rw [c.registeredTokens_perm.nodup_iff]
    exact List.nodup_append.mpr ⟨c.nodup_addresses, List.nodup_singleton _, by
      rintro a ha b hb rfl
      exact c.admissible.address_notMem (List.mem_singleton.mp hb ▸ ha)⟩
  exact hle.imp₂ (fun a b hab hne => Nat.lt_of_le_of_ne hab fun h => hne (Address.ext h)) hnodup

/-- **Without the pool, the registered tokens are the tradable ones, in the order of their
indices.** -/
theorem filter_registeredTokens (c : Config) :
    c.registeredTokens.filter (· ≠ c.address) = c.addresses := by
  have hperm := c.registeredTokens_perm.filter (· ≠ c.address)
  have hkeep : c.addresses.filter (· ≠ c.address) = c.addresses :=
    List.filter_eq_self.mpr fun a ha => by
      rw [decide_eq_true_eq]
      rintro rfl
      exact c.admissible.address_notMem ha
  rw [List.filter_append, hkeep, List.filter_singleton] at hperm
  refine List.Perm.eq_of_pairwise ?_ (c.registeredTokens_sorted.filter _) c.admissible.sorted
    (by simpa using hperm)
  intro a b _ _ hab hba
  exact absurd (Nat.lt_trans hab hba) (Nat.lt_irrefl _)

theorem mem_registeredTokens (c : Config) : c.address ∈ c.registeredTokens := by
  rw [c.registeredTokens_perm.mem_iff]
  exact List.mem_append_right _ (List.mem_singleton_self _)

theorem length_registeredTokens (c : Config) : c.registeredTokens.length = c.tokenCount + 1 := by
  rw [c.registeredTokens_perm.length_eq, List.length_append, Parameters.addresses,
    List.length_map]
  rfl

/-- **Accepted configurations are the admissible ones, and index their tokens one to one.** The
index of a token is its position; neither the pool nor any other address has one. The registered
tokens ascend, one more than the tradable ones, and leave these in their order without the pool. -/
theorem tokens_indexed :
    (∀ p c, ofParameters p = .ok c → c.toParameters = p ∧
      (∀ i token, p.tokens[i]? = some token → c.tokenIndex token.address = .ok i) ∧
      c.tokenIndex p.address = .error (.invalidTokenIndex (.address p.address)) ∧
      (∀ address, (∀ token ∈ p.tokens, token.address ≠ address) →
        c.tokenIndex address = .error (.invalidTokenIndex (.address address))) ∧
      c.registeredTokens.Pairwise (· < ·) ∧
      c.registeredTokens.length = p.tokens.length + 1 ∧
      p.address ∈ c.registeredTokens ∧
      c.registeredTokens.filter (· ≠ p.address) = p.tokens.map Token.address) ∧
    ∀ p : Parameters, (∃ c, ofParameters p = .ok c) ↔ p.Admissible := by
  refine ⟨fun p c h => ?_, fun p => exists_ofParameters_eq_ok_iff⟩
  obtain rfl := ofParameters_eq_ok_iff.mp h
  refine ⟨rfl, fun i token htoken => tokenIndex_eq_ok_iff.mpr ⟨token, htoken, rfl⟩,
    tokenIndex_eq_error_iff.mpr ⟨c.admissible.address_notMem, rfl⟩, fun address hne => ?_,
    c.registeredTokens_sorted, c.length_registeredTokens, c.mem_registeredTokens,
    c.filter_registeredTokens⟩
  refine tokenIndex_eq_error_iff.mpr ⟨fun hmem => ?_, rfl⟩
  obtain ⟨token, htoken, haddress⟩ := List.mem_map.mp hmem
  exact hne token htoken haddress

/-- A pool with an address between those of its tokens. -/
theorem tokens_indexed_between :
    let p : Parameters := {
      address := 2
      tokens := [{ address := 1, decimals := 18 }, { address := 3, decimals := 18 }]
      amplification := ⟨⟨200, 1⟩, by decide⟩
      swapFee := ⟨1000000000000000⟩ }
    ∃ c, ofParameters p = .ok c ∧ c.tokenIndex 3 = .ok 1 ∧
      c.tokenIndex 2 = .error (.invalidTokenIndex (.address 2)) ∧
      c.tokenIndex 4 = .error (.invalidTokenIndex (.address 4)) ∧
      c.registeredTokens.length = 3 ∧ c.registeredTokens.filter (· ≠ 2) = [1, 3] := by
  intro p
  obtain ⟨c, h⟩ := (tokens_indexed.2 p).mpr ⟨by decide, by decide, by decide, by decide, by
    rw [List.forall_mem_cons, List.forall_mem_singleton]
    exact ⟨⟨by decide, by decide, by decide⟩, ⟨by decide, by decide, by decide⟩⟩, by decide⟩
  obtain ⟨-, hindex, hpool, hother, -, hlength, -, hwithout⟩ := tokens_indexed.1 p c h
  exact ⟨c, h, hindex 1 _ rfl, hpool, hother 4 (by decide), hlength, hwithout⟩

end Config

end StableSwap
