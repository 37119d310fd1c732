import Mathlib
import StableSwap.Fixed
import StableSwap.Proofs.Success

/-!
# Rounded arithmetic

Rounding up is the least integer that is not below the quotient (`ceilDiv_le_iff`), and each
operation on fixed point numbers is one rounded quotient of natural numbers (`Fixed.mulDown_eq_ok`
and its siblings). A list of numbers is read by index, and `Fixed.weis` are its units.
-/

namespace StableSwap

/-! ### Lists read by index -/

section Lists

variable {α : Type} (l : List α) {i j : ℕ} (a d : α)

/-- A new entry is read at its index. -/
theorem getD_set_self (h : i < l.length) : (l.set i a).getD i d = a := by
  rw [List.getD_eq_getElem?_getD, List.getElem?_set_self h, Option.getD_some]

/-- The other entries are read as before. -/
theorem getD_set_of_ne (h : i ≠ j) : (l.set i a).getD j d = l.getD j d := by
  rw [List.getD_eq_getElem?_getD, List.getElem?_set_ne h, List.getD_eq_getElem?_getD]

/-- Writing back what was read changes nothing. -/
theorem set_getD_self (h : i < l.length) : l.set i (l.getD i d) = l := by
  rw [List.getD_eq_getElem _ _ h, List.set_getElem_self]

/-- A pair of two lists holds the entries of both. -/
theorem getD_zip {β : Type} (l' : List β) (b : β) (hi : i < l.length) (hi' : i < l'.length) :
    (l.zip l').getD i (a, b) = (l.getD i a, l'.getD i b) := by
  have hzip : i < (l.zip l').length := by
    rw [List.length_zip]
    exact lt_min hi hi'
  rw [List.getD_eq_getElem _ _ hzip, List.getElem_zip, List.getD_eq_getElem _ _ hi,
    List.getD_eq_getElem _ _ hi']

/-- What holds of two lists entry by entry holds at each index. -/
theorem forall₂_getD {β : Type} {R : α → β → Prop} {l : List α} {l' : List β}
    (h : List.Forall₂ R l l') (a : α) (b : β) (hi : i < l.length) :
    R (l.getD i a) (l'.getD i b) := by
  obtain ⟨hlen, hget⟩ := List.forall₂_iff_get.mp h
  rw [List.getD_eq_getElem _ _ hi, List.getD_eq_getElem _ _ (hlen ▸ hi)]
  exact hget i hi (hlen ▸ hi)

/-- Each entry of three lists of one length is that of some index. -/
theorem exists_of_mem_zip_zip {β γ : Type} {l' : List β} {l'' : List γ}
    (hlen : l.length = l'.length) (hlen' : l''.length = (l.zip l').length) (b : β) (c : γ)
    {entry : (α × β) × γ} (h : entry ∈ (l.zip l').zip l'') :
    ∃ i < l.length, entry = ((l.getD i a, l'.getD i b), l''.getD i c) := by
  have hpairs : (l.zip l').length = l.length := by rw [List.length_zip, ← hlen, Nat.min_self]
  obtain ⟨i, hi, rfl⟩ := List.mem_iff_getElem.mp h
  have hil : i < l.length := by
    rw [List.length_zip, hpairs] at hi
    exact (lt_min_iff.mp hi).1
  refine ⟨i, hil, ?_⟩
  rw [List.getElem_zip, List.getElem_zip, List.getD_eq_getElem _ _ hil,
    List.getD_eq_getElem _ _ (hlen ▸ hil), List.getD_eq_getElem _ _ (hlen' ▸ hpairs ▸ hil)]

/-- A step for each pair of two lists and what was found for the pair gave an answer for each
index. -/
theorem mapM_zip_zip_ok {β γ δ ε : Type} {f : (α × β) × γ → Except ε δ} {l' : List β} {l'' : List γ}
    {answers : List δ} (hlen : l.length = l'.length) (hlen' : l''.length = (l.zip l').length)
    (h : ((l.zip l').zip l'').mapM f = .ok answers) (b : β) (c : γ) (d : δ) :
    answers.length = l.length ∧
      ∀ i < l.length, f ((l.getD i a, l'.getD i b), l''.getD i c) = .ok (answers.getD i d) := by
  have hpairs : (l.zip l').length = l.length := by rw [List.length_zip, ← hlen, Nat.min_self]
  obtain ⟨hanswers, hget⟩ := mapM_zip_ok hlen'.symm h (a, b) c d
  rw [hpairs] at hanswers hget
  refine ⟨hanswers, fun i hi => ?_⟩
  rw [← getD_zip _ _ _ _ hi (hlen ▸ hi)]
  exact hget i hi

end Lists

/-! ### Rounding up -/

/-- Rounded up, a quotient is the least number whose product with the divisor reaches the dividend. -/
theorem ceilDiv_le_iff {a b k : ℕ} (hb : 0 < b) : ceilDiv a b ≤ k ↔ a ≤ k * b := by
  rw [ceilDiv, ← Nat.ceilDiv_eq_add_pred_div, ceilDiv_le_iff_le_mul hb, Nat.mul_comm]

/-- Times the divisor, a quotient that was rounded up reaches the dividend. -/
theorem le_ceilDiv_mul (a : ℕ) {b : ℕ} (hb : 0 < b) : a ≤ ceilDiv a b * b :=
  (ceilDiv_le_iff hb).mp le_rfl

/-- It does not go beyond the dividend by the divisor. -/
theorem ceilDiv_mul_lt (a : ℕ) {b : ℕ} (hb : 0 < b) : ceilDiv a b * b < a + b := by
  have hle := Nat.div_mul_le_self (a + b - 1) b
  rw [ceilDiv]
  omega

theorem ceilDiv_le_ceilDiv {a a' b : ℕ} (hb : 0 < b) (h : a ≤ a') : ceilDiv a b ≤ ceilDiv a' b :=
  (ceilDiv_le_iff hb).mpr (h.trans (le_ceilDiv_mul _ hb))

/-- Rounding up a quotient by something smaller gives no less than the dividend's part. -/
theorem le_ceilDiv_of_le {a b u : ℕ} (hb : 0 < b) (hbu : b ≤ u) : a ≤ ceilDiv (a * u) b := by
  refine Nat.le_of_mul_le_mul_right ?_ hb
  calc a * b ≤ a * u := Nat.mul_le_mul_left a hbu
    _ ≤ ceilDiv (a * u) b * b := le_ceilDiv_mul _ hb

/-- A quotient without remainder is not rounded. -/
theorem ceilDiv_mul_self (a : ℕ) {b : ℕ} (hb : 0 < b) : ceilDiv (a * b) b = a := by
  apply le_antisymm
  · exact (ceilDiv_le_iff hb).mpr le_rfl
  · exact le_ceilDiv_of_le hb le_rfl

/-! ### Fixed point operations as quotients -/

namespace Fixed

theorem unit_pos : 0 < unit.val := by decide

/-- A result is known by its units. -/
theorem map_mk_eq_ok {x : Except MathError Amount} {c : Fixed} :
    x.map mk = .ok c ↔ x = .ok c.wei := by
  rw [map_eq_ok]
  constructor
  · rintro ⟨a, h, rfl⟩
    exact h
  · exact fun h => ⟨c.wei, h, rfl⟩

variable {a b c : Fixed}

/-- The sum is exact, and there is one if it fits. -/
theorem add_eq_ok : a.add b = .ok c ↔ c.wei.val = a.wei.val + b.wei.val :=
  map_mk_eq_ok.trans Amount.add_eq_ok

/-- The difference is exact, and there is one if it is not negative. -/
theorem sub_eq_ok : a.sub b = .ok c ↔ a.wei.val = b.wei.val + c.wei.val :=
  map_mk_eq_ok.trans Amount.sub_eq_ok

/-- The product is a quotient of the product of the units by those of one, rounded down. -/
theorem mulDown_eq_ok : a.mulDown b = .ok c ↔ c.wei.val = a.wei.val * b.wei.val / unit.val := by
  rw [mulDown, map_mk_eq_ok, Amount.mulDivDown_eq_ok, and_iff_right unit_pos.ne']

/-- The same product rounded up. -/
theorem mulUp_eq_ok :
    a.mulUp b = .ok c ↔ c.wei.val = ceilDiv (a.wei.val * b.wei.val) unit.val := by
  rw [mulUp, map_mk_eq_ok, Amount.mulDivUp_eq_ok, and_iff_right unit_pos.ne']

/-- The quotient by a number other than zero, rounded down. -/
theorem divDown_eq_ok :
    a.divDown b = .ok c ↔ 0 < b.wei.val ∧ c.wei.val = a.wei.val * unit.val / b.wei.val := by
  rw [divDown, map_mk_eq_ok, Amount.mulDivDown_eq_ok, Nat.pos_iff_ne_zero]

/-- The same quotient rounded up. -/
theorem divUp_eq_ok :
    a.divUp b = .ok c ↔ 0 < b.wei.val ∧ c.wei.val = ceilDiv (a.wei.val * unit.val) b.wei.val := by
  rw [divUp, map_mk_eq_ok, Amount.mulDivUp_eq_ok, Nat.pos_iff_ne_zero]

theorem mulDown_zero_left (x : Fixed) : mulDown 0 x = .ok 0 :=
  mulDown_eq_ok.mpr (by simp)

theorem mulDown_zero_right (x : Fixed) : x.mulDown 0 = .ok 0 :=
  mulDown_eq_ok.mpr (by simp)

/-! ### Directions of rounding -/

/-- A fee charged on top of an amount does not make it smaller. -/
theorem le_divUp_complement (h : a.divUp b.complement = .ok c) : a.wei.val ≤ c.wei.val := by
  obtain ⟨hb, hc⟩ := divUp_eq_ok.mp h
  rw [hc]
  exact le_ceilDiv_of_le hb (by rw [val_complement]; exact Nat.sub_le _ _)

/-- A fee taken off an amount does not make it larger. -/
theorem mulDown_complement_le (h : a.mulDown b.complement = .ok c) : c.wei.val ≤ a.wei.val := by
  rw [mulDown_eq_ok.mp h, val_complement]
  refine Nat.div_le_of_le_mul ?_
  rw [Nat.mul_comm unit.val]
  exact Nat.mul_le_mul_left _ (Nat.sub_le _ _)

/-! ### Lists of numbers -/

/-- The units of numbers. -/
def weis (xs : List Fixed) : List ℕ := xs.map fun x => x.wei.val

@[simp] theorem weis_nil : weis [] = [] := rfl

@[simp] theorem weis_cons (x : Fixed) (xs : List Fixed) : weis (x :: xs) = x.wei.val :: weis xs :=
  rfl

@[simp] theorem length_weis (xs : List Fixed) : (weis xs).length = xs.length := List.length_map _

theorem getD_weis (xs : List Fixed) (i : ℕ) : (weis xs).getD i 0 = (xs.getD i 0).wei.val :=
  List.getD_map xs 0 fun x => x.wei.val

/-- Changing a number changes its units. -/
theorem weis_set (xs : List Fixed) (i : ℕ) (x : Fixed) :
    weis (xs.set i x) = (weis xs).set i x.wei.val := List.map_set

theorem weis_eraseIdx (xs : List Fixed) (i : ℕ) : weis (xs.eraseIdx i) = (weis xs).eraseIdx i :=
  (List.eraseIdx_map _ xs i).symm

end Fixed

end StableSwap
