import Mathlib

/-!
# Computations that succeed

What a successful computation tells of its parts. Every operation of a pool is a chain of checked
steps; these lemmas take a chain apart into the answers of its steps.

* `bind_eq_ok`, `map_eq_ok`, `mapError_eq_ok`: one step after another.
* `unless_eq_ok`: a check that was passed.
* `mapM_eq_ok`, `mapM_zip_ok`: a step for each element of a list, or for each pair of two; and
  `mapM_eq_error`: the first that fails.
* `foldlM_eq_ok_rec`: one step after another along a list; and `foldlM_eq_error`: the step that
  fails, with all before it done.
-/

namespace StableSwap

variable {ε ε' α β γ : Type}

@[simp] theorem bind_eq_ok {step : Except ε α} {next : α → Except ε β} {answer : β} :
    step >>= next = .ok answer ↔ ∃ a, step = .ok a ∧ next a = .ok answer := by
  cases step with
  | error cause => exact ⟨nofun, nofun⟩
  | ok a =>
      constructor
      · exact fun h => ⟨a, rfl, h⟩
      · rintro ⟨_, ⟨⟩, h⟩
        exact h

@[simp] theorem pure_eq_ok {a b : α} : (pure a : Except ε α) = .ok b ↔ a = b := by
  simp [pure, Except.pure]

theorem bind_eq_error {step : Except ε α} {next : α → Except ε β} {cause : ε} :
    step >>= next = .error cause ↔
      step = .error cause ∨ ∃ a, step = .ok a ∧ next a = .error cause := by
  cases step with
  | error other =>
      constructor
      · rintro ⟨⟩
        exact .inl rfl
      · rintro (h | ⟨_, ⟨⟩, -⟩)
        rw [Except.error.inj h]
        rfl
  | ok a =>
      constructor
      · exact fun h => .inr ⟨a, rfl, h⟩
      · rintro (⟨⟨⟩⟩ | ⟨_, ⟨⟩, h⟩)
        exact h

@[simp] theorem pure_ne_error {a : α} {cause : ε} : ¬ (pure a : Except ε α) = .error cause :=
  nofun

@[simp] theorem map_eq_ok {x : Except ε α} {f : α → β} {b : β} :
    x.map f = .ok b ↔ ∃ a, x = .ok a ∧ f a = b := by
  cases x with
  | error e => simp [Except.map]
  | ok a => simp [Except.map]

@[simp] theorem mapError_eq_ok {step : Except ε α} {rename : ε → ε'} {a : α} :
    step.mapError rename = .ok a ↔ step = .ok a := by
  cases step with
  | error cause => exact ⟨nofun, nofun⟩
  | ok _ => rw [Except.mapError, Except.ok.injEq, Except.ok.injEq]

theorem mapError_eq_error {step : Except ε α} {rename : ε → ε'} {cause : ε'} :
    step.mapError rename = .error cause ↔ ∃ c, step = .error c ∧ rename c = cause := by
  cases step with
  | error c =>
      constructor
      · rintro ⟨⟩
        exact ⟨c, rfl, rfl⟩
      · rintro ⟨_, ⟨⟩, rfl⟩
        rfl
  | ok _ => exact ⟨nofun, fun ⟨_, h, _⟩ => nomatch h⟩

/-- A check that refuses when `c` holds was passed. -/
@[simp] theorem unless_eq_ok {c : Prop} [Decidable c] {e : ε} {f : α → Except ε β}
    {x : Except ε β} {b : β} :
    (if c then (throw e >>= f) else x) = .ok b ↔ ¬ c ∧ x = .ok b := by
  by_cases hc : c
  · simp [hc]
  · simp [hc]

/-- A check that refuses when `c` holds was passed. -/
@[simp] theorem error_unless_eq_ok {c : Prop} [Decidable c] {e : ε} {x : Except ε β} {b : β} :
    (if c then .error e else x) = .ok b ↔ ¬ c ∧ x = .ok b := by
  by_cases hc : c
  · simp [hc]
  · simp [hc]

/-- A check that refuses when `c` does not hold was passed. -/
@[simp] theorem error_if_eq_ok {c : Prop} [Decidable c] {e : ε} {x : Except ε β} {b : β} :
    (if c then x else .error e) = .ok b ↔ c ∧ x = .ok b := by
  by_cases hc : c
  · simp [hc]
  · simp [hc]

theorem error_unless_eq_error {c : Prop} [Decidable c] {e cause : ε} {x : Except ε β} :
    (if c then .error e else x) = .error cause ↔ c ∧ e = cause ∨ ¬ c ∧ x = .error cause := by
  by_cases hc : c
  · simp [hc]
  · simp [hc]

theorem error_if_eq_error {c : Prop} [Decidable c] {e cause : ε} {x : Except ε β} :
    (if c then x else .error e) = .error cause ↔ c ∧ x = .error cause ∨ ¬ c ∧ e = cause := by
  by_cases hc : c
  · simp [hc]
  · simp [hc]

/-- A step for each element of a list gave an answer for each. -/
theorem mapM_eq_ok {f : α → Except ε β} :
    ∀ {xs : List α} {ys : List β},
      xs.mapM f = .ok ys ↔ List.Forall₂ (fun x y => f x = .ok y) xs ys
  | [], ys => by
      rw [List.mapM_nil, pure_eq_ok, List.forall₂_nil_left_iff, eq_comm]
  | x :: xs, ys => by
      rw [List.mapM_cons, bind_eq_ok, List.forall₂_cons_left_iff]
      constructor
      · rintro ⟨y, hy, h⟩
        obtain ⟨zs, hzs, h⟩ := bind_eq_ok.mp h
        exact ⟨y, zs, hy, mapM_eq_ok.mp hzs, (pure_eq_ok.mp h).symm⟩
      · rintro ⟨y, zs, hy, hzs, rfl⟩
        exact ⟨y, hy, bind_eq_ok.mpr ⟨zs, mapM_eq_ok.mpr hzs, rfl⟩⟩

/-- Every answer is that of some element. -/
theorem exists_of_mem_mapM {f : α → Except ε β} {xs : List α} {ys : List β} {y : β}
    (h : xs.mapM f = .ok ys) (hy : y ∈ ys) : ∃ x ∈ xs, f x = .ok y := by
  obtain ⟨hlen, hget⟩ := List.forall₂_iff_get.mp (mapM_eq_ok.mp h)
  obtain ⟨i, hi, rfl⟩ := List.mem_iff_getElem.mp hy
  have hi' : i < xs.length := by rwa [hlen]
  exact ⟨xs[i], List.getElem_mem hi', hget i hi' hi⟩

/-- A step for each element of a list fails with the first that fails. -/
theorem mapM_eq_error {f : α → Except ε β} {cause : ε} :
    ∀ {xs : List α}, xs.mapM f = .error cause ↔
      ∃ (i : ℕ) (x : α), xs[i]? = some x ∧ f x = .error cause ∧
        ∀ j < i, ∀ y, xs[j]? = some y → ∃ b, f y = .ok b
  | [] => by
      rw [List.mapM_nil]
      exact ⟨nofun, fun ⟨_, _, h, _⟩ => nomatch h⟩
  | x :: xs => by
      simp only [List.mapM_cons, bind_eq_error, mapM_eq_error, pure_ne_error, and_false,
        exists_false, or_false]
      constructor
      · rintro (hcause | ⟨b, hb, i, y, hy, hcause, hbefore⟩)
        · exact ⟨0, x, rfl, hcause, nofun⟩
        · refine ⟨i + 1, y, hy, hcause, fun j hj z hz => ?_⟩
          cases j with
          | zero =>
              obtain rfl := Option.some.inj hz
              exact ⟨b, hb⟩
          | succ j => exact hbefore j (Nat.lt_of_succ_lt_succ hj) z hz
      · rintro ⟨i, y, hy, hcause, hbefore⟩
        cases i with
        | zero =>
            obtain rfl := Option.some.inj hy
            exact .inl hcause
        | succ i =>
            obtain ⟨b, hb⟩ := hbefore 0 (Nat.succ_pos i) x rfl
            exact .inr ⟨b, hb, i, y, hy, hcause,
              fun j hj => hbefore (j + 1) (Nat.succ_lt_succ hj)⟩

/-- A fold that succeeded can be followed back from its answer: what holds there, and before each step
that leads to where it holds, holds at the start. -/
theorem foldlM_eq_ok_rec {f : β → α → Except ε β} {P : List α → β → Prop} {answer : β}
    (hnil : P [] answer)
    (hcons : ∀ x rest b next, f b x = .ok next → P rest next → P (x :: rest) b) :
    ∀ {xs : List α} {b : β}, xs.foldlM f b = .ok answer → P xs b
  | [], _, h => by
      obtain rfl := pure_eq_ok.mp h
      exact hnil
  | x :: xs, b, h => by
      rw [List.foldlM_cons] at h
      obtain ⟨next, hnext, h⟩ := bind_eq_ok.mp h
      exact hcons x xs b next hnext (foldlM_eq_ok_rec hnil hcons h)

/-- A fold fails with the first step that fails. -/
theorem foldlM_eq_error {f : β → α → Except ε β} {cause : ε} {xs : List α} {b : β} :
    xs.foldlM f b = .error cause ↔ ∃ before x after b', xs = before ++ x :: after ∧
      before.foldlM f b = .ok b' ∧ f b' x = .error cause := by
  constructor
  · intro h
    induction xs generalizing b with
    | nil => exact absurd h pure_ne_error
    | cons x xs ih =>
        rw [List.foldlM_cons] at h
        rcases bind_eq_error.mp h with hx | ⟨next, hnext, h⟩
        · exact ⟨[], x, xs, b, rfl, rfl, hx⟩
        · obtain ⟨before, y, after, b', rfl, hbefore, hy⟩ := ih h
          refine ⟨x :: before, y, after, b', rfl, ?_, hy⟩
          rw [List.foldlM_cons]
          exact bind_eq_ok.mpr ⟨next, hnext, hbefore⟩
  · rintro ⟨before, x, after, b', rfl, hbefore, hx⟩
    rw [List.foldlM_append, bind_eq_error]
    refine .inr ⟨b', hbefore, ?_⟩
    rw [List.foldlM_cons, bind_eq_error]
    exact .inl hx

/-- A step for each pair of two lists of one length gave an answer for each index. -/
theorem mapM_zip_ok {f : α × β → Except ε γ} {xs : List α} {ys : List β} {zs : List γ}
    (hlen : xs.length = ys.length) (h : (xs.zip ys).mapM f = .ok zs) (a : α) (b : β) (c : γ) :
    zs.length = xs.length ∧
      ∀ i < xs.length, f (xs.getD i a, ys.getD i b) = .ok (zs.getD i c) := by
  obtain ⟨hzs, hget⟩ := List.forall₂_iff_get.mp (mapM_eq_ok.mp h)
  rw [List.length_zip, ← hlen, Nat.min_self] at hzs
  refine ⟨hzs.symm, fun i hi => ?_⟩
  have := hget i (by rwa [List.length_zip, ← hlen, Nat.min_self]) (hzs ▸ hi)
  simp only [List.get_eq_getElem, List.getElem_zip] at this
  rwa [List.getD_eq_getElem _ _ hi, List.getD_eq_getElem _ _ (hlen ▸ hi),
    List.getD_eq_getElem _ _ (hzs ▸ hi)]

/-- What a step for each pair of two lists of one length makes of each pair. -/
theorem mapM_zip_forall₂ {f : α × β → Except ε γ} {R : γ → β → Prop} {xs : List α} {ys : List β}
    {zs : List γ} (hlen : xs.length = ys.length) (h : (xs.zip ys).mapM f = .ok zs)
    (hR : ∀ x y z, f (x, y) = .ok z → R z y) : List.Forall₂ R zs ys := by
  have hpairs := (mapM_eq_ok.mp h).flip.imp fun z pair hz => hR pair.1 pair.2 z hz
  rwa [← List.forall₂_map_right_iff, List.map_snd_zip hlen.ge] at hpairs

/-- A computation that can be run is seen to succeed. -/
theorem exists_eq_ok_of_isOk {x : Except ε α} (h : x.isOk = true) : ∃ a, x = .ok a := by
  cases x with
  | error e => exact absurd h Bool.false_ne_true
  | ok a => exact ⟨a, rfl⟩

end StableSwap
