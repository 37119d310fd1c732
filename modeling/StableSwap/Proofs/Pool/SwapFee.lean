import Mathlib
import StableSwap.Proofs.Config
import StableSwap.Proofs.Pool.Invariant

/-!
# The swap fee

A trade with a fixed input takes the fee off the input, rounded up; a trade with a fixed output puts it
on top of the computed input, by dividing by what the fee leaves. Below one the two fit together: what
remains of an input is the part that the fee leaves, rounded down (`subtractSwapFee_eq_ok`), so of the
input that was charged on top of an amount that very amount remains (`subtractSwapFee_of_addSwapFee`),
and no smaller input covers it (`le_net_iff`).

Hence both kinds of trade charge the same fee on what is paid in (`swap_charges_one_fee`).
-/

namespace StableSwap

/-! ### Taking off and putting on top -/

section Fee

variable {fee : Fixed} {amount net gross covered : Amount}

/-- A part of a number rounded up and the rest of it rounded down are the number. -/
theorem ceilDiv_mul_add_mul_div (n : ℕ) {part whole : ℕ} (hpos : 0 < whole) (hle : part ≤ whole) :
    ceilDiv (n * part) whole + n * (whole - part) / whole = n := by
  have hsplit : n * part + n * (whole - part) = n * whole := by
    rw [← Nat.mul_add, Nat.add_sub_cancel' hle]
  have hdown := Nat.div_mul_le_self (n * (whole - part)) whole
  have hdown' := Nat.lt_div_mul_add (a := n * (whole - part)) hpos
  generalize n * (whole - part) / whole = rest at hdown hdown' ⊢
  have hrest : rest ≤ n :=
    Nat.le_of_mul_le_mul_right (hdown.trans (Nat.mul_le_mul_left n (Nat.sub_le _ _))) hpos
  apply le_antisymm
  · have hup : ceilDiv (n * part) whole ≤ n - rest := by
      rw [ceilDiv_le_iff hpos, Nat.sub_mul]
      omega
    omega
  · have hup := le_ceilDiv_mul (n * part) hpos
    refine Nat.le_of_lt_succ (Nat.lt_of_mul_lt_mul_right (a := whole) ?_)
    rw [Nat.succ_mul, Nat.add_mul]
    omega

theorem Fixed.complement_pos (hfee : fee < 1) : 0 < fee.complement.wei.val :=
  Nat.sub_pos_of_lt hfee

/-- What is charged is the fee's part of the input, rounded up. -/
theorem subtractSwapFee_charged (h : subtractSwapFee amount fee = .ok net) :
    amount.val = ceilDiv (amount.val * fee.wei.val) Fixed.unit.val + net.val := by
  simp only [subtractSwapFee, bind_eq_ok, Fixed.mulUp_eq_ok, Amount.sub_eq_ok] at h
  obtain ⟨charged, hcharged, hnet⟩ := h
  rwa [hcharged] at hnet

/-- **What remains after a fee below one** is the part that the fee leaves, rounded down. -/
theorem subtractSwapFee_eq_ok (hfee : fee < 1) :
    subtractSwapFee amount fee = .ok net ↔
      net.val = amount.val * fee.complement.wei.val / Fixed.unit.val := by
  have hparts := ceilDiv_mul_add_mul_div amount.val Fixed.unit_pos (Nat.le_of_lt hfee)
  constructor
  · intro h
    have hcharged := subtractSwapFee_charged h
    rw [Fixed.val_complement]
    omega
  · intro hnet
    rw [Fixed.val_complement] at hnet
    simp only [subtractSwapFee, bind_eq_ok, Fixed.mulUp_eq_ok, Amount.sub_eq_ok]
    refine ⟨⟨⟨ceilDiv (amount.val * fee.wei.val) Fixed.unit.val, ?_⟩⟩, rfl, ?_⟩
    · have hlt := amount.val_lt
      omega
    · show amount.val = ceilDiv (amount.val * fee.wei.val) Fixed.unit.val + net.val
      omega

theorem addSwapFee_eq_ok (hfee : fee < 1) :
    addSwapFee amount fee = .ok gross ↔
      gross.val = ceilDiv (amount.val * Fixed.unit.val) fee.complement.wei.val := by
  rw [addSwapFee, map_eq_ok]
  constructor
  · rintro ⟨quotient, hquotient, rfl⟩
    exact (Fixed.divUp_eq_ok.mp hquotient).2
  · intro hgross
    exact ⟨⟨gross⟩, Fixed.divUp_eq_ok.mpr ⟨Fixed.complement_pos hfee, hgross⟩, rfl⟩

/-- **Taking a fee off and putting it on top are adjoint.** What remains of an input covers an amount
exactly if the input is no less than the one charged on top of the amount. -/
theorem le_net_iff (hfee : fee < 1) (hnet : subtractSwapFee amount fee = .ok net)
    (hgross : addSwapFee covered fee = .ok gross) : covered ≤ net ↔ gross ≤ amount := by
  rw [Amount.le_def, Amount.le_def, (subtractSwapFee_eq_ok hfee).mp hnet,
    (addSwapFee_eq_ok hfee).mp hgross, Nat.le_div_iff_mul_le Fixed.unit_pos,
    ceilDiv_le_iff (Fixed.complement_pos hfee)]

/-- Of the input charged on top of an amount that very amount remains. -/
theorem subtractSwapFee_of_addSwapFee (hfee : fee < 1) (h : addSwapFee net fee = .ok gross) :
    subtractSwapFee gross fee = .ok net := by
  rw [addSwapFee_eq_ok hfee] at h
  rw [subtractSwapFee_eq_ok hfee, h]
  have hpos := Fixed.complement_pos hfee
  symm
  rw [Nat.div_eq_iff Fixed.unit_pos]
  have hcovers := le_ceilDiv_mul (net.val * Fixed.unit.val) hpos
  have hlt := ceilDiv_mul_lt (net.val * Fixed.unit.val) hpos
  have hle : fee.complement.wei.val ≤ Fixed.unit.val := Nat.sub_le _ _
  omega

end Fee

/-! ### Both kinds of trade -/

namespace SwapBasis

variable {b : SwapBasis} {request : SwapRequest} {amounts : SwapAmounts}

/-- A trade was priced at a net input: it went into the curve, or it came out of it. -/
def PricedAtNet (b : SwapBasis) (request : SwapRequest) (amounts : SwapAmounts) (net : Amount) :
    Prop :=
  match request.kind with
  | .givenIn => ∃ out, b.scaledOut request.tokenIn request.tokenOut net = .ok out ∧
      b.scaling.downscaleDown request.tokenOut out = .ok amounts.amountOut
  | .givenOut => ∃ paid, b.scaledIn request.tokenIn request.tokenOut amounts.amountOut = .ok paid ∧
      b.scaling.downscaleUp request.tokenIn paid = .ok net

/-- In both kinds of trade, the net input is what remains of the input after the fee, and the fee is
the rest. -/
theorem compute_net (hfee : b.swapFee < 1) (h : b.compute request = .ok amounts) :
    ∃ net, b.PricedAtNet request amounts net ∧
      subtractSwapFee amounts.amountIn b.swapFee = .ok net ∧
      amounts.fee = amounts.amountIn.monus net := by
  simp only [compute, unless_eq_ok] at h
  obtain ⟨-, -, h⟩ := h
  unfold PricedAtNet
  cases hkind : request.kind with
  | givenIn =>
      simp only [hkind, givenIn, unless_eq_ok, bind_eq_ok, mapError_eq_ok, pure_eq_ok] at h
      obtain ⟨net, hnet, -, out, hout, amountOut, hamountOut, -, -, rfl⟩ := h
      exact ⟨net, ⟨out, hout, hamountOut⟩, hnet, rfl⟩
  | givenOut =>
      simp only [hkind, givenOut, unless_eq_ok, bind_eq_ok, mapError_eq_ok, pure_eq_ok] at h
      obtain ⟨-, paid, hpaid, net, hnet, amountIn, hamountIn, -, rfl⟩ := h
      exact ⟨net, ⟨paid, hpaid, hnet⟩, subtractSwapFee_of_addSwapFee hfee hamountIn, rfl⟩

/-- The fee of a trade is its part of what is paid in, rounded up, and the rest is the net input. -/
theorem compute_fee (hfee : b.swapFee < 1) (h : b.compute request = .ok amounts) :
    amounts.fee.val = ceilDiv (amounts.amountIn.val * b.swapFee.wei.val) Fixed.unit.val ∧
      ∃ net, amounts.amountIn.val = net.val + amounts.fee.val ∧
        b.PricedAtNet request amounts net := by
  obtain ⟨net, hpriced, hnet, hcharged⟩ := compute_net hfee h
  have hparts := subtractSwapFee_charged hnet
  have hval : amounts.fee.val = amounts.amountIn.val - net.val := by
    rw [hcharged, Amount.val_monus]
  refine ⟨by omega, net, by omega, hpriced⟩

end SwapBasis

theorem Config.swapFee_lt_one (config : Config) : config.swapFee < 1 := config.admissible.swapFee_lt

namespace Pool

variable {p p' : Pool} {ctx : Context} {request : SwapRequest} {outcome : SwapOutcome}

/-- A trade is computed against the settled pool, at the pool's fee. -/
theorem swap_computed (h : p.swap request ctx = .ok (outcome, p')) :
    ∃ rates scaling settled b, p.rates ctx.timestamp = .ok rates ∧ p.scaling rates = .ok scaling ∧
      p.settle rates ctx = .ok settled ∧ p.swapBasis settled scaling ctx = .ok b ∧
      b.swapFee = p.config.swapFee ∧ b.compute request = .ok outcome.amounts := by
  obtain ⟨-, -, rates, scaling, settled, b, ledger, hrates, hscaling, hsettled, hbasis, hamounts,
    -⟩ := swap_ok h
  refine ⟨rates, scaling, settled, b, hrates, hscaling, hsettled, hbasis, ?_, hamounts⟩
  simp only [swapBasis, bind_eq_ok, pure_eq_ok] at hbasis
  obtain ⟨_, -, rfl⟩ := hbasis
  rfl

/-- **Both kinds of trade charge the same fee**: the fee's part of what is paid in, rounded up, where
the rest is the input that the trade was priced at. Of all inputs, the one charged on top of an amount
is the least of which so much remains. -/
theorem swap_charges_one_fee :
    (∀ (p : Pool) ctx request outcome p', p.swap request ctx = .ok (outcome, p') →
      ∃ rates scaling settled b, p.rates ctx.timestamp = .ok rates ∧
        p.scaling rates = .ok scaling ∧ p.settle rates ctx = .ok settled ∧
        p.swapBasis settled scaling ctx = .ok b ∧ b.swapFee = p.config.swapFee ∧ b.swapFee < 1 ∧
        b.compute request = .ok outcome.amounts) ∧
    (∀ (b : SwapBasis) request amounts, b.swapFee < 1 → b.compute request = .ok amounts →
      amounts.fee.val = ceilDiv (amounts.amountIn.val * b.swapFee.wei.val) Fixed.unit.val ∧
      ∃ net, amounts.amountIn.val = net.val + amounts.fee.val ∧
        b.PricedAtNet request amounts net) ∧
    ∀ (fee : Fixed) covered gross, fee < 1 → addSwapFee covered fee = .ok gross →
      subtractSwapFee gross fee = .ok covered ∧
      ∀ amount net, subtractSwapFee amount fee = .ok net → (covered ≤ net ↔ gross ≤ amount) := by
  refine ⟨?_, ?_, ?_⟩
  · intro p ctx request outcome p' h
    obtain ⟨rates, scaling, settled, b, hrates, hscaling, hsettled, hbasis, hfee, hamounts⟩ :=
      swap_computed h
    exact ⟨rates, scaling, settled, b, hrates, hscaling, hsettled, hbasis, hfee,
      hfee ▸ p.config.swapFee_lt_one, hamounts⟩
  · intro b request amounts hfee h
    exact SwapBasis.compute_fee hfee h
  · intro fee covered gross hfee hgross
    refine ⟨subtractSwapFee_of_addSwapFee hfee hgross, fun amount net hnet => ?_⟩
    exact le_net_iff hfee hnet hgross

/-- The fee of a thousandth on a trade of either kind: it is not a whole number of units in the first,
and in the second it comes on top of a price. -/
theorem swap_charges_one_fee_paired :
    ∃ sold p₁ bought p₂,
      paired.swap ⟨.givenIn, 0, 1, 1000003, none⟩ (uncharged pair) = .ok (sold, p₁) ∧
      sold.amounts.amountIn.val = 1000003 ∧ sold.amounts.fee.val = 1001 ∧
      paired.swap ⟨.givenOut, 0, 1, 1000000000000000000, none⟩ (uncharged pair) = .ok (bought, p₂) ∧
      bought.amounts.amountIn.val = 1001007 ∧ bought.amounts.fee.val = 1002 ∧
      subtractSwapFee 1000 pair.swapFee = .ok 999 ∧
      addSwapFee 999 pair.swapFee = .ok 1000 ∧
      subtractSwapFee 999 pair.swapFee = .ok 998 ∧
      ((999 : Amount) ≤ 998 ↔ (1000 : Amount) ≤ 999) := by
  obtain ⟨hpool, hfee, hadjoint⟩ := swap_charges_one_fee
  obtain ⟨⟨sold, p₁⟩, hsell, hsold⟩ := map_eq_ok.mp
    (by decide +kernel : (paired.swap ⟨.givenIn, 0, 1, 1000003, none⟩ (uncharged pair)).map
      (fun result => result.1.amounts.amountIn.val) = .ok 1000003)
  obtain ⟨⟨bought, p₂⟩, hbuy, hbought⟩ := map_eq_ok.mp
    (by decide +kernel : (paired.swap ⟨.givenOut, 0, 1, 1000000000000000000, none⟩
      (uncharged pair)).map (fun result => result.1.amounts.amountIn.val) = .ok 1001007)
  have hcharged : ∀ {request outcome p'}, paired.swap request (uncharged pair) = .ok (outcome, p') →
      outcome.amounts.fee.val =
        ceilDiv (outcome.amounts.amountIn.val * paired.config.swapFee.wei.val)
          Fixed.unit.val := by
    intro request outcome p' h
    obtain ⟨-, -, -, b, -, -, -, -, hconfig, hlt, hamounts⟩ := hpool _ _ _ _ _ h
    rw [← hconfig]
    exact (hfee b request outcome.amounts hlt hamounts).1
  have hgross : addSwapFee 999 pair.swapFee = .ok 1000 := by decide +kernel
  have hnet : subtractSwapFee 999 pair.swapFee = .ok 998 := by decide +kernel
  obtain ⟨hrest, hleast⟩ := hadjoint pair.swapFee 999 1000 (by decide) hgross
  refine ⟨sold, p₁, bought, p₂, hsell, hsold, ?_, hbuy, hbought, ?_, hrest, hgross, hnet,
    hleast 999 998 hnet⟩
  · rw [hcharged hsell, hsold]
    decide +kernel
  · rw [hcharged hbuy, hbought]
    decide +kernel

end Pool

end StableSwap
