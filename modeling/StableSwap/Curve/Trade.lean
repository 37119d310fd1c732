import StableSwap.Curve.Balance
import StableSwap.Mutation

/-!
# Trades at constant invariant

A trade adds to one balance and takes from another so that the invariant stays what it was. The
amounts are found on scratch balances: the known side of the trade is written into them, the other
balance is solved for, and the known side is taken back.

A failure leaves the scratch balances as they are when it happens (`Scratch`).
-/

namespace StableSwap.Curve

/-- A computation on scratch balances. What it did to them stays when it fails. -/
abbrev Scratch (α : Type) : Type := Mutation MathError (List Fixed) α

namespace Scratch

/-- The balance at an index, and zero where there is none. -/
def balance (index : Nat) : Scratch Fixed := do
  return (← get).getD index 0

/-- Replaces the balance at an index by what `change` makes of it. -/
def modifyBalance (index : Nat) (change : Fixed → Except MathError Fixed) : Scratch Unit := do
  let changed ← (change (← balance index) : Except MathError Fixed)
  modify (·.set index changed)

end Scratch

/-- What a trade pays out of the token `tokenOut` for an amount of the token `tokenIn`: one unit
less than the curve releases, and nothing where it releases less than that. -/
def outGivenIn (amplification : Amount) (tokenIn tokenOut : Nat) (amountIn : Fixed) :
    Scratch Fixed := do
  let D ← (invariant amplification (← get) : Except MathError Amount)
  Scratch.modifyBalance tokenIn (·.add amountIn)
  let solved := missingBalance amplification (← get) D tokenOut
  Scratch.modifyBalance tokenIn (·.sub amountIn)
  let after ← (solved : Except MathError Fixed)
  let before ← Scratch.balance tokenOut
  return ⟨(before.wei.monus after.wei).monus 1⟩

/-- What a trade takes of the token `tokenIn` for an amount of the token `tokenOut`: one unit more
than the curve asks for. -/
def inGivenOut (amplification : Amount) (tokenIn tokenOut : Nat) (amountOut : Fixed) :
    Scratch Fixed := do
  let D ← (invariant amplification (← get) : Except MathError Amount)
  Scratch.modifyBalance tokenOut (·.sub amountOut)
  let solved := missingBalance amplification (← get) D tokenIn
  Scratch.modifyBalance tokenOut (·.add amountOut)
  let after ← (solved : Except MathError Fixed)
  let before ← Scratch.balance tokenIn
  let paid ← (after.sub before : Except MathError Fixed)
  (paid.add ⟨1⟩ : Except MathError Fixed)

end StableSwap.Curve
