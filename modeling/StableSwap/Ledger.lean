import StableSwap.PoolError

/-!
# The ledger

What a pool holds of each token, in raw amounts, and how many pool shares there are. A movement
gives a new ledger or fails; the old one is never changed.

The first million units of shares stay locked, so a pool that was joined once is never empty again.
-/

namespace StableSwap

/-- The shares that can never be burned. -/
def lockedShares : Amount := 1000000

/-- Which way a join or exit moves tokens and shares: tokens come in and shares are minted, or tokens go
out and shares are burned. -/
inductive Flow where
  | inward
  | outward
  deriving DecidableEq

/-- The tokens and shares moved by a join or exit. -/
structure Delta where
  /-- The direction. -/
  flow : Flow
  /-- The raw amount of each token. -/
  amounts : List Amount
  /-- The shares. -/
  shares : Amount
  deriving DecidableEq

/-- The holdings of a pool. -/
structure Ledger where
  /-- The raw balance of each token. -/
  balances : List Amount
  /-- The shares in circulation, the locked ones included. -/
  supply : Amount
  deriving DecidableEq

namespace Ledger

/-- The ledger of a pool that was never joined. -/
def empty (tokenCount : Nat) : Ledger := ⟨List.replicate tokenCount 0, 0⟩

/-- Whether the pool was ever joined. -/
def isInitialized (l : Ledger) : Bool := l.supply ≠ 0

/-- The shares that may still be burned. -/
def burnable (l : Ledger) : Amount := l.supply.monus lockedShares

/-- A balance less an amount it must cover. -/
def takeFrom (balance amount : Amount) : Except PoolError Amount :=
  (balance.sub amount).mapError fun _ => .insufficientBalance .tokenBalance

/-- The ledger after a join or exit. -/
def apply (l : Ledger) (delta : Delta) : Except PoolError Ledger :=
  if delta.amounts.length ≠ l.balances.length then
    .error (.inputLengthMismatch l.balances.length delta.amounts.length)
  else
    match delta.flow with
    | .inward => do
      let balances ← (l.balances.zip delta.amounts).mapM fun (balance, amount) =>
        (balance.add amount).mapError .ofMath
      let supply ← (l.supply.add delta.shares).mapError .ofMath
      return ⟨balances, supply⟩
    | .outward =>
      if l.burnable < delta.shares then
        .error (.insufficientBalance .shareSupply)
      else do
        let balances ← (l.balances.zip delta.amounts).mapM fun (balance, amount) =>
          takeFrom balance amount
        return ⟨balances, l.supply.monus delta.shares⟩

/-- The ledger after shares were minted without a movement of tokens. -/
def mint (l : Ledger) (shares : Amount) : Except PoolError Ledger := do
  let supply ← (l.supply.add shares).mapError fun _ => .feeOverflow
  return { l with supply }

/-- The ledger after a trade, which never takes all of a balance. The indices are those of tokens; a pool
checks them before. -/
def swap (l : Ledger) (tokenIn : Nat) (amountIn : Amount) (tokenOut : Nat) (amountOut : Amount) :
    Except PoolError Ledger :=
  let held := l.balances.getD tokenOut 0
  if held ≤ amountOut then
    .error (.insufficientBalance .tokenBalance)
  else do
    let balances := l.balances.set tokenOut (held.monus amountOut)
    let received ← ((balances.getD tokenIn 0).add amountIn).mapError .ofMath
    return { l with balances := balances.set tokenIn received }

end Ledger

end StableSwap
