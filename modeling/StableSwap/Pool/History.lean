import StableSwap.Pool

/-!
# Histories of a pool

The operations that change a pool as data, and what becomes of a pool when a list of them is tried
in turn, whichever fail. The next operation finds the pool that the last one left, and an operation
that fails is no event.

* `Change.perform` performs one operation and says what happened.
* `Pool.run` tries operations in turn; `Pool.history` is what happened.
-/

namespace StableSwap

/-- An operation on a pool, with all that it depends on. -/
inductive Operation where
  /-- The provider of the token at an index answers at a point in time. -/
  | refresh (index : Nat) (answer : ProviderAnswer) (now : Nat)
  | joinExit (request : LiquidityRequest) (ctx : Context)
  | swap (request : SwapRequest) (ctx : Context)

/-- An operation that succeeded, with its result. -/
inductive Event where
  /-- The rate of the token at an index was refreshed; `rate` is the one then in use. -/
  | refreshed (index : Nat) (answer : ProviderAnswer) (now : Nat) (rate : Fixed)
  | joinedExited (request : LiquidityRequest) (ctx : Context) (outcome : LiquidityOutcome)
  | swapped (request : SwapRequest) (ctx : Context) (outcome : SwapOutcome)

namespace Pool

/-- Performs an operation. -/
def Change.perform : Operation → Change Event
  | .refresh index answer now => do
    let rate ← refresh index answer now
    return .refreshed index answer now rate
  | .joinExit request ctx => do
    let outcome ← joinExit request ctx
    return .joinedExited request ctx outcome
  | .swap request ctx => do
    let outcome ← swap request ctx
    return .swapped request ctx outcome

/-- What happened when an operation succeeded, and the pool after it. -/
def perform (p : Pool) (operation : Operation) : Except PoolError (Event × Pool) :=
  (Change.perform operation).result p

/-- The pool that an operation left behind, whether it succeeded or failed. -/
def attempt (p : Pool) (operation : Operation) : Pool := ((Change.perform operation).run p).2

/-- The pool after operations were tried in turn. -/
def run (p : Pool) (operations : List Operation) : Pool := operations.foldl attempt p

/-- What happened when operations were tried in turn. -/
def history (p : Pool) : List Operation → List Event
  | [] => []
  | operation :: rest =>
    match (Change.perform operation).run p with
    | (.ok event, p) => event :: p.history rest
    | (.error _, p) => p.history rest

end Pool

end StableSwap
