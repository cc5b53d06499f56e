import TagQuery.Optimizer.Pass
import TagQuery.Optimizer.Transform

/-!
# The optimizer

The first pass that changes the tree is applied to all of it, and then all passes are tried again
from the first. It ends when no pass changes anything, or after a given number of steps.

## Main definitions

- `Optimizer`: passes and the greatest number of steps.
- `Optimizer.step?`: one step.
- `Optimizer.optimize`: steps until nothing changes.
-/

namespace TagQuery

/-- Passes and the greatest number of steps. -/
structure Optimizer where
  passes : List Pass
  maxSteps : Nat

namespace Optimizer

/-- All passes with the greatest number of steps; at least one is done. -/
def withLimit (maxSteps : Nat) : Optimizer :=
  ⟨Pass.all, maxSteps⟩

/-- The tree after the first pass that changes it. -/
def step? (passes : List Pass) (e : Expr) : Option Expr :=
  passes.findSome? fun p => (e.transformUp p.transform).filter fun next => !next.same e

def run (passes : List Pass) : Nat → Expr → Expr
  | 0, e => e
  | fuel + 1, e =>
    match step? passes e with
    | some next => run passes fuel next
    | none => e

/-- Takes steps until nothing changes or their greatest number is reached. -/
def optimize (o : Optimizer) (e : Expr) : Expr :=
  run o.passes (max 1 o.maxSteps) e

def passNames (o : Optimizer) : List String :=
  o.passes.map (·.name)

end Optimizer
end TagQuery
