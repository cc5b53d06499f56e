import TagQuery.Expr

/-!
# Transforming trees

A transformation of single nodes, applied to every node of a tree from the leaves up. One that has
nothing to do says so, and a tree in which nothing was done is not rebuilt: the parts of a group are
copied from the first one in which something was done.

## Main definitions

- `Expr.transformUp`: a transformation applied to all nodes.
- `Expr.transformAll`: a transformation applied to all nodes of the parts of a group.
-/

namespace TagQuery.Expr

/-- Transforms a node whose parts have been visited: `rebuilt` is the node with its new parts, if
any of them changed. -/
def transformNode (f : Expr → Option Expr) (node : Expr) (rebuilt : Option Expr) :
    Option Expr :=
  match rebuilt with
  | some e => some ((f e).getD e)
  | none => f node

/-- The copy of `parts` once one more of them has been visited, the one at place `i`. As long as
nothing was done there is none; the first part in which something was done starts one, behind those
before it. -/
def extendCopy (parts : List Expr) (i : Nat) (copy : Option (Array Expr)) (e : Expr)
    (changed : Option Expr) : Option (Array Expr) :=
  match changed, copy with
  | some e', some done => some (done.push e')
  | some e', none => some ((parts.take i).toArray.push e')
  | none, some done => some (done.push e)
  | none, none => none

mutual
/-- Applies a transformation to every node, parts first; `none` when nothing was done. -/
def transformUp (f : Expr → Option Expr) : Expr → Option Expr
  | .conjunction parts =>
    transformNode f (.conjunction parts) ((transformFrom f parts 0 none parts).map .conjunction)
  | .disjunction parts =>
    transformNode f (.disjunction parts) ((transformFrom f parts 0 none parts).map .disjunction)
  | .negation part =>
    transformNode f (.negation part) ((transformUp f part).map .negation)
  | e => f e
termination_by structural e => e

/-- Applies a transformation to every node of those of `parts` that are left from place `i` on,
where `copy` holds the ones before if something was done in them. -/
def transformFrom (f : Expr → Option Expr) (parts : List Expr) (i : Nat)
    (copy : Option (Array Expr)) : List Expr → Option (List Expr)
  | [] => copy.map Array.toList
  | e :: es => transformFrom f parts (i + 1) (extendCopy parts i copy e (transformUp f e)) es
termination_by structural es => es
end

def transformAll (f : Expr → Option Expr) (parts : List Expr) : Option (List Expr) :=
  transformFrom f parts 0 none parts

section
variable (f : Expr → Option Expr)

theorem transformUp_conjunction (parts : List Expr) :
    transformUp f (.conjunction parts) =
      transformNode f (.conjunction parts) ((transformAll f parts).map .conjunction) := rfl

theorem transformUp_disjunction (parts : List Expr) :
    transformUp f (.disjunction parts) =
      transformNode f (.disjunction parts) ((transformAll f parts).map .disjunction) := rfl

theorem transformUp_negation (e : Expr) :
    transformUp f (.negation e) =
      transformNode f (.negation e) ((transformUp f e).map .negation) := rfl

end

end TagQuery.Expr
