import TagQuery.Proofs.Optimizer.NormalForm

/-!
# A visit as a map

A visit copies the parts of a group only from the first one in which something is done. The plain
map from the leaves up rebuilds every group and negation. Both make the same tree.

## Main definitions

- `Expr.mapUp`: the plain map from the leaves up.

## Main statements

- `Expr.mapUp_eq_visit`: the plain map is the visit that leaves as it is what needs no change.
- `Expr.transformUp_refines_mapUp`: a visit gives the tree of the plain map, or nothing where there
  is nothing to do at any node.
-/

namespace TagQuery.Expr

mutual
/-- Rebuilds every group and negation from its mapped parts, and transforms every node once its
parts have been. -/
def mapUp (f : Expr → Option Expr) : Expr → Expr
  | .conjunction parts => transformOr f (.conjunction (mapUpAll f parts))
  | .disjunction parts => transformOr f (.disjunction (mapUpAll f parts))
  | .negation part => transformOr f (.negation (mapUp f part))
  | e => transformOr f e
termination_by structural e => e

def mapUpAll (f : Expr → Option Expr) : List Expr → List Expr
  | [] => []
  | e :: es => mapUp f e :: mapUpAll f es
termination_by structural es => es
end

section
variable (f : Expr → Option Expr)

theorem mapUpAll_eq_map (es : List Expr) : mapUpAll f es = es.map (mapUp f) := by
  induction es with
  | nil => rfl
  | cons e es ih => simp [mapUpAll, ih]

theorem mapUp_of_isLeaf {e : Expr} (h : e.isLeaf = true) : mapUp f e = transformOr f e := by
  cases e <;> first | rfl | simp [isLeaf] at h

theorem mapUp_eq_visit (e : Expr) : mapUp f e = visit f e := by
  induction e using treeInduction with
  | leaf e he => rw [mapUp_of_isLeaf f he, visit_of_isLeaf f he]
  | conjunction parts ih =>
    rw [mapUp, mapUpAll_eq_map, visit_conjunction, List.map_congr_left ih]
  | disjunction parts ih =>
    rw [mapUp, mapUpAll_eq_map, visit_disjunction, List.map_congr_left ih]
  | negation e ih => rw [mapUp, visit_negation, ih]

/-- A visit gives the tree that the plain map makes, and gives none exactly when there is nothing to
do at any node. -/
theorem transformUp_refines_mapUp (e : Expr) :
    (transformUp f e).getD e = mapUp f e ∧
      (transformUp f e = none ↔ ∀ node ∈ e.nodes, f node = none) :=
  ⟨(mapUp_eq_visit f e).symm, transformUp_eq_none⟩

end

end TagQuery.Expr
