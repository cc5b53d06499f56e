import TagQuery.Compare
import TagQuery.TagSet

/-!
# Expressions

What a query means: conditions on a file, closed under conjunction, disjunction and negation. An
empty conjunction is always true and an empty disjunction always false.

## Main definitions

- `Expr`: an expression.
- `Expr.same`: equality of trees, where numbers are compared by value.
- `Expr.size`, `Expr.nodes`: the nodes of a tree.
- `Expr.hasSample`: whether a tree draws samples.
-/

namespace TagQuery

/-- A condition on a file. -/
inductive Expr where
  /-- The media type is the given one. -/
  | typeEquals (type : String)
  /-- The media type starts with the given text. -/
  | typeStart (start : String)
  /-- The text occurs in one of the paths. -/
  | text (text : String)
  /-- The content hash is the given one. -/
  | hash (hash : String)
  | fileSize (bound : Comparison Nat)
  /-- The number of paths. -/
  | copies (bound : Comparison Nat)
  | tagCount (bound : Comparison Nat)
  | peopleCount (bound : Comparison Nat)
  /-- The number of comparisons behind the rating. -/
  | ratingsCount (bound : Comparison Nat)
  | rating (bound : Comparison Real64)
  /-- The star bucket of the rating. -/
  | stars (bound : Comparison UInt8)
  | personId (id : Int)
  | personName (name : String)
  | noPeople
  /-- At least one of the tags is held. -/
  | tag (tags : TagSet)
  /-- At least one of the tags is rejected. -/
  | rejectedTag (tags : TagSet)
  | details (field : String) (op : CompareOp) (value : DetailValue)
  /-- A portion of the files, from zero to one. -/
  | sample (portion : Real64)
  | conjunction (parts : List Expr)
  | disjunction (parts : List Expr)
  | negation (part : Expr)

namespace Expr

/-! ## Constants -/

def always : Expr := .conjunction []

def never : Expr := .disjunction []

def isAlways : Expr → Bool
  | .conjunction [] => true
  | _ => false

def isNever : Expr → Bool
  | .disjunction [] => true
  | _ => false

def isLeaf : Expr → Bool
  | .conjunction _ | .disjunction _ | .negation _ => false
  | _ => true

/-! ## Nodes -/

mutual
def size : Expr → Nat
  | .conjunction parts => 1 + sizeAll parts
  | .disjunction parts => 1 + sizeAll parts
  | .negation part => 1 + part.size
  | _ => 1
termination_by structural e => e

def sizeAll : List Expr → Nat
  | [] => 0
  | e :: es => e.size + sizeAll es
termination_by structural es => es
end

mutual
/-- The nodes of a tree, parents before their parts. -/
def nodes : Expr → List Expr
  | .conjunction parts => .conjunction parts :: nodesAll parts
  | .disjunction parts => .disjunction parts :: nodesAll parts
  | .negation part => .negation part :: part.nodes
  | e => [e]
termination_by structural e => e

def nodesAll : List Expr → List Expr
  | [] => []
  | e :: es => e.nodes ++ nodesAll es
termination_by structural es => es
end

mutual
def hasSample : Expr → Bool
  | .sample _ => true
  | .conjunction parts => anyHasSample parts
  | .disjunction parts => anyHasSample parts
  | .negation part => part.hasSample
  | _ => false
termination_by structural e => e

def anyHasSample : List Expr → Bool
  | [] => false
  | e :: es => e.hasSample || anyHasSample es
termination_by structural es => es
end

/-! ## Equality -/

/-- Equality of relations and of bounds by value. -/
def sameBound (a b : Comparison Real64) : Bool :=
  a.op == b.op && a.value.eqv b.value

mutual
/-- Equality of trees. Numbers are compared by value, so a tree with NaN in it equals no tree, and
the two zeros are not told apart. -/
def same : Expr → Expr → Bool
  | .typeEquals a, .typeEquals b => a == b
  | .typeStart a, .typeStart b => a == b
  | .text a, .text b => a == b
  | .hash a, .hash b => a == b
  | .fileSize a, .fileSize b => a == b
  | .copies a, .copies b => a == b
  | .tagCount a, .tagCount b => a == b
  | .peopleCount a, .peopleCount b => a == b
  | .ratingsCount a, .ratingsCount b => a == b
  | .rating a, .rating b => sameBound a b
  | .stars a, .stars b => a == b
  | .personId a, .personId b => a == b
  | .personName a, .personName b => a == b
  | .noPeople, .noPeople => true
  | .tag a, .tag b => a == b
  | .rejectedTag a, .rejectedTag b => a == b
  | .details f op v, .details f' op' v' => f == f' && op == op' && v.same v'
  | .sample a, .sample b => a.eqv b
  | .conjunction as, .conjunction bs => sameAll as bs
  | .disjunction as, .disjunction bs => sameAll as bs
  | .negation a, .negation b => a.same b
  | _, _ => false
termination_by structural e => e

def sameAll : List Expr → List Expr → Bool
  | [], [] => true
  | a :: as, b :: bs => a.same b && sameAll as bs
  | _, _ => false
termination_by structural es => es
end

/-- Only leaves equal leaves. -/
theorem same_of_isLeaf {a b : Expr} (ha : a.isLeaf = true) (h : a.same b = true) :
    b.isLeaf = true := by
  cases a <;> cases b <;> simp_all [isLeaf, same]

def isAmong (e : Expr) (es : List Expr) : Bool :=
  es.any (·.same e)

end Expr
end TagQuery
