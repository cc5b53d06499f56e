import TagQuery.Stars

/-!
# Conditions on stored files

The conditions of a query as a relational database can check them. A file is a row of the table of
files; its paths, tags, people, details and ratings are rows of other tables.

## Main definitions

- `Sql.Join`: what a row of the table of files is joined with.
- `Sql.Condition`: a condition on the joined row.
- `Sql.Condition.ofExpr`: the condition of an expression.
- `Sql.Condition.needs`: the joins that a condition looks at.
-/

namespace TagQuery

inductive BackendFault where
  | sampleNotFinite (portion : Real64)
  | ratingNotFinite (bound : Real64)
  | noLiteral (number : Real64)
  deriving DecidableEq

def BackendFault.message : BackendFault → String
  | .sampleNotFinite p =>
    "backend invariant failed: sample portion " ++ RealLayout.plain.render p ++ " is not finite"
  | .ratingNotFinite x =>
    "backend invariant failed: rating bound " ++ RealLayout.plain.render x ++ " is not finite"
  | .noLiteral x =>
    "backend invariant failed: " ++ RealLayout.plain.render x ++
      " cannot be written as a SQL literal"

namespace Sql

/-- What a row of the table of files is joined with: the number of its paths, tags or people, or its
rating in a category. -/
inductive Join where
  | copies
  | tagCount
  | peopleCount
  | rating
  deriving DecidableEq, Repr

def Join.all : List Join := [.copies, .tagCount, .peopleCount, .rating]

inductive Condition where
  | constant (value : Bool)
  | all (parts : List Condition)
  | any (parts : List Condition)
  | not (part : Condition)
  | typeEquals (type : String)
  | typeStart (start : String)
  /-- A path contains the text, up to the case of ASCII letters. -/
  | pathContains (text : String)
  | hashEquals (hash : String)
  | fileSize (op : CompareOp) (bound : Nat)
  /-- The count of a join, which is zero for files without a row in it. -/
  | counted (join : Join) (op : CompareOp) (bound : Nat)
  /-- There is a rating, and it is in the relation to the bound. -/
  | rated (op : CompareOp) (bound : Real64)
  | personId (id : Int)
  | personName (name : String)
  | noPeople
  /-- One of the tags is held, or is rejected. -/
  | tagged (isRejected : Bool) (tags : TagSet)
  /-- There is a detail of the name and of the value's kind, in the relation to it. -/
  | detail (name : String) (op : CompareOp) (value : DetailValue)
  /-- A number drawn from a million is below the threshold. -/
  | drawn (threshold : Nat)

namespace Condition

/-! ## From expressions -/

/-- How many of a million draws a portion stands for. -/
def threshold (portion : Real64) : Nat :=
  ((portion.clamp (.zero false) .one).mul (.ofNat 1000000)).round.toWord

/-- Only finite numbers can be written. -/
def checkLiteral (x : Real64) : Except BackendFault Unit :=
  if x.isFinite then .ok () else .error (.noLiteral x)

def checkDetail : DetailValue → Except BackendFault Unit
  | .real x => checkLiteral x
  | _ => .ok ()

/-- A set of tags; an empty one matches nothing. -/
def ofTags (isRejected : Bool) (tags : TagSet) : Condition :=
  if tags.isEmpty then .constant false else .tagged isRejected tags

mutual
/-- The condition of an expression in which stars are resolved. Without a table a relation between
stars bounds nothing. -/
def ofExpr : Expr → Except BackendFault Condition
  | .typeEquals t => .ok (.typeEquals t)
  | .typeStart t => .ok (.typeStart t)
  | .text t => .ok (.pathContains t)
  | .hash h => .ok (.hashEquals h)
  | .fileSize c => .ok (.fileSize c.op c.value)
  | .copies c => .ok (.counted .copies c.op c.value)
  | .tagCount c => .ok (.counted .tagCount c.op c.value)
  | .peopleCount c => .ok (.counted .peopleCount c.op c.value)
  | .ratingsCount c => .ok (.counted .rating c.op c.value)
  | .rating c => (checkLiteral c.value).map fun _ => .rated c.op c.value
  | .stars _ => .ok (.constant true)
  | .personId id => .ok (.personId id)
  | .personName name => .ok (.personName name)
  | .noPeople => .ok .noPeople
  | .tag tags => .ok (ofTags false tags)
  | .rejectedTag tags => .ok (ofTags true tags)
  | .details name op value => (checkDetail value).map fun _ => .detail name op value
  | .sample p => if p.isFinite then .ok (.drawn (threshold p)) else .error (.sampleNotFinite p)
  | .conjunction [] => .ok (.constant true)
  | .disjunction [] => .ok (.constant false)
  | .conjunction (e :: es) => do return .all ((← ofExpr e) :: (← ofExprs es))
  | .disjunction (e :: es) => do return .any ((← ofExpr e) :: (← ofExprs es))
  | .negation e => (ofExpr e).map .not
termination_by structural e => e

def ofExprs : List Expr → Except BackendFault (List Condition)
  | [] => .ok []
  | e :: es => do return (← ofExpr e) :: (← ofExprs es)
termination_by structural es => es
end

/-- The condition of a negation. -/
theorem ofExpr_negation {e : Expr} {c : Condition} (h : ofExpr (.negation e) = .ok c) :
    ∃ d, ofExpr e = .ok d ∧ c = .not d := by
  rw [ofExpr] at h
  cases he : ofExpr e with
  | error _ => simp [he, Except.map] at h
  | ok d => exact ⟨d, rfl, by simpa [he, Except.map] using h.symm⟩

/-! ## Joins -/

mutual
def needs (join : Join) : Condition → Bool
  | .all parts => anyNeeds join parts
  | .any parts => anyNeeds join parts
  | .not part => needs join part
  | .counted j _ _ => j == join
  | .rated _ _ => join == .rating
  | _ => false
termination_by structural c => c

def anyNeeds (join : Join) : List Condition → Bool
  | [] => false
  | c :: cs => needs join c || anyNeeds join cs
termination_by structural cs => cs
end

def joins (c : Condition) : List Join :=
  Join.all.filter (needs · c)

end Condition
end Sql
end TagQuery
