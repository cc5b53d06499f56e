import TagQuery.Digest
import TagQuery.Item
import TagQuery.Search.Query
import TagQuery.Sql.Condition
import TagQuery.Text.LetterCase

/-!
# Evaluating expressions

Whether a file satisfies an expression.

## Main definitions

- `Expr.holds`: the truth value of an expression for a file.
- `Expr.fault?`: why an expression cannot be evaluated.
- `Expr.predicate`: the predicate of an expression.
- `CompiledSearch.predicate`: the predicate of a search.
-/

namespace TagQuery

/-! ## Leaves -/

/-- The place of a file in the range from zero to one, which decides about samples; it depends on
the content hash only. -/
def samplePoint (hash : String) : Real64 :=
  Real64.ofRatio false ((Digest.ofText hash).lowWord / Nat.pow 2 11) (Nat.pow 2 53)

def occursIgnoringCase (part text : String) : Bool :=
  Text.occursIn (Text.lowercase part).toList (Text.lowercase text).toList

/-- Whether a person has a name, or has it as another name, up to case. -/
def Person.isNamed (p : Person) (name : String) : Bool :=
  (p.name :: p.aliases).any fun n => Text.lowercase n == Text.lowercase name

namespace Expr

/-! ## Truth -/

mutual
/-- The truth value of an expression, where ratings are those of a category. A relation between
stars bounds nothing. -/
def holds (category : String) (item : Item) : Expr → Bool
  | .typeEquals t => item.fileType == t
  | .typeStart t => t.toList.isPrefixOf item.fileType.toList
  | .text t => item.paths.any (occursIgnoringCase t)
  | .hash h => Text.eqIgnoringAsciiCase item.hash (Text.lowercase h)
  | .fileSize c => c.accepts item.fileSize
  | .copies c => c.accepts item.paths.length
  | .tagCount c => c.accepts item.tags.size
  | .peopleCount c => c.accepts item.people.length
  | .ratingsCount c => c.accepts (((item.ratings.get? category).map (·.count)).getD 0)
  | .rating c => (item.ratings.get? category).any fun r => c.acceptsReal r.value
  | .stars _ => true
  | .personId id => item.people.any (·.id == id)
  | .personName name => item.people.any (·.isNamed name)
  | .noPeople => item.people.isEmpty
  | .tag tags => !item.tags.isDisjoint tags
  | .rejectedTag tags => !item.rejectedTags.isDisjoint tags
  | .details field op value => (item.details.get? field).any fun v => v.compare op value
  | .sample p => (samplePoint item.hash).blt (p.clamp (.zero false) .one)
  | .conjunction parts => allHold category item parts
  | .disjunction parts => anyHolds category item parts
  | .negation part => !holds category item part
termination_by structural e => e

def allHold (category : String) (item : Item) : List Expr → Bool
  | [] => true
  | e :: es => holds category item e && allHold category item es
termination_by structural es => es

def anyHolds (category : String) (item : Item) : List Expr → Bool
  | [] => false
  | e :: es => holds category item e || anyHolds category item es
termination_by structural es => es
end

/-! ## Predicates -/

mutual
/-- The first part that cannot be evaluated: a rating bound or a sample that is not finite. -/
def fault? : Expr → Option BackendFault
  | .rating c => if c.value.isFinite then none else some (.ratingNotFinite c.value)
  | .sample p => if p.isFinite then none else some (.sampleNotFinite p)
  | .conjunction parts => firstFault? parts
  | .disjunction parts => firstFault? parts
  | .negation part => fault? part
  | _ => none
termination_by structural e => e

def firstFault? : List Expr → Option BackendFault
  | [] => none
  | e :: es => (fault? e).or (firstFault? es)
termination_by structural es => es
end

def predicate (scale : RatingScale) (e : Expr) : Except BackendFault (Item → Bool) :=
  let resolved := e.resolveStars scale.stars
  match resolved.fault? with
  | some fault => .error fault
  | none => .ok fun item => resolved.holds scale.category item

end Expr

/-- The predicate of a search: files with a hidden tag are left out unless the query names one. -/
def CompiledSearch.predicate (scale : RatingScale) (s : CompiledSearch) :
    Except BackendFault (Item → Bool) :=
  (s.expression.predicate scale).map fun p =>
    if s.mentionsHidden || s.hiddenTags.isEmpty then p
    else fun item => p item && item.tags.isDisjoint s.hiddenTags

end TagQuery
