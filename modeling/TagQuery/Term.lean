/-!
# Query terms

What a user asks for, as written: groups, negations, fields with a value, conditions on the
properties of tags, and references to saved searches. A term knows nothing about tags.

## Main definitions

- `FieldOperator`: the sign between a field and its value.
- `Term`: a query.
- `Term.isEmpty`: whether a query asks for nothing.
-/

namespace TagQuery

/-- The sign between a field and its value. -/
inductive FieldOperator where
  | equal
  | greater
  | greaterOrEqual
  | less
  | lessOrEqual
  | notEqual
  | like
  deriving DecidableEq, Repr

namespace FieldOperator

def symbol : FieldOperator → String
  | .equal => ":"
  | .greater => ">"
  | .greaterOrEqual => ">="
  | .less => "<"
  | .lessOrEqual => "<="
  | .notEqual => "<>"
  | .like => "~"

/-- The operator of a sign; `=` is another way to write `:`. -/
def ofSymbol? : String → Option FieldOperator
  | ":" => some .equal
  | "=" => some .equal
  | ">" => some .greater
  | ">=" => some .greaterOrEqual
  | "<" => some .less
  | "<=" => some .lessOrEqual
  | "<>" => some .notEqual
  | "~" => some .like
  | _ => none

end FieldOperator

/-- A field with its value; without a field it is free text. -/
structure FieldTerm where
  field : Option String
  operator : FieldOperator
  value : String
  deriving DecidableEq, Repr

/-- A condition on one property of a tag: that it is there, or what its value is. -/
structure PropertyPredicate where
  field : String
  operator : Option FieldOperator
  value : Option String
  deriving DecidableEq, Repr

/-- A query. -/
inductive Term where
  | conjunction (terms : List Term)
  | disjunction (terms : List Term)
  | negation (term : Term)
  | field (term : FieldTerm)
  | properties (predicates : List PropertyPredicate)
  | saved (name : String)
  deriving Repr

namespace Term

def tag (value : String) : Term :=
  .field ⟨some "tag", .equal, value⟩

def text (value : String) : Term :=
  .field ⟨none, .equal, value⟩

def person (value : String) : Term :=
  .field ⟨some "@", .equal, value⟩

mutual
/-- Whether a query consists of groups without any content. -/
def isEmpty : Term → Bool
  | .conjunction terms => areEmpty terms
  | .disjunction terms => areEmpty terms
  | _ => false
termination_by structural t => t

def areEmpty : List Term → Bool
  | [] => true
  | t :: ts => t.isEmpty && areEmpty ts
termination_by structural ts => ts
end

/-- How tightly a term binds when it is written. -/
def precedence : Term → Nat
  | .conjunction _ => 0
  | .disjunction _ => 1
  | .negation _ => 2
  | _ => 3

end Term
end TagQuery
