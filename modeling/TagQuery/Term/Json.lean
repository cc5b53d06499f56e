import TagQuery.Json.Record
import TagQuery.Term

/-!
# Terms in JSON

## Main definitions

- `Term.toJson`, `Term.ofJson?`: a term as a JSON value and back.
-/

namespace TagQuery

open Json (record? bareVariant?)

/-! ## Operators, fields and predicates -/

def FieldOperator.name : FieldOperator → String
  | .equal => "Equal"
  | .greater => "Greater"
  | .greaterOrEqual => "GreaterOrEqual"
  | .less => "Less"
  | .lessOrEqual => "LessOrEqual"
  | .notEqual => "NotEqual"
  | .like => "Like"

def FieldOperator.ofName? : String → Option FieldOperator
  | "Equal" => some .equal
  | "Greater" => some .greater
  | "GreaterOrEqual" => some .greaterOrEqual
  | "Less" => some .less
  | "LessOrEqual" => some .lessOrEqual
  | "NotEqual" => some .notEqual
  | "Like" => some .like
  | _ => none

def FieldOperator.ofJson? (j : Json) : Option FieldOperator :=
  (bareVariant? j).bind ofName?

def FieldTerm.toJson (t : FieldTerm) : Json :=
  .object [("field", Json.ofOption .string t.field), ("operator", .string t.operator.name),
    ("value", .string t.value)]

def FieldTerm.ofJson? (j : Json) : Option FieldTerm := do
  let [field, some operator, some value] ←
    record? [("field", .optional), ("operator", .required), ("value", .required)] j | none
  let field ← (field.getD .null).toOption? Json.toText?
  let operator ← FieldOperator.ofJson? operator
  let value ← value.toText?
  return { field, operator, value }

def PropertyPredicate.toJson (p : PropertyPredicate) : Json :=
  .object [("field", .string p.field),
    ("operator", Json.ofOption (fun op => .string op.name) p.operator),
    ("value", Json.ofOption .string p.value)]

def PropertyPredicate.ofJson? (j : Json) : Option PropertyPredicate := do
  let [some field, operator, value] ←
    record? [("field", .required), ("operator", .optional), ("value", .optional)] j | none
  let field ← field.toText?
  let operator ← (operator.getD .null).toOption? FieldOperator.ofJson?
  let value ← (value.getD .null).toOption? Json.toText?
  return { field, operator, value }

/-! ## Terms -/

namespace Term

mutual
def toJson : Term → Json
  | .conjunction terms => .object [("Conjunction", .array (toJsonAll terms))]
  | .disjunction terms => .object [("Disjunction", .array (toJsonAll terms))]
  | .negation t => .object [("Negation", t.toJson)]
  | .field t => .object [("Field", t.toJson)]
  | .properties ps => .object [("PropertyConjunction", .array (ps.map PropertyPredicate.toJson))]
  | .saved name => .object [("SavedSearch", .string name)]
termination_by structural t => t

def toJsonAll : List Term → List Json
  | [] => []
  | t :: ts => t.toJson :: toJsonAll ts
termination_by structural ts => ts
end

mutual
def ofJson? : Json → Option Term
  | .object [("Conjunction", .array items)] => (ofJsonAll? items).map .conjunction
  | .object [("Disjunction", .array items)] => (ofJsonAll? items).map .disjunction
  | .object [("Negation", j)] => (ofJson? j).map .negation
  | .object [("Field", j)] => (FieldTerm.ofJson? j).map .field
  | .object [("PropertyConjunction", .array items)] =>
    (items.mapM PropertyPredicate.ofJson?).map .properties
  | .object [("SavedSearch", .string name)] => some (.saved name)
  | _ => none
termination_by structural j => j

def ofJsonAll? : List Json → Option (List Term)
  | [] => some []
  | j :: js => (ofJson? j).bind fun t => (ofJsonAll? js).map (t :: ·)
termination_by structural js => js
end

end Term
end TagQuery
