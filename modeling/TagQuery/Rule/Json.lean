import TagQuery.Expr.Json
import TagQuery.Rule

/-!
# Rules in JSON

## Main definitions

- `TagRule.toJson`, `TagRule.ofJson?`: a rule as a JSON value and back.
-/

namespace TagQuery

open Json (record?)

namespace TagRule

def toJson (r : TagRule) : Json :=
  .object [("left", r.left.toJson), ("operator", .string r.operator.name),
    ("right", r.right.toJson)]

def ofJson? (j : Json) : Option TagRule := do
  let [some left, some operator, some right] ←
    record? [("left", .required), ("operator", .required), ("right", .required)] j | none
  let left ← TagSet.ofJson? left
  let operator ← (Json.bareVariant? operator).bind RuleOperator.ofName?
  let right ← TagSet.ofJson? right
  return { left, operator, right }

end TagRule

end TagQuery
