import TagQuery.Expr.Json
import TagQuery.Search.Query

/-!
# Searches in JSON

## Main definitions

- `CompiledSearch.toJson`, `CompiledSearch.ofJson?`: a search as a JSON value and back.
-/

namespace TagQuery

open Json (record?)

namespace CompiledSearch

def toJson (s : CompiledSearch) : Json :=
  .object [("expression", s.expression.toJson), ("mentions_hidden", .bool s.mentionsHidden),
    ("hidden_tags", s.hiddenTags.toJson)]

def ofJson? (j : Json) : Option CompiledSearch := do
  let [some expression, some mentionsHidden, some hiddenTags] ←
    record? [("expression", .required), ("mentions_hidden", .required),
      ("hidden_tags", .required)] j | none
  let expression ← Expr.ofJson? expression
  let mentionsHidden ← mentionsHidden.toBool?
  let hiddenTags ← TagSet.ofJson? hiddenTags
  return { expression, mentionsHidden, hiddenTags }

end CompiledSearch

end TagQuery
