import TagQuery.Analysis
import TagQuery.Expr.Json

/-!
# Knowledge about tags in JSON

## Main definitions

- `Analysis.toJson`: what follows from some tags, as JSON.
- `TagInfo.toJson`: what is known about a tag, as JSON.
-/

namespace TagQuery

def Analysis.toJson (a : Analysis) : Json :=
  .object [("normalized_tags", a.normalized.toJson), ("effective_tags", a.effective.toJson),
    ("missing_tag_sets", Json.ofList TagSet.toJson a.missingSets),
    ("suggested_tags", a.suggested.toJson)]

def TagInfo.toJson (i : TagInfo) : Json :=
  .object [("tag", .string i.tag), ("is_abstract", .bool i.isAbstract),
    ("aliases", i.aliases.toJson), ("properties", .ofStrings i.properties),
    ("parents", i.parents.toJson), ("children", i.children.toJson),
    ("ancestors", i.ancestors.toJson), ("descendants", i.descendants.toJson)]

end TagQuery
