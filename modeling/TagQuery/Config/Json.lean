import TagQuery.Config
import TagQuery.Json.Record

/-!
# Settings in JSON

## Main definitions

- `Config.toJson`, `Config.ofJson?`: settings as a JSON value and back.
-/

namespace TagQuery

def SimilarMode.ofJson? (j : Json) : Option SimilarMode :=
  (Json.bareVariant? j).bind ofName?

namespace Config

def toJson (c : Config) : Json :=
  .object [("hidden_tag", .string c.hiddenTag), ("similar_mode", .string c.similarMode.name),
    ("rating_category", .string c.ratingCategory),
    ("max_optimizer_iterations", .ofNat c.maxSteps)]

/-- Reads settings; what is left out stays at its default. -/
def ofJson? (j : Json) : Option Config := do
  let [hiddenTag, similarMode, ratingCategory, maxSteps] ←
    Json.record? [("hidden_tag", .defaulted), ("similar_mode", .defaulted),
      ("rating_category", .defaulted), ("max_optimizer_iterations", .defaulted)] j | none
  let hiddenTag ← Json.orElse default.hiddenTag Json.toText? hiddenTag
  let similarMode ← Json.orElse default.similarMode SimilarMode.ofJson? similarMode
  let ratingCategory ← Json.orElse default.ratingCategory Json.toText? ratingCategory
  let maxSteps ← Json.orElse default.maxSteps (Json.toNat? Number.maxWord) maxSteps
  return { hiddenTag, similarMode, ratingCategory, maxSteps }

end Config
end TagQuery
