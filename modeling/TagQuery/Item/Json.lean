import TagQuery.Expr.Json
import TagQuery.Item

/-!
# Files in JSON

## Main definitions

- `Item.toJson`, `Item.ofJson?`: a file as a JSON value and back.
-/

namespace TagQuery

open Json (record?)

/-! ## Tables -/

def Table.toJson (f : α → Json) (t : Table α) : Json :=
  .object (t.entries.map fun e => (e.1, f e.2))

/-- Reads a table; the last of repeated keys counts. -/
def Table.ofJson? (f : Json → Option α) : Json → Option (Table α)
  | .object entries => (entries.mapM fun e => (f e.2).map (e.1, ·)).map Table.ofList
  | _ => none

/-! ## Files -/

namespace Person

def toJson (p : Person) : Json :=
  .object [("id", .ofInt p.id), ("name", .string p.name), ("aliases", .ofStrings p.aliases)]

def ofJson? (j : Json) : Option Person := do
  let [some id, some name, aliases] ←
    record? [("id", .required), ("name", .required), ("aliases", .defaulted)] j | none
  let id ← id.toSigned?
  let name ← name.toText?
  let aliases ← Json.orElse [] Json.toTexts? aliases
  return { id, name, aliases }

end Person

namespace Rating

def toJson (r : Rating) : Json :=
  .object [("value", .ofReal r.value), ("count", .ofNat r.count)]

def ofJson? (real? : Json → Option Real64) (j : Json) : Option Rating := do
  let [some value, some count] ← record? [("value", .required), ("count", .required)] j | none
  let value ← real? value
  let count ← count.toWord?
  return { value, count }

end Rating

namespace Item

def toJson (i : Item) : Json :=
  .object
    [("hash", .string i.hash), ("file_size", .ofNat i.fileSize), ("file_type", .string i.fileType),
      ("paths", .ofStrings i.paths), ("tags", i.tags.toJson),
      ("rejected_tags", i.rejectedTags.toJson), ("people", Json.ofList Person.toJson i.people),
      ("details", i.details.toJson DetailValue.toJson), ("ratings", i.ratings.toJson Rating.toJson)]

def ofJson? (j : Json) : Option Item := do
  let [some hash, some fileSize, some fileType, paths, tags, rejectedTags, people, details,
      ratings] ←
    record? [("hash", .required), ("file_size", .required), ("file_type", .required),
      ("paths", .defaulted), ("tags", .defaulted), ("rejected_tags", .defaulted),
      ("people", .defaulted), ("details", .defaulted), ("ratings", .defaulted)] j | none
  let hash ← hash.toText?
  let fileSize ← fileSize.toWord?
  let fileType ← fileType.toText?
  let paths ← Json.orElse [] Json.toTexts? paths
  let tags ← Json.orElse ∅ TagSet.ofJson? tags
  let rejectedTags ← Json.orElse ∅ TagSet.ofJson? rejectedTags
  let people ← Json.orElse [] (Json.toList? Person.ofJson?) people
  let details ← Json.orElse ∅ (Table.ofJson? DetailValue.ofJson?) details
  let ratings ← Json.orElse ∅ (Table.ofJson? (Rating.ofJson? Json.toReal?)) ratings
  return { hash, fileSize, fileType, paths, tags, rejectedTags, people, details, ratings }

end Item

end TagQuery
