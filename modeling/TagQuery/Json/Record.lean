import TagQuery.Json

/-!
# Records and variants in JSON

A record is written as an object with a key for each field, in any order, or as an array of the
fields in their order. A variant is written as an object with its name as the only key, or as the
bare name when it carries nothing.

## Main definitions

- `Json.Presence`: whether a field may be left out.
- `Json.record?`: the fields of a record.
- `Json.variant?`: the name and content of a variant.
-/

namespace TagQuery.Json

/-- Whether a field may be left out. -/
inductive Presence where
  /-- The field is always there. -/
  | required
  /-- An object may leave the field out. -/
  | optional
  /-- An object may leave the field out, and an array may end before it. -/
  | defaulted
  deriving DecidableEq, Repr

def valuesOf (key : String) (entries : List (String × Json)) : List Json :=
  entries.filterMap fun (k, v) => if k = key then some v else none

/-- A field of an object: given once, or not at all where that is allowed. -/
def objectField? (entries : List (String × Json)) (field : String × Presence) :
    Option (Option Json) :=
  match valuesOf field.1 entries with
  | [] => if field.2 = .required then none else some none
  | [v] => some (some v)
  | _ => none

def arrayFields? : List (String × Presence) → List Json → Option (List (Option Json))
  | [], [] => some []
  | [], _ :: _ => none
  | _ :: fields, v :: items => (arrayFields? fields items).map (some v :: ·)
  | (_, presence) :: fields, [] =>
    if presence = .defaulted then (arrayFields? fields []).map (none :: ·) else none

/-- The fields of a record, `none` for each that is left out. Other keys are ignored. -/
def record? (fields : List (String × Presence)) : Json → Option (List (Option Json))
  | .object entries => fields.mapM (objectField? entries)
  | .array items => arrayFields? fields items
  | _ => none

/-- What a field that was found is read as, or the default of one that was left out. -/
def orElse (default : α) (f : Json → Option α) : Option Json → Option α
  | none => some default
  | some j => f j

/-- The name of a variant, and its content if it is not the bare name. -/
def variant? : Json → Option (String × Option Json)
  | .string name => some (name, none)
  | .object [(name, content)] => some (name, some content)
  | _ => none

/-- The name of a variant that carries nothing: the bare name, or the name with `null`. -/
def bareVariant? (j : Json) : Option String :=
  match variant? j with
  | some (name, none) => some name
  | some (name, some .null) => some name
  | _ => none

end TagQuery.Json
