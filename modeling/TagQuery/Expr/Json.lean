import TagQuery.Expr
import TagQuery.Json.Record
import TagQuery.Number.Integer

/-!
# Expressions in JSON

Equal expressions have equal JSON texts, since sets are written in order.

## Main definitions

- `Expr.toJson`, `Expr.ofJson?`: an expression as a JSON value and back.
-/

namespace TagQuery

open Json (record? bareVariant? variant?)

/-! ## Parts -/

def CompareOp.name : CompareOp → String
  | .equal => "Equal"
  | .greater => "Greater"
  | .greaterOrEqual => "GreaterOrEqual"
  | .less => "Less"
  | .lessOrEqual => "LessOrEqual"

def CompareOp.ofName? : String → Option CompareOp
  | "Equal" => some .equal
  | "Greater" => some .greater
  | "GreaterOrEqual" => some .greaterOrEqual
  | "Less" => some .less
  | "LessOrEqual" => some .lessOrEqual
  | _ => none

def CompareOp.ofJson? (j : Json) : Option CompareOp :=
  (bareVariant? j).bind ofName?

def Comparison.toJson (f : α → Json) (c : Comparison α) : Json :=
  .object [("op", .string c.op.name), ("value", f c.value)]

def Comparison.ofJson? (f : Json → Option α) (j : Json) : Option (Comparison α) := do
  let [some op, some value] ← record? [("op", .required), ("value", .required)] j | none
  let op ← CompareOp.ofJson? op
  let value ← f value
  return { op, value }

/-- Reads an integer of 64 bits. -/
def Json.toSigned? (j : Json) : Option Int :=
  j.toIntIn? (-(Number.maxSigned : Int) - 1) Number.maxSigned

/-- Reads a natural number of 64 bits. -/
def Json.toWord? (j : Json) : Option Nat :=
  j.toNat? Number.maxWord

/-- Reads a natural number of eight bits. -/
def Json.toByte? (j : Json) : Option UInt8 :=
  (j.toNat? Number.maxByte).map UInt8.ofNat

def TagSet.toJson (s : TagSet) : Json :=
  Json.ofStrings s.toList

/-- Reads a set of tags from a list of names in any order. -/
def TagSet.ofJson? (j : Json) : Option TagSet :=
  j.toTexts?.map TagSet.ofList

def DetailValue.toJson : DetailValue → Json
  | .integer i => .object [("Integer", .ofInt i)]
  | .real x => .object [("Real", .ofReal x)]
  | .text s => .object [("Text", .string s)]

/-- Reads a detail, whose numbers are read by `real?`. -/
def DetailValue.ofJsonWith? (real? : Json → Option Real64) (j : Json) : Option DetailValue :=
  match variant? j with
  | some ("Integer", some v) => v.toSigned?.map .integer
  | some ("Real", some v) => (real? v).map .real
  | some ("Text", some v) => v.toText?.map .text
  | _ => none

def DetailValue.ofJson? (j : Json) : Option DetailValue :=
  DetailValue.ofJsonWith? Json.toReal? j

/-! ## Expressions -/

namespace Expr

/-- A variant with its content. -/
def variant (name : String) (content : Json) : Json :=
  .object [(name, content)]

mutual
def toJson : Expr → Json
  | .typeEquals t => variant "TypeEquals" (.string t)
  | .typeStart t => variant "TypePrefix" (.string t)
  | .text t => variant "Text" (.string t)
  | .hash h => variant "Hash" (.string h)
  | .fileSize c => variant "FileSize" (c.toJson .ofNat)
  | .copies c => variant "Copies" (c.toJson .ofNat)
  | .tagCount c => variant "TagCount" (c.toJson .ofNat)
  | .peopleCount c => variant "PeopleCount" (c.toJson .ofNat)
  | .ratingsCount c => variant "RatingsCount" (c.toJson .ofNat)
  | .rating c => variant "Rating" (c.toJson .ofReal)
  | .stars c => variant "Stars" (c.toJson fun n => .ofNat n.toNat)
  | .personId id => variant "PersonId" (.ofInt id)
  | .personName name => variant "PersonName" (.string name)
  | .noPeople => .string "NoPeople"
  | .tag tags => variant "Tag" tags.toJson
  | .rejectedTag tags => variant "RejectedTag" tags.toJson
  | .details field op value =>
    variant "Details"
      (.object [("field", .string field), ("op", .string op.name), ("value", value.toJson)])
  | .sample p => variant "Sample" (.ofReal p)
  | .conjunction parts => variant "Conjunction" (.array (toJsonAll parts))
  | .disjunction parts => variant "Disjunction" (.array (toJsonAll parts))
  | .negation part => variant "Negation" part.toJson
termination_by structural e => e

def toJsonAll : List Expr → List Json
  | [] => []
  | e :: es => e.toJson :: toJsonAll es
termination_by structural es => es
end

def detailsOfJson? (real? : Json → Option Real64) (j : Json) : Option Expr := do
  let [some field, some op, some value] ←
    record? [("field", .required), ("op", .required), ("value", .required)] j | none
  let field ← field.toText?
  let op ← CompareOp.ofJson? op
  let value ← DetailValue.ofJsonWith? real? value
  return .details field op value

def leafOfJson? (real? : Json → Option Real64) (name : String) (j : Json) : Option Expr :=
  match name with
  | "TypeEquals" => j.toText?.map .typeEquals
  | "TypePrefix" => j.toText?.map .typeStart
  | "Text" => j.toText?.map .text
  | "Hash" => j.toText?.map .hash
  | "FileSize" => (Comparison.ofJson? Json.toWord? j).map .fileSize
  | "Copies" => (Comparison.ofJson? Json.toWord? j).map .copies
  | "TagCount" => (Comparison.ofJson? Json.toWord? j).map .tagCount
  | "PeopleCount" => (Comparison.ofJson? Json.toWord? j).map .peopleCount
  | "RatingsCount" => (Comparison.ofJson? Json.toWord? j).map .ratingsCount
  | "Rating" => (Comparison.ofJson? real? j).map .rating
  | "Stars" => (Comparison.ofJson? Json.toByte? j).map .stars
  | "PersonId" => j.toSigned?.map .personId
  | "PersonName" => j.toText?.map .personName
  | "NoPeople" => match j with
    | .null => some .noPeople
    | _ => none
  | "Tag" => (TagSet.ofJson? j).map .tag
  | "RejectedTag" => (TagSet.ofJson? j).map .rejectedTag
  | "Details" => detailsOfJson? real? j
  | "Sample" => (real? j).map .sample
  | _ => none

mutual
def ofJsonWith? (real? : Json → Option Real64) : Json → Option Expr
  | .string "NoPeople" => some .noPeople
  | .object [("Conjunction", .array items)] => (ofJsonAll? real? items).map .conjunction
  | .object [("Disjunction", .array items)] => (ofJsonAll? real? items).map .disjunction
  | .object [("Negation", j)] => (ofJsonWith? real? j).map .negation
  | .object [(name, j)] => leafOfJson? real? name j
  | _ => none
termination_by structural j => j

def ofJsonAll? (real? : Json → Option Real64) : List Json → Option (List Expr)
  | [] => some []
  | j :: js => (ofJsonWith? real? j).bind fun e => (ofJsonAll? real? js).map (e :: ·)
termination_by structural js => js
end

def ofJson? (j : Json) : Option Expr :=
  ofJsonWith? Json.toReal? j

end Expr
end TagQuery
