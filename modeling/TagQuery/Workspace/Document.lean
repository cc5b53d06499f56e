import TagQuery.Config
import TagQuery.Stars
import TagQuery.Table
import TagQuery.Workspace.Query

/-!
# Documents of workspaces

A document is a mapping with a fixed set of keys, all of which may be left out.

## Main definitions

- `Document`: what a document says.
- `Document.ofNode?`: the document of a node.
-/

namespace TagQuery

open Yaml (Node)

/-! ## Nodes of a known kind -/

namespace Yaml.Node

/-- The text of a scalar, however it is written. -/
def text? : Node → Option String
  | .scalar _ _ s => some s
  | _ => none

/-- A scalar of the same text that stands for this text only. -/
def asText : Node → Node
  | .scalar _ _ s => .scalar none .quoted s
  | n => n

def isEmpty : Node → Bool
  | .scalar _ .plain s => s.isEmpty
  | _ => false

/-- Whether a node is a plain null; `none` for one that its tag calls null although it is none. -/
def isNull? : Node → Option Bool
  | .scalar none .plain s => some (isNull s)
  | .scalar (some .null) .plain s => if isNullWord s then some true else none
  | _ => some false

/-- `none` for a plain null, and otherwise what `f` reads. -/
def option? (f : Node → Option α) (n : Node) : Option (Option α) := do
  if ← n.isNull? then return none else return some (← f n)

def items? : Node → Option (List Node)
  | .sequence _ items => some items
  | n => if n.isEmpty then some [] else none

def list? (f : Node → Option α) (n : Node) : Option (List α) :=
  n.items?.bind fun items => items.mapM f

def entries? : Node → Option (List (String × Node))
  | .mapping _ entries => entries.mapM fun (k, v) => k.text?.map (·, v)
  | n => if n.isEmpty then some [] else none

/-- The entries of a mapping as `f` reads them; the last of repeated keys counts. -/
def table? (f : Node → Option α) (n : Node) : Option (Table α) := do
  let entries ← (← n.entries?).mapM fun (k, v) => (f v).map (k, ·)
  return Table.ofList entries

/-- The entries of a mapping whose keys are among the given names, each at most once. -/
def record? (names : List String) (n : Node) : Option (List (String × Node)) := do
  let entries ← n.entries?
  if entries.all (fun e => e.1 ∈ names) && (entries.map (·.1)).Nodup then return entries else none

/-- The text of a scalar that may be a number: a plain one, or lines with the tag for it. -/
def numeral? (expected : Yaml.Tag) : Node → Option String
  | .scalar _ .plain s => some s
  | .scalar tag .literal s => if tag = some expected then some s else none
  | _ => none

def real? (n : Node) : Option Real64 :=
  (n.numeral? .real).bind readReal?

def nat? (n : Node) : Option Nat :=
  (n.numeral? .integer).bind readNat?

end Yaml.Node

/-- What `f` reads of the field with a name, or the default if it is left out. -/
def fieldOr (entries : List (String × Node)) (name : String) (default : α) (f : Node → Option α) :
    Option α :=
  match entries.find? (·.1 == name) with
  | some e => f e.2
  | none => some default

/-! ## Settings -/

/-- Settings that a document gives in place of others. -/
structure ConfigChange where
  hiddenTag : Option String
  similarMode : Option SimilarMode
  ratingCategory : Option String
  maxSteps : Option Nat

namespace ConfigChange

def none : ConfigChange := ⟨.none, .none, .none, .none⟩

def apply (change : ConfigChange) (c : Config) : Config :=
  { hiddenTag := change.hiddenTag.getD c.hiddenTag
    similarMode := change.similarMode.getD c.similarMode
    ratingCategory := change.ratingCategory.getD c.ratingCategory
    maxSteps := change.maxSteps.getD c.maxSteps }

/-- The mode of a node: its text, or the tag of one that is otherwise empty. -/
def modeOf? : Node → Option SimilarMode
  | .scalar (some (.own name)) style s =>
    if style = .plain && Yaml.isNull s then SimilarMode.ofName? name else .none
  | n => n.text?.bind SimilarMode.ofName?

def ofNode? (n : Node) : Option ConfigChange := do
  let entries ←
    n.record? ["hidden_tag", "similar_mode", "rating_category", "max_optimizer_iterations"]
  return {
    hiddenTag := ← fieldOr entries "hidden_tag" .none (Node.option? Node.text?)
    similarMode := ← fieldOr entries "similar_mode" .none (Node.option? modeOf?)
    ratingCategory := ← fieldOr entries "rating_category" .none (Node.option? Node.text?)
    maxSteps := ← fieldOr entries "max_optimizer_iterations" .none (Node.option? Node.nat?) }

end ConfigChange

/-! ## Documents -/

/-- What a document says. Queries may have a fault of their own. -/
structure Document where
  change : ConfigChange
  rules : String
  properties : Table (List String)
  knownTags : List String
  buckets : Option (List StarBucket)
  saved : Table (Except WorkspaceFault Term)
  query : Option (Except WorkspaceFault Term)

def StarBucket.ofNode? (n : Node) : Option StarBucket := do
  let [low, high] ← n.items? | none
  return ⟨← low.option? Node.real?, ← high.option? Node.real?⟩

namespace Document

/-- A query whose kind is written as a text. -/
def withKindAsText : Node → Node
  | .sequence tag (kind :: items) => .sequence tag (kind.asText :: items)
  | .mapping tag entries =>
    .mapping tag (entries.map fun (k, v) =>
      if k.toValue?.any isOperationKey then (k, v.asText) else (k, v))
  | n => n

/-- The query of a node. Only a query inside another one may give its kind by number. -/
def queryOf? (n : Node) : Option (Except WorkspaceFault Term) :=
  (withKindAsText n).toValue?.bind readQuery?

def ofNode? (n : Node) : Option Document := do
  let entries ←
    n.record? ["config", "rules", "properties", "known_tags", "star_ranges", "saved_searches",
      "query"]
  let change ← fieldOr entries "config" none (Node.option? ConfigChange.ofNode?)
  return {
    change := change.getD .none
    rules := ← fieldOr entries "rules" "" Node.text?
    properties := ← fieldOr entries "properties" ∅ (Node.table? (Node.list? Node.text?))
    knownTags := ← fieldOr entries "known_tags" [] (Node.list? Node.text?)
    buckets := ← fieldOr entries "star_ranges" none (Node.option? (Node.list? StarBucket.ofNode?))
    saved := ← fieldOr entries "saved_searches" ∅ (Node.table? queryOf?)
    query := ← fieldOr entries "query" none (Node.option? queryOf?) }

end Document
end TagQuery
