import TagQuery.Compare
import TagQuery.Hierarchy
import TagQuery.Renames
import TagQuery.Rule
import TagQuery.TagName

/-!
# Tag knowledge

Everything that rules and properties say about tags, in terms of final names: renames are applied to
all rules, rules of both directions are split into rules of one, and the specializations are closed.

## Main definitions

- `Engine`: the knowledge.
- `Engine.ofRules`: the knowledge of a list of rules and properties.
- `Engine.rename`, `Engine.related`, `Engine.withAliases`: names, relatives and other names of tags.
- `Engine.describe`: all that is known about one tag.
-/

namespace TagQuery

/-- Which relatives of a tag a search reaches. -/
inductive Kinship where
  | selfOnly
  | ancestor
  | selfOrAncestor
  | descendant
  | selfOrDescendant
  deriving DecidableEq, Repr

namespace Kinship

/-- The relatives that an operator asks for: `>` for more general tags and `<` for more special
ones. -/
def ofOperator : CompareOp → Kinship
  | .equal => .selfOnly
  | .greater => .ancestor
  | .greaterOrEqual => .selfOrAncestor
  | .less => .descendant
  | .lessOrEqual => .selfOrDescendant

def name : Kinship → String
  | .selfOnly => "SelfOnly"
  | .ancestor => "Ancestor"
  | .selfOrAncestor => "SelfOrAncestor"
  | .descendant => "Descendant"
  | .selfOrDescendant => "SelfOrDescendant"

def ofName? : String → Option Kinship
  | "SelfOnly" => some .selfOnly
  | "Ancestor" => some .ancestor
  | "SelfOrAncestor" => some .selfOrAncestor
  | "Descendant" => some .descendant
  | "SelfOrDescendant" => some .selfOrDescendant
  | _ => none

end Kinship

/-- What rules and properties say about tags. -/
structure Engine where
  renames : Renames
  /-- The simplified rules in increasing order. -/
  rules : List TagRule
  hierarchy : Hierarchy
  /-- The tags directly above each tag. -/
  parents : Table TagSet
  /-- The tags directly below each tag. -/
  children : Table TagSet
  properties : Table (List String)
  /-- The final names that occur in a rule, as the target of a rename, or with a property. -/
  knownTags : TagSet

structure TagInfo where
  tag : String
  isAbstract : Bool
  aliases : TagSet
  properties : List String
  parents : TagSet
  children : TagSet
  ancestors : TagSet
  descendants : TagSet

namespace Engine

/-! ## Construction -/

/-- The two tags of a rule with one tag on each side. -/
def pairOf? (r : TagRule) : Option (String × String) :=
  match r.left.single?, r.right.single? with
  | some left, some right => some (left, right)
  | _, _ => none

def pairsOf (op : RuleOperator) (rules : List TagRule) : List (String × String) :=
  (rules.filter (·.operator == op)).filterMap pairOf?

def renamesOf (rules : List TagRule) : Renames :=
  (pairsOf .definition rules).foldl (fun m p => m.insert p.1 p.2) ∅

/-- Both directions of a rule: between its sides, and between each tag of one and each of the
other. -/
def expandTwoWay (op : RuleOperator) (left right : TagSet) : List TagRule :=
  [⟨left, op, right⟩, ⟨right, op, left⟩] ++
    left.toList.flatMap fun l =>
      right.toList.flatMap fun r =>
        if l = r then []
        else [⟨.singleton l, op, .singleton r⟩, ⟨.singleton r, op, .singleton l⟩]

/-- The rules that a rule amounts to once names are final. -/
def simplifyRule (renames : Renames) (r : TagRule) : List TagRule :=
  let left := r.left.map renames.resolve
  let right := r.right.map renames.resolve
  match r.operator.oneWay? with
  | some op => expandTwoWay op left right
  | none => [⟨left, r.operator, right⟩]

/-- The rules other than renames, in final names and one direction, in increasing order. -/
def simplify (renames : Renames) (rules : List TagRule) : List TagRule :=
  TagRule.sortDistinct
    ((rules.filter (·.operator != .definition)).flatMap (simplifyRule renames))

def addTo (m : Table TagSet) (key tag : String) : Table TagSet :=
  m.insert key ((Hierarchy.setOf m key).insert tag)

/-- Adds a property to those of the final name of a tag, unless the tag has it already. -/
def addProperty (renames : Renames) (m : Table (List String)) (entry : String × String) :
    Table (List String) :=
  let tag := renames.resolve (normalizeTag entry.1)
  let list := (m.get? tag).getD []
  m.insert tag (if entry.2 ∈ list then list else list ++ [entry.2])

def construct (rules : List TagRule) (properties : List (String × String)) : Engine :=
  let renames := renamesOf rules
  let simplified := simplify renames rules
  let edges := (pairsOf .specialization simplified).filter fun p => p.1 != p.2
  let attached := properties.foldl (addProperty renames) ∅
  { renames
    rules := simplified
    hierarchy := edges.foldl (fun h p => h.insert p.1 p.2) ∅
    parents := edges.foldl (fun m p => addTo m p.1 p.2) ∅
    children := edges.foldl (fun m p => addTo m p.2 p.1) ∅
    properties := attached
    knownTags :=
      TagSet.unions (simplified.map fun r => r.left ∪ r.right) ∪ attached.keySet ∪ renames.targets }

/-- The knowledge of a list of rules and properties, or the first rule that is not acceptable. -/
def ofRules (rules : List TagRule) (properties : List (String × String)) :
    Except (TagRule × RuleFault) Engine :=
  match rules.findSome? fun r => r.fault?.map fun fault => (r, fault) with
  | some fault => .error fault
  | none => .ok (construct rules properties)

def empty : Engine := construct [] []

instance : Inhabited Engine := ⟨empty⟩

/-! ## Names and relatives -/

def rename (e : Engine) (raw : String) : String :=
  e.renames.resolve (normalizeTag raw)

def rulesOf (e : Engine) (op : RuleOperator) : List TagRule :=
  e.rules.filter (·.operator == op)

def aliases (e : Engine) (tag : String) : TagSet := e.renames.aliases tag

def propertiesOf (e : Engine) (tag : String) : List String := (e.properties.get? tag).getD []

def ancestors (e : Engine) (tag : String) : TagSet := e.hierarchy.ancestors tag

def descendants (e : Engine) (tag : String) : TagSet := e.hierarchy.descendants tag

def related (e : Engine) (raw : String) (kinship : Kinship) : TagSet :=
  let tag := e.rename raw
  match kinship with
  | .selfOnly => .singleton tag
  | .ancestor => e.ancestors tag
  | .selfOrAncestor => (e.ancestors tag).insert tag
  | .descendant => e.descendants tag
  | .selfOrDescendant => (e.descendants tag).insert tag

def selfOrAncestors (e : Engine) (raw : String) : TagSet := e.related raw .selfOrAncestor

def selfOrDescendants (e : Engine) (raw : String) : TagSet := e.related raw .selfOrDescendant

/-- The tags of a set and all their other names. -/
def withAliases (e : Engine) (tags : TagSet) : TagSet :=
  tags ∪ tags.flatMap e.aliases

def describe (e : Engine) (raw : String) : TagInfo :=
  let tag := e.rename raw
  { tag
    isAbstract := e.hierarchy.hasBelow tag
    aliases := e.aliases tag
    properties := e.propertiesOf tag
    parents := Hierarchy.setOf e.parents tag
    children := Hierarchy.setOf e.children tag
    ancestors := e.ancestors tag
    descendants := e.descendants tag }

end Engine
end TagQuery
