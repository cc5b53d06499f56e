import TagQuery.Engine
import TagQuery.Search.Values
import TagQuery.Term

/-!
# Searching by property

Tags have properties, which are usually a name and a value around an equals sign. A condition names
a property and may say what its value is.

## Main definitions

- `PropertyPredicate.fault?`: why a condition can never be decided.
- `PropertyPredicate.accepts`: whether a property satisfies a condition.
- `Engine.tagsWith`: the tags whose properties satisfy all conditions.
-/

namespace TagQuery

/-- The relation that an operator stands for; inequality and likeness are none. -/
def FieldOperator.relation? : FieldOperator → Option CompareOp
  | .equal => some .equal
  | .greater => some .greater
  | .greaterOrEqual => some .greaterOrEqual
  | .less => some .less
  | .lessOrEqual => some .lessOrEqual
  | .notEqual => none
  | .like => none

def CompareOp.toField : CompareOp → FieldOperator
  | .equal => .equal
  | .greater => .greater
  | .greaterOrEqual => .greaterOrEqual
  | .less => .less
  | .lessOrEqual => .lessOrEqual

namespace Property

/-- The name and the value of a property; a property without an equals sign has no value. -/
def parts (property : String) : String × Option String :=
  match Text.splitOnce? '=' property.toList with
  | some (name, value) =>
    (Text.trim (String.ofList name), some (Text.trim (String.ofList value)))
  | none => (Text.trim property, none)

/-- Whether an actual value equals a wanted one up to case; a star at the end of the wanted value
stands for any ending. -/
def matchesText (actual wanted : String) : Bool :=
  let actual := (Text.lowercase actual).toList
  let wanted := (Text.lowercase wanted).toList
  match Text.dropSuffix? ['*'] wanted with
  | some start => start.isPrefixOf actual
  | none => actual == wanted

/-- Whether two values are numbers in a relation. -/
def compareNumbers (op : CompareOp) (actual wanted : String) : Bool :=
  match Number.readReal actual.toList, Search.readReal wanted with
  | .ok lhs, .ok rhs => op.testReal lhs rhs
  | _, _ => false

def valueMatches (op : FieldOperator) (actual wanted : String) : Bool :=
  match op with
  | .equal => matchesText actual wanted
  | .like => Text.occursIn (Text.lowercase wanted).toList (Text.lowercase actual).toList
  | .notEqual => Text.lowercase actual != Text.lowercase wanted
  | .greater => compareNumbers .greater actual wanted
  | .greaterOrEqual => compareNumbers .greaterOrEqual actual wanted
  | .less => compareNumbers .less actual wanted
  | .lessOrEqual => compareNumbers .lessOrEqual actual wanted

end Property

namespace PropertyPredicate

def ordersNumbers : FieldOperator → Bool
  | .greater | .greaterOrEqual | .less | .lessOrEqual => true
  | _ => false

/-- Why a condition can never be decided: an order asks for a number. -/
def fault? (p : PropertyPredicate) : Option SearchError :=
  match p.operator, p.value with
  | some op, some value =>
    if ordersNumbers op && (Search.readReal value).toOption.isNone then
      some (.invalidValue p.field op.symbol value .propertyNotNumber)
    else none
  | _, _ => none

/-- Whether a property satisfies a condition: its name is the wanted one up to ASCII case, and its
value is in the wanted relation if the condition has an operator and a value. -/
def accepts (p : PropertyPredicate) (property : String) : Bool :=
  let (name, value) := Property.parts property
  Text.eqIgnoringAsciiCase name (Text.trim p.field) &&
    match p.operator, p.value with
    | some op, some wanted => value.any fun actual => Property.valueMatches op actual wanted
    | _, _ => true

end PropertyPredicate

namespace Engine

/-- Whether each condition is satisfied by one of the properties. -/
def satisfiesAll (predicates : List PropertyPredicate) (properties : List String) : Bool :=
  predicates.all fun p => properties.any p.accepts

/-- The tags whose properties satisfy all conditions, and the more special tags. No condition at all
is satisfied by no tag. -/
def tagsWith (e : Engine) (predicates : List PropertyPredicate) : Except SearchError TagSet :=
  match predicates.findSome? PropertyPredicate.fault? with
  | some error => .error error
  | none =>
    if predicates.isEmpty then .ok ∅
    else
      let found := e.properties.entries.filter fun entry => satisfiesAll predicates entry.2
      .ok (TagSet.unions (found.map fun entry => e.selfOrDescendants entry.1))

end Engine
end TagQuery
