import TagQuery.Term
import TagQuery.Text.Blank
import TagQuery.Workspace.Fault
import TagQuery.Yaml.Value

/-!
# Queries in documents

A query is a record whose field `op` says what kind it is. The fields of a record are given by name,
by place in a list, or by number; other fields are ignored.

A query that has not the right shape makes the whole document malformed, while an unknown operator
is a fault of the query alone. So reading has two outcomes: whether the shape is right, and then the
term or its fault.

## Main definitions

- `Operation`: the kinds of queries.
- `Content`: the fields of a record.
- `Reading`: what a value may be read as.
- `readQuery?`: the query of a value.
-/

namespace TagQuery

open Yaml (Value)

inductive Operation where
  | and
  | or
  | not
  | field
  | text
  | tag
  | person
  | properties
  | saved
  deriving DecidableEq, Repr

namespace Operation

def all : List Operation :=
  [.and, .or, .not, .field, .text, .tag, .person, .properties, .saved]

def name : Operation → String
  | .and => "and"
  | .or => "or"
  | .not => "not"
  | .field => "field"
  | .text => "text"
  | .tag => "tag"
  | .person => "person"
  | .properties => "properties"
  | .saved => "saved"

/-- The kind that a value names, or whose number it is. -/
def ofValue? : Value → Option Operation
  | .text s => all.find? (·.name == s)
  | .integer i => if 0 ≤ i then all[i.toNat]? else none
  | _ => none

end Operation

/-! ## Records -/

/-- The fields of a record: by name or number, or by place. -/
inductive Content (α : Type) where
  | keyed (entries : List (Value × α))
  | listed (items : List α)

namespace Content

def isKey (name : String) (number : Nat) : Value → Bool
  | .text s => s == name
  | .integer i => i == number
  | _ => false

/-- Whether a value may be the key of a field, known or not. -/
def mayBeKey : Value → Bool
  | .text _ => true
  | .integer i => 0 ≤ i
  | _ => false

/-- The values of the fields that have names and may be required, from number `number` on. -/
def keyedFields? (entries : List (Value × α)) (number : Nat) :
    List (String × Bool) → Option (List (Option α))
  | [] => some []
  | (name, isRequired) :: fields => do
    let found := entries.filter fun e => isKey name number e.1
    if 1 < found.length || (found.isEmpty && isRequired) then none
    return (found.head?.map (·.2)) :: (← keyedFields? entries (number + 1) fields)

/-- The values of fields by place; a list may end before fields that are not required. -/
def listedFields? : List (String × Bool) → List α → Option (List (Option α))
  | [], [] => some []
  | [], _ :: _ => none
  | _ :: fields, a :: items => (listedFields? fields items).map (some a :: ·)
  | (_, isRequired) :: fields, [] =>
    if isRequired then none else (listedFields? fields []).map (none :: ·)

def fields? (names : List (String × Bool)) : Content α → Option (List (Option α))
  | .keyed entries =>
    if entries.all fun e => mayBeKey e.1 then keyedFields? entries 0 names else none
  | .listed items => listedFields? names items

def only? (name : String) (c : Content α) : Option α := do
  let [some a] ← c.fields? [(name, true)] | none
  return a

end Content

def optionalText? : Option Value → Option (Option String)
  | none => some none
  | some .null => some none
  | some v => v.text?.map some

/-! ## Operators and conditions -/

/-- The operator of a sign, which may have blanks around it. -/
def readOperator (symbol : String) : Except WorkspaceFault FieldOperator :=
  match FieldOperator.ofSymbol? (Text.trim symbol) with
  | some op => .ok op
  | none => .error (.unknownOperator symbol)

/-- The value that a property is compared with; without any, the property must only be there. -/
def readBound (property : String) : Option Value → Except WorkspaceFault (Option String)
  | none => .ok none
  | some .null => .ok none
  | some v =>
    match v.scalarText? with
    | some text => .ok (some text)
    | none => .error (.notScalar property)

/-- The operator of a condition; a value alone is compared for equality. -/
def readRelation (symbol value : Option String) : Except WorkspaceFault (Option FieldOperator) :=
  match symbol with
  | some s => (readOperator s).map some
  | none => .ok (value.map fun _ => .equal)

def readCondition? (v : Value) : Option (Except WorkspaceFault PropertyPredicate) := do
  let content : Content Value ←
    match v with
    | .mapping entries => some (.keyed entries)
    | .sequence items => some (.listed items)
    | _ => none
  let [some field, symbol, value] ←
    content.fields? [("field", true), ("operator", false), ("value", false)] | none
  let field ← field.text?
  let symbol ← optionalText? symbol
  if !value.all Value.hasDistinctKeys then none
  return do
    let value ← readBound field value
    let operator ← readRelation symbol value
    return { field, operator, value }

/-- The first fault of a list, or all that was read. -/
def allOrFault : List (Except ε α) → Except ε (List α)
  | [] => .ok []
  | .error fault :: _ => .error fault
  | .ok a :: rest => (allOrFault rest).map (a :: ·)

def readConditions? : Value → Option (Except WorkspaceFault (List PropertyPredicate))
  | .sequence items => (items.mapM readCondition?).map allOrFault
  | _ => none

/-! ## Queries -/

/-- What a value may be read as: itself, a query, or a list of queries. -/
structure Reading where
  value : Value
  query : Option (Except WorkspaceFault Term)
  queries : Option (Except WorkspaceFault (List Term))

def readText? (content : Content Reading) : Option String := do
  (← content.only? "value").value.scalarText?

/-- A field with its operator and value; without an operator it is equality. -/
def readField? (content : Content Reading) : Option (Except WorkspaceFault Term) := do
  let [field, symbol, some value] ←
    content.fields? [("field", false), ("operator", false), ("value", true)] | none
  let field ← optionalText? (field.map (·.value))
  let symbol ← (symbol.map (·.value.text?)).getD (some FieldOperator.equal.symbol)
  let value ← value.value.scalarText?
  return (readOperator symbol).map fun operator => .field { field, operator, value }

def readOperation? (op : Operation) (content : Content Reading) :
    Option (Except WorkspaceFault Term) := do
  match op with
  | .and => return (← (← content.only? "terms").queries).map .conjunction
  | .or => return (← (← content.only? "terms").queries).map .disjunction
  | .not => return (← (← content.only? "term").query).map .negation
  | .field => readField? content
  | .text => return .ok (.text (← readText? content))
  | .tag => return .ok (.tag (← readText? content))
  | .person => return .ok (.person (← readText? content))
  | .properties =>
    return (← readConditions? (← content.only? "predicates").value).map .properties
  | .saved => return .ok (.saved (← (← content.only? "name").value.text?))

def isOperationKey : Value → Bool
  | .text s => s == "op"
  | _ => false

/-- The query of a mapping, whose kind is given exactly once. -/
def readMapping? (entries : List (Value × Reading)) : Option (Except WorkspaceFault Term) := do
  let [(_, op)] := entries.filter fun e => isOperationKey e.1 | none
  let op ← Operation.ofValue? op.value
  readOperation? op (.keyed (entries.filter fun e => !isOperationKey e.1))

/-- The query of a sequence, whose first item is the kind. -/
def readSequence? : List Reading → Option (Except WorkspaceFault Term)
  | [] => none
  | op :: items => do readOperation? (← Operation.ofValue? op.value) (.listed items)

mutual
def readingOf : Value → Reading
  | .mapping entries => ⟨.mapping entries, readMapping? (readingsOfEntries entries), none⟩
  | .sequence items =>
    let readings := readingsOf items
    ⟨.sequence items, readSequence? readings, (readings.mapM Reading.query).map allOrFault⟩
  | v => ⟨v, none, none⟩
termination_by structural v => v

def readingsOf : List Value → List Reading
  | [] => []
  | v :: vs => readingOf v :: readingsOf vs
termination_by structural vs => vs

def readingsOfEntries : List (Value × Value) → List (Value × Reading)
  | [] => []
  | e :: es => readingOfEntry e :: readingsOfEntries es
termination_by structural es => es

def readingOfEntry : Value × Value → Value × Reading
  | (k, v) => (k, readingOf v)
termination_by structural e => e
end

def readQuery? (v : Value) : Option (Except WorkspaceFault Term) :=
  (readingOf v).query

end TagQuery
