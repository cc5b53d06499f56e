import TagQuery.Compile
import TagQuery.Search.Glob
import TagQuery.Search.Leaf
import TagQuery.Search.Relation

/-!
# Searching

The meaning of queries as expressions, given what is known about tags. Files with a hidden tag are
left out of a search unless the query names such a tag.

## Main definitions

- `Catalog`: what a search depends on.
- `Catalog.dialect`: the meaning of the parts of a query.
- `CompiledSearch`: the expression of a query, and what the policy on hidden tags decided.
- `Catalog.search`: the search that a query asks for.
-/

namespace TagQuery

open Search

/-- What a search depends on. -/
structure Catalog where
  engine : Engine
  stars : StarTable
  config : Config
  /-- The final names of tags that files have, besides those that rules mention. -/
  tagsInUse : TagSet
  /-- Where the regular expressions of wildcards are built. -/
  regex : RegexLibrary

namespace Catalog

/-- The catalog of the given knowledge, where tags in use are given as written, with the standard
library of regular expressions. -/
def ofTags (engine : Engine) (stars : StarTable) (config : Config) (tags : List String) : Catalog :=
  ⟨engine, stars, config, TagSet.ofList (tags.map engine.rename), .standard⟩

/-! ## Hidden tags -/

/-- The hidden tag and the more special ones. -/
def hiddenCanonical (c : Catalog) : TagSet :=
  c.engine.selfOrDescendants c.config.hiddenTag

/-- The hidden tag, the more special ones, and all their other names. -/
def hiddenTags (c : Catalog) : TagSet :=
  c.engine.withAliases c.hiddenCanonical

def noteIfHidden (c : Catalog) (value : String) : Compiler Unit :=
  if c.engine.rename value ∈ c.hiddenCanonical then Compiler.noteHidden else pure ()

/-! ## Fields about tags -/

/-- The relatives of a tag that a relation asks for, and all their other names. -/
def namesOf (c : Catalog) (op : CompareOp) (value : String) : TagSet :=
  c.engine.withAliases (c.engine.related value (.ofOperator op))

def held (c : Catalog) (op : CompareOp) (value : String) : Compiler Expr := do
  c.noteIfHidden value
  return .tag (c.namesOf op value)

def rejected (c : Catalog) (op : CompareOp) (value : String) : Compiler Expr := do
  c.noteIfHidden value
  return .rejectedTag (c.namesOf op value)

def wanted (c : Catalog) (kind : RuleOperator) (op : CompareOp) (value : String) : Expr :=
  .disjunction ((c.engine.related value (.ofOperator op)).toList.map (c.engine.wanted kind))

def single (c : Catalog) (f : Field) (op : CompareOp) (value : String) : Compiler Expr := do
  if f.equalityOnly && op != .equal then throw (unsupported f op.toField value)
  match f with
  | .tag => c.held op value
  | .rejected => c.rejected op value
  | .undecided =>
    let held ← c.held .lessOrEqual value
    let rejected ← c.rejected .greaterOrEqual value
    return .conjunction [.negation held, .negation rejected]
  | .suggested => return c.wanted .suggestion op value
  | .missing => return c.wanted .implication op value
  | .add => return .disjunction [c.wanted .implication op value, c.wanted .suggestion op value]
  | .anyTag =>
    let held ← c.held .lessOrEqual value
    return .disjunction
      [held, c.wanted .implication .lessOrEqual value, c.wanted .suggestion .lessOrEqual value]
  | _ => liftM (leaf c.config.similarMode c.stars f op value)

/-! ## All fields -/

/-- The known tags that a wildcard stands for. Names with a star of their own are not among them. -/
def globTags (c : Catalog) (pattern : String) : Except String (List String) :=
  (expand pattern (c.engine.knownTags ∪ c.tagsInUse) c.regex).map fun tags =>
    tags.toList.filter fun t => !isGlob t

/-- The expression of a field; a wildcard asks for any of the tags it stands for. -/
def related (c : Catalog) (f : Field) (op : CompareOp) (value : String) : Compiler Expr :=
  if f.takesGlob && isGlob value then do
    let tags ← liftM ((c.globTags value).mapError fun message =>
      invalid f op value (.regex message))
    return .disjunction (← tags.mapM (c.single f op))
  else c.single f op value

/-- The expression of a field with any operator. Inequality is the negation of equality, except that
a portion of all files has none. -/
def named (c : Catalog) (f : Field) (op : FieldOperator) (value : String) : Compiler Expr :=
  match op.relation? with
  | some relation => c.related f relation value
  | none =>
    if op = .like ∨ f = .percent ∨ f = .sample then throw (unsupported f op value)
    else do return .negation (← c.related f .equal value)

def field (c : Catalog) (t : FieldTerm) : Compiler Expr :=
  match t.field with
  | none =>
    if t.operator = .equal then return .text t.value
    else throw (.unsupportedOperator "" t.operator.symbol t.value)
  | some raw =>
    match Field.ofName? (Text.lowercase (Text.trim raw)) with
    | none => throw (.unknownField raw)
    | some f => c.named f t.operator t.value

def properties (c : Catalog) (predicates : List PropertyPredicate) : Compiler Expr := do
  let tags ← liftM (c.engine.tagsWith predicates)
  if !tags.isDisjoint c.hiddenCanonical then Compiler.noteHidden
  return .tag (c.engine.withAliases tags)

def dialect (c : Catalog) : Dialect Expr where
  conjunction parts := return .conjunction parts
  disjunction parts := return .disjunction parts
  negation part := return .negation part
  field := c.field
  properties := c.properties

end Catalog

/-! ## Searches -/

/-- The expression of a query, and what the policy on hidden tags decided. -/
structure CompiledSearch where
  expression : Expr
  /-- The query names a hidden tag, so that nothing is left out. -/
  mentionsHidden : Bool
  hiddenTags : TagSet

namespace Catalog

/-- The search that a query asks for. An empty query matches nothing, and files with a hidden tag
are left out unless the query names one. -/
def search (c : Catalog) (saved : Table Term) (t : Term) : Except SearchError CompiledSearch :=
  if t.isEmpty then .ok ⟨.never, false, c.hiddenTags⟩
  else
    match (c.dialect.compile saved t).runFrom .start with
    | (.error e, _) => .error e
    | (.ok e, ctx) =>
      if ctx.mentionsHidden then .ok ⟨e, true, c.hiddenTags⟩
      else .ok ⟨.conjunction [e, .negation (.tag c.hiddenTags)], false, c.hiddenTags⟩

end Catalog
end TagQuery
