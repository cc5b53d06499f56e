import TagQuery.Optimizer
import TagQuery.Search.Query
import TagQuery.Workspace.Document

/-!
# Workspaces

Everything that a search needs, from one document: settings, rules, properties, star buckets, saved
searches and a query.

## Main definitions

- `Workspace`: a workspace.
- `Workspace.parse`: the workspace of a text.
- `Workspace.compile`, `Workspace.search`: the search that a query asks for, as it is and optimized.
-/

namespace TagQuery

/-- Everything that a search needs. -/
structure Workspace where
  engine : Engine
  config : Config
  /-- The star buckets, if there are any. -/
  stars : Option StarTable
  saved : Table Term
  knownTags : List String
  query : Option Term

namespace Workspace

/-! ## Reading -/

def engineOf (rules : String) (properties : Table (List String)) : Except SearchError Engine :=
  match TagRule.parseText rules with
  | .error e => .error (.ruleText e)
  | .ok rules =>
    let attached := properties.entries.flatMap fun (tag, list) => list.map (tag, ·)
    match Engine.ofRules rules attached with
    | .error (rule, fault) => .error (.invalidRule rule fault)
    | .ok engine => .ok engine

/-- The star table of buckets; a list of them must not be empty. -/
def starsOf : Option (List StarBucket) → Except WorkspaceFault (Option StarTable)
  | none => .ok none
  | some [] => .error .noBuckets
  | some buckets => .ok (some ⟨buckets⟩)

/-- The saved searches, or the first fault among them in the order of their names. -/
def savedOf (saved : Table (Except WorkspaceFault Term)) : Except WorkspaceFault (Table Term) :=
  let entries := saved.entries.map fun (name, query) => query.map (name, ·)
  (allOrFault entries).map Table.ofList

/-- The workspace of a document; its settings replace those given. -/
def ofDocument (base : Config) (d : Document) : Except WorkspaceFault Workspace := do
  let config := d.change.apply base
  config.validate.mapError .search
  let engine ← (engineOf d.rules d.properties).mapError .search
  let stars ← starsOf d.buckets
  let saved ← savedOf d.saved
  let query ←
    match d.query with
    | none => pure none
    | some query => query.map some
  return { engine, config, stars, saved, knownTags := d.knownTags, query }

def parse (base : Config) (text : String) : Except WorkspaceFault Workspace :=
  match (Yaml.Node.read? text).bind Document.ofNode? with
  | none => .error .malformed
  | some d => ofDocument base d

/-! ## Searching -/

def catalog (w : Workspace) : Catalog :=
  Catalog.ofTags w.engine (w.stars.getD ∅) w.config w.knownTags

def optimizer (w : Workspace) : Optimizer :=
  Optimizer.withLimit w.config.maxSteps

def compile (w : Workspace) (t : Term) : Except SearchError CompiledSearch :=
  w.catalog.search w.saved t

def search (w : Workspace) (t : Term) : Except SearchError CompiledSearch :=
  (w.compile t).map fun s => { s with expression := w.optimizer.optimize s.expression }

end Workspace
end TagQuery
