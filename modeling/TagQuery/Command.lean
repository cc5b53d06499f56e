import TagQuery.Analysis.Json
import TagQuery.Expr.Printer
import TagQuery.Sql.Script
import TagQuery.Term.Printer
import TagQuery.Text.Quoted
import TagQuery.Workspace

/-!
# Commands

What the command line can do with a workspace: explain its query, write the query as SQL, analyze
tags, and check the workspace.

## Main definitions

- `Command`: a command with its options.
- `Command.run`: the output of a command.
- `CommandFault.message`: the wording of a failure.
-/

namespace TagQuery

/-- Settings given with a command. -/
structure Overrides where
  hiddenTag : Option String
  similarMode : Option SimilarMode
  ratingCategory : Option String
  deriving DecidableEq, Repr

inductive Command where
  | explain (overrides : Overrides)
  | sql (overrides : Overrides)
  /-- The analysis of tags, or what is known about one tag. -/
  | analyze (info : Option String) (tags : List String)
  | validate
  deriving DecidableEq, Repr

inductive CommandFault where
  | workspace (fault : WorkspaceFault)
  | noQuery
  | search (error : SearchError)
  | invalidQuery (error : SearchError)
  | backend (fault : BackendFault)
  deriving DecidableEq

def CommandFault.message : CommandFault → String
  | .workspace fault => fault.message
  | .noQuery => "workspace has no `query:`"
  | .search error => error.message
  | .invalidQuery error =>
    "workspace parses but its query does not compile: " ++ error.message
  | .backend fault => fault.message

namespace Overrides

def none : Overrides := ⟨.none, .none, .none⟩

def apply (o : Overrides) (c : Config) : Config :=
  { c with
    hiddenTag := o.hiddenTag.getD c.hiddenTag
    similarMode := o.similarMode.getD c.similarMode
    ratingCategory := o.ratingCategory.getD c.ratingCategory }

end Overrides

namespace Command

def overrides : Command → Overrides
  | .explain o | .sql o => o
  | _ => .none

def load (base : Config) (o : Overrides) (text : String) : Except CommandFault Workspace := do
  let w ← (Workspace.parse base text).mapError .workspace
  let config := o.apply w.config
  config.validate.mapError .search
  return { w with config }

def queryOf (w : Workspace) : Except CommandFault Term :=
  match w.query with
  | some t => .ok t
  | none => .error .noQuery

/-! ## Output -/

def showTags (tags : TagSet) : String :=
  "\x7b" ++ ", ".intercalate (tags.toList.map Text.quoted) ++ "\x7d"

def showPolicy (s : CompiledSearch) : String :=
  if s.mentionsHidden then "included (query names a hidden tag)"
  else "excluded " ++ showTags s.hiddenTags

def explainText (w : Workspace) : Except CommandFault String := do
  let t ← queryOf w
  let s ← (w.compile t).mapError .search
  let optimized := w.optimizer.optimize s.expression
  return "\n".intercalate
    ["Search Plan",
      "===========",
      "Query:       " ++ t.render,
      "Compiled:    " ++ s.expression.render,
      "Optimized:   " ++ optimized.render,
      "Nodes:       " ++ toString s.expression.size ++ " -> " ++ toString optimized.size,
      "Hidden:      " ++ showPolicy s,
      "Passes:      " ++ ", ".intercalate w.optimizer.passNames,
      "Fingerprint: " ++ (Digest.ofJson optimized.toJson).toHex]

def sqlText (w : Workspace) : Except CommandFault String := do
  let s ← (w.search (← queryOf w)).mapError .search
  let scale : RatingScale := ⟨w.config.ratingCategory, w.stars.getD ∅⟩
  let script ← (Sql.Script.ofExpr scale s.expression).mapError .backend
  return "-- fingerprint: " ++ script.fingerprint.toHex ++ "\n" ++ script.text

def analyzeText (w : Workspace) (info : Option String) (tags : List String) : String :=
  match info with
  | some tag => (w.engine.describe tag).toJson.pretty
  | none => (w.engine.analyze tags).toJson.pretty

/-- What a workspace consists of, and that its query can be compiled. -/
def validateText (w : Workspace) : Except CommandFault String := do
  let summary :=
    "✓ Workspace is valid (" ++ toString w.engine.knownTags.size ++ " known tags, " ++
      toString w.saved.size ++ " saved searches)"
  match w.query with
  | none => return summary
  | some t =>
    let _ ← (w.compile t).mapError .invalidQuery
    return summary ++ "\n✓ Query compiles"

/-- The output of a command for the text of a workspace, whose settings replace those given. -/
def run (base : Config) (text : String) (c : Command) : Except CommandFault String := do
  let w ← load base c.overrides text
  match c with
  | .explain _ => explainText w
  | .sql _ => sqlText w
  | .analyze info tags => return analyzeText w info tags
  | .validate => validateText w

end Command
end TagQuery
