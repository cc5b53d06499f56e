import TagQuery.Fault
import TagQuery.Table
import TagQuery.Term

/-!
# Compiling terms

The walk over a term, for any meaning of its parts. References to saved searches are replaced by
what is saved; a reference to a search that is just being replaced is a cycle.

## Main definitions

- `Context`: what the walk knows besides the term.
- `Compiler`: steps that may fail and that keep their context also when they do.
- `Dialect`: the meaning of the parts of a term.
- `Dialect.compile`: the meaning of a term.
-/

namespace TagQuery

/-- What the walk over a term knows besides the term. -/
structure Context where
  /-- The saved searches that are being replaced, the outermost first. -/
  expanding : List String
  /-- Whether the query names a hidden tag. -/
  mentionsHidden : Bool
  deriving DecidableEq, Repr

def Context.start : Context := ⟨[], false⟩

/-- Steps that may fail and that keep their context also when they do. -/
abbrev Compiler (α : Type) := ExceptT SearchError (StateM Context) α

namespace Compiler

/-- The outcome and the context after it. -/
def runFrom (m : Compiler α) (ctx : Context) : Except SearchError α × Context :=
  m.run.run ctx

def noteHidden : Compiler Unit :=
  modify fun ctx => { ctx with mentionsHidden := true }

/-- Does what `m` does while `name` is being replaced. However `m` ends, the last name of those that
are being replaced is taken off after it. -/
def whileExpanding (name : String) (m : Compiler α) : Compiler α :=
  fun ctx =>
    let (outcome, after) := m { ctx with expanding := ctx.expanding ++ [name] }
    (outcome, { after with expanding := after.expanding.dropLast })

end Compiler

/-- The meaning of the parts of a term. -/
structure Dialect (α : Type) where
  conjunction : List α → Compiler α
  disjunction : List α → Compiler α
  negation : α → Compiler α
  field : FieldTerm → Compiler α
  properties : List PropertyPredicate → Compiler α

namespace Dialect

mutual
/-- The meaning of a term in which `reference` gives the meaning of references. -/
def walk (d : Dialect α) (reference : String → Compiler α) : Term → Compiler α
  | .conjunction terms => do d.conjunction (← walkAll d reference terms)
  | .disjunction terms => do d.disjunction (← walkAll d reference terms)
  | .negation t => do d.negation (← walk d reference t)
  | .field t => d.field t
  | .properties ps => d.properties ps
  | .saved name => reference name
termination_by structural t => t

def walkAll (d : Dialect α) (reference : String → Compiler α) : List Term → Compiler (List α)
  | [] => pure []
  | t :: ts => do
    let a ← walk d reference t
    let as ← walkAll d reference ts
    return a :: as
termination_by structural ts => ts
end

/-- The entry of a name among saved searches, and the searches other than it. -/
def takeSaved (name : String) (saved : List (String × Term)) :
    Option (Term × { rest : List (String × Term) // rest.length < saved.length }) :=
  match saved with
  | [] => none
  | e :: es =>
    if e.1 = name then some (e.2, ⟨es, Nat.lt_succ_self _⟩)
    else
      (takeSaved name es).map fun (t, rest) =>
        (t, ⟨e :: rest.1, Nat.succ_lt_succ rest.2⟩)

/-- The meaning of a reference to one of the saved searches that are not being replaced. A name that
nothing is saved under matches nothing. -/
def reference (d : Dialect α) (saved : List (String × Term)) (name : String) : Compiler α := do
  if name ∈ (← get).expanding then
    throw (.savedSearchCycle ((← get).expanding ++ [name]))
  else
    match takeSaved name saved with
    | none => d.disjunction []
    | some (t, ⟨rest, _⟩) => Compiler.whileExpanding name (d.walk (d.reference rest) t)
termination_by saved.length

def compile (d : Dialect α) (saved : Table Term) (t : Term) : Compiler α :=
  d.walk (d.reference saved.entries) t

def compileQuery (d : Dialect α) (saved : Table Term) (t : Term) : Except SearchError α :=
  ((d.compile saved t).runFrom .start).1

end Dialect
end TagQuery
