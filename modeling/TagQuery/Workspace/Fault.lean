import TagQuery.Fault

/-!
# Faults of workspaces

## Main definitions

- `WorkspaceFault`: why a workspace is refused.
- `WorkspaceFault.message`: the wording of a fault.
-/

namespace TagQuery

inductive WorkspaceFault where
  /-- The text is no document, or the document has not the shape of a workspace. -/
  | malformed
  | unknownOperator (symbol : String)
  /-- The value that a property is compared with is a collection. -/
  | notScalar (property : String)
  | noBuckets
  | search (error : SearchError)
  deriving DecidableEq

def WorkspaceFault.message : WorkspaceFault → String
  | .malformed => "YAML error"
  | .unknownOperator symbol => "invalid workspace: unknown operator `" ++ symbol ++ "`"
  | .notScalar property =>
    "invalid workspace: property `" ++ property ++ "` needs a scalar value"
  | .noBuckets => "invalid workspace: star_ranges must list at least one bucket"
  | .search error => error.message

end TagQuery
