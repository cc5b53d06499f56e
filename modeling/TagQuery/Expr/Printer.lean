import TagQuery.Expr

/-!
# Writing expressions

## Main definitions

- `Expr.render`: an expression as one line for people.
-/

namespace TagQuery.Expr

def renderBound (c : Comparison Nat) : String :=
  c.op.symbol ++ toString c.value

def renderTags (name : String) (tags : TagSet) : String :=
  name ++ "\x7b" ++ ",".intercalate tags.toList ++ "\x7d"

def renderGroup (separator : String) (parts : List String) : String :=
  "(" ++ separator.intercalate parts ++ ")"

mutual
/-- An expression as one line. -/
def render : Expr → String
  | .typeEquals t => "type=" ++ t
  | .typeStart t => "type^=" ++ t
  | .text t => "text(" ++ Text.quoted t ++ ")"
  | .hash h => "hash=" ++ h
  | .fileSize c => "size" ++ renderBound c
  | .copies c => "copies" ++ renderBound c
  | .tagCount c => "tags" ++ renderBound c
  | .peopleCount c => "people" ++ renderBound c
  | .ratingsCount c => "ratings" ++ renderBound c
  | .rating c => "rating" ++ c.op.symbol ++ RealLayout.plain.render c.value
  | .stars c => "stars" ++ c.op.symbol ++ toString c.value.toNat
  | .personId id => "person#" ++ toString id
  | .personName name => "person(" ++ Text.quoted name ++ ")"
  | .noPeople => "nopeople"
  | .tag tags => renderTags "tag" tags
  | .rejectedTag tags => renderTags "rejected" tags
  | .details field op value => "details." ++ field ++ op.symbol ++ value.render
  | .sample p => "sample(" ++ RealLayout.plain.render p ++ ")"
  | .conjunction [] => "true"
  | .disjunction [] => "false"
  | .conjunction (e :: es) => renderGroup " AND " (e.render :: renderAll es)
  | .disjunction (e :: es) => renderGroup " OR " (e.render :: renderAll es)
  | .negation e => "NOT " ++ e.render
termination_by structural e => e

def renderAll : List Expr → List String
  | [] => []
  | e :: es => e.render :: renderAll es
termination_by structural es => es
end

end TagQuery.Expr
