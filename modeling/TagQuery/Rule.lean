import TagQuery.TagSet

/-!
# Tag rules

A rule relates two sets of tags: a new name for a tag, tags that follow from others, tags worth
suggesting, tags that exclude others, and tags that are special cases of others.

## Main definitions

- `RuleOperator`: the kinds of rules.
- `TagRule`: a rule.
- `TagRule.fault?`: why a rule is not acceptable.
- `TagRule.insertSorted`: sets of rules as increasing lists.
-/

namespace TagQuery

inductive RuleOperator where
  /-- The left tag is another name of the right one. -/
  | definition
  | implication
  | bidirectionalImplication
  | suggestion
  | bidirectionalSuggestion
  | exclusion
  | mutualExclusion
  /-- The left tag is a kind of the right one. -/
  | specialization
  deriving DecidableEq, Repr

namespace RuleOperator

def all : List RuleOperator :=
  [.definition, .implication, .bidirectionalImplication, .suggestion, .bidirectionalSuggestion,
    .exclusion, .mutualExclusion, .specialization]

def rank : RuleOperator → Nat
  | .definition => 0
  | .implication => 1
  | .bidirectionalImplication => 2
  | .suggestion => 3
  | .bidirectionalSuggestion => 4
  | .exclusion => 5
  | .mutualExclusion => 6
  | .specialization => 7

def symbol : RuleOperator → String
  | .definition => "=>"
  | .implication => "->"
  | .bidirectionalImplication => "<->"
  | .suggestion => "~>"
  | .bidirectionalSuggestion => "<~>"
  | .exclusion => "!>"
  | .mutualExclusion => "<!>"
  | .specialization => "::"

def ofSymbol? (s : String) : Option RuleOperator :=
  all.find? (·.symbol == s)

def name : RuleOperator → String
  | .definition => "Definition"
  | .implication => "Implication"
  | .bidirectionalImplication => "BidirectionalImplication"
  | .suggestion => "Suggestion"
  | .bidirectionalSuggestion => "BidirectionalSuggestion"
  | .exclusion => "Exclusion"
  | .mutualExclusion => "MutualExclusion"
  | .specialization => "Specialization"

def ofName? (s : String) : Option RuleOperator :=
  all.find? (·.name == s)

/-- Kinds whose sides hold exactly one tag each. -/
def needsSingletons : RuleOperator → Bool
  | .definition | .specialization => true
  | _ => false

/-- The kind of one direction of a rule that holds in both. -/
def oneWay? : RuleOperator → Option RuleOperator
  | .bidirectionalImplication => some .implication
  | .bidirectionalSuggestion => some .suggestion
  | .mutualExclusion => some .exclusion
  | _ => none

end RuleOperator

/-- A rule between two sets of tags. -/
structure TagRule where
  left : TagSet
  operator : RuleOperator
  right : TagSet
  deriving DecidableEq, Repr

inductive RuleFault where
  | emptySide
  | notSingle (operator : RuleOperator)
  deriving DecidableEq, Repr

def RuleFault.message : RuleFault → String
  | .emptySide => "both sides need at least one tag"
  | .notSingle op => "`" ++ op.symbol ++ "` takes exactly one tag on each side"

namespace TagRule

/-- The rule as text: the tags of both sides around the sign. -/
def render (r : TagRule) : String :=
  " ".intercalate r.left.toList ++ " " ++ r.operator.symbol ++ " " ++
    " ".intercalate r.right.toList

def fault? (r : TagRule) : Option RuleFault :=
  if r.left.isEmpty || r.right.isEmpty then some .emptySide
  else if r.operator.needsSingletons && (r.left.size != 1 || r.right.size != 1) then
    some (.notSingle r.operator)
  else none

/-! ## Sets of rules -/

/-- The order of rules: by the left tags, then the kind, then the right tags. -/
def precedes (a b : TagRule) : Bool :=
  decide (a.left.toList < b.left.toList) ||
    a.left == b.left &&
      (decide (a.operator.rank < b.operator.rank) ||
        a.operator == b.operator && decide (a.right.toList < b.right.toList))

def insertSorted (r : TagRule) : List TagRule → List TagRule
  | [] => [r]
  | s :: ss =>
    if r.precedes s then r :: s :: ss
    else if r = s then s :: ss
    else s :: insertSorted r ss

def sortDistinct (rules : List TagRule) : List TagRule :=
  rules.foldr insertSorted []

end TagRule
end TagQuery
