import TagQuery.Engine
import TagQuery.Expr

/-!
# Tags that rules ask for

Whether a tag would be missing or suggested, as an expression about the tags that a file holds and
rejects.

## Main definitions

- `Engine.holds`: a tag is held as itself, as a more special tag or under another name.
- `Engine.wanted`: a tag is asked for by a rule of a kind.
-/

namespace TagQuery.Engine

/-- A tag is held: as itself, as a more special tag or under another name of either. -/
def holds (e : Engine) (tag : String) : Expr :=
  .tag (e.withAliases (e.selfOrDescendants tag))

/-- A rule applies: all its left tags are held and none of its right tags. -/
def fires (e : Engine) (r : TagRule) : Expr :=
  .conjunction
    (r.left.toList.map e.holds ++ r.right.toList.map fun t => .negation (e.holds t))

/-- An exclusion does not stand in the way: one of its left tags is not held, or one of its right
tags outside the excluded set is not. -/
def escapes (e : Engine) (excluded : TagSet) (r : TagRule) : Expr :=
  .disjunction
    (r.left.toList.map (fun t => .negation (e.holds t)) ++
      (r.right.diff excluded).toList.map fun t => .negation (e.holds t))

/-- A tag is asked for by rules of a kind: it is not held, neither it nor a more general tag is
rejected, a rule with the tag on its right side applies, and no exclusion stands in the way. -/
def wanted (e : Engine) (op : RuleOperator) (target : String) : Expr :=
  let tag := e.rename target
  let below := e.selfOrDescendants tag
  let above := e.selfOrAncestors tag
  let rules := (e.rulesOf op).filter fun r => decide (tag ∈ r.right)
  let exclusions := (e.rulesOf .exclusion).filter fun r => !r.right.isDisjoint above
  .conjunction
    [.negation (.tag (e.withAliases below)),
      .negation (.rejectedTag (e.withAliases above)),
      .disjunction (rules.map e.fires),
      .conjunction (exclusions.map (e.escapes above))]

end TagQuery.Engine
