import TagQuery.Expr

/-!
# Optimizer passes

The transformations of single nodes that make an expression simpler and keep its meaning. A sample
is a draw of its own: samples are never merged with or cancelled against each other.

## Main definitions

- `Pass`: a transformation with its name.
- `Pass.all`: the passes in the order in which they are tried.
-/

namespace TagQuery

/-- A transformation of single nodes; `none` where there is nothing to do. -/
structure Pass where
  name : String
  transform : Expr → Option Expr

namespace Pass

/-! ## Constants -/

/-- The parts of a conjunction without those that are always true, if there are such; a part that is
never true decides. -/
def unitsOfConjunction (parts : List Expr) : Option Expr :=
  if parts.any Expr.isNever then some .never
  else if parts.any Expr.isAlways then some (.conjunction (parts.filter fun e => !e.isAlways))
  else none

/-- The parts of a disjunction without those that are never true, if there are such; a part that is
always true decides. -/
def unitsOfDisjunction (parts : List Expr) : Option Expr :=
  if parts.any Expr.isAlways then some .always
  else if parts.any Expr.isNever then some (.disjunction (parts.filter fun e => !e.isNever))
  else none

/-- Constants among the parts of a group, empty sets of tags, and samples of all or nothing. -/
def eliminateUnits : Expr → Option Expr
  | .tag tags => if tags.isEmpty then some .never else none
  | .rejectedTag tags => if tags.isEmpty then some .never else none
  | .sample p =>
    if Real64.one.ble p then some .always
    else if p.ble (.zero false) then some .never
    else none
  | .conjunction parts => unitsOfConjunction parts
  | .disjunction parts => unitsOfDisjunction parts
  | _ => none

/-! ## Groups -/

def conjunctionParts? : Expr → Option (List Expr)
  | .conjunction parts => some parts
  | _ => none

def disjunctionParts? : Expr → Option (List Expr)
  | .disjunction parts => some parts
  | _ => none

/-- Replaces the parts that `inner?` recognizes by their own parts, if there are such. -/
def splice (inner? : Expr → Option (List Expr)) (parts : List Expr) : Option (List Expr) :=
  if parts.any fun e => (inner? e).isSome then
    some (parts.flatMap fun e => (inner? e).getD [e])
  else none

/-- A group inside a group of the same kind. -/
def flattenNested : Expr → Option Expr
  | .conjunction parts => (splice conjunctionParts? parts).map .conjunction
  | .disjunction parts => (splice disjunctionParts? parts).map .disjunction
  | _ => none

/-- Double negation, negated constants and groups of one. -/
def eliminateDegenerate : Expr → Option Expr
  | .negation (.negation e) => some e
  | .negation (.conjunction []) => some .never
  | .negation (.disjunction []) => some .always
  | .conjunction [e] => some e
  | .disjunction [e] => some e
  | _ => none

/-! ## Repetition -/

/-- Adds a tree to a list unless the list has an equal one; trees with samples are always added. -/
def addDistinct (kept : List Expr) (e : Expr) : List Expr :=
  if !e.hasSample && e.isAmong kept then kept else kept ++ [e]

def dedupe (parts : List Expr) : Option (List Expr) :=
  let kept := parts.foldl addDistinct []
  if kept.length = parts.length then none else some kept

/-- Whether a part is the negation of another, and draws no samples. -/
def hasComplement (parts : List Expr) : Bool :=
  parts.any fun
    | .negation e => !e.hasSample && e.isAmong parts
    | _ => false

/-- Repeated parts, and a part next to its negation. -/
def removeDuplicates : Expr → Option Expr
  | .conjunction parts =>
    if hasComplement parts then some .never else (dedupe parts).map .conjunction
  | .disjunction parts =>
    if hasComplement parts then some .always else (dedupe parts).map .disjunction
  | _ => none

/-! ## Negation -/

def negated? : Expr → Option Expr
  | .negation e => some e
  | _ => none

/-- Moves a negation into a disjunction, and out of a conjunction of negations. -/
def deMorgan : Expr → Option Expr
  | .negation (.disjunction (e :: es)) => some (.conjunction ((e :: es).map .negation))
  | .negation (.conjunction (e :: es)) =>
    if (e :: es).all fun x => (negated? x).isSome then
      some (.disjunction ((e :: es).filterMap negated?))
    else none
  | _ => none

/-! ## Sets of tags -/

inductive TagKind where
  | held
  | rejected
  deriving DecidableEq, Repr

def tagsOf? : Expr → Option (TagKind × TagSet)
  | .tag tags => some (.held, tags)
  | .rejectedTag tags => some (.rejected, tags)
  | _ => none

def negatedTagsOf? : Expr → Option (TagKind × TagSet)
  | .negation e => tagsOf? e
  | _ => none

def ofTags : TagKind → TagSet → Expr
  | .held, tags => .tag tags
  | .rejected, tags => .rejectedTag tags

def ofNegatedTags (kind : TagKind) (tags : TagSet) : Expr :=
  .negation (ofTags kind tags)

/-- All tags of one kind among the parts that `pick` recognizes. -/
def tagsAmong (pick : Expr → Option (TagKind × TagSet)) (kind : TagKind) (parts : List Expr) :
    TagSet :=
  TagSet.unions (((parts.filterMap pick).filter fun p => p.1 == kind).map Prod.snd)

/-- Puts `whole kind` in place of the first part of each kind and drops the others of that kind. -/
def mergeFrom (pick : Expr → Option (TagKind × TagSet)) (whole : TagKind → Expr)
    (seen : List TagKind) : List Expr → List Expr
  | [] => []
  | e :: es =>
    match pick e with
    | none => e :: mergeFrom pick whole seen es
    | some (kind, _) =>
      if kind ∈ seen then mergeFrom pick whole seen es
      else whole kind :: mergeFrom pick whole (kind :: seen) es

/-- Merges the parts of one kind that `pick` recognizes, if a kind has several. -/
def merge (pick : Expr → Option (TagKind × TagSet)) (wrap : TagKind → TagSet → Expr)
    (parts : List Expr) : Option (List Expr) :=
  let merged := mergeFrom pick (fun kind => wrap kind (tagsAmong pick kind parts)) [] parts
  if merged.length = parts.length then none else some merged

/-- Sets of held tags side by side in a disjunction, and negated ones in a conjunction. -/
def combineTagSets : Expr → Option Expr
  | .disjunction parts => (merge tagsOf? ofTags parts).map .disjunction
  | .conjunction parts => (merge negatedTagsOf? ofNegatedTags parts).map .conjunction
  | _ => none

def reducePart (target : Expr → Option (TagKind × TagSet)) (decided : TagKind → TagSet)
    (wrap : TagKind → TagSet → Expr) (e : Expr) : Expr :=
  match target e with
  | some (kind, tags) =>
    if tags.isDisjoint (decided kind) then e else wrap kind (tags.diff (decided kind))
  | none => e

def isReducible (target : Expr → Option (TagKind × TagSet)) (decided : TagKind → TagSet)
    (e : Expr) : Bool :=
  (target e).any fun p => !p.2.isDisjoint (decided p.1)

/-- Takes the tags of the parts that `decider` recognizes out of those that `target` recognizes, if
they have such tags. -/
def reduce (target decider : Expr → Option (TagKind × TagSet)) (wrap : TagKind → TagSet → Expr)
    (parts : List Expr) : Option (List Expr) :=
  let decided := fun kind => tagsAmong decider kind parts
  if parts.any (isReducible target decided) then some (parts.map (reducePart target decided wrap))
  else none

/-- Tags of a set that a sibling decides: held ones beside excluded ones in a conjunction, and
excluded ones beside held ones in a disjunction. -/
def reduceTagSets : Expr → Option Expr
  | .conjunction parts => (reduce tagsOf? negatedTagsOf? ofTags parts).map .conjunction
  | .disjunction parts => (reduce negatedTagsOf? tagsOf? ofNegatedTags parts).map .disjunction
  | _ => none

/-! ## All passes -/

/-- The passes in the order in which they are tried. -/
def all : List Pass :=
  [⟨"eliminate-units", eliminateUnits⟩,
    ⟨"flatten-nested", flattenNested⟩,
    ⟨"eliminate-degenerate", eliminateDegenerate⟩,
    ⟨"remove-duplicates", removeDuplicates⟩,
    ⟨"de-morgan", deMorgan⟩,
    ⟨"combine-tag-sets", combineTagSets⟩,
    ⟨"reduce-tag-sets", reduceTagSets⟩]

end Pass
end TagQuery
