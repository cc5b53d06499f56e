import TagQuery.Rule
import TagQuery.TagName

/-!
# Rules as text

One rule a line: tags, a sign and tags, all separated by blanks. Two slashes start a comment.

## Main definitions

- `RuleTextFault`: why a line is no rule.
- `TagRule.parseLine`: the rule of a line, if it has one.
- `TagRule.parseText`: the rules of a text.
-/

namespace TagQuery

inductive RuleTextFault where
  | noOperator (line : String)
  | manyOperators (line : String)
  | invalid (rule : TagRule) (fault : RuleFault)
  deriving DecidableEq, Repr

def RuleFault.describe (rule : TagRule) (fault : RuleFault) : String :=
  "Invalid tag rule `" ++ rule.render ++ "`: " ++ fault.message

def RuleTextFault.message : RuleTextFault → String
  | .noOperator line => "no rule operator in `" ++ line ++ "`"
  | .manyOperators line => "more than one rule operator in `" ++ line ++ "`"
  | .invalid rule fault => fault.describe rule

/-- A line that is no rule, counted from one. -/
structure RuleTextError where
  line : Nat
  fault : RuleTextFault
  deriving DecidableEq, Repr

namespace TagRule

/-- The part of a line before its comment, without blanks around it. -/
def content (line : List Char) : List Char :=
  Text.trimBy Text.isBlank (Text.before ['/', '/'] line)

/-- The tags of a side; words that are only a hash mark name no tag. -/
def side (words : List String) : TagSet :=
  TagSet.ofList ((words.map normalizeTag).filter (· != ""))

def ofWords (left : List String) (op : RuleOperator) (right : List String) :
    Except RuleTextFault TagRule :=
  let rule : TagRule := ⟨side left, op, side right⟩
  match rule.fault? with
  | some fault => .error (.invalid rule fault)
  | none => .ok rule

/-- The words before the first sign, the sign, and the words after it. -/
def splitAtOperator : List String → Option (List String × RuleOperator × List String)
  | [] => none
  | w :: ws =>
    match RuleOperator.ofSymbol? w with
    | some op => some ([], op, ws)
    | none => (splitAtOperator ws).map fun (left, op, right) => (w :: left, op, right)

/-- The rule of a line, or `none` for a line without content. -/
def parseLine (line : List Char) : Except RuleTextFault (Option TagRule) :=
  let cs := content line
  let text := String.ofList cs
  if cs.isEmpty then .ok none
  else
    match splitAtOperator (Text.words text) with
    | none => .error (.noOperator text)
    | some (left, op, right) =>
      if (splitAtOperator right).isSome then .error (.manyOperators text)
      else (ofWords left op right).map some

/-- The rules of lines, the first of which is line `number`. -/
def parseLines (number : Nat) : List (List Char) → Except RuleTextError (List TagRule)
  | [] => .ok []
  | line :: rest =>
    match parseLine line with
    | .error fault => .error ⟨number, fault⟩
    | .ok rule => (parseLines (number + 1) rest).map (rule.toList ++ ·)

def parseText (text : String) : Except RuleTextError (List TagRule) :=
  parseLines 1 (Text.lines text.toList)

end TagRule
end TagQuery
