import Mathlib.Algebra.Group.Nat.Defs
import TagQuery.Number.Decimal
import TagQuery.Proofs.Sql.Lexer
import TagQuery.Proofs.Sql.Semantics

/-!
# Reading statements

The statement that a text stands for, by the precedence of SQL: OR binds weaker than AND, AND weaker
than NOT, and NOT weaker than relations. A text in any other form than scripts use is refused.

## Main definitions

- `Sql.readOr`: a condition.
- `Sql.readSelection`: a statement that selects rows.
- `Selection.ofText?`: the statement of a text.
-/

namespace TagQuery.Sql

open Number (isDigit ofDigits)

/-! ## Values -/

def expect (t : Token) : List Token → Option (List Token)
  | [] => none
  | u :: us => if u = t then some us else none

/-- The value of a number in text: an integer of 64 bits, or the nearest binary64 number. -/
def numeral (negative : Bool) (cs : List Char) : Option Value :=
  if cs.all isDigit then
    if ofDigits cs < 2 ^ 63 ∨ negative ∧ ofDigits cs = 2 ^ 63 then
      some (.integer (if negative then -(ofDigits cs : Int) else ofDigits cs))
    else some (.ofReal (Number.realOfDecimal negative (ofDigits cs) 0))
  else
    (Number.readDecimal cs).map fun d => .ofReal (Number.realOfDecimal negative d.digits d.exponent)

def readCount : List Token → Option (Nat × List Token)
  | .number cs :: ts => if cs.all isDigit then some (ofDigits cs, ts) else none
  | _ => none

def readOperand : List Token → Option (Scalar × List Token)
  | .text s :: ts => some (.constant (.text s), ts)
  | .number cs :: ts => (numeral false cs).map fun v => (.constant v, ts)
  | .sign .minus :: .number cs :: ts => (numeral true cs).map fun v => (.constant v, ts)
  | .name source :: .sign .dot :: .name column :: ts => some (.column source column, ts)
  | .name column :: ts => some (.column "" column, ts)
  | _ => none

def readScalar : List Token → Option (Scalar × List Token)
  | .keyword .coalesce :: .sign .opening :: ts => do
    let (a, ts) ← readOperand ts
    let ts ← expect (.sign .comma) ts
    let (b, ts) ← readOperand ts
    let ts ← expect (.sign .closing) ts
    return (.coalesce a b, ts)
  | .keyword .typeof :: .sign .opening :: ts => do
    let (a, ts) ← readOperand ts
    let ts ← expect (.sign .closing) ts
    return (.kind a, ts)
  | .keyword .substr :: .sign .opening :: ts => do
    let (a, ts) ← readOperand ts
    let ts ← expect (.sign .comma) ts
    let (start, ts) ← readCount ts
    let ts ← expect (.sign .comma) ts
    let (length, ts) ← readCount ts
    let ts ← expect (.sign .closing) ts
    return (.substring a start length, ts)
  | ts => readOperand ts

/-! ## Conditions -/

def relationOf : Sign → Option CompareOp
  | .equal => some .equal
  | .less => some .less
  | .lessOrEqual => some .lessOrEqual
  | .greater => some .greater
  | .greaterOrEqual => some .greaterOrEqual
  | _ => none

/-- Reads literals up to the end of a group. -/
def readTexts : List Token → Option (List Value × List Token)
  | .text s :: .sign .closing :: ts => some ([.text s], ts)
  | .text s :: .sign .comma :: ts => (readTexts ts).map fun (values, ts) => (.text s :: values, ts)
  | _ => none

/-- Reads whether a relation holds up to the case of ASCII letters. -/
def readCollation : List Token → Bool × List Token
  | .keyword .collate :: .keyword .nocase :: ts => (true, ts)
  | ts => (false, ts)

/-- Reads what follows the left side of a test. -/
def readTestOf (a : Scalar) : List Token → Option (Formula × List Token)
  | .sign s :: ts => do
    let op ← relationOf s
    let (b, ts) ← readScalar ts
    let (fold, ts) := readCollation ts
    return (.compare op fold a b, ts)
  | .keyword .is :: .keyword .not :: .keyword .null :: ts => some (.isNotNull a, ts)
  | .keyword .in :: .sign .opening :: ts => do
    let (values, ts) ← readTexts ts
    return (.isAmong a values, ts)
  | .keyword .like :: ts => do
    let (pattern, ts) ← readScalar ts
    let ts ← expect (.keyword .escape) ts
    let (escape, ts) ← readScalar ts
    return (.like a pattern escape, ts)
  | _ => none

def readTest (ts : List Token) : Option (Formula × List Token) := do
  let (a, ts) ← readScalar ts
  readTestOf a ts

mutual
/-- Reads conditions with OR between them; each call uses up fuel. -/
def readOr : Nat → List Token → Option (Formula × List Token)
  | 0, _ => none
  | n + 1, ts => do
    let (f, ts) ← readAnd n ts
    match ts with
    | .keyword .or :: ts => do
      let (g, ts) ← readOr n ts
      return (.or f g, ts)
    | ts => return (f, ts)
termination_by structural n => n

def readAnd : Nat → List Token → Option (Formula × List Token)
  | 0, _ => none
  | n + 1, ts => do
    let (f, ts) ← readNot n ts
    match ts with
    | .keyword .and :: ts => do
      let (g, ts) ← readAnd n ts
      return (.and f g, ts)
    | ts => return (f, ts)
termination_by structural n => n

/-- Reads a negation, a group, a subselect or a test. -/
def readNot : Nat → List Token → Option (Formula × List Token)
  | 0, _ => none
  | n + 1, .keyword .not :: ts => do
    let (f, ts) ← readNot n ts
    return (.not f, ts)
  | n + 1, .sign .opening :: ts => do
    let (f, ts) ← readOr n ts
    let ts ← expect (.sign .closing) ts
    return (f, ts)
  | n + 1, .keyword .exists :: .sign .opening :: .keyword .select :: .number _ :: .keyword .from ::
      .name table :: .name name :: ts => do
    let (sources, conditions, ts) ← readJoins n ts
    let ts ← expect (.keyword .where) ts
    let (f, ts) ← readOr n ts
    let ts ← expect (.sign .closing) ts
    return (.exists (⟨table, name⟩ :: sources) (conditions.foldr .and f), ts)
  | _ + 1, ts => readTest ts
termination_by structural n => n

/-- Reads the joins of a subselect: the sources, and the conditions between them. -/
def readJoins : Nat → List Token → Option (List Source × List Formula × List Token)
  | 0, _ => none
  | n + 1, .keyword .join :: .name table :: .name name :: .keyword .on :: ts => do
    let (f, ts) ← readOr n ts
    let (sources, conditions, ts) ← readJoins n ts
    return (⟨table, name⟩ :: sources, f :: conditions, ts)
  | _ + 1, ts => some ([], [], ts)
termination_by structural n => n
end

theorem readNot_zero (ts : List Token) : readNot 0 ts = none := by
  rw [readNot]

theorem readAnd_of_readNot {n : Nat} {ts rest : List Token} {f : Formula}
    (h : readNot n ts = some (f, rest)) (hrest : rest.head? ≠ some (.keyword .and)) :
    readAnd (n + 1) ts = some (f, rest) := by
  simp only [readAnd, h, Option.bind_eq_bind, Option.bind_some]
  split
  · exact absurd rfl hrest
  · rfl

theorem readOr_of_readAnd {n : Nat} {ts rest : List Token} {f : Formula}
    (h : readAnd n ts = some (f, rest)) (hrest : rest.head? ≠ some (.keyword .or)) :
    readOr (n + 1) ts = some (f, rest) := by
  simp only [readOr, h, Option.bind_eq_bind, Option.bind_some]
  split
  · exact absurd rfl hrest
  · rfl

/-! ## Statements -/

def readColumns : List Token → Option (List (String × String) × List Token)
  | .name source :: .sign .dot :: .name column :: .sign .comma :: ts =>
    (readColumns ts).map fun (columns, ts) => ((source, column) :: columns, ts)
  | .name source :: .sign .dot :: .name column :: ts => some ([(source, column)], ts)
  | _ => none

def readOutputs : List Token → Option (List (Output × String) × List Token)
  | .name column :: .sign .comma :: ts =>
    (readOutputs ts).map fun (outputs, ts) => ((.column column, column) :: outputs, ts)
  | .name column :: ts => some ([(.column column, column)], ts)
  | .keyword .count :: .sign .opening :: .sign .star :: .sign .closing :: .keyword .as ::
      .name name :: ts => some ([(.count, name)], ts)
  | _ => none

def readWhere (fuel : Nat) : List Token → Option (Option Formula × List Token)
  | .keyword .where :: ts => (readOr fuel ts).map fun (f, ts) => (some f, ts)
  | ts => some (none, ts)

def readGroupBy : List Token → Option String × List Token
  | .keyword .group :: .keyword .by :: .name column :: ts => (some column, ts)
  | ts => (none, ts)

def readSubselect (fuel : Nat) (ts : List Token) : Option (Subselect × List Token) := do
  let ts ← expect (.keyword .select) ts
  let (outputs, ts) ← readOutputs ts
  match ts with
  | .keyword .from :: .name table :: ts => do
    let (condition, ts) ← readWhere fuel ts
    let (groupBy, ts) := readGroupBy ts
    return (⟨outputs, table, condition, groupBy⟩, ts)
  | _ => none

/-- Reads the joins of a statement; each uses up fuel. -/
def readLeftJoins : Nat → List Token → Option (List LeftJoin × List Token)
  | n + 1, .keyword .left :: .keyword .join :: .sign .opening :: ts => do
    let (select, ts) ← readSubselect n ts
    match ts with
    | .sign .closing :: .name name :: .keyword .on :: ts => do
      let (f, ts) ← readOr n ts
      let (joins, ts) ← readLeftJoins n ts
      return (⟨select, name, f⟩ :: joins, ts)
    | _ => none
  | _, ts => some ([], ts)

/-- Reads a statement that stores the rows it selects. -/
def readSelection (fuel : Nat) : List Token → Option Selection
  | .keyword .create :: .keyword .temp :: .keyword .table :: .name _ :: .keyword .as ::
      .keyword .select :: ts => do
    let (columns, ts) ← readColumns ts
    match ts with
    | .keyword .from :: .name table :: .name name :: ts => do
      let (joins, ts) ← readLeftJoins fuel ts
      let ts ← expect (.keyword .where) ts
      let (f, ts) ← readOr fuel ts
      if ts = [.sign .semicolon] then some ⟨columns, ⟨table, name⟩, joins, f⟩ else none
    | _ => none
  | _ => none

def Selection.ofText? (text : String) : Option Selection :=
  let tokens := tokenize text.toList
  readSelection (4 * tokens.length) tokens

end TagQuery.Sql
