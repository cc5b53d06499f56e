import TagQuery.Term
import TagQuery.Text.Alphanumeric
import TagQuery.Text.Cut

/-!
# Writing terms

A term in the surface syntax, with the least parentheses. A value that is not a plain word is put
between double quotes, in which a quote is written twice.

## Main definitions

- `Term.render`: a term as text.
-/

namespace TagQuery.Term

/-! ## Words -/

def isWordChar (c : Char) : Bool :=
  c == '_' || c == '-' || c == '.' || c == '/' || c == '*' || c == '\'' || c == '+' ||
    Text.isAlphanumeric c

/-- Whether a character would start something else than a word. -/
def startsOther (c : Char) : Bool :=
  c == '-' || c == '#' || c == '@' || c == '\x7b' || c == '['

/-- Whether a text has to be quoted to be read as one word. -/
def needsQuotes (cs : List Char) : Bool :=
  match cs with
  | [] => true
  | c :: _ => startsOther c || cs == ['O', 'R'] || !cs.all isWordChar

def quote (cs : List Char) : List Char :=
  ['"'] ++ Text.replaceChar '"' ['"', '"'] cs ++ ['"']

def writeValue (s : String) : List Char :=
  if needsQuotes s.toList then quote s.toList else s.toList

/-- A field name, quoted where needed; the names `~`, `*` and `@` never are. -/
def writeName (s : String) : List Char :=
  if s = "~" ∨ s = "*" ∨ s = "@" then s.toList else writeValue s

/-! ## Terms -/

/-- A field with its value; tags and people have a short form. -/
def writeField (t : FieldTerm) : List Char :=
  match t.field with
  | none => writeValue t.value
  | some name =>
    if name = "tag" ∧ t.operator = .equal then '#' :: writeValue t.value
    else if name = "@" ∧ t.operator = .equal then '@' :: writeValue t.value
    else writeName name ++ t.operator.symbol.toList ++ writeValue t.value

def writePredicate (p : PropertyPredicate) : List Char :=
  match p.operator, p.value with
  | some op, some value => writeName p.field ++ op.symbol.toList ++ writeValue value
  | _, _ => writeName p.field

def joinChars (separator : List Char) (parts : List (List Char)) : List Char :=
  separator.intercalate parts

/-- Puts a child between parentheses when it binds less tightly than its parent. -/
def parenthesize (parent child : Nat) (cs : List Char) : List Char :=
  if child < parent then ['('] ++ cs ++ [')'] else cs

mutual
def write : Term → List Char
  | .conjunction terms => joinChars [' '] (writeAll 0 terms)
  | .disjunction terms => joinChars [' ', 'O', 'R', ' '] (writeAll 1 terms)
  | .negation t => '-' :: parenthesize 2 t.precedence t.write
  | .field t => writeField t
  | .properties predicates => ['['] ++ joinChars [' '] (predicates.map writePredicate) ++ [']']
  | .saved name =>
    ['\x7b'] ++ Text.replaceChar '\x7d' ['\x7d', '\x7d'] name.toList ++ ['\x7d']
termination_by structural t => t

/-- The characters of the children of a term that binds as tightly as `parent`. -/
def writeAll (parent : Nat) : List Term → List (List Char)
  | [] => []
  | t :: ts => parenthesize parent t.precedence t.write :: writeAll parent ts
termination_by structural ts => ts
end

def render (t : Term) : String :=
  String.ofList t.write

end TagQuery.Term
