/-!
# Places in a YAML text

Columns decide the structure of a block, and lines where a key may end, so every step through the
text keeps both.

## Main definitions

- `Yaml.Place`: a line, a column and an offset.
- `Yaml.prepare?`: the characters of a text, with one form of line break.
-/

namespace TagQuery.Yaml

/-! ## Characters -/

def isBreak (c : Char) : Bool :=
  c == '\n' || c == '\u2028' || c == '\u2029'

def isSpace (c : Char) : Bool :=
  c == ' ' || c == '\t'

/-- Whether a text starts with a space or a line break, or is at its end. -/
def atGap : List Char → Bool
  | [] => true
  | c :: _ => isSpace c || isBreak c

def atDocumentMark : List Char → Bool
  | '-' :: '-' :: '-' :: rest => atGap rest
  | '.' :: '.' :: '.' :: rest => atGap rest
  | _ => false

def isFlowMark (c : Char) : Bool :=
  c == ',' || c == '[' || c == ']' || c == '\x7b' || c == '\x7d'

/-! ## Places -/

/-- A line and a column, both counted from zero, and the number of characters before the place. -/
structure Place where
  line : Nat
  column : Nat
  offset : Nat
  deriving DecidableEq, Repr

namespace Place

def start : Place := ⟨0, 0, 0⟩

def after (p : Place) (c : Char) : Place :=
  if isBreak c then ⟨p.line + 1, 0, p.offset + 1⟩ else ⟨p.line, p.column + 1, p.offset + 1⟩

def along (p : Place) (count : Nat) : Place :=
  ⟨p.line, p.column + count, p.offset + count⟩

end Place

/-! ## Preparation -/

/-- Whether a character may occur in a text: all but control characters and two that are none. -/
def isAllowed (c : Char) : Bool :=
  c == '\t' || c == '\n' || c == '\r' || (0x20 ≤ c.toNat && c.toNat ≤ 0x7E) || c.toNat == 0x85 ||
    (0xA0 ≤ c.toNat && c.toNat ≤ 0xFFFD) || 0x10000 ≤ c.toNat

/-- The same characters with `\n` for each carriage return, its pair with `\n`, and next line
mark. -/
def unifyBreaks : List Char → List Char
  | [] => []
  | '\r' :: '\n' :: cs => '\n' :: unifyBreaks cs
  | c :: cs => (if c == '\r' || c == '\u0085' then '\n' else c) :: unifyBreaks cs

def prepare? (s : String) : Option (List Char) :=
  if s.toList.all isAllowed then some (unifyBreaks s.toList) else none

end TagQuery.Yaml
