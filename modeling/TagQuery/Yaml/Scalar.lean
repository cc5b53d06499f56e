import TagQuery.Number.Integer
import TagQuery.Yaml.Place

/-!
# Written scalars

The three ways to write a scalar: plain, in quotes, and as a block of lines. Line breaks inside
plain and quoted scalars are folded: a single one is a space, and of several the first is dropped.

## Main definitions

- `Yaml.Style`: how a scalar is written.
- `Yaml.Gap`: the blanks and line breaks between two parts of a scalar.
- `Yaml.Scanned`: the text of a scalar, and where the document goes on.
- `Yaml.plainFrom?`, `Yaml.quotedFrom?`, `Yaml.blockFrom?`: the three forms.
-/

namespace TagQuery.Yaml

inductive Style where
  | plain
  | quoted
  /-- A block whose lines are kept apart. -/
  | literal
  /-- A block whose lines are folded. -/
  | folded
  deriving DecidableEq, Repr

/-! ## Folding -/

inductive Gap where
  /-- Spaces of one line. -/
  | spaces (chars : List Char)
  /-- A first line break, which is empty if it was escaped, and those after it. -/
  | breaks (first more : List Char)
  deriving DecidableEq, Repr

namespace Gap

def empty : Gap := .spaces []

def isEmpty (g : Gap) : Bool := g == .empty

def isBroken : Gap → Bool
  | .spaces _ => false
  | .breaks _ _ => true

/-- One more space; after a line break it is indentation. -/
def addSpace (c : Char) : Gap → Gap
  | .spaces cs => .spaces (cs ++ [c])
  | .breaks first more => .breaks first more

/-- One more line break, which drops spaces at the end of the line. -/
def addBreak (c : Char) : Gap → Gap
  | .spaces _ => .breaks [c] []
  | .breaks first more => .breaks first (more ++ [c])

def text : Gap → List Char
  | .spaces cs => cs
  | .breaks ['\n'] [] => [' ']
  | .breaks ['\n'] more => more
  | .breaks first more => first ++ more

end Gap

/-- The text of a scalar, and where the document goes on. -/
structure Scanned where
  text : List Char
  /-- Whether a line break lies between the scalar and the rest. -/
  isBroken : Bool
  place : Place
  rest : List Char

/-! ## Plain scalars -/

/-- Whether a plain scalar ends before a character: at a mark for a value, a mark of flow
collections, a comment, a document mark, or a line that is indented too little. -/
def endsPlain (inFlow : Bool) (margin : Nat) (gap : Gap) (place : Place) (c : Char)
    (cs : List Char) : Bool :=
  (!gap.isEmpty && (c == '#' || (!inFlow && place.column < margin))) ||
    (place.column == 0 && atDocumentMark (c :: cs)) || (c == ':' && atGap cs) ||
    (inFlow && isFlowMark c)

/-- Reads on in a plain scalar; `text` is what was read, in reverse order. -/
def plainFrom? (inFlow : Bool) (margin : Nat) (text : List Char) (gap : Gap) (place : Place) :
    List Char → Option Scanned
  | [] => some ⟨text.reverse, gap.isBroken, place, []⟩
  | c :: cs =>
    if isSpace c then
      if gap.isBroken && place.column < margin && c == '\t' then none
      else plainFrom? inFlow margin text (gap.addSpace c) (place.after c) cs
    else if isBreak c then plainFrom? inFlow margin text (gap.addBreak c) (place.after c) cs
    else if endsPlain inFlow margin gap place c cs then
      some ⟨text.reverse, gap.isBroken, place, c :: cs⟩
    else if inFlow && c == ':' && cs.head?.any (fun d => d == '?' || isFlowMark d) then none
    else plainFrom? inFlow margin (c :: gap.text.reverse ++ text) .empty (place.after c) cs

/-! ## Quoted scalars -/

/-- The number of digits of the code that follows an escaped letter. -/
def codeLength? : Char → Option Nat
  | 'x' => some 2
  | 'u' => some 4
  | 'U' => some 8
  | _ => none

def escaped? : Char → Option Char
  | '0' => some '\x00'
  | 'a' => some '\x07'
  | 'b' => some '\x08'
  | 't' => some '\t'
  | '\t' => some '\t'
  | 'n' => some '\n'
  | 'v' => some '\x0b'
  | 'f' => some '\x0c'
  | 'r' => some '\r'
  | 'e' => some '\x1b'
  | ' ' => some ' '
  | '"' => some '"'
  | '/' => some '/'
  | '\\' => some '\\'
  | 'N' => some '\u0085'
  | '_' => some '\u00A0'
  | 'L' => some '\u2028'
  | 'P' => some '\u2029'
  | _ => none

/-- A code inside a quoted scalar: how many digits are still to come, and the number so far. -/
structure Code where
  left : Nat
  value : Nat

def Code.char? (value : Nat) : Option Char :=
  if value.isValidChar then some (Char.ofNat value) else none

/-- Reads on in a quoted scalar up to the closing quote; `text` is what was read, in reverse
order. -/
def quotedFrom? (isDouble : Bool) (text : List Char) (gap : Gap) (code : Option Code)
    (place : Place) : List Char → Option Scanned
  | [] => none
  | c :: cs =>
    match code with
    | some ⟨left, value⟩ =>
      match Number.digitOf? 16 c with
      | none => none
      | some digit =>
        let value := value * 16 + digit
        if 1 < left then
          quotedFrom? isDouble text gap (some ⟨left - 1, value⟩) (place.after c) cs
        else
          match Code.char? value with
          | none => none
          | some d => quotedFrom? isDouble (d :: text) gap none (place.after c) cs
    | none =>
      if place.column == 0 && atDocumentMark (c :: cs) then none
      else if isSpace c then
        quotedFrom? isDouble text (gap.addSpace c) none (place.after c) cs
      else if isBreak c then
        quotedFrom? isDouble text (gap.addBreak c) none (place.after c) cs
      else
        let text := gap.text.reverse ++ text
        if isDouble then
          if c == '"' then some ⟨text.reverse, false, place.after c, cs⟩
          else if c == '\\' then
            match cs with
            | [] => none
            | d :: ds =>
              let next := (place.after c).after d
              if isBreak d then quotedFrom? isDouble text (.breaks [] []) none next ds
              else
                match codeLength? d, escaped? d with
                | some length, _ => quotedFrom? isDouble text .empty (some ⟨length, 0⟩) next ds
                | none, some e => quotedFrom? isDouble (e :: text) .empty none next ds
                | none, none => none
          else quotedFrom? isDouble (c :: text) .empty none (place.after c) cs
        else if c == '\'' then
          match cs with
          | '\'' :: ds =>
            quotedFrom? isDouble ('\'' :: text) .empty none ((place.after c).after c) ds
          | _ => some ⟨text.reverse, false, place.after c, cs⟩
        else quotedFrom? isDouble (c :: text) .empty none (place.after c) cs

/-! ## Blocks of lines -/

/-- What happens to the line breaks at the end of a block. -/
inductive Chomping where
  /-- All are dropped. -/
  | strip
  /-- The first is kept. -/
  | clip
  /-- All are kept. -/
  | keep
  deriving DecidableEq, Repr

/-- How a block is written: whether its lines are kept apart, the treatment of its end, and its
indentation if that is given. -/
structure BlockHeader where
  isLiteral : Bool
  chomping : Chomping
  indentation : Option Nat
  deriving DecidableEq, Repr

def Chomping.ofChar? : Char → Option Chomping
  | '-' => some .strip
  | '+' => some .keep
  | _ => none

def indentationOf? (c : Char) : Option Nat :=
  if '1' ≤ c ∧ c ≤ '9' then some (c.toNat - '0'.toNat) else none

/-- The indicators at the start of a header, in either order, and what follows them. -/
def indicators (isLiteral : Bool) (cs : List Char) : BlockHeader × List Char :=
  match cs with
  | [] => (⟨isLiteral, .clip, none⟩, [])
  | c :: cs =>
    match Chomping.ofChar? c, indentationOf? c with
    | some chomping, _ =>
      match cs.head?.bind indentationOf? with
      | some n => (⟨isLiteral, chomping, some n⟩, cs.drop 1)
      | none => (⟨isLiteral, chomping, none⟩, cs)
    | none, some n =>
      match cs.head?.bind Chomping.ofChar? with
      | some chomping => (⟨isLiteral, chomping, some n⟩, cs.drop 1)
      | none => (⟨isLiteral, .clip, some n⟩, cs)
    | none, none => (⟨isLiteral, .clip, none⟩, c :: cs)

/-- The header of a block, from the rest of its line; a comment may follow. -/
def BlockHeader.read? (isLiteral : Bool) (line : List Char) : Option BlockHeader :=
  let (header, rest) := indicators isLiteral line
  match rest.dropWhile isSpace with
  | [] => some header
  | c :: _ => if c == '#' then some header else none

/-- The text of a block up to the line being read, in reverse order, the break that ended its last
line, and those of the empty lines after it. -/
structure BlockText where
  text : List Char
  lineBreak : List Char
  emptyLines : List Char
  /-- Whether the last line starts with a space, so that it is not folded. -/
  startsWithSpace : Bool

namespace BlockText

def empty : BlockText := ⟨[], [], [], false⟩

/-- Starts a line with its first character; in a block that is not literal, lines are folded. -/
def startLine (isLiteral : Bool) (c : Char) (b : BlockText) : BlockText :=
  let folds := !isLiteral && b.lineBreak == ['\n'] && !b.startsWithSpace && !isSpace c
  let joint :=
    if folds then (if b.emptyLines.isEmpty then [' '] else b.emptyLines)
    else b.lineBreak ++ b.emptyLines
  ⟨c :: joint.reverse ++ b.text, [], [], isSpace c⟩

def finish (chomping : Chomping) (b : BlockText) : List Char :=
  match chomping with
  | .strip => b.text.reverse
  | .clip => b.text.reverse ++ b.lineBreak
  | .keep => b.text.reverse ++ b.lineBreak ++ b.emptyLines

end BlockText

/-- Where the reader of a block stands: inside a line, or before one. The indentation is that of the
first line, unless the header gives it; until it is known, the widest empty line counts. -/
structure BlockState where
  inLine : Bool
  indentation : Option Nat
  widest : Nat
  block : BlockText

/-- Reads on in a block whose lines are indented by at least `least`. -/
def blockFrom? (header : BlockHeader) (least : Nat) (s : BlockState) (place : Place) :
    List Char → Option Scanned
  | [] => some ⟨s.block.finish header.chomping, true, place, []⟩
  | c :: cs =>
    if s.inLine then
      let block : BlockText :=
        if isBreak c then { s.block with lineBreak := [c], emptyLines := [] }
        else { s.block with text := c :: s.block.text }
      blockFrom? header least { s with inLine := !isBreak c, block } (place.after c) cs
    else
      let widest := max s.widest place.column
      if isBreak c then
        let block := { s.block with emptyLines := s.block.emptyLines ++ [c] }
        blockFrom? header least { s with widest, block } (place.after c) cs
      else if isSpace c && s.indentation.all (place.column < ·) then
        if c == '\t' then none else blockFrom? header least s (place.after c) cs
      else
        let indentation := s.indentation.getD (max widest least)
        if place.column == indentation then
          blockFrom? header least
            ⟨true, some indentation, widest, s.block.startLine header.isLiteral c⟩ (place.after c) cs
        else some ⟨s.block.finish header.chomping, true, place, c :: cs⟩

end TagQuery.Yaml
