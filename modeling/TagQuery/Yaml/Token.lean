import TagQuery.Yaml.Scalar
import TagQuery.Yaml.Tag

/-!
# YAML tokens

The tokens of a document. Indentation becomes tokens that open and close collections, and a scalar
that turns out to be a key gets its token when the mark after it is found.

## Main definitions

- `Yaml.Token`: a token.
- `Yaml.Scanner`: where the reader of a text stands.
- `Yaml.scan?`: the tokens of a text.
-/

namespace TagQuery.Yaml

inductive Token where
  | documentStart
  | documentEnd
  /-- Indentation opens a sequence or a mapping, and closes the innermost of them. -/
  | blockSequence
  | blockMapping
  | blockEnd
  | flowSequence
  | flowSequenceEnd
  | flowMapping
  | flowMappingEnd
  /-- An item of a block sequence. -/
  | entry
  | comma
  | key
  | value
  | scalar (style : Style) (text : String)
  /-- The name of the node after it. -/
  | anchor (name : String)
  /-- Another occurrence of the node with a name. -/
  | reference (name : String)
  | tag (written : WrittenTag)
  | directive (line : Directive)
  deriving DecidableEq, Repr

/-- A place where a key may have started. -/
structure PossibleKey where
  place : Place
  /-- The number of tokens before the key. -/
  index : Nat
  /-- Whether nothing but a key may stand there. -/
  isRequired : Bool
  deriving DecidableEq, Repr

structure Scanner where
  tokens : Array Token
  place : Place
  rest : List Char
  /-- The columns of the open blocks, innermost first. -/
  blocks : List Nat
  /-- The possible key of each open flow collection, innermost first, and of the blocks. -/
  keys : List (Option PossibleKey)
  /-- Whether a key may start here. -/
  keyAllowed : Bool

namespace Scanner

/-- The start of a text. A byte order mark there takes up a column and is no part of a token. -/
def start (cs : List Char) : Scanner :=
  let place := if cs.head? == some '\uFEFF' then Place.start.along 1 else .start
  ⟨#[], place, cs.drop place.offset, [], [none], true⟩

def inFlow (s : Scanner) : Bool := 1 < s.keys.length

/-- The least column of what belongs to the innermost block. -/
def margin (s : Scanner) : Nat :=
  match s.blocks with
  | [] => 0
  | column :: _ => column + 1

def take (t : Token) (count : Nat) (s : Scanner) : Scanner :=
  { s with
    tokens := s.tokens.push t
    place := s.place.along count
    rest := s.rest.drop count }

/-! ## Keys -/

/-- Gives up the possible key of the innermost collection. -/
def dropKey? (s : Scanner) : Option Scanner :=
  match s.keys with
  | some key :: outer => if key.isRequired then none else some { s with keys := none :: outer }
  | _ => some s

/-- Notes that a key may start here. At the column of the innermost block nothing else may. -/
def noteKey? (s : Scanner) : Option Scanner :=
  if s.keyAllowed then
    s.dropKey?.map fun s =>
      let key : PossibleKey :=
        ⟨s.place, s.tokens.size, !s.inFlow && s.blocks.head? == some s.place.column⟩
      { s with keys := some key :: s.keys.tail }
  else some s

def maxKeyLength : Nat := 1024

/-- Gives up possible keys that started on an earlier line or too far away. -/
def expireKeys? (s : Scanner) : Option Scanner :=
  let expire : Option PossibleKey → Option (Option PossibleKey)
    | none => some none
    | some key =>
      if key.place.line < s.place.line || key.place.offset + maxKeyLength < s.place.offset then
        if key.isRequired then none else some none
      else some (some key)
  (s.keys.mapM expire).map fun keys => { s with keys }

/-! ## Blocks -/

/-- Closes the open blocks whose column satisfies `p`; flow collections ignore indentation. -/
def closeBlocks (p : Nat → Bool) (s : Scanner) : Scanner :=
  if s.inFlow then s
  else
    let closed := s.blocks.takeWhile p
    { s with
      tokens := s.tokens ++ (closed.map fun _ => Token.blockEnd).toArray
      blocks := s.blocks.dropWhile p }

/-- Opens a block at a column that lies inside the innermost one; its token comes after `index`
others. -/
def openBlock (t : Token) (index column : Nat) (s : Scanner) : Scanner :=
  if !s.inFlow && s.blocks.head?.all (· < column) then
    { s with tokens := s.tokens.insertIdxIfInBounds index t, blocks := column :: s.blocks }
  else s

/-- Opens a block here. Outside of flow collections a key must be allowed. -/
def openBlockHere? (t : Token) (s : Scanner) : Option Scanner :=
  if s.inFlow then some s
  else if s.keyAllowed then some (s.openBlock t s.tokens.size s.place.column)
  else none

/-! ## Single tokens -/

def documentMark? (t : Token) (s : Scanner) : Option Scanner := do
  let s ← (s.closeBlocks fun _ => true).dropKey?
  return { s.take t 3 with keyAllowed := false }

def flowStart? (t : Token) (s : Scanner) : Option Scanner := do
  let s ← s.noteKey?
  return { s.take t 1 with keys := none :: s.keys, keyAllowed := true }

def flowEnd? (t : Token) (s : Scanner) : Option Scanner := do
  let s ← s.dropKey?
  return { s.take t 1 with keys := if s.inFlow then s.keys.tail else s.keys, keyAllowed := false }

def comma? (s : Scanner) : Option Scanner := do
  let s ← s.dropKey?
  return { s.take .comma 1 with keyAllowed := true }

def entry? (s : Scanner) : Option Scanner := do
  let s ← s.openBlockHere? .blockSequence
  let s ← s.dropKey?
  return { s.take .entry 1 with keyAllowed := true }

def key? (s : Scanner) : Option Scanner := do
  let s ← s.openBlockHere? .blockMapping
  let s ← s.dropKey?
  return { s.take .key 1 with keyAllowed := !s.inFlow }

/-- The mark of a value. A possible key before it is one, and opens a block if it stands inside the
innermost one. -/
def value? (s : Scanner) : Option Scanner := do
  match s.keys with
  | some key :: outer =>
    let s := { s with tokens := s.tokens.insertIdxIfInBounds key.index .key, keys := none :: outer }
    let s := s.openBlock .blockMapping key.index key.place.column
    return { s.take .value 1 with keyAllowed := false }
  | _ =>
    let s ← s.openBlockHere? .blockMapping
    return { s.take .value 1 with keyAllowed := !s.inFlow }

/-- Takes a token of one line, after which `rest` follows. -/
def takeUntil (t : Token) (rest : List Char) (s : Scanner) : Scanner :=
  s.take t (s.rest.length - rest.length)

def anchor? (s : Scanner) : Option Scanner := do
  let s ← s.noteKey?
  let (name, rest) ← Yaml.anchor? (s.rest.drop 1)
  return { s.takeUntil (.anchor name) rest with keyAllowed := false }

def reference? (s : Scanner) : Option Scanner := do
  let s ← s.noteKey?
  let (name, rest) ← Yaml.anchor? (s.rest.drop 1)
  return { s.takeUntil (.reference name) rest with keyAllowed := false }

def tag? (s : Scanner) : Option Scanner := do
  let s ← s.noteKey?
  let (tag, rest) ← WrittenTag.read? s.inFlow (s.rest.drop 1)
  return { s.takeUntil (.tag tag) rest with keyAllowed := false }

def directive? (s : Scanner) : Option Scanner := do
  let s ← (s.closeBlocks fun _ => true).dropKey?
  let (line, rest) ← Directive.read? (s.rest.drop 1)
  let s := { s.takeUntil (.directive line) rest with keyAllowed := false }
  return { s with place := rest.head?.elim s.place s.place.after, rest := rest.drop 1 }

def takeScalar (style : Style) (scanned : Scanned) (s : Scanner) : Scanner :=
  { s with
    tokens := s.tokens.push (.scalar style (String.ofList scanned.text))
    place := scanned.place
    rest := scanned.rest
    keyAllowed := scanned.isBroken }

def plain? (s : Scanner) : Option Scanner := do
  let s ← s.noteKey?
  let scanned ← plainFrom? s.inFlow s.margin [] .empty s.place s.rest
  return s.takeScalar .plain scanned

def quoted? (isDouble : Bool) (s : Scanner) : Option Scanner := do
  let s ← s.noteKey?
  let scanned ← quotedFrom? isDouble [] .empty none (s.place.along 1) (s.rest.drop 1)
  return s.takeScalar .quoted scanned

/-- A block of lines. A given indentation counts from the column of the innermost block. -/
def block? (isLiteral : Bool) (s : Scanner) : Option Scanner := do
  let s ← s.dropKey?
  let line := (s.rest.drop 1).takeWhile fun c => !isBreak c
  let header ← BlockHeader.read? isLiteral line
  let base := s.blocks.head?.getD 0
  let header := { header with indentation := header.indentation.map (base + ·) }
  let state : BlockState := ⟨false, header.indentation, 0, .empty⟩
  let atBreak := s.place.along (line.length + 1)
  let place := (s.rest.drop (line.length + 1)).head?.elim atBreak atBreak.after
  let scanned ←
    blockFrom? header (max 1 s.margin) state place (s.rest.drop (line.length + 2))
  return s.takeScalar (if isLiteral then .literal else .folded) scanned

/-! ## All tokens -/

/-- Skips spaces, comments and line breaks. A line break allows a key outside of flow collections,
and a tab is skipped only where no key may start. -/
def skipFrom (inFlow keyAllowed inComment : Bool) (place : Place) :
    List Char → Place × Bool × List Char
  | [] => (place, keyAllowed, [])
  | c :: cs =>
    if isBreak c then skipFrom inFlow (keyAllowed || !inFlow) false (place.after c) cs
    else if inComment then skipFrom inFlow keyAllowed true (place.after c) cs
    else if c == ' ' || (c == '\t' && (inFlow || !keyAllowed)) then
      skipFrom inFlow keyAllowed false (place.after c) cs
    else if c == '#' then skipFrom inFlow keyAllowed true (place.after c) cs
    else (place, keyAllowed, c :: cs)

def skip (s : Scanner) : Scanner :=
  let (place, keyAllowed, rest) := skipFrom s.inFlow s.keyAllowed false s.place s.rest
  { s with place, keyAllowed, rest }

/-- Whether a character is a mark, so that no plain scalar starts with it unless the next character
makes it part of a word. -/
def isIndicator (c : Char) : Bool :=
  isFlowMark c || c == '-' || c == '?' || c == ':' || c == '#' || c == '&' || c == '*' || c == '!' ||
    c == '|' || c == '>' || c == '\'' || c == '"' || c == '%' || c == '@' || c == '\x60'

def startsPlain (inFlow : Bool) (c : Char) (cs : List Char) : Bool :=
  (!isSpace c && !isIndicator c) || (c == '-' && !cs.head?.any isSpace) ||
    (!inFlow && (c == '?' || c == ':') && !atGap cs)

def token? (c : Char) (cs : List Char) (s : Scanner) : Option Scanner :=
  if s.place.column == 0 && c == '%' then s.directive?
  else if s.place.column == 0 && atDocumentMark (c :: cs) then
    s.documentMark? (if c == '-' then .documentStart else .documentEnd)
  else if c == '[' then s.flowStart? .flowSequence
  else if c == '\x7b' then s.flowStart? .flowMapping
  else if c == ']' then s.flowEnd? .flowSequenceEnd
  else if c == '\x7d' then s.flowEnd? .flowMappingEnd
  else if c == ',' then s.comma?
  else if c == '-' && atGap cs then s.entry?
  else if c == '?' && (s.inFlow || atGap cs) then s.key?
  else if c == ':' && (s.inFlow || atGap cs) then s.value?
  else if c == '*' then s.reference?
  else if c == '&' then s.anchor?
  else if c == '!' then s.tag?
  else if c == '|' && !s.inFlow then s.block? true
  else if c == '>' && !s.inFlow then s.block? false
  else if c == '\'' then s.quoted? false
  else if c == '"' then s.quoted? true
  else if startsPlain s.inFlow c cs then s.plain?
  else none

/-- Takes all tokens; every step takes a character at least, so `fuel` is their number plus one. -/
def run? : Nat → Scanner → Option (List Token)
  | 0, _ => none
  | fuel + 1, s =>
    match s.skip.expireKeys? with
    | none => none
    | some s =>
      match s.rest with
      | [] => (s.closeBlocks fun _ => true).dropKey?.map fun s => s.tokens.toList
      | c :: cs =>
        match (s.closeBlocks (s.place.column < ·)).token? c cs with
        | none => none
        | some s => run? fuel s

end Scanner

def scan? (cs : List Char) : Option (List Token) :=
  (Scanner.start cs).run? (cs.length + 1)

end TagQuery.Yaml
