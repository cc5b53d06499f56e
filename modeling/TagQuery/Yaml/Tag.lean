import TagQuery.Number.Integer
import TagQuery.Yaml.Place

/-!
# YAML anchors, tags and directives

An anchor before a node gives it a name, under which it may occur again. A tag says what kind of
value a node is: it is written with a handle, which stands for the start of its name. Directives
before a document say which version it follows and what handles stand for.

## Main definitions

- `Yaml.Tag`: what a tag says about a node.
- `Yaml.WrittenTag`: a tag as it is written.
- `Yaml.Directive`: a directive.
- `Yaml.anchor?`, `WrittenTag.read?`, `Directive.read?`: the three as they are written.
-/

namespace TagQuery.Yaml

/-! ## Names -/

def isNameChar (c : Char) : Bool :=
  c.isAlphanum || c == '_' || c == '-'

def followsAnchor (c : Char) : Bool :=
  c == '?' || c == ':' || c == ',' || c == ']' || c == '\x7d' || c == '%' || c == '@' || c == '\x60'

def anchor? (cs : List Char) : Option (String × List Char) :=
  let name := cs.takeWhile isNameChar
  let rest := cs.dropWhile isNameChar
  if !name.isEmpty && (atGap rest || rest.head?.any followsAnchor) then
    some (String.ofList name, rest)
  else none

/-! ## Locators -/

/-- Whether a character may occur in the name of a tag; between angle brackets there are more. -/
def isLocatorChar (isBracketed : Bool) (c : Char) : Bool :=
  isNameChar c || c == ';' || c == '/' || c == '?' || c == ':' || c == '@' || c == '&' || c == '=' ||
    c == '+' || c == '$' || c == '.' || c == '!' || c == '~' || c == '*' || c == '\'' || c == '(' ||
    c == ')' || (isBracketed && (c == ',' || c == '[' || c == ']'))

/-- The number of octets that follow an octet in its character, `left` of which were still to
come. -/
def octetsLeft? (left octet : Nat) : Option Nat :=
  if left ≠ 0 then if 0x80 ≤ octet && octet < 0xC0 then some (left - 1) else none
  else if octet < 0x80 then some 0
  else if octet < 0xC0 then none
  else if octet < 0xE0 then some 1
  else if octet < 0xF0 then some 2
  else if octet < 0xF8 then some 3
  else none

/-- Reads on in the name of a tag, in which an octet may be written as a percent sign and two
digits; `octets` is what was read, in reverse order, and `left` octets of a character are still to
come. -/
def locatorFrom? (isBracketed : Bool) (left : Nat) (octets : List UInt8) :
    List Char → Option (List UInt8 × List Char)
  | [] => if left = 0 then some (octets.reverse, []) else none
  | '%' :: high :: low :: cs =>
    match Number.digitOf? 16 high, Number.digitOf? 16 low with
    | some h, some l =>
      match octetsLeft? left (16 * h + l) with
      | some left => locatorFrom? isBracketed left ((16 * h + l).toUInt8 :: octets) cs
      | none => none
    | _, _ => none
  | c :: cs =>
    if left ≠ 0 || c == '%' then none
    else if isLocatorChar isBracketed c then locatorFrom? isBracketed 0 (c.toUInt8 :: octets) cs
    else some (octets.reverse, c :: cs)

def locator? (isBracketed : Bool) (cs : List Char) : Option (String × List Char) := do
  let (octets, rest) ← locatorFrom? isBracketed 0 [] cs
  return (← String.fromUTF8? ⟨octets.toArray⟩, rest)

/-! ## Tags -/

/-- A tag as it is written: a handle, and the rest of the name. Without a handle the name is
whole. -/
structure WrittenTag where
  handle : String
  name : String
  deriving DecidableEq, Repr

namespace WrittenTag

/-- A handle after its exclamation mark: whether it is closed by another one, and what follows
it. -/
def readHandle (cs : List Char) : String × Bool × List Char :=
  let word := cs.takeWhile isNameChar
  match cs.dropWhile isNameChar with
  | '!' :: rest => (String.ofList ('!' :: word ++ ['!']), true, rest)
  | rest => (String.ofList ('!' :: word), false, rest)

def readName? (cs : List Char) : Option (WrittenTag × List Char) :=
  match cs with
  | '<' :: cs => do
    let (name, '>' :: rest) ← locator? true cs | none
    if name.isEmpty then none else return (⟨"", name⟩, rest)
  | cs => do
    let (handle, isClosed, afterHandle) := readHandle cs
    let (name, rest) ← locator? false afterHandle
    if isClosed then
      if name.isEmpty then none else return (⟨handle, name⟩, rest)
    else
      let name := String.ofList (handle.toList.drop 1) ++ name
      return (if name.isEmpty then ⟨"", "!"⟩ else ⟨"!", name⟩, rest)

/-- The tag after its exclamation mark, and what follows it: a gap, or a comma in a flow
collection. -/
def read? (inFlow : Bool) (cs : List Char) : Option (WrittenTag × List Char) := do
  let (tag, rest) ← readName? cs
  if atGap rest || (inFlow && rest.head? == some ',') then return (tag, rest) else none

/-- The whole name of a tag, where `handles` says what handles stand for; the first that fits
counts. -/
def fullName? (handles : List (String × String)) (t : WrittenTag) : Option String :=
  if t.handle.isEmpty then some t.name
  else (handles.find? (·.1 == t.handle)).map (·.2 ++ t.name)

end WrittenTag

def standardStart : String := "tag:yaml.org,2002:"

def standardHandles : List (String × String) :=
  [("!", "!"), ("!!", standardStart)]

/-- What a tag says about a node. -/
inductive Tag where
  | null
  | bool
  | integer
  | real
  /-- A kind of the document's own. -/
  | own (name : String)
  /-- Any other kind, of which a scalar is its text. -/
  | other
  deriving DecidableEq, Repr

def Tag.ofName (name : String) : Tag :=
  if name == standardStart ++ "null" then .null
  else if name == standardStart ++ "bool" then .bool
  else if name == standardStart ++ "int" then .integer
  else if name == standardStart ++ "float" then .real
  else
    match name.toList with
    | ['!'] => .own "!"
    | '!' :: cs => .own (String.ofList cs)
    | _ => .other

/-- Whether a node has a tag of the document's own. -/
def Tag.isOwn : Option Tag → Bool
  | some (.own _) => true
  | _ => false

/-! ## Directives -/

/-- A line that says how a document is written. -/
inductive Directive where
  | version (major minor : Nat)
  | handle (name start : String)
  deriving DecidableEq, Repr

namespace Directive

/-- A number of at most nine digits, and what follows it. -/
def readNumber? (cs : List Char) : Option (Nat × List Char) :=
  let digits := cs.takeWhile Number.isDigit
  if digits.isEmpty || 9 < digits.length then none
  else some (Number.ofDigits digits, cs.dropWhile Number.isDigit)

def readVersion? (cs : List Char) : Option (Directive × List Char) := do
  let (major, '.' :: rest) ← readNumber? cs | none
  let (minor, rest) ← readNumber? rest
  return (.version major minor, rest)

def readHandle? (cs : List Char) : Option (Directive × List Char) := do
  let '!' :: cs := cs | none
  let (name, isClosed, rest) := WrittenTag.readHandle cs
  if !(isClosed || name == "!") || !rest.head?.any isSpace then none
  let (start, rest) ← locator? true (rest.dropWhile isSpace)
  if start.isEmpty || !atGap rest then none
  return (.handle name start, rest)

/-- The directive after its percent sign, and the end of its line. A comment may follow it. -/
def read? (cs : List Char) : Option (Directive × List Char) := do
  let name := cs.takeWhile isNameChar
  let rest := cs.dropWhile isNameChar
  if !atGap rest then none
  let (directive, rest) ←
    match String.ofList name with
    | "YAML" => readVersion? (rest.dropWhile isSpace)
    | "TAG" => readHandle? (rest.dropWhile isSpace)
    | _ => none
  match rest.dropWhile isSpace with
  | [] => return (directive, [])
  | c :: cs =>
    if c == '#' || isBreak c then return (directive, (c :: cs).dropWhile fun d => !isBreak d)
    else none

end Directive

/-- The handles that directives name, in front of the standard ones. A version must be 1.1 or 1.2,
and neither it nor a handle may be given twice. -/
def handlesOf? (directives : List Directive) : Option (List (String × String)) :=
  let versions := directives.filterMap fun d =>
    match d with
    | .version major minor => some (major, minor)
    | .handle _ _ => none
  let handles := directives.filterMap fun d =>
    match d with
    | .version _ _ => none
    | .handle name start => some (name, start)
  if versions.length ≤ 1 && versions.all (fun v => v == (1, 1) || v == (1, 2)) &&
      (handles.map (·.1)).Nodup then
    some (handles ++ standardHandles)
  else none

end TagQuery.Yaml
