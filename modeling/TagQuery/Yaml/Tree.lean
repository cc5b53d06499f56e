import TagQuery.Yaml.Token

/-!
# YAML trees

The tree of a document as it is written: a node keeps its anchor and its tag, and where it occurs
again only its anchor stands. A node that is left out is an empty plain scalar.

## Main definitions

- `Yaml.Properties`: the anchor and the tag of a node.
- `Yaml.Tree`: a node, or a reference to one.
- `Yaml.Tree.ofTokens?`: the tree of the tokens of one document.
-/

namespace TagQuery.Yaml

/-- The anchor and the tag of a node; the tag has its whole name. -/
structure Properties (α : Type) where
  anchor : Option α
  tag : Option String
  deriving Repr

/-- A node as it is written, where anchors are of the type `α`. -/
inductive Tree (α : Type) where
  /-- The node with an anchor once more. -/
  | reference (anchor : α)
  | scalar (properties : Properties α) (style : Style) (text : String)
  | sequence (properties : Properties α) (items : List (Tree α))
  /-- The entries in the order of the document; keys may repeat. -/
  | mapping (properties : Properties α) (entries : List (Tree α × Tree α))
  deriving Repr

/-- What was read of some tokens, and the tokens after it. -/
abbrev Reader (α : Type) := List Token → Option (α × List Token)

/-! ## Properties -/

namespace Properties

def none : Properties α := ⟨.none, .none⟩

/-- The properties of a scalar that is written out, where the tag `!` has no meaning. -/
def ofScalar (p : Properties α) : Properties α :=
  { p with tag := p.tag.filter (· != "!") }

/-- The properties at the start of some tokens, in either order. -/
def read? (handles : List (String × String)) : Reader (Properties String)
  | .anchor a :: .tag t :: ts =>
    (t.fullName? handles).map fun name => (⟨some a, some name⟩, ts)
  | .tag t :: .anchor a :: ts =>
    (t.fullName? handles).map fun name => (⟨some a, some name⟩, ts)
  | .anchor a :: ts => some (⟨some a, .none⟩, ts)
  | .tag t :: ts => (t.fullName? handles).map fun name => (⟨.none, some name⟩, ts)
  | ts => some (none, ts)

def alone? (p : Properties String) : Reader (Tree String) := fun ts =>
  if p.anchor.isSome || p.tag.isSome then some (.scalar p .plain "", ts) else .none

end Properties

namespace Tree

def empty : Tree α := .scalar .none .plain ""

/-! ## From tokens -/

/-- Reads a node by `read`, or an empty one where one of the given tokens stands or none. -/
def orEmpty (stops : List Token) (read : Reader (Tree String)) : Reader (Tree String)
  | [] => some (empty, [])
  | t :: ts => if t ∈ stops then some (empty, t :: ts) else read (t :: ts)

/-- Reads a node by `read`, or an empty one in place of one of the given tokens. -/
def orEmptyFor (stops : List Token) (read : Reader (Tree String)) : Reader (Tree String)
  | [] => some (empty, [])
  | t :: ts => if t ∈ stops then some (empty, ts) else read (t :: ts)

def valueOrEmpty (stops : List Token) (read : Reader (Tree String)) : Reader (Tree String)
  | .value :: ts => orEmpty stops read ts
  | ts => some (empty, ts)

/-- Takes the comma before an item; the first has none. -/
def afterComma? (isFirst : Bool) (ts : List Token) : Option (List Token) :=
  if isFirst then some ts
  else
    match ts with
    | .comma :: ts => some ts
    | _ => none

section
variable (handles : List (String × String))

mutual
/-- Reads a node. Blocks do not occur in flow collections, and a sequence at the column of its key
opens no block of its own. -/
def node? (fuel : Nat) (inBlock maySkipIndent : Bool) (ts : List Token) :
    Option (Tree String × List Token) :=
  match fuel, ts with
  | 0, _ => none
  | _ + 1, .reference name :: ts => some (.reference name, ts)
  | fuel + 1, ts => do
    let (p, ts) ← Properties.read? handles ts
    match ts, inBlock, maySkipIndent with
    | .scalar style text :: ts, _, _ => return (.scalar p.ofScalar style text, ts)
    | .flowSequence :: ts, _, _ =>
      let (items, ts) ← flowItems? fuel true ts
      return (.sequence p items, ts)
    | .flowMapping :: ts, _, _ =>
      let (entries, ts) ← flowEntries? fuel true ts
      return (.mapping p entries, ts)
    | .blockSequence :: ts, true, _ =>
      let (items, ts) ← blockItems? fuel ts
      return (.sequence p items, ts)
    | .blockMapping :: ts, true, _ =>
      let (entries, ts) ← blockEntries? fuel ts
      return (.mapping p entries, ts)
    | .entry :: ts, _, true =>
      let (items, ts) ← levelItems? fuel (.entry :: ts)
      return (.sequence p items, ts)
    | ts, _, _ => p.alone? ts

def blockItems? (fuel : Nat) (ts : List Token) : Option (List (Tree String) × List Token) :=
  match fuel with
  | 0 => none
  | fuel + 1 =>
    match ts with
    | .blockEnd :: ts => some ([], ts)
    | .entry :: ts => do
      let (item, ts) ← orEmpty [.entry, .blockEnd] (node? fuel true false) ts
      let (items, ts) ← blockItems? fuel ts
      return (item :: items, ts)
    | _ => none

/-- Reads the items of a sequence at the column of its key, which ends where no item follows. -/
def levelItems? (fuel : Nat) (ts : List Token) : Option (List (Tree String) × List Token) :=
  match fuel with
  | 0 => none
  | fuel + 1 =>
    match ts with
    | .entry :: ts => do
      let (item, ts) ← orEmpty [.entry, .key, .value, .blockEnd] (node? fuel true false) ts
      let (items, ts) ← levelItems? fuel ts
      return (item :: items, ts)
    | ts => some ([], ts)

def blockEntries? (fuel : Nat) (ts : List Token) :
    Option (List (Tree String × Tree String) × List Token) :=
  match fuel with
  | 0 => none
  | fuel + 1 =>
    match ts with
    | .blockEnd :: ts => some ([], ts)
    | .key :: ts => do
      let stops : List Token := [.key, .value, .blockEnd]
      let (key, ts) ← orEmpty stops (node? fuel true true) ts
      let (value, ts) ← valueOrEmpty stops (node? fuel true true) ts
      let (entries, ts) ← blockEntries? fuel ts
      return ((key, value) :: entries, ts)
    | _ => none

/-- Reads the items of a flow sequence. A key among them is the only one of a mapping; a marked key
that is left out takes the mark after it along. -/
def flowItems? (fuel : Nat) (isFirst : Bool) (ts : List Token) :
    Option (List (Tree String) × List Token) :=
  match fuel with
  | 0 => none
  | fuel + 1 =>
    match ts with
    | .flowSequenceEnd :: ts => some ([], ts)
    | ts => do
      match ← afterComma? isFirst ts with
      | .flowSequenceEnd :: ts => return ([], ts)
      | .key :: ts =>
        let (key, ts) ← orEmptyFor [.value, .comma, .flowSequenceEnd] (node? fuel false false) ts
        let (value, ts) ← valueOrEmpty [.comma, .flowSequenceEnd] (node? fuel false false) ts
        let (items, ts) ← flowItems? fuel false ts
        return (.mapping .none [(key, value)] :: items, ts)
      | ts =>
        let (item, ts) ← node? fuel false false ts
        let (items, ts) ← flowItems? fuel false ts
        return (item :: items, ts)

/-- Reads the entries of a flow mapping. An item that is no key has an empty value. -/
def flowEntries? (fuel : Nat) (isFirst : Bool) (ts : List Token) :
    Option (List (Tree String × Tree String) × List Token) :=
  match fuel with
  | 0 => none
  | fuel + 1 =>
    match ts with
    | .flowMappingEnd :: ts => some ([], ts)
    | ts => do
      match ← afterComma? isFirst ts with
      | .flowMappingEnd :: ts => return ([], ts)
      | .key :: ts =>
        let (key, ts) ← orEmpty [.value, .comma, .flowMappingEnd] (node? fuel false false) ts
        let (value, ts) ← valueOrEmpty [.comma, .flowMappingEnd] (node? fuel false false) ts
        let (entries, ts) ← flowEntries? fuel false ts
        return ((key, value) :: entries, ts)
      | ts =>
        let (key, ts) ← node? fuel false false ts
        let (entries, ts) ← flowEntries? fuel false ts
        return ((key, empty) :: entries, ts)
end

end

def splitDirectives : List Token → List Directive × List Token
  | .directive line :: ts =>
    let (lines, rest) := splitDirectives ts
    (line :: lines, rest)
  | ts => ([], ts)

/-- The tree of the tokens of one document, which needs a mark at its start if there are directives.
Every two steps take a token at least. -/
def ofTokens? (ts : List Token) : Option (Tree String) := do
  let (directives, ts) := splitDirectives ts
  let read := node? (← handlesOf? directives) (2 * ts.length + 2) true false
  let (tree, rest) ←
    match ts with
    | .documentStart :: ts => orEmpty [.documentStart, .documentEnd] read ts
    | ts => if directives.isEmpty then orEmpty [] read ts else none
  if rest.all (· == .documentEnd) then return tree else none

/-! ## Size -/

mutual
/-- The size of a tree: a collection counts twice, for its start and its end. -/
def size : Tree α → Nat
  | .reference _ => 1
  | .scalar _ _ _ => 1
  | .sequence _ items => 2 + sizeOfItems items
  | .mapping _ entries => 2 + sizeOfEntries entries
termination_by structural t => t

def sizeOfItems : List (Tree α) → Nat
  | [] => 0
  | t :: ts => t.size + sizeOfItems ts
termination_by structural ts => ts

def sizeOfEntries : List (Tree α × Tree α) → Nat
  | [] => 0
  | e :: es => sizeOfEntry e + sizeOfEntries es
termination_by structural es => es

def sizeOfEntry : Tree α × Tree α → Nat
  | (k, v) => k.size + v.size
termination_by structural e => e
end

end Tree
end TagQuery.Yaml
