import TagQuery.Yaml.Tree

/-!
# YAML nodes

The nodes of a document, in which every reference stands for the node that it names.

Anchors are numbered in the order of the document: the number of an anchor is that of the different
names before it. A reference has the number that its name has at that place, and stands for the last
node with this number. How many references are followed is limited, and so is the depth of nodes.

## Main definitions

- `Yaml.Node`: a scalar, a sequence or a mapping.
- `Yaml.Tree.numbered?`: a tree whose anchors are numbers.
- `Yaml.Node.ofTree?`: the node of a tree.
- `Yaml.Node.read?`: the node of a text.
-/

namespace TagQuery.Yaml

/-- A node of a document. -/
inductive Node where
  | scalar (tag : Option Tag) (style : Style) (text : String)
  | sequence (tag : Option Tag) (items : List Node)
  /-- The entries in the order of the document; keys may repeat. -/
  | mapping (tag : Option Tag) (entries : List (Node × Node))
  deriving Repr

/-! ## Anchors -/

/-- The numbers of the names so far. -/
abbrev Names := List (String × Nat)

namespace Names

/-- Gives a name the next number, in place of one that it has. -/
def add (name : String) (names : Names) : Names :=
  (name, names.length) :: names.filter (·.1 != name)

end Names

def Properties.numbered (p : Properties String) (names : Names) : Properties Nat × Names :=
  match p.anchor with
  | .none => (⟨.none, p.tag⟩, names)
  | some name => (⟨some names.length, p.tag⟩, names.add name)

namespace Tree

mutual
/-- The tree whose anchors are numbers, and the names after it. A reference to a name that has no
number yet is refused. -/
def numbered? (names : Names) : Tree String → Option (Tree Nat × Names)
  | .reference name => (names.find? (·.1 == name)).map fun entry => (.reference entry.2, names)
  | .scalar p style text =>
    let (p, names) := p.numbered names
    some (.scalar p style text, names)
  | .sequence p items =>
    let (p, names) := p.numbered names
    (numberedItems? names items).map fun (items, names) => (.sequence p items, names)
  | .mapping p entries =>
    let (p, names) := p.numbered names
    (numberedEntries? names entries).map fun (entries, names) => (.mapping p entries, names)
termination_by structural t => t

def numberedItems? (names : Names) : List (Tree String) → Option (List (Tree Nat) × Names)
  | [] => some ([], names)
  | t :: ts => do
    let (t, names) ← t.numbered? names
    let (ts, names) ← numberedItems? names ts
    return (t :: ts, names)
termination_by structural ts => ts

def numberedEntries? (names : Names) :
    List (Tree String × Tree String) → Option (List (Tree Nat × Tree Nat) × Names)
  | [] => some ([], names)
  | e :: es => do
    let (e, names) ← numberedEntry? names e
    let (es, names) ← numberedEntries? names es
    return (e :: es, names)
termination_by structural es => es

def numberedEntry? (names : Names) :
    Tree String × Tree String → Option ((Tree Nat × Tree Nat) × Names)
  | (k, v) => do
    let (k, names) ← k.numbered? names
    let (v, names) ← v.numbered? names
    return ((k, v), names)
termination_by structural e => e
end

def underAnchor (p : Properties α) (t : Tree α) : List (α × Tree α) :=
  p.anchor.toList.map (·, t)

mutual
/-- The trees under anchors, in the order of the document. -/
def anchored : Tree α → List (α × Tree α)
  | .reference _ => []
  | .scalar p style text => underAnchor p (.scalar p style text)
  | .sequence p items => underAnchor p (.sequence p items) ++ anchoredItems items
  | .mapping p entries => underAnchor p (.mapping p entries) ++ anchoredEntries entries
termination_by structural t => t

def anchoredItems : List (Tree α) → List (α × Tree α)
  | [] => []
  | t :: ts => t.anchored ++ anchoredItems ts
termination_by structural ts => ts

def anchoredEntries : List (Tree α × Tree α) → List (α × Tree α)
  | [] => []
  | e :: es => anchoredEntry e ++ anchoredEntries es
termination_by structural es => es

def anchoredEntry : Tree α × Tree α → List (α × Tree α)
  | (k, v) => k.anchored ++ v.anchored
termination_by structural e => e
end

/-! ## References -/

/-- A result that follows references; the state is how many more may be followed. -/
abbrev Following (β : Type) := StateT Nat Option β

mutual
/-- The node of a tree, where `follow` gives the nodes of references. -/
def toNode (follow : α → Following Node) : Tree α → Following Node
  | .reference anchor => follow anchor
  | .scalar p style text => pure (.scalar (p.tag.map Tag.ofName) style text)
  | .sequence p items => do return .sequence (p.tag.map Tag.ofName) (← toNodes follow items)
  | .mapping p entries => do return .mapping (p.tag.map Tag.ofName) (← toEntries follow entries)
termination_by structural t => t

def toNodes (follow : α → Following Node) : List (Tree α) → Following (List Node)
  | [] => pure []
  | t :: ts => do return (← t.toNode follow) :: (← toNodes follow ts)
termination_by structural ts => ts

def toEntries (follow : α → Following Node) :
    List (Tree α × Tree α) → Following (List (Node × Node))
  | [] => pure []
  | e :: es => do return (← toEntry follow e) :: (← toEntries follow es)
termination_by structural es => es

def toEntry (follow : α → Following Node) : Tree α × Tree α → Following (Node × Node)
  | (k, v) => do return (← k.toNode follow, ← v.toNode follow)
termination_by structural e => e
end

/-- The node of a reference, where `targets` are the trees under anchors, the last one first, and
references are followed `nesting` deep. -/
def follow (targets : List (Nat × Tree Nat)) : Nat → Nat → Following Node
  | 0, _ => failure
  | nesting + 1, anchor => do
    let left ← get
    if left = 0 then failure
    set (left - 1)
    match targets.find? (·.1 == anchor) with
    | some (_, tree) => tree.toNode (follow targets nesting)
    | none => failure

end Tree

namespace Node

/-! ## Depth -/

mutual
def depth : Node → Nat
  | .scalar _ _ _ => 0
  | .sequence _ items => 1 + depthOfItems items
  | .mapping _ entries => 1 + depthOfEntries entries
termination_by structural n => n

def depthOfItems : List Node → Nat
  | [] => 0
  | n :: ns => max n.depth (depthOfItems ns)
termination_by structural ns => ns

def depthOfEntries : List (Node × Node) → Nat
  | [] => 0
  | e :: es => max (depthOfEntry e) (depthOfEntries es)
termination_by structural es => es

def depthOfEntry : Node × Node → Nat
  | (k, v) => max k.depth v.depth
termination_by structural e => e
end

def maxDepth : Nat := 128

/-! ## From trees and text -/

/-- How many references may be followed for each part of a tree. -/
def maxRepeats : Nat := 100

/-- The node of a tree. References inside what a reference stands for lie deeper than it. -/
def ofTree? (tree : Tree String) : Option Node := do
  let (tree, _) ← tree.numbered? []
  let follow := Tree.follow tree.anchored.reverse (maxDepth + 1)
  let (node, _) ← (tree.toNode follow).run (maxRepeats * tree.size)
  if node.depth ≤ maxDepth then return node else none

def read? (s : String) : Option Node := do
  ofTree? (← Tree.ofTokens? (← scan? (← prepare? s)))

end Node
end TagQuery.Yaml
