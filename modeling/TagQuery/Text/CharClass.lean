/-!
# Character classes and character maps

Classes of code points as lists of closed ranges, and maps of code points as lists of runs.

## Main definitions

- `CharClass.contains`: membership of a character in a class given by ranges.
- `CharMap.map`: the image of a character under a map given by runs.
-/

namespace TagQuery.Text

/-- A class of characters: the closed ranges of its code points, in increasing order. -/
abbrev CharClass := List (Nat × Nat)

def CharClass.contains (ranges : CharClass) (c : Char) : Bool :=
  ranges.any fun (first, last) => first ≤ c.toNat && c.toNat ≤ last

/-- Code points `first`, `first + stride`, … up to `last`, sent to `target`, `target + stride`,
…. -/
structure CharRun where
  first : Nat
  last : Nat
  stride : Nat
  target : Nat
  deriving Repr

def CharRun.covers (run : CharRun) (n : Nat) : Bool :=
  run.first ≤ n && n ≤ run.last && (n - run.first) % run.stride == 0

/-- A map of characters that moves the code points of its runs and keeps all others. -/
abbrev CharMap := List CharRun

def CharMap.map (runs : CharMap) (c : Char) : Char :=
  match runs.find? (·.covers c.toNat) with
  | some run => Char.ofNat (run.target + (c.toNat - run.first))
  | none => c

end TagQuery.Text
