import TagQuery.Config

/-!
# Grid hashes

A hash of 64 bits seen as a square of eight rows and columns, where bit `8 * row + column` is a
cell. The hash of a file that is turned or reflected is the hash turned or reflected.

## Main definitions

- `Grid.symmetries`: the eight symmetries of the square.
- `Grid.move`: a hash under a symmetry.
- `Grid.variants`: the hashes that a search looks for.
-/

namespace TagQuery.Search.Grid

def side : Nat := 8

/-- A map of rows and columns. -/
abbrev Symmetry := Nat × Nat → Nat × Nat

/-- The symmetries of the square: the rotations, the two reflections in its middle lines, and the
two in its diagonals. -/
def symmetries : List Symmetry :=
  [fun (r, c) => (r, c),
    fun (r, c) => (c, 7 - r),
    fun (r, c) => (7 - r, 7 - c),
    fun (r, c) => (7 - c, r),
    fun (r, c) => (r, 7 - c),
    fun (r, c) => (7 - r, c),
    fun (r, c) => (c, r),
    fun (r, c) => (7 - c, 7 - r)]

def target (f : Symmetry) (bit : Nat) : Nat :=
  let (r, c) := f (bit / side, bit % side)
  r * side + c

def isSet (hash : UInt64) (bit : Nat) : Bool :=
  hash.toNat.testBit bit

/-- A hash under a symmetry: every set bit is set at the place where it goes. -/
def move (f : Symmetry) (hash : UInt64) : UInt64 :=
  UInt64.ofNat
    ((List.range 64).foldl
      (fun out bit => if isSet hash bit then out ||| Nat.pow 2 (target f bit) else out) 0)

/-- The different hashes of a list, each at its first place. -/
def distinct (hashes : List UInt64) : List UInt64 :=
  hashes.foldl (fun seen h => if h ∈ seen then seen else seen ++ [h]) []

/-- The hashes that a search looks for, the given one first. -/
def variants (mode : SimilarMode) (hash : UInt64) : List UInt64 :=
  match mode with
  | .identity => [hash]
  | .all => distinct (symmetries.map (move · hash))

/-- A hash written in hexadecimal, with or without `0x` in front. -/
def read (value : String) : Except ValueFault UInt64 :=
  let cs := (Text.trim value).toList
  let digits :=
    ((Text.dropPrefix? ['0', 'x'] cs).orElse fun _ => Text.dropPrefix? ['0', 'X'] cs).getD cs
  match Number.readNat 16 Number.maxWord digits with
  | .ok n => .ok (UInt64.ofNat n)
  | .error fault => .error (.notGridHash value fault)

/-- The hash as it is stored: its bits read as a signed number. -/
def stored (hash : UInt64) : Int :=
  hash.toInt64.toInt

end TagQuery.Search.Grid
