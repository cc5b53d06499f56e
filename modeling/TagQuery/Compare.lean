import TagQuery.Number.Layout
import TagQuery.Text.Quoted

/-!
# Comparisons

The relations between a value and a bound, and the values that a file's details have.

## Main definitions

- `CompareOp`: one of five relations.
- `Comparison`: a relation with its bound.
- `DetailValue`: an integer, a binary64 number or a text.
- `DetailValue.compare`: relations between details.
-/

namespace TagQuery

inductive CompareOp where
  | equal
  | greater
  | greaterOrEqual
  | less
  | lessOrEqual
  deriving DecidableEq, Repr

namespace CompareOp

def all : List CompareOp := [.equal, .greater, .greaterOrEqual, .less, .lessOrEqual]

def symbol : CompareOp → String
  | .equal => "="
  | .greater => ">"
  | .greaterOrEqual => ">="
  | .less => "<"
  | .lessOrEqual => "<="

/-- Whether the relation holds for values in the given order; nothing holds for values without
one. -/
def holds : CompareOp → Option Ordering → Bool
  | .equal, o => o == some .eq
  | .greater, o => o == some .gt
  | .greaterOrEqual, o => o == some .gt || o == some .eq
  | .less, o => o == some .lt
  | .lessOrEqual, o => o == some .lt || o == some .eq

def test [Ord α] (op : CompareOp) (lhs rhs : α) : Bool :=
  op.holds (some (compare lhs rhs))

def testReal (op : CompareOp) (lhs rhs : Real64) : Bool :=
  op.holds (lhs.compare? rhs)

end CompareOp

structure Comparison (α : Type) where
  op : CompareOp
  value : α
  deriving DecidableEq, Repr

def Comparison.accepts [Ord α] (c : Comparison α) (actual : α) : Bool :=
  c.op.test actual c.value

def Comparison.acceptsReal (c : Comparison Real64) (actual : Real64) : Bool :=
  c.op.testReal actual c.value

/-- A value in a file's details. -/
inductive DetailValue where
  | integer (value : Int)
  | real (value : Real64)
  | text (value : String)
  deriving DecidableEq

namespace DetailValue

/-- Numbers compare with numbers, an integer as the nearest binary64 number where the other side is
one, and texts with texts. Nothing holds between a number and a text. -/
def compare (op : CompareOp) : DetailValue → DetailValue → Bool
  | .integer a, .integer b => op.test a b
  | .integer a, .real b => op.testReal (.ofInt a) b
  | .real a, .integer b => op.testReal a (.ofInt b)
  | .real a, .real b => op.testReal a b
  | .text a, .text b => op.test a b
  | _, _ => false

def same : DetailValue → DetailValue → Bool
  | .integer a, .integer b => a == b
  | .real a, .real b => a.eqv b
  | .text a, .text b => a == b
  | _, _ => false

def render : DetailValue → String
  | .integer i => toString i
  | .real x => RealLayout.plain.render x
  | .text s => Text.quoted s

end DetailValue
end TagQuery
