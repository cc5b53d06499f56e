import TagQuery.Search.Field
import TagQuery.Search.Grid
import TagQuery.Search.Property
import TagQuery.Search.Span
import TagQuery.Stars

/-!
# Fields without tags

The expressions of the fields that ask about a file itself, its people and its ratings.

## Main definitions

- `Search.leaf`: the expression of a field with a relation and a value.
-/

namespace TagQuery.Search

/-- The names under which details of files are stored. -/
def gridHashDetail : String := "AverageIntensityHash"
def widthDetail : String := "Width"
def heightDetail : String := "Height"
def durationDetail : String := "Duration"

def unsupported (f : Field) (op : FieldOperator) (value : String) : SearchError :=
  .unsupportedOperator f.name op.symbol value

def invalid (f : Field) (op : CompareOp) (value : String) (fault : ValueFault) : SearchError :=
  .invalidValue f.name op.toField.symbol value fault

def valueOf (f : Field) (op : CompareOp) (value : String) (read : String → Except ValueFault α) :
    Except SearchError α :=
  (read value).mapError (invalid f op value)

/-! ## Values -/

def readNat (limit : Nat) (value : String) : Except ValueFault Nat :=
  (Number.readNat 10 limit (Text.trim value).toList).mapError .notInteger

def readInt (value : String) : Except ValueFault Int :=
  (Number.readInt (Text.trim value).toList).mapError .notInteger

def readRating (value : String) : Except ValueFault Real64 := do
  let x ← (readReal value).mapError .notDecimal
  if x.isFinite then return x else throw .ratingNotFinite

def readStars (value : String) : Except ValueFault UInt8 := do
  let n ← readNat Number.maxByte value
  if 1 ≤ n ∧ n ≤ StarTable.maxStars.toNat then return UInt8.ofNat n else throw .starsOutOfRange

/-! ## Expressions -/

/-- A person by number or by name; the number zero asks for files without people. -/
def person (value : String) : Expr :=
  match readInt value with
  | .ok id => if id = 0 then .noPeople else .personId id
  | .error _ => .personName value

/-- A media type; without a slash it is a whole type or the start of one. -/
def mediaType (value : String) : Expr :=
  let type := Text.asciiLowercase (Text.trim value)
  if '/' ∉ type.toList then .disjunction [.typeEquals type, .typeStart (type ++ "/")]
  else if type.toList.getLast? = some '/' then .typeStart type
  else .typeEquals type

/-- Files whose grid hash is a variant of the given one. -/
def similar (mode : SimilarMode) (hash : UInt64) : Expr :=
  .disjunction ((Grid.variants mode hash).map fun h =>
    .details gridHashDetail .equal (.integer (Grid.stored h)))

def countBound (f : Field) (op : CompareOp) (value : String) :
    Except SearchError (Comparison Nat) :=
  (valueOf f op value (readNat Number.maxWord)).map (⟨op, ·⟩)

/-- The expression of a field that is not about tags. -/
def leaf (mode : SimilarMode) (stars : StarTable) (f : Field) (op : CompareOp) (value : String) :
    Except SearchError Expr :=
  if f.equalityOnly && op != .equal then .error (unsupported f op.toField value)
  else
    match f with
    | .person => .ok (person value)
    | .type => .ok (mediaType value)
    | .similar => (valueOf f op value Grid.read).map (similar mode)
    | .copies => (countBound f op value).map .copies
    | .tags => (countBound f op value).map .tagCount
    | .people => (countBound f op value).map .peopleCount
    | .ratings => (countBound f op value).map .ratingsCount
    | .rating => (valueOf f op value readRating).map fun x => .rating ⟨op, x⟩
    | .stars => (valueOf f op value readStars).map fun n => stars.resolve ⟨op, n⟩
    | .size => (valueOf f op value readSize).map fun n => .fileSize ⟨op, n⟩
    | .width => (valueOf f op value readInt).map fun i => .details widthDetail op (.integer i)
    | .height => (valueOf f op value readInt).map fun i => .details heightDetail op (.integer i)
    | .duration | .length | .time =>
      (valueOf f op value readDuration).map fun x => .details durationDetail op (.real x)
    | .hash => (valueOf f op value readHash).map .hash
    | .percent => (valueOf f op value (readPortion (.ofNat 100))).map .sample
    | .sample => (valueOf f op value (readPortion .one)).map .sample
    | .tag | .rejected | .undecided | .suggested | .missing | .add | .anyTag =>
      .error (.unknownField f.name)

end TagQuery.Search
