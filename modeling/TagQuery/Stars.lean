import TagQuery.Expr

/-!
# Star buckets

Ratings fall into buckets, and the first bucket is one star. A bucket holds the ratings from its
lower bound on and below its upper one; a bound that is missing bounds nothing.

## Main definitions

- `StarTable`: the buckets in the order of their stars.
- `StarTable.ofRatings`: five buckets with the deciles of given ratings as bounds.
- `StarTable.starOf`: the star of a rating.
- `StarTable.resolve`: a relation between stars as one between ratings.
- `RatingScale`: the category and the table that expressions are about.
-/

namespace TagQuery

structure StarBucket where
  low : Option Real64
  high : Option Real64
  deriving DecidableEq

def StarBucket.holds (b : StarBucket) (rating : Real64) : Bool :=
  b.low.all (·.ble rating) && b.high.all rating.blt

/-- The buckets in the order of their stars; without any, nothing is known about stars. -/
structure StarTable where
  buckets : List StarBucket
  deriving DecidableEq

namespace StarTable

instance : EmptyCollection StarTable := ⟨⟨[]⟩⟩

instance : Inhabited StarTable := ⟨∅⟩

/-! ## Deciles -/

def maxStars : UInt8 := 5

/-- The stars of each tenth of the ratings, the worst tenth first. -/
def decileStars : List UInt8 := [1, 2, 2, 3, 3, 3, 3, 4, 4, 5]

def firstDecile? (star : UInt8) : Option Nat :=
  decileStars.findIdx? (· == star)

def lastDecile? (star : UInt8) : Option Nat :=
  (decileStars.reverse.findIdx? (· == star)).map fun i => decileStars.length - 1 - i

/-- Where the `k`-th tenth of increasing ratings starts. -/
def decile (ratings : List Real64) (k : Nat) : Option Real64 :=
  ratings[min (k * ratings.length / 10) (ratings.length - 1)]?

/-- From where the first tenth of a star starts up to where the one after its last starts. The first
of all tenths has no lower bound, and the last has no upper one. -/
def decileBucket (ratings : List Real64) (star : UInt8) : StarBucket :=
  match firstDecile? star, lastDecile? star with
  | some first, some last =>
    { low := if 0 < first then decile ratings first else none
      high := if last + 1 < decileStars.length then decile ratings (last + 1) else none }
  | _, _ => ⟨none, none⟩

/-- A bucket for each star, made of the finite ratings, or no bucket when there is none. -/
def ofRatings (ratings : List Real64) : StarTable :=
  let finite := (ratings.filter Real64.isFinite).mergeSort Real64.totalLe
  if finite.isEmpty then ∅
  else ⟨(List.range maxStars.toNat).map fun i => decileBucket finite (UInt8.ofNat i + 1)⟩

/-! ## Stars of ratings -/

def bucket? (t : StarTable) (star : UInt8) : Option StarBucket :=
  if star = 0 then none else t.buckets[star.toNat - 1]?

/-- The star of a rating: that of the first bucket that holds it. -/
def starOf (t : StarTable) (rating : Real64) : Option UInt8 :=
  (t.buckets.findIdx? (·.holds rating)).map fun i => UInt8.ofNat i + 1

/-! ## Relations between stars -/

/-- What a relation means that no star of the table satisfies: nothing matches, unless nothing is
known about stars. -/
def unmatched (t : StarTable) : Expr :=
  if t.buckets.isEmpty then .always else .never

def atLeast (t : StarTable) (star : UInt8) : Expr :=
  match t.bucket? star with
  | some ⟨some low, _⟩ => .rating ⟨.greaterOrEqual, low⟩
  | some ⟨none, _⟩ => .always
  | none => t.unmatched

def atMost (t : StarTable) (star : UInt8) : Expr :=
  if star = 0 then t.unmatched
  else
    match (t.bucket? star).bind (·.high) with
    | some high => .rating ⟨.less, high⟩
    | none => .always

/-- A relation between stars as one between ratings: fewer stars are at most those of the star
below, and more stars at least those of the star above. -/
def resolve (t : StarTable) (c : Comparison UInt8) : Expr :=
  match c.op with
  | .less => if c.value ≤ 1 then t.unmatched else t.atMost (c.value - 1)
  | .greater =>
    if c.value < 255 && (t.bucket? (c.value + 1)).isSome then t.atLeast (c.value + 1)
    else t.unmatched
  | .equal =>
    if (t.bucket? c.value).isNone then t.unmatched
    else .conjunction ([t.atLeast c.value, t.atMost c.value].filter fun e => !e.isAlways)
  | .greaterOrEqual => t.atLeast c.value
  | .lessOrEqual => t.atMost c.value

end StarTable

namespace Expr

mutual
def resolveStars (t : StarTable) : Expr → Expr
  | .stars c => t.resolve c
  | .conjunction parts => .conjunction (resolveStarsAll t parts)
  | .disjunction parts => .disjunction (resolveStarsAll t parts)
  | .negation part => .negation (resolveStars t part)
  | e => e
termination_by structural e => e

def resolveStarsAll (t : StarTable) : List Expr → List Expr
  | [] => []
  | e :: es => resolveStars t e :: resolveStarsAll t es
termination_by structural es => es
end

end Expr

/-- Which ratings expressions are about: those of one category, cut into stars by a table. -/
structure RatingScale where
  category : String
  stars : StarTable
  deriving DecidableEq

end TagQuery
