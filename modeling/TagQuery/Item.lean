import TagQuery.Compare
import TagQuery.Table

/-!
# Files

All that a search can ask about a file.

## Main definitions

- `Item`: a file.
-/

namespace TagQuery

structure Person where
  id : Int
  name : String
  aliases : List String
  deriving DecidableEq, Repr

/-- A rating of a file, and the number of comparisons behind it. -/
structure Rating where
  value : Real64
  count : Nat
  deriving DecidableEq

/-- A file. -/
structure Item where
  hash : String
  fileSize : Nat
  fileType : String
  paths : List String
  tags : TagSet
  rejectedTags : TagSet
  people : List Person
  /-- The details by name. -/
  details : Table DetailValue
  /-- The ratings by category. -/
  ratings : Table Rating

end TagQuery
