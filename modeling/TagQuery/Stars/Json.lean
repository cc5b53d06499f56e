import TagQuery.Json.Record
import TagQuery.Stars

/-!
# Star tables in JSON

A bucket is an array of its two bounds, with `null` for a bound that is missing.

## Main definitions

- `StarTable.toJson`, `StarTable.ofJson?`: a table as a JSON value and back.
-/

namespace TagQuery

open Json (record?)

namespace StarBucket

def toJson (b : StarBucket) : Json :=
  .array [Json.ofOption .ofReal b.low, Json.ofOption .ofReal b.high]

def ofJson? (real? : Json → Option Real64) : Json → Option StarBucket
  | .array [low, high] => do
    let low ← low.toOption? real?
    let high ← high.toOption? real?
    return { low, high }
  | _ => none

end StarBucket

namespace StarTable

def toJson (t : StarTable) : Json :=
  .object [("ranges", .ofList StarBucket.toJson t.buckets)]

def ofJson? (j : Json) : Option StarTable := do
  let [some ranges] ← record? [("ranges", .required)] j | none
  let buckets ← ranges.toList? (StarBucket.ofJson? Json.toReal?)
  return { buckets }

end StarTable

end TagQuery
