/-!
# Search fields

## Main definitions

- `Field`: the fields that a query may name.
- `Field.takesGlob`: the fields whose values may have wildcards.
-/

namespace TagQuery.Search

inductive Field where
  | person
  | type
  | tag
  | rejected
  /-- Tags that are neither held nor rejected. -/
  | undecided
  | suggested
  | missing
  /-- Tags that are missing or suggested. -/
  | add
  /-- Tags that are held, missing or suggested. -/
  | anyTag
  | similar
  | copies
  | tags
  | people
  | ratings
  | rating
  | stars
  | size
  | width
  | height
  | duration
  | length
  | time
  | hash
  | percent
  | sample
  deriving DecidableEq, Repr

namespace Field

def name : Field → String
  | .person => "@"
  | .type => "type"
  | .tag => "tag"
  | .rejected => "rejected"
  | .undecided => "~"
  | .suggested => "suggested"
  | .missing => "missing"
  | .add => "add"
  | .anyTag => "*"
  | .similar => "similar"
  | .copies => "copies"
  | .tags => "tags"
  | .people => "people"
  | .ratings => "ratings"
  | .rating => "rating"
  | .stars => "stars"
  | .size => "size"
  | .width => "width"
  | .height => "height"
  | .duration => "duration"
  | .length => "length"
  | .time => "time"
  | .hash => "hash"
  | .percent => "percent"
  | .sample => "sample"

def ofName? : String → Option Field
  | "@" => some .person
  | "type" => some .type
  | "tag" => some .tag
  | "rejected" => some .rejected
  | "~" => some .undecided
  | "suggested" => some .suggested
  | "missing" => some .missing
  | "add" => some .add
  | "*" => some .anyTag
  | "similar" => some .similar
  | "copies" => some .copies
  | "tags" => some .tags
  | "people" => some .people
  | "ratings" => some .ratings
  | "rating" => some .rating
  | "stars" => some .stars
  | "size" => some .size
  | "width" => some .width
  | "height" => some .height
  | "duration" => some .duration
  | "length" => some .length
  | "time" => some .time
  | "hash" => some .hash
  | "percent" => some .percent
  | "sample" => some .sample
  | _ => none

/-- The fields whose values may have wildcards for tags. -/
def takesGlob : Field → Bool
  | .tag | .rejected | .undecided | .suggested | .missing | .add | .anyTag => true
  | _ => false

/-- The fields that ask for equality only. -/
def equalityOnly : Field → Bool
  | .person | .type | .undecided | .anyTag | .similar | .hash | .percent | .sample => true
  | _ => false

end Field
end TagQuery.Search
