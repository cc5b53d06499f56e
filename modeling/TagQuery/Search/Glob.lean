import TagQuery.Regex.Search
import TagQuery.TagSet
import TagQuery.Text.Cut

/-!
# Wildcards

A star stands for any run of characters within a line; every other character stands for itself in
any letter case. A wildcard is matched by the regular expression that says this of a whole text.

## Main definitions

- `isGlob`: whether a value has a star.
- `globText`: the regular expression of a pattern, as text.
- `expand`: the names that a pattern matches, unless the library refuses it.
-/

namespace TagQuery.Search

def isGlob (value : String) : Bool :=
  value.toList.contains '*'

/-- The literal runs of a pattern, escaped, with any characters between two of them. -/
def globText (regex : RegexLibrary) (pattern : String) : String :=
  let runs := (Text.splitAt '*' pattern.toList).map fun run => regex.escape (String.ofList run)
  "^" ++ ".*".intercalate runs ++ "$"

def globRegex (regex : RegexLibrary) (pattern : String) : Except String (String → Bool) :=
  regex.build (globText regex pattern)

/-- The names of a set that a pattern matches, or why the pattern is refused. -/
def expand (pattern : String) (tags : TagSet) (regex : RegexLibrary := .standard) :
    Except String TagSet :=
  (globRegex regex pattern).map tags.filter

end TagQuery.Search
