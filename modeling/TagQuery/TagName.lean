import TagQuery.Text.Blank
import TagQuery.Text.Cut

/-!
# Tag names

Tags may be written with blanks around them and a hash mark in front.
-/

namespace TagQuery

/-- The name of a tag as written: without the blanks around it and without one hash mark in
front. -/
def normalizeTag (raw : String) : String :=
  let cs := Text.trimBy Text.isBlank raw.toList
  String.ofList ((Text.dropPrefix? ['#'] cs).getD cs)

end TagQuery
