/-!
# Blank characters

The characters with the property White_Space, and the ways a text is cut at them.

## Main definitions

- `isBlank`: the class of blank characters.
- `trim`: a text without the blanks at its ends.
- `words`: the runs of characters between blanks.
-/

namespace TagQuery.Text

def isBlank (c : Char) : Bool :=
  c == ' ' || (0x09 ≤ c.toNat && c.toNat ≤ 0x0D) || c.toNat == 0x85 || c.toNat == 0xA0 ||
    c.toNat == 0x1680 || (0x2000 ≤ c.toNat && c.toNat ≤ 0x200A) || c.toNat == 0x2028 ||
    c.toNat == 0x2029 || c.toNat == 0x202F || c.toNat == 0x205F || c.toNat == 0x3000

/-! ## Trimming -/

/-- The characters from the first that does not satisfy `p` to the last that does not. -/
def trimBy (p : Char → Bool) (cs : List Char) : List Char :=
  ((cs.dropWhile p).reverse.dropWhile p).reverse

/-- The characters up to the last that does not satisfy `p`. -/
def trimEndBy (p : Char → Bool) (cs : List Char) : List Char :=
  (cs.reverse.dropWhile p).reverse

def trim (s : String) : String :=
  String.ofList (trimBy isBlank s.toList)

/-! ## Words -/

/-- The runs of characters that do not satisfy `p`, where `word` is the run read so far. -/
def wordsFrom (p : Char → Bool) (word : List Char) : List Char → List (List Char)
  | [] => if word.isEmpty then [] else [word]
  | c :: rest =>
    if p c then
      if word.isEmpty then wordsFrom p [] rest else word :: wordsFrom p [] rest
    else wordsFrom p (word ++ [c]) rest

/-- The words of a text: its longest runs of characters that are not blank. -/
def words (s : String) : List String :=
  (wordsFrom isBlank [] s.toList).map String.ofList

end TagQuery.Text
