/-!
# Cutting text

Functions that cut a text at given characters or at a given part, over lists of characters.

## Main definitions

- `splitAt`: the parts between the occurrences of a character.
- `before`: the text before the first occurrence of a part.
- `lines`: the lines of a text.
- `dropPrefix?`, `dropSuffix?`: what remains when a text starts or ends with a part.
- `occursIn`: whether a part occurs in a text.
-/

namespace TagQuery.Text

/-! ## Parts -/

def dropPrefix? : List Char → List Char → Option (List Char)
  | [], cs => some cs
  | _ :: _, [] => none
  | p :: part, c :: cs => if p = c then dropPrefix? part cs else none

def dropSuffix? (part cs : List Char) : Option (List Char) :=
  (dropPrefix? part.reverse cs.reverse).map List.reverse

/-- Whether `part` occurs in the text as a run of neighbouring characters. -/
def occursIn (part : List Char) : List Char → Bool
  | [] => part.isEmpty
  | c :: cs => part.isPrefixOf (c :: cs) || occursIn part cs

/-- The text before the first occurrence of `part`, or all of it. -/
def before (part : List Char) : List Char → List Char
  | [] => []
  | c :: cs => if part.isPrefixOf (c :: cs) then [] else c :: before part cs

def splitOnce? (sep : Char) : List Char → Option (List Char × List Char)
  | [] => none
  | c :: cs =>
    if c = sep then some ([], cs)
    else (splitOnce? sep cs).map fun (left, right) => (c :: left, right)

/-- The parts of a text between the occurrences of a character: one more than it occurs. -/
def splitAt (sep : Char) : List Char → List (List Char)
  | [] => [[]]
  | c :: cs =>
    if c = sep then [] :: splitAt sep cs
    else
      match splitAt sep cs with
      | part :: parts => (c :: part) :: parts
      | [] => [[c]]

def replaceChar (c : Char) (text : List Char) (cs : List Char) : List Char :=
  cs.flatMap fun d => if d = c then text else [d]

theorem replaceChar_cons (c d : Char) (text cs : List Char) :
    replaceChar c text (d :: cs) = (if d = c then text else [d]) ++ replaceChar c text cs :=
  rfl

theorem dropPrefix?_eq_some {part cs rest : List Char} (h : dropPrefix? part cs = some rest) :
    cs = part ++ rest := by
  induction part generalizing cs with
  | nil => simpa [dropPrefix?] using h
  | cons p part ih =>
    cases cs with
    | nil => simp [dropPrefix?] at h
    | cons c cs =>
      simp only [dropPrefix?, Option.ite_none_right_eq_some] at h
      rw [h.1, ih h.2, List.cons_append]

/-! ## Lines -/

def dropReturn (line : List Char) : List Char :=
  (dropSuffix? ['\r'] line).getD line

/-- The lines of a text: a newline, with or without a carriage return before it, ends a line, and
the last line may lack its newline. -/
def lines (cs : List Char) : List (List Char) :=
  let parts := splitAt '\n' cs
  let ended := parts.dropLast.map dropReturn
  match parts.getLast? with
  | some last => if last.isEmpty then ended else ended ++ [last]
  | none => ended

end TagQuery.Text
