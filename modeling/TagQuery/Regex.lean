import TagQuery.Text.CaseFold

/-!
# Regular expressions

The part of the documented syntax of regular expressions that wildcards are written in, and what a
search for such an expression finds in a text when letter case is ignored. Regular expressions are
built by a library, which may refuse one, for instance because it takes too much room. What the
library promises is part of its type.

## Main definitions

- `Regex.Matches`: a text has a regular expression in it.
- `Regex.read?`: the regular expression that a text is read as.
- `RegexLibrary`: a library that builds regular expressions from their text.
-/

namespace TagQuery

inductive RegexAtom where
  | letter (c : Char)
  /-- Any character but a line break. -/
  | any
  deriving DecidableEq, Repr

def RegexAtom.accepts : RegexAtom → Char → Bool
  | .letter p, c => Text.sameLetter p c
  | .any, c => c != '\n'

inductive RegexPart where
  | one (atom : RegexAtom)
  | many (atom : RegexAtom)
  | start
  | finish
  deriving DecidableEq, Repr

abbrev Regex := List RegexPart

namespace Regex

/-! ## Meaning -/

/-- The parts match one after another, from the place on that has the given texts before and after
it. -/
def MatchesFrom : Regex → List Char → List Char → Prop
  | [], _, _ => True
  | .one atom :: parts, before, rest =>
    ∃ c cs, rest = c :: cs ∧ atom.accepts c = true ∧ MatchesFrom parts (before ++ [c]) cs
  | .many atom :: parts, before, rest =>
    ∃ w cs, rest = w ++ cs ∧ (∀ c ∈ w, atom.accepts c = true) ∧ MatchesFrom parts (before ++ w) cs
  | .start :: parts, before, rest => before = [] ∧ MatchesFrom parts before rest
  | .finish :: parts, before, rest => rest = [] ∧ MatchesFrom parts before rest

def Matches (r : Regex) (text : List Char) : Prop :=
  ∃ before rest, text = before ++ rest ∧ MatchesFrom r before rest

/-! ## Syntax -/

inductive Token where
  | atom (atom : RegexAtom)
  | repeats
  | start
  | finish
  deriving DecidableEq, Repr

/-- Characters that do not stand for themselves. -/
def isSpecial (c : Char) : Bool :=
  ['\\', '.', '+', '*', '?', '(', ')', '|', '[', ']', '{', '}', '^', '$'].contains c

/-- Characters that stand for themselves after a backslash: ASCII but for letters, digits and
angle brackets. -/
def isEscapable (c : Char) : Bool :=
  c.toNat < 128 && !(c.isAlphanum || c == '<' || c == '>')

def token? (c : Char) : Option Token :=
  if c = '^' then some .start
  else if c = '$' then some .finish
  else if c = '.' then some (.atom .any)
  else if c = '*' then some .repeats
  else if isSpecial c then none
  else some (.atom (.letter c))

def tokens? : List Char → Option (List Token)
  | [] => some []
  | '\\' :: c :: cs =>
    if isEscapable c then (tokens? cs).map (.atom (.letter c) :: ·) else none
  | c :: cs => (token? c).bind fun token => (tokens? cs).map (token :: ·)

def parts? : List Token → Option Regex
  | [] => some []
  | .atom a :: .repeats :: tokens => (parts? tokens).map (.many a :: ·)
  | .atom a :: tokens => (parts? tokens).map (.one a :: ·)
  | .start :: tokens => (parts? tokens).map (.start :: ·)
  | .finish :: tokens => (parts? tokens).map (.finish :: ·)
  | .repeats :: _ => none

/-- The regular expression that a text is read as, where it is written in this part of the
syntax. -/
def read? (text : String) : Option Regex :=
  (tokens? text.toList).bind parts?

/-- A text in front of another is read on its own. -/
theorem tokens?_append {xs : List Char} {tokens : List Token} (h : tokens? xs = some tokens)
    (ys : List Char) : tokens? (xs ++ ys) = (tokens? ys).map (tokens ++ ·) := by
  fun_induction tokens? xs generalizing tokens with
  | case1 =>
    obtain rfl := Option.some.inj h
    simp
  | case2 c cs hc ih =>
    obtain ⟨rest, hrest, rfl⟩ := Option.map_eq_some_iff.1 h
    simp [tokens?, hc, ih hrest, Function.comp_def]
  | case3 => contradiction
  | case4 c cs hnot ih =>
    obtain ⟨token, htoken, h⟩ := Option.bind_eq_some_iff.1 h
    obtain ⟨rest, hrest, rfl⟩ := Option.map_eq_some_iff.1 h
    have hc : c ≠ '\\' := by
      rintro rfl
      contradiction
    rw [List.cons_append, tokens?, htoken, ih hrest]
    · simp [Function.comp_def]
    · rintro d ds rfl
      contradiction

end Regex

/-! ## Libraries -/

/-- Where regular expressions are built from their text, with what is documented about this. -/
structure RegexLibrary where
  escape : String → String
  /-- A search in any letter case for the regular expression of a text, or why it is refused. -/
  build : String → Except String (String → Bool)
  /-- An escaped text can be used as a literal: each of its characters stands for itself. -/
  tokens?_escape (text : String) :
    Regex.tokens? (escape text).toList = some (text.toList.map fun c => .atom (.letter c))
  /-- A search finds a regular expression anywhere in a text. -/
  build_iff {text : String} {r : Regex} {isMatch : String → Bool}
    (hread : Regex.read? text = some r) (hbuild : build text = .ok isMatch) (s : String) :
    isMatch s = true ↔ r.Matches s.toList

end TagQuery
