import TagQuery.Regex

/-!
# Searching for regular expressions

A regular expression is searched from all places of a text at once, so that many repetitions take no
more time than their number times the length of the text.

## Main definitions

- `Regex.isMatch`: whether a text has a regular expression in it.
- `RegexLibrary.standard`: a library that refuses regular expressions with too many repetitions.

## Main statements

- `Regex.isMatch_iff`: the search finds what the meaning of regular expressions says.
-/

namespace TagQuery

namespace Regex

/-! ## Places of a text -/

/-- For each place of a text, the first place first, whether a character and then parts match from
there, where `ends` says the same of the parts alone. -/
def oneEnds (atom : RegexAtom) : List Char → List Bool → List Bool
  | c :: cs, _ :: ends => (atom.accepts c && ends.headD false) :: oneEnds atom cs ends
  | _, _ => [false]

/-- The same for any number of characters and then the parts. -/
def manyEnds (atom : RegexAtom) : List Char → List Bool → List Bool
  | c :: cs, b :: ends =>
    let rest := manyEnds atom cs ends
    (b || atom.accepts c && rest.headD false) :: rest
  | _, ends => ends

def startEnds : List Bool → List Bool
  | [] => []
  | b :: ends => b :: ends.map fun _ => false

def finishEnds : List Bool → List Bool
  | [] => []
  | [b] => [b]
  | _ :: ends => false :: finishEnds ends

def matchedEnds : Regex → List Char → List Bool
  | [], cs => cs.map (fun _ => true) ++ [true]
  | .one atom :: parts, cs => oneEnds atom cs (matchedEnds parts cs)
  | .many atom :: parts, cs => manyEnds atom cs (matchedEnds parts cs)
  | .start :: parts, cs => startEnds (matchedEnds parts cs)
  | .finish :: parts, cs => finishEnds (matchedEnds parts cs)

def isMatch (r : Regex) (text : List Char) : Bool :=
  (matchedEnds r text).any id

/-! ## What is said about places -/

/-- The values say for each place from `before` on whether something holds there. -/
def Tells (p : List Char → List Char → Prop) (before : List Char) : List Char → List Bool → Prop
  | [], [b] => b = true ↔ p before []
  | c :: cs, b :: ends => (b = true ↔ p before (c :: cs)) ∧ Tells p (before ++ [c]) cs ends
  | _, _ => False

section
variable {p q : List Char → List Char → Prop} {before cs : List Char} {ends : List Bool}

theorem Tells.headD (h : Tells p before cs ends) : ends.headD false = true ↔ p before cs := by
  match cs, ends, h with
  | [], [_], h => exact h
  | _ :: _, _ :: _, h => exact h.1

/-- What is said of places holds of all that is the same at each of them. -/
theorem Tells.congr (h : Tells p before cs ends)
    (hpq : ∀ w rest, cs = w ++ rest → (p (before ++ w) rest ↔ q (before ++ w) rest)) :
    Tells q before cs ends := by
  induction cs generalizing before ends with
  | nil =>
    match ends, h with
    | [_], h => exact h.trans (by simpa using hpq [] [] rfl)
  | cons c cs ih =>
    match ends, h with
    | _ :: _, h =>
      refine ⟨h.1.trans (by simpa using hpq [] (c :: cs) rfl), ih h.2 fun w rest hcs => ?_⟩
      simpa using hpq (c :: w) rest (by rw [hcs]; rfl)

/-- Something holds at some place of a text. -/
theorem Tells.any (h : Tells p before cs ends) :
    ends.any id = true ↔ ∃ w rest, cs = w ++ rest ∧ p (before ++ w) rest := by
  induction cs generalizing before ends with
  | nil =>
    match ends, h with
    | [b], h =>
      have hb : b = true ↔ p before [] := h
      simpa [and_assoc] using hb
  | cons c cs ih =>
    match ends, h with
    | b :: ends, h =>
      rw [List.any_cons, Bool.or_eq_true, id, h.1, ih h.2]
      constructor
      · rintro (hp | ⟨w, rest, rfl, hp⟩)
        · exact ⟨[], c :: cs, rfl, by simpa using hp⟩
        · exact ⟨c :: w, rest, rfl, by simpa using hp⟩
      · rintro ⟨w, rest, hcs, hp⟩
        cases w with
        | nil =>
          obtain rfl := hcs
          exact .inl (by simpa using hp)
        | cons d w =>
          obtain ⟨rfl, rfl⟩ := List.cons.inj hcs
          exact .inr ⟨w, rest, rfl, by simpa using hp⟩

/-- From nowhere else than the start of a text something holds. -/
theorem tells_map_false (hp : ∀ w rest, cs = w ++ rest → ¬p (before ++ w) rest)
    (h : Tells q before cs ends) : Tells p before cs (ends.map fun _ => false) := by
  induction cs generalizing before ends with
  | nil =>
    match ends, h with
    | [_], _ => exact iff_of_false Bool.false_ne_true (by simpa using hp [] [] rfl)
  | cons c cs ih =>
    match ends, h with
    | _ :: _, h =>
      refine ⟨iff_of_false Bool.false_ne_true (by simpa using hp [] (c :: cs) rfl),
        ih (fun w rest hcs => ?_) h.2⟩
      simpa using hp (c :: w) rest (by rw [hcs]; rfl)

end

/-! ## The parts -/

section
variable {parts : Regex} {before cs : List Char} {ends : List Bool}

theorem tells_nil (before cs : List Char) :
    Tells (MatchesFrom []) before cs (cs.map (fun _ => true) ++ [true]) := by
  induction cs generalizing before with
  | nil => exact iff_of_true rfl trivial
  | cons c cs ih => exact ⟨iff_of_true rfl trivial, ih _⟩

theorem tells_one (atom : RegexAtom) (h : Tells (MatchesFrom parts) before cs ends) :
    Tells (MatchesFrom (.one atom :: parts)) before cs (oneEnds atom cs ends) := by
  induction cs generalizing before ends with
  | nil =>
    match ends, h with
    | [_], _ => exact iff_of_false Bool.false_ne_true (by simp [MatchesFrom])
  | cons c cs ih =>
    match ends, h with
    | _ :: _, h =>
      refine ⟨?_, ih h.2⟩
      rw [Bool.and_eq_true, h.2.headD]
      simp [MatchesFrom, and_assoc]

/-- A repetition ends here or goes on with the next character. -/
theorem matchesFrom_many_cons {atom : RegexAtom} {c : Char} :
    MatchesFrom (.many atom :: parts) before (c :: cs) ↔ MatchesFrom parts before (c :: cs) ∨
      atom.accepts c = true ∧ MatchesFrom (.many atom :: parts) (before ++ [c]) cs := by
  constructor
  · rintro ⟨w, rest, hcs, hw, h⟩
    cases w with
    | nil =>
      obtain rfl : c :: cs = rest := hcs
      exact .inl (by simpa using h)
    | cons d w =>
      obtain ⟨rfl, rfl⟩ := List.cons.inj hcs
      obtain ⟨hc, hw⟩ := List.forall_mem_cons.1 hw
      exact .inr ⟨hc, w, rest, rfl, hw, by simpa using h⟩
  · rintro (h | ⟨hc, w, rest, rfl, hw, h⟩)
    · exact ⟨[], c :: cs, rfl, fun _ hd => absurd hd List.not_mem_nil, by simpa using h⟩
    · exact ⟨c :: w, rest, rfl, List.forall_mem_cons.2 ⟨hc, hw⟩, by simpa using h⟩

theorem tells_many (atom : RegexAtom) (h : Tells (MatchesFrom parts) before cs ends) :
    Tells (MatchesFrom (.many atom :: parts)) before cs (manyEnds atom cs ends) := by
  induction cs generalizing before ends with
  | nil =>
    match ends, h with
    | [_], h =>
      refine Iff.trans h ⟨fun h => ⟨[], [], rfl, by simp, by simpa using h⟩, ?_⟩
      rintro ⟨w, rest, hcs, -, h⟩
      obtain ⟨rfl, rfl⟩ := List.append_eq_nil_iff.1 hcs.symm
      simpa using h
  | cons c cs ih =>
    match ends, h with
    | _ :: _, h =>
      refine ⟨?_, ih h.2⟩
      rw [Bool.or_eq_true, Bool.and_eq_true, h.1, (ih h.2).headD, matchesFrom_many_cons]

theorem tells_start (h : Tells (MatchesFrom parts) [] cs ends) :
    Tells (MatchesFrom (.start :: parts)) [] cs (startEnds ends) := by
  match cs, ends, h with
  | [], [_], h => exact h.trans (and_iff_right rfl).symm
  | c :: cs, _ :: _, h =>
    refine ⟨h.1.trans (and_iff_right rfl).symm, tells_map_false (fun w rest _ hstart => ?_) h.2⟩
    simpa using hstart.1

theorem tells_finish (h : Tells (MatchesFrom parts) before cs ends) :
    Tells (MatchesFrom (.finish :: parts)) before cs (finishEnds ends) := by
  induction cs generalizing before ends with
  | nil =>
    match ends, h with
    | [_], h => exact h.trans (and_iff_right rfl).symm
  | cons c cs ih =>
    match ends, h with
    | _ :: b :: ends, h => exact ⟨iff_of_false Bool.false_ne_true (by simp [MatchesFrom]), ih h.2⟩
    | [_], h => exact absurd h.2 (by cases cs <;> exact id)

/-- For each place of a text, the values say whether the parts match from there. -/
theorem tells_matchedEnds (r : Regex) (text : List Char) :
    Tells (MatchesFrom r) [] text (matchedEnds r text) := by
  induction r with
  | nil => exact tells_nil [] text
  | cons part parts ih =>
    cases part with
    | one atom => exact tells_one atom ih
    | many atom => exact tells_many atom ih
    | start => exact tells_start ih
    | finish => exact tells_finish ih

end

/-- The search finds a regular expression exactly in the texts that have it in them. -/
theorem isMatch_iff (r : Regex) (text : List Char) : r.isMatch text = true ↔ r.Matches text :=
  (tells_matchedEnds r text).any

end Regex

/-! ## A library -/

namespace RegexLibrary

def isMeta (c : Char) : Bool :=
  Regex.isSpecial c || ['#', '&', '-', '~'].contains c

def escapeChar (c : Char) : List Char :=
  if isMeta c then ['\\', c] else [c]

/-- The most room that a regular expression may take, in bytes. -/
def sizeLimit : Nat := 10 * Nat.pow 1024 2

def repeats : RegexPart → Bool
  | .many _ => true
  | _ => false

/-- About how much room a regular expression takes: what it repeats takes most of it. -/
def roughSize (r : Regex) : Nat :=
  1040 * r.countP repeats

def buildRegex (text : String) : Except String (String → Bool) :=
  match Regex.read? text with
  | none => .error "unsupported syntax"
  | some r =>
    if sizeLimit < roughSize r then .error "Compiled regex exceeds size limit of 10485760 bytes."
    else .ok fun s => r.isMatch s.toList

theorem token?_of_not_isMeta {c : Char} (h : isMeta c = false) :
    Regex.token? c = some (.atom (.letter c)) := by
  have hspecial : Regex.isSpecial c = false := (Bool.or_eq_false_iff.1 h).1
  have hne {d : Char} (hd : Regex.isSpecial d = true) : c ≠ d := by
    rintro rfl
    exact Bool.false_ne_true (hspecial.symm.trans hd)
  simp [Regex.token?, hspecial, hne (d := '^') rfl, hne (d := '$') rfl, hne (d := '.') rfl,
    hne (d := '*') rfl]

/-- A character is escaped where it would not stand for itself. -/
theorem tokens?_escapeChar (c : Char) :
    Regex.tokens? (escapeChar c) = some [.atom (.letter c)] := by
  unfold escapeChar
  split
  · next hmeta =>
    have hescapable : Regex.isEscapable c = true := by
      have hall : ['\\', '.', '+', '*', '?', '(', ')', '|', '[', ']', '{', '}', '^', '$', '#', '&',
          '-', '~'].all Regex.isEscapable = true := by decide
      refine List.all_eq_true.1 hall c ?_
      simpa [isMeta, Regex.isSpecial, or_assoc] using hmeta
    simp [Regex.tokens?, hescapable]
  · next hplain =>
    have htoken := token?_of_not_isMeta (Bool.eq_false_iff.2 hplain)
    simp [Regex.tokens?, htoken]

/-- The library that searches as above, and refuses what takes too much room. -/
def standard : RegexLibrary where
  escape text := String.ofList (text.toList.flatMap escapeChar)
  build := buildRegex
  tokens?_escape text := by
    rw [String.toList_ofList]
    induction text.toList with
    | nil => rfl
    | cons c cs ih =>
      rw [List.flatMap_cons, Regex.tokens?_append (tokens?_escapeChar c), ih]
      rfl
  build_iff {text r isMatch} hread hbuild s := by
    rw [buildRegex, hread] at hbuild
    dsimp only at hbuild
    split at hbuild
    · contradiction
    · obtain rfl := Except.ok.inj hbuild
      exact r.isMatch_iff s.toList

/-- What can be read is built, unless it takes too much room. -/
theorem standard_build {text : String} {r : Regex} (hread : Regex.read? text = some r) :
    standard.build text =
      if sizeLimit < roughSize r then .error "Compiled regex exceeds size limit of 10485760 bytes."
      else .ok fun s => r.isMatch s.toList := by
  change buildRegex text = _
  rw [buildRegex, hread]

end RegexLibrary
end TagQuery
