import Mathlib.Data.List.Forall2
import TagQuery.Proofs.Text.Cut
import TagQuery.Search.Query

/-!
# What wildcards match

The stars of a pattern divide it into literal runs. A name is matched if it is these runs one after
another, each in any letter case, with any text between two of them that stays within a line. All
ways to divide the name count, so a run that occurs more than once does not hide a match.

The regular expression of a pattern is read as these runs, since escaped runs stand for themselves.
So every library that keeps to its documentation finds the same names, if it builds the expression.

## Main definitions

- `Search.IsSpelled`: a text is the runs of a pattern with other text between them.
- `Search.globParts`: the regular expression of the runs of a pattern.

## Main statements

- `Search.read?_globText`: what the text of a regular expression is read as.
- `Search.matches_globParts`: the texts that have this regular expression in them.
- `Search.expand_exact`: the names that a pattern matches, or that it is refused.
- `Catalog.mem_globTags`: the tags that a wildcard stands for.
-/

namespace TagQuery

namespace Search

/-! ## Runs with other text between them -/

/-- A text is `m₀ w₁ m₁ … wₖ mₖ`, where `m₀` is the first run up to the case of each character,
every other `mᵢ` likewise is one of the rest, and no `wᵢ` has a newline. -/
def IsSpelled (first : List Char) (rest : List (List Char)) (text : List Char) : Prop :=
  ∃ (m : List Char) (parts : List (List Char × List Char)),
    text = m ++ parts.flatMap (fun part => part.1 ++ part.2) ∧
      m.map Text.fold = first.map Text.fold ∧
      List.Forall₂ (fun run part => '\n' ∉ part.1 ∧ part.2.map Text.fold = run.map Text.fold)
        rest parts

/-- A single run is spelled by itself only. -/
theorem isSpelled_nil {first text : List Char} :
    IsSpelled first [] text ↔ text.map Text.fold = first.map Text.fold := by
  constructor
  · rintro ⟨m, parts, rfl, hm, hparts⟩
    obtain rfl := List.forall₂_nil_left_iff.1 hparts
    rwa [List.flatMap_nil, List.append_nil]
  · exact fun h => ⟨text, [], by simp, h, .nil⟩

/-- After the first run come a text within a line and the other runs. -/
theorem isSpelled_cons {first run : List Char} {rest : List (List Char)} {text : List Char} :
    IsSpelled first (run :: rest) text ↔
      ∃ m others, text = m ++ others ∧ m.map Text.fold = first.map Text.fold ∧
        ∃ w tail, others = w ++ tail ∧ '\n' ∉ w ∧ IsSpelled run rest tail := by
  constructor
  · rintro ⟨m, parts, rfl, hm, hparts⟩
    obtain ⟨part, parts, ⟨hline, hrun⟩, hrest, rfl⟩ := List.forall₂_cons_left_iff.1 hparts
    refine ⟨m, _, rfl, hm, part.1, _, ?_, hline, part.2, parts, rfl, hrun, hrest⟩
    rw [List.flatMap_cons, List.append_assoc]
  · rintro ⟨m, _, rfl, hm, w, _, rfl, hline, m', parts, rfl, hrun, hrest⟩
    refine ⟨m, (w, m') :: parts, ?_, hm, .cons ⟨hline, hrun⟩ hrest⟩
    rw [List.flatMap_cons, List.append_assoc]

/-- Stars are spelled by any text within a line. -/
theorem isSpelled_stars {n : Nat} (hn : n ≠ 0) {text : List Char} (h : '\n' ∉ text) :
    IsSpelled [] (List.replicate n []) text := by
  obtain ⟨n, rfl⟩ := Nat.exists_eq_succ_of_ne_zero hn
  rw [List.replicate_succ, isSpelled_cons]
  refine ⟨[], text, rfl, rfl, text, [], (List.append_nil text).symm, h, ?_⟩
  clear hn
  induction n with
  | zero => exact isSpelled_nil.2 rfl
  | succ n ih =>
    rw [List.replicate_succ, isSpelled_cons]
    exact ⟨[], [], rfl, rfl, [], [], rfl, List.not_mem_nil, ih⟩

/-- Every pattern is some runs with stars between them. -/
theorem exists_runs (pattern : List Char) :
    ∃ first rest, pattern = ['*'].intercalate (first :: rest) ∧
      ∀ run ∈ first :: rest, '*' ∉ run := by
  obtain ⟨first, rest, hruns⟩ := List.exists_cons_of_ne_nil (Text.splitAt_ne_nil '*' pattern)
  refine ⟨first, rest, ?_, fun run hrun => Text.not_mem_of_mem_splitAt (hruns ▸ hrun)⟩
  rw [← hruns, Text.splitAt_eq_splitOn, List.intercalate_splitOn]

def IsSpelledBy (pattern text : String) : Prop :=
  ∃ first rest, (∀ run ∈ first :: rest, '*' ∉ run) ∧
    pattern.toList = ['*'].intercalate (first :: rest) ∧ IsSpelled first rest text.toList

theorem splitAt_intercalate {first : List Char} {rest : List (List Char)}
    (hruns : ∀ run ∈ first :: rest, '*' ∉ run) :
    Text.splitAt '*' (['*'].intercalate (first :: rest)) = first :: rest := by
  rw [Text.splitAt_eq_splitOn]
  exact List.splitOn_intercalate '*' hruns (List.cons_ne_nil first rest)

/-! ## Regular expressions of runs -/

def literal (run : List Char) : Regex :=
  run.map fun c => .one (.letter c)

def globTail (first : List Char) (rest : List (List Char)) : Regex :=
  literal first ++ (rest.flatMap fun run => .many .any :: literal run) ++ [.finish]

/-- The regular expression of whole texts that are runs with other text between them. -/
def globParts (first : List Char) (rest : List (List Char)) : Regex :=
  .start :: globTail first rest

theorem globTail_nil (first : List Char) : globTail first [] = literal first ++ [.finish] := by
  simp [globTail]

theorem globTail_cons (first run : List Char) (rest : List (List Char)) :
    globTail first (run :: rest) = literal first ++ .many .any :: globTail run rest := by
  simp [globTail]

/-- A literal matches itself in any letter case. -/
theorem matchesFrom_literal {run before text : List Char} {parts : Regex} :
    Regex.MatchesFrom (literal run ++ parts) before text ↔
      ∃ m others, text = m ++ others ∧ m.map Text.fold = run.map Text.fold ∧
        parts.MatchesFrom (before ++ m) others := by
  induction run generalizing before text with
  | nil =>
    constructor
    · exact fun h => ⟨[], text, rfl, rfl, by simpa [literal] using h⟩
    · rintro ⟨m, others, rfl, hm, h⟩
      obtain rfl := List.map_eq_nil_iff.1 hm
      simpa [literal] using h
  | cons p run ih =>
    constructor
    · rintro ⟨c, cs, rfl, hc, h⟩
      obtain ⟨m, others, rfl, hm, h⟩ := ih.1 h
      have hletter : Text.fold p = Text.fold c := beq_iff_eq.1 hc
      refine ⟨c :: m, others, rfl, ?_, by simpa using h⟩
      rw [List.map_cons, List.map_cons, hm, hletter]
    · rintro ⟨m, others, rfl, hm, h⟩
      cases m with
      | nil => contradiction
      | cons c m =>
        obtain ⟨hletter, hm⟩ := List.cons.inj hm
        refine ⟨c, m ++ others, rfl, beq_iff_eq.2 hletter.symm, ih.2 ⟨m, others, rfl, hm, ?_⟩⟩
        simpa using h

theorem matchesFrom_many_any {before text : List Char} {parts : Regex} :
    Regex.MatchesFrom (.many .any :: parts) before text ↔
      ∃ w others, text = w ++ others ∧ '\n' ∉ w ∧ parts.MatchesFrom (before ++ w) others := by
  have hline (w : List Char) : (∀ c ∈ w, RegexAtom.any.accepts c = true) ↔ '\n' ∉ w := by
    simp only [RegexAtom.accepts, bne_iff_ne]
    exact ⟨fun h hnewline => h _ hnewline rfl, fun h c hc heq => h (heq ▸ hc)⟩
  simp only [Regex.MatchesFrom, hline]

/-- The runs match what is left of a text if they spell it. -/
theorem matchesFrom_globTail {first : List Char} {rest : List (List Char)}
    {before text : List Char} :
    (globTail first rest).MatchesFrom before text ↔ IsSpelled first rest text := by
  induction rest generalizing first before text with
  | nil =>
    rw [globTail_nil, matchesFrom_literal, isSpelled_nil]
    constructor
    · rintro ⟨m, _, rfl, hm, rfl, -⟩
      rwa [List.append_nil]
    · exact fun h => ⟨text, [], (List.append_nil text).symm, h, rfl, trivial⟩
  | cons run rest ih =>
    rw [globTail_cons, matchesFrom_literal, isSpelled_cons]
    simp only [matchesFrom_many_any, ih]

/-- The regular expression of runs is found in the texts that they spell. -/
theorem matches_globParts {first : List Char} {rest : List (List Char)} {text : List Char} :
    (globParts first rest).Matches text ↔ IsSpelled first rest text := by
  constructor
  · rintro ⟨_, _, rfl, rfl, h⟩
    exact matchesFrom_globTail.1 h
  · exact fun h => ⟨[], text, rfl, rfl, matchesFrom_globTail.2 h⟩

/-! ## Reading -/

section

def letters (run : List Char) : List Regex.Token :=
  run.map fun c => .atom (.letter c)

theorem parts?_letters {tokens : List Regex.Token} (h : tokens.head? ≠ some .repeats)
    (run : List Char) :
    Regex.parts? (letters run ++ tokens) = (Regex.parts? tokens).map (literal run ++ ·) := by
  induction run with
  | nil => simp [letters, literal]
  | cons c run ih =>
    have hnext : (letters run ++ tokens).head? ≠ some .repeats := by
      cases run with
      | nil => exact h
      | cons d run => simp [letters]
    change Regex.parts? (.atom (.letter c) :: (letters run ++ tokens)) = _
    generalize letters run ++ tokens = following at ih hnext
    match following, hnext with
    | [], _ | .atom _ :: _, _ | .start :: _, _ | .finish :: _, _ =>
      rw [Regex.parts?, ih, Option.map_map]
      · rfl
      · simp

def globTokens (first : List Char) (rest : List (List Char)) : List Regex.Token :=
  letters first ++ (rest.flatMap fun run => .atom .any :: .repeats :: letters run) ++ [.finish]

theorem globTokens_cons (first run : List Char) (rest : List (List Char)) :
    globTokens first (run :: rest) =
      letters first ++ .atom .any :: .repeats :: globTokens run rest := by
  simp [globTokens]

theorem parts?_globTokens (first : List Char) (rest : List (List Char)) :
    Regex.parts? (globTokens first rest) = some (globTail first rest) := by
  induction rest generalizing first with
  | nil =>
    have htokens : globTokens first [] = letters first ++ [.finish] := by simp [globTokens]
    rw [htokens, parts?_letters (by simp), globTail_nil]
    rfl
  | cons run rest ih =>
    rw [globTokens_cons, parts?_letters (by simp), Regex.parts?, ih, globTail_cons]
    rfl

variable {regex : RegexLibrary}

theorem tokens?_escape_append (run rest : List Char) :
    Regex.tokens? ((regex.escape (String.ofList run)).toList ++ rest) =
      (Regex.tokens? rest).map (letters run ++ ·) := by
  rw [Regex.tokens?_append (regex.tokens?_escape _), String.toList_ofList]
  rfl

def escaped (regex : RegexLibrary) (runs : List (List Char)) : List (List Char) :=
  runs.map fun run => (regex.escape (String.ofList run)).toList

theorem escaped_cons (run : List Char) (runs : List (List Char)) :
    escaped regex (run :: runs) = (regex.escape (String.ofList run)).toList :: escaped regex runs :=
  rfl

theorem tokens?_intercalate (first : List Char) (rest : List (List Char)) :
    Regex.tokens? (['.', '*'].intercalate (escaped regex (first :: rest)) ++ ['$']) =
      some (globTokens first rest) := by
  induction rest generalizing first with
  | nil =>
    have hone : escaped regex [first] = [(regex.escape (String.ofList first)).toList] := rfl
    rw [hone, List.intercalate_singleton, tokens?_escape_append]
    simp [Regex.tokens?, Regex.token?, globTokens]
  | cons run rest ih =>
    rw [escaped_cons, escaped_cons, List.intercalate_cons_cons, ← escaped_cons, List.append_assoc,
      List.append_assoc, tokens?_escape_append, globTokens_cons]
    simp [Regex.tokens?, Regex.token?, ih]

/-- The text of a regular expression is read as the runs of the pattern. -/
theorem read?_globText {first : List Char} {rest : List (List Char)}
    (hruns : ∀ run ∈ first :: rest, '*' ∉ run) {pattern : String}
    (hpattern : pattern.toList = ['*'].intercalate (first :: rest)) :
    Regex.read? (globText regex pattern) = some (globParts first rest) := by
  have hchars : (globText regex pattern).toList =
      '^' :: (['.', '*'].intercalate (escaped regex (first :: rest)) ++ ['$']) := by
    rw [globText, hpattern, splitAt_intercalate hruns, String.toList_append, String.toList_append,
      String.toList_intercalate, List.map_map]
    rfl
  have hparts : Regex.parts? (.start :: globTokens first rest) = some (globParts first rest) := by
    rw [Regex.parts?, parts?_globTokens]
    rfl
  rw [Regex.read?, hchars]
  simp [Regex.tokens?, Regex.token?, tokens?_intercalate, hparts]

theorem countP_globTail (first : List Char) (rest : List (List Char)) :
    (globTail first rest).countP RegexLibrary.repeats = rest.length := by
  have hliteral (run : List Char) : (literal run).countP RegexLibrary.repeats = 0 := by
    simp [literal, RegexLibrary.repeats]
  induction rest generalizing first with
  | nil =>
    rw [globTail_nil, List.countP_append, hliteral]
    rfl
  | cons run rest ih =>
    rw [globTail_cons, List.countP_append, hliteral, List.countP_cons_of_pos rfl, ih,
      Nat.zero_add, List.length_cons]

theorem roughSize_globParts (first : List Char) (rest : List (List Char)) :
    RegexLibrary.roughSize (globParts first rest) = 1040 * rest.length := by
  rw [RegexLibrary.roughSize, globParts, List.countP_cons_of_neg Bool.false_ne_true,
    countP_globTail]

/-! ## The names that a pattern matches -/

/-- The standard library builds the regular expression of a pattern with few stars. -/
theorem expand_standard {first : List Char} {rest : List (List Char)}
    (hruns : ∀ run ∈ first :: rest, '*' ∉ run) {pattern : String}
    (hpattern : pattern.toList = ['*'].intercalate (first :: rest))
    (hsize : ¬RegexLibrary.sizeLimit < RegexLibrary.roughSize (globParts first rest))
    (tags : TagSet) :
    expand pattern tags .standard =
      .ok (tags.filter fun t => (globParts first rest).isMatch t.toList) := by
  rw [expand, globRegex, RegexLibrary.standard_build (read?_globText hruns hpattern), if_neg hsize]
  rfl

/-- The library is only relied on for finding the regular expression of a pattern. -/
theorem mem_of_expand {first : List Char} {rest : List (List Char)}
    (hruns : ∀ run ∈ first :: rest, '*' ∉ run) {pattern : String}
    (hpattern : pattern.toList = ['*'].intercalate (first :: rest)) {tags found : TagSet}
    (h : expand pattern tags regex = .ok found) (t : String) :
    t ∈ found ↔ t ∈ tags ∧ IsSpelled first rest t.toList := by
  unfold expand globRegex at h
  cases hbuild : regex.build (globText regex pattern) with
  | error message =>
    rw [hbuild] at h
    contradiction
  | ok isMatch =>
    rw [hbuild] at h
    obtain rfl := Except.ok.inj h
    rw [TagSet.mem_filter, regex.build_iff (read?_globText hruns hpattern) hbuild,
      matches_globParts]

theorem mem_of_expand_iff_isSpelledBy {pattern : String} {tags found : TagSet}
    (h : expand pattern tags regex = .ok found) (t : String) :
    t ∈ found ↔ t ∈ tags ∧ IsSpelledBy pattern t := by
  obtain ⟨first, rest, hpattern, hruns⟩ := exists_runs pattern.toList
  constructor
  · intro ht
    obtain ⟨htags, hspelled⟩ := (mem_of_expand hruns hpattern h t).1 ht
    exact ⟨htags, first, rest, hruns, hpattern, hspelled⟩
  · rintro ⟨htags, first, rest, hruns, hpattern, hspelled⟩
    exact (mem_of_expand hruns hpattern h t).2 ⟨htags, hspelled⟩

/-- If the library refuses the regular expression of a pattern, the pattern is refused with the same
message. If it builds it, the pattern matches, of the names of any set, those that are its runs in
any letter case with text within lines between them, and no others. -/
theorem expand_exact {first : List Char} {rest : List (List Char)}
    (hruns : ∀ run ∈ first :: rest, '*' ∉ run) {pattern : String}
    (hpattern : pattern.toList = ['*'].intercalate (first :: rest)) (tags : TagSet)
    (regex : RegexLibrary) :
    (∀ message, regex.build (globText regex pattern) = .error message →
      expand pattern tags regex = .error message) ∧
    ∀ isMatch, regex.build (globText regex pattern) = .ok isMatch →
      ∃ found, expand pattern tags regex = .ok found ∧
        ∀ t, t ∈ found ↔ t ∈ tags ∧ IsSpelled first rest t.toList := by
  refine ⟨fun message hbuild => ?_, fun isMatch hbuild => ?_⟩
  · rw [expand, globRegex, hbuild]
    rfl
  · have hexpand : expand pattern tags regex = .ok (tags.filter isMatch) := by
      rw [expand, globRegex, hbuild]
      rfl
    exact ⟨_, hexpand, mem_of_expand hruns hpattern hexpand⟩

/-- A sign that is special elsewhere stands for itself here, the Kelvin sign is the letter k, and
the last run is looked for at the end of a name even if it also occurs before. A line break ends
what a star can match. -/
theorem expand_exact_kelvin :
    let first := ['k', '+']
    let rest := [['a', 'b'], ['b']]
    let tags := TagSet.ofList ["\u212A+abab.B", "k+\nabb", "kkabb"]
    (∀ run ∈ first :: rest, '*' ∉ run) ∧ "k+*ab*b".toList = ['*'].intercalate (first :: rest) ∧
      (∃ isMatch, RegexLibrary.standard.build (globText .standard "k+*ab*b") = .ok isMatch) ∧
      ∃ found, expand "k+*ab*b" tags .standard = .ok found ∧ "\u212A+abab.B" ∈ found ∧
        "k+\nabb" ∉ found ∧ "kkabb" ∉ found := by
  intro first rest tags
  have hruns : ∀ run ∈ first :: rest, '*' ∉ run := by decide
  have hpattern : "k+*ab*b".toList = ['*'].intercalate (first :: rest) := by decide
  have hread : Regex.read? (globText .standard "k+*ab*b") = some (globParts first rest) :=
    read?_globText hruns hpattern
  have hbuild : RegexLibrary.standard.build (globText .standard "k+*ab*b") =
      .ok fun s => (globParts first rest).isMatch s.toList :=
    (RegexLibrary.standard_build hread).trans (if_neg (by decide))
  obtain ⟨found, hfound, hmem⟩ := (expand_exact hruns hpattern tags .standard).2 _ hbuild
  refine ⟨hruns, hpattern, ⟨_, hbuild⟩, found, hfound, ?_, ?_, ?_⟩ <;> rw [hmem]
  · refine ⟨by decide, ['\u212A', '+'], [([], ['a', 'b']), (['a', 'b', '.'], ['B'])], ?_⟩
    decide +kernel
  · rw [← matches_globParts, ← Regex.isMatch_iff]
    decide +kernel
  · rw [← matches_globParts, ← Regex.isMatch_iff]
    decide +kernel

/-- A library may refuse a pattern with many stars, although any name within a line is spelled by
them. -/
theorem expand_refuses :
    let rest := List.replicate 40000 []
    let pattern := String.ofList (['*'].intercalate ([] :: rest))
    (∀ run ∈ [] :: rest, '*' ∉ run) ∧ IsSpelled [] rest "a".toList ∧
      expand pattern (.singleton "a") .standard =
        .error "Compiled regex exceeds size limit of 10485760 bytes." ∧
      ¬∃ found, expand pattern (.singleton "a") .standard = .ok found := by
  intro rest pattern
  have hruns : ∀ run ∈ [] :: rest, '*' ∉ run := by
    intro run hrun
    rcases List.mem_cons.1 hrun with rfl | hrest
    · exact List.not_mem_nil
    · rw [List.eq_of_mem_replicate hrest]
      exact List.not_mem_nil
  have hread : Regex.read? (globText .standard pattern) = some (globParts [] rest) :=
    read?_globText hruns String.toList_ofList
  have hsize : RegexLibrary.sizeLimit < RegexLibrary.roughSize (globParts [] rest) := by
    rw [roughSize_globParts, List.length_replicate]
    decide
  have hrefused : expand pattern (.singleton "a") .standard =
      .error "Compiled regex exceeds size limit of 10485760 bytes." := by
    rw [expand, globRegex, RegexLibrary.standard_build hread, if_pos hsize]
    rfl
  have hspelled : IsSpelled [] rest "a".toList := isSpelled_stars (by omega) (by decide)
  refine ⟨hruns, hspelled, hrefused, ?_⟩
  rintro ⟨found, hfound⟩
  cases hrefused.symm.trans hfound

end

end Search

/-! ## The tags that a wildcard stands for -/

namespace Catalog

open Search (isGlob globParts)

variable {c : Catalog}

theorem mem_globTags {value : String} {tags : List String} (h : c.globTags value = .ok tags)
    (x : String) : x ∈ tags ↔
      (x ∈ c.engine.knownTags ∨ x ∈ c.tagsInUse) ∧ Search.IsSpelledBy value x ∧
        isGlob x = false := by
  unfold globTags at h
  cases hexpand : Search.expand value (c.engine.knownTags ∪ c.tagsInUse) c.regex with
  | error message =>
    rw [hexpand] at h
    contradiction
  | ok found =>
    rw [hexpand] at h
    obtain rfl := Except.ok.inj h
    simp [TagSet.mem_toList, Search.mem_of_expand_iff_isSpelledBy hexpand, TagSet.mem_union,
      and_assoc]

/-- With the standard library, a wildcard of few stars stands for the known tags without a star that
its regular expression is found in. -/
theorem globTags_standard (c : Catalog) (hregex : c.regex = .standard) {first : List Char}
    {rest : List (List Char)} (hruns : ∀ run ∈ first :: rest, '*' ∉ run) {value : String}
    (hvalue : value.toList = ['*'].intercalate (first :: rest))
    (hsize : ¬RegexLibrary.sizeLimit < RegexLibrary.roughSize (globParts first rest)) :
    c.globTags value = .ok (((c.engine.knownTags ∪ c.tagsInUse).filter fun t =>
      (globParts first rest).isMatch t.toList).toList.filter fun t => !isGlob t) := by
  rw [globTags, hregex, Search.expand_standard hruns hvalue hsize]
  rfl

end Catalog
end TagQuery
