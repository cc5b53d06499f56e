import TagQuery.Proofs.Sql.Semantics
import TagQuery.Proofs.Text.Ascii
import TagQuery.Proofs.Text.Cut
import TagQuery.Sql.Script

/-!
# Patterns that look for a text

What a pattern matches is said character by character, and the parts of the pattern decide it. A
pattern that is an escaped text between two wildcards matches the texts in which the text occurs,
whatever wildcards and escape characters it has.

## Main definitions

- `Sql.IsMatch`: a pattern matches a text.

## Main statements

- `Sql.wildcards_escapePattern`: an escaped text stands for its characters.
- `Sql.matchesPattern_occursIn`: a text between two wildcards is looked for everywhere.
- `Sql.isMatch_iff`, `Sql.like_eq_decide`: what a pattern matches, as its parts and as conditions
  decide it.
- `Sql.isMatch_escapePattern_iff`: the texts that contain a text.
-/

namespace TagQuery.Sql

/-! ## Escaped texts -/

def escaped (cs : List Char) : List Char :=
  cs.flatMap fun c => if c = '%' ∨ c = '_' ∨ c = '\\' then ['\\', c] else [c]

theorem wildcards_cons {escape c : Char} (h : c ≠ escape) (cs : List Char) :
    wildcards escape (c :: cs) = (wildcards escape cs).map
      ((if c = '%' then .anyRun else if c = '_' then .anyLetter else .letter c) :: ·) := by
  rw [wildcards.eq_def]
  exact if_neg h

theorem wildcards_cons_escape (escape c : Char) (cs : List Char) :
    wildcards escape (escape :: c :: cs) = (wildcards escape cs).map (.letter c :: ·) := by
  rw [wildcards.eq_def]
  exact if_pos rfl

theorem wildcards_escaped (cs rest : List Char) :
    wildcards '\\' (escaped cs ++ rest) =
      (wildcards '\\' rest).map (cs.map .letter ++ ·) := by
  induction cs with
  | nil => simp [escaped]
  | cons c cs ih =>
    have hcons : escaped (c :: cs) =
        (if c = '%' ∨ c = '_' ∨ c = '\\' then ['\\', c] else [c]) ++ escaped cs := rfl
    rw [hcons]
    by_cases h : c = '%' ∨ c = '_' ∨ c = '\\'
    · rw [if_pos h, List.append_assoc, List.cons_append, List.singleton_append,
        wildcards_cons_escape, ih, Option.map_map]
      rfl
    · obtain ⟨hpercent, hunderscore, hescape⟩ := (not_or.1 h).imp id not_or.1
      rw [if_neg h, List.append_assoc, List.singleton_append, wildcards_cons hescape,
        if_neg hpercent, if_neg hunderscore, ih, Option.map_map]
      rfl

/-- An escaped text between two wildcards for any run. -/
theorem wildcards_escapePattern (t : String) :
    wildcards '\\' ("%" ++ escapePattern t ++ "%").toList =
      some (.anyRun :: (t.toList.map .letter ++ [.anyRun])) := by
  have htext : ("%" ++ escapePattern t ++ "%").toList = '%' :: (escaped t.toList ++ ['%']) := by
    have hpercent : "%".toList = ['%'] := by decide
    rw [String.toList_append, String.toList_append, escapePattern, hpercent, String.toList_ofList]
    rfl
  have hlast : wildcards '\\' ['%'] = some [.anyRun] := by decide
  rw [htext, wildcards_cons (by decide), if_pos rfl, wildcards_escaped, hlast]
  rfl

/-! ## Matches -/

theorem matchesPattern_letters (part cs : List Char) :
    matchesPattern (part.map .letter ++ [.anyRun]) cs =
      (part.map Char.toLower).isPrefixOf (cs.map Char.toLower) := by
  induction part generalizing cs with
  | nil =>
    -- After the letters the last wildcard takes all that is left.
    have hall : matchesPattern [.anyRun] cs = true := by
      simp only [matchesPattern, List.any_eq_true, List.mem_range]
      exact ⟨cs.length, Nat.lt_succ_self _, by simp⟩
    simpa using hall
  | cons p part ih =>
    cases cs with
    | nil => simp [matchesPattern]
    | cons c cs =>
      simp only [List.map_cons, List.cons_append, matchesPattern, List.head?_cons, Option.any_some,
        List.drop_succ_cons, List.drop_zero, List.isPrefixOf, ih]

theorem any_drop_isPrefixOf (part cs : List Char) :
    (List.range (cs.length + 1)).any (fun n => part.isPrefixOf (cs.drop n)) =
      Text.occursIn part cs := by
  induction cs with
  | nil => cases part <;> rfl
  | cons c cs ih =>
    rw [List.length_cons, List.range_succ_eq_map, List.any_cons, List.any_map, Text.occursIn, ← ih]
    rfl

/-- A text between two wildcards is looked for everywhere. -/
theorem matchesPattern_occursIn (part cs : List Char) :
    matchesPattern (.anyRun :: (part.map .letter ++ [.anyRun])) cs =
      Text.occursIn (part.map Char.toLower) (cs.map Char.toLower) := by
  rw [matchesPattern, ← any_drop_isPrefixOf, List.length_map]
  simp only [matchesPattern_letters, List.map_drop]

/-- A pattern made from a text matches the texts in which the text occurs, up to the case of ASCII
letters. -/
theorem like_escapePattern (text t : String) :
    like (.text text) (.text ("%" ++ escapePattern t ++ "%")) (.text "\\") =
      some (Text.occursIn (Text.asciiLowercase t).toList (Text.asciiLowercase text).toList) := by
  have hescape : "\\".toList = ['\\'] := by decide
  simp only [like, hescape, wildcards_escapePattern, Option.any_some, matchesPattern_occursIn,
    Text.toList_asciiLowercase]

/-! ## What patterns match -/

/-- What a pattern matches: `%` stands for any run of characters, `_` for any one character, a
character after the escape character for itself, and every other character for itself. Characters
stand for themselves up to the case of ASCII letters. A pattern that ends in its escape character
matches nothing. -/
inductive IsMatch (escape : Char) : List Char → List Char → Prop
  | nil : IsMatch escape [] []
  | anyRun {pattern text : List Char} (run : List Char) (hpercent : '%' ≠ escape)
      (h : IsMatch escape pattern text) : IsMatch escape ('%' :: pattern) (run ++ text)
  | anyLetter {pattern text : List Char} (c : Char) (hunderscore : '_' ≠ escape)
      (h : IsMatch escape pattern text) : IsMatch escape ('_' :: pattern) (c :: text)
  | escaped {pattern text : List Char} {c d : Char} (hletter : c.toLower = d.toLower)
      (h : IsMatch escape pattern text) : IsMatch escape (escape :: c :: pattern) (d :: text)
  | letter {pattern text : List Char} {c d : Char} (hescape : c ≠ escape) (hpercent : c ≠ '%')
      (hunderscore : c ≠ '_') (hletter : c.toLower = d.toLower)
      (h : IsMatch escape pattern text) : IsMatch escape (c :: pattern) (d :: text)

section Parts

variable {ws : List Wildcard} {cs : List Char}

theorem matchesPattern_nil_iff : matchesPattern [] cs = true ↔ cs = [] :=
  List.isEmpty_iff

theorem matchesPattern_anyRun_iff :
    matchesPattern (.anyRun :: ws) cs = true ↔
      ∃ run rest, cs = run ++ rest ∧ matchesPattern ws rest = true := by
  simp only [matchesPattern, List.any_eq_true, List.mem_range]
  constructor
  · rintro ⟨n, -, h⟩
    exact ⟨cs.take n, cs.drop n, (List.take_append_drop n cs).symm, h⟩
  · rintro ⟨run, rest, rfl, h⟩
    refine ⟨run.length, ?_, ?_⟩
    · rw [List.length_append]
      omega
    · rwa [List.drop_left]

theorem matchesPattern_anyLetter_iff :
    matchesPattern (.anyLetter :: ws) cs = true ↔
      ∃ d rest, cs = d :: rest ∧ matchesPattern ws rest = true := by
  cases cs <;> simp [matchesPattern]

theorem matchesPattern_letter_iff {c : Char} :
    matchesPattern (.letter c :: ws) cs = true ↔
      ∃ d rest, cs = d :: rest ∧ c.toLower = d.toLower ∧ matchesPattern ws rest = true := by
  cases cs <;> simp [matchesPattern]

end Parts

section

variable {escape : Char} {pattern text : List Char}

/-- What a pattern matches, its parts match. -/
theorem IsMatch.exists_wildcards (h : IsMatch escape pattern text) :
    ∃ ws, wildcards escape pattern = some ws ∧ matchesPattern ws text = true := by
  induction h with
  | nil => exact ⟨[], rfl, rfl⟩
  | anyRun run hpercent _ ih =>
    obtain ⟨ws, hws, hmatch⟩ := ih
    refine ⟨.anyRun :: ws, ?_, matchesPattern_anyRun_iff.2 ⟨run, _, rfl, hmatch⟩⟩
    rw [wildcards_cons hpercent, hws]
    rfl
  | anyLetter c hunderscore _ ih =>
    obtain ⟨ws, hws, hmatch⟩ := ih
    refine ⟨.anyLetter :: ws, ?_, matchesPattern_anyLetter_iff.2 ⟨c, _, rfl, hmatch⟩⟩
    rw [wildcards_cons hunderscore, hws]
    rfl
  | @escaped _ _ c d hletter _ ih =>
    obtain ⟨ws, hws, hmatch⟩ := ih
    refine ⟨.letter c :: ws, ?_, matchesPattern_letter_iff.2 ⟨d, _, rfl, hletter, hmatch⟩⟩
    rw [wildcards_cons_escape, hws]
    rfl
  | @letter _ _ c d hescape hpercent hunderscore hletter _ ih =>
    obtain ⟨ws, hws, hmatch⟩ := ih
    refine ⟨.letter c :: ws, ?_, matchesPattern_letter_iff.2 ⟨d, _, rfl, hletter, hmatch⟩⟩
    rw [wildcards_cons hescape, hws, if_neg hpercent, if_neg hunderscore]
    rfl

/-- What the parts of a pattern match, the pattern matches. -/
theorem IsMatch.of_wildcards {ws : List Wildcard} (hws : wildcards escape pattern = some ws)
    (h : matchesPattern ws text = true) : IsMatch escape pattern text := by
  -- A pattern is empty, a lone escape character, or starts with an escaped or another character.
  fun_induction wildcards escape pattern generalizing ws text with
  | case1 =>
    obtain rfl := Option.some.inj hws
    rw [matchesPattern_nil_iff.1 h]
    exact .nil
  | case2 => cases hws
  | case3 c cs ih =>
    obtain ⟨ws, hcs, rfl⟩ := Option.map_eq_some_iff.1 hws
    obtain ⟨d, rest, rfl, hletter, hmatch⟩ := matchesPattern_letter_iff.1 h
    exact .escaped hletter (ih hcs hmatch)
  | case4 c cs hescape ih =>
    obtain ⟨ws, hcs, rfl⟩ := Option.map_eq_some_iff.1 hws
    by_cases hpercent : c = '%'
    · rw [if_pos hpercent] at h
      obtain ⟨run, rest, rfl, hmatch⟩ := matchesPattern_anyRun_iff.1 h
      subst hpercent
      exact .anyRun run hescape (ih hcs hmatch)
    by_cases hunderscore : c = '_'
    · rw [if_neg hpercent, if_pos hunderscore] at h
      obtain ⟨d, rest, rfl, hmatch⟩ := matchesPattern_anyLetter_iff.1 h
      subst hunderscore
      exact .anyLetter d hescape (ih hcs hmatch)
    · rw [if_neg hpercent, if_neg hunderscore] at h
      obtain ⟨d, rest, rfl, hletter, hmatch⟩ := matchesPattern_letter_iff.1 h
      exact .letter hescape hpercent hunderscore hletter (ih hcs hmatch)

/-- The parts of a pattern decide what it matches. -/
theorem isMatch_iff :
    IsMatch escape pattern text ↔
      (wildcards escape pattern).any (matchesPattern · text) = true := by
  constructor
  · intro h
    obtain ⟨ws, hws, hmatch⟩ := h.exists_wildcards
    rwa [hws]
  · intro h
    obtain ⟨ws, hws, hmatch⟩ := (Option.any_eq_true _ _).1 h
    exact .of_wildcards hws hmatch

instance : Decidable (IsMatch escape pattern text) :=
  decidable_of_iff _ isMatch_iff.symm

example : IsMatch '\\' ['%', '\\', '_', 'a', '_'] ['x', '_', 'A', 'b'] ∧
    ¬IsMatch '\\' ['%', '\\', '_', 'a', '_'] ['x', 'y', 'A', 'b'] := by decide

end

/-- A text is like a pattern if the pattern matches it, and is unlike it otherwise. -/
theorem like_eq_decide {mark : String} {escape : Char} (hmark : mark.toList = [escape])
    (text pattern : String) :
    like (.text text) (.text pattern) (.text mark) =
      some (decide (IsMatch escape pattern.toList text.toList)) := by
  simp only [like, hmark, isMatch_iff, Bool.decide_eq_true]

/-- An escaped part between two wildcards matches the texts that contain the part, up to the case of
ASCII letters. The texts that contain it are like this pattern, and the others are unlike it. -/
theorem isMatch_escapePattern_iff (part text : String) :
    (IsMatch '\\' ("%" ++ escapePattern part ++ "%").toList text.toList ↔
        (Text.asciiLowercase part).toList <:+: (Text.asciiLowercase text).toList) ∧
      like (.text text) (.text ("%" ++ escapePattern part ++ "%")) (.text "\\") =
        some (decide
          ((Text.asciiLowercase part).toList <:+: (Text.asciiLowercase text).toList)) := by
  have hmark : "\\".toList = ['\\'] := by decide
  have hlike := like_eq_decide hmark text ("%" ++ escapePattern part ++ "%")
  have hmatch : IsMatch '\\' ("%" ++ escapePattern part ++ "%").toList text.toList ↔
      (Text.asciiLowercase part).toList <:+: (Text.asciiLowercase text).toList := by
    have hdecided := Option.some.inj (hlike.symm.trans (like_escapePattern text part))
    rw [← Text.occursIn_iff_isInfix, ← hdecided, decide_eq_true_iff]
  exact ⟨hmatch, hlike.trans (congrArg some (decide_eq_decide.2 hmatch))⟩

end TagQuery.Sql
