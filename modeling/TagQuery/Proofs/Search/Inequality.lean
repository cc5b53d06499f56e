import Mathlib.Data.List.Basic
import TagQuery.Proofs.Text.Cut
import TagQuery.Search.Property

/-!
# Properties that differ from a value

A condition that a property differ from a wanted value compares the two as they are, up to case,
while equality takes a star at the end of the wanted value for any ending. So the two are each
other's negation, except on a wanted value with a star: a property that begins as it says has the
value and differs from it.

## Main statements

- `Text.lowercase_append_star`: a star at the end of a text stays there in the lowercase form.
- `Text.exists_eq_append_star`: only such a text has a lowercase form that ends in a star.
- `PropertyPredicate.notEqual_negates_equal`: when exactly one of the two conditions is satisfied.
-/

namespace TagQuery

/-! ## Stars at the end of a text -/

namespace Text

theorem contains_caseIgnorableRanges_star : CharClass.contains caseIgnorableRanges '*' = false := by
  decide +kernel

theorem contains_casedRanges_star : CharClass.contains casedRanges '*' = false := by
  decide +kernel

/-- A star has no case, and ends what a word's case is read across. -/
theorem meetsCased_append_star (cs : List Char) : meetsCased (cs ++ ['*']) = meetsCased cs := by
  unfold meetsCased
  rw [List.dropWhile_append]
  cases hcs : cs.dropWhile (CharClass.contains caseIgnorableRanges) with
  | nil =>
    rw [List.isEmpty_nil, if_pos rfl,
      List.dropWhile_cons_of_neg (by simp [contains_caseIgnorableRanges_star])]
    exact contains_casedRanges_star
  | cons c rest => rfl

theorem map_lowercaseRuns_star : CharMap.map lowercaseRuns '*' = '*' := by
  decide +kernel

/-- No other character has a star for its lowercase form: all runs lead past it. -/
theorem eq_star_of_map_lowercaseRuns {c : Char} (h : CharMap.map lowercaseRuns c = '*') :
    c = '*' := by
  have htargets : lowercaseRuns.all (fun run => 0x61 ≤ run.target) = true := by decide +kernel
  unfold CharMap.map at h
  split at h
  · next run hrun =>
    have htarget : 0x61 ≤ run.target := by
      simpa using List.all_eq_true.1 htargets run (List.mem_of_find?_eq_some hrun)
    by_cases hvalid : (run.target + (c.toNat - run.first)).isValidChar
    · rw [Char.ofNat, dif_pos hvalid] at h
      have himage : run.target + (c.toNat - run.first) = 0x2A := congrArg Char.toNat h
      omega
    · rw [Char.ofNat, dif_neg hvalid] at h
      contradiction
  · exact h

theorem lowercaseFrom_append_star (before cs : List Char) :
    lowercaseFrom before (cs ++ ['*']) = lowercaseFrom before cs ++ ['*'] := by
  induction cs generalizing before with
  | nil => simp [lowercaseFrom, map_lowercaseRuns_star]
  | cons c cs ih =>
    rw [List.cons_append, lowercaseFrom, lowercaseFrom, meetsCased_append_star, ih,
      List.append_assoc]

theorem lowercaseFrom_ne_nil (before : List Char) (c : Char) (cs : List Char) :
    lowercaseFrom before (c :: cs) ≠ [] := by
  rw [lowercaseFrom]
  split_ifs <;> exact List.cons_ne_nil _ _

/-- A star that ends the lowercase form was there before. -/
theorem getLast?_of_lowercaseFrom {before cs : List Char}
    (h : (lowercaseFrom before cs).getLast? = some '*') : cs.getLast? = some '*' := by
  induction cs generalizing before with
  | nil => contradiction
  | cons c cs ih =>
    cases cs with
    | cons d cs =>
      rw [lowercaseFrom, List.getLast?_append_of_ne_nil _ (lowercaseFrom_ne_nil _ d cs)] at h
      rw [List.getLast?_cons_cons]
      exact ih h
    | nil =>
      simp only [lowercaseFrom, List.append_nil] at h
      split_ifs at h with hsigma hfinal hdotted
      · simp at h
      · simp at h
      · simp at h
      · rw [List.getLast?_singleton, Option.some.injEq] at h
        rw [eq_star_of_map_lowercaseRuns h, List.getLast?_singleton]

/-- A star at the end of a text stays there in the lowercase form. -/
theorem lowercase_append_star (s : String) : lowercase (s ++ "*") = lowercase s ++ "*" := by
  have hstar : "*".toList = ['*'] := rfl
  rw [lowercase, String.toList_append, hstar, lowercaseFrom_append_star, String.ofList_append]
  rfl

/-- Only a text with a star at its end has a lowercase form with one. -/
theorem exists_eq_append_star {s : String} {start : List Char}
    (h : (lowercase s).toList = start ++ ['*']) : ∃ t, s = t ++ "*" := by
  rw [lowercase, String.toList_ofList] at h
  have hstar : (lowercaseFrom [] s.toList).getLast? = some '*' := by
    rw [h, List.getLast?_append_of_ne_nil _ (List.cons_ne_nil _ _), List.getLast?_singleton]
  obtain ⟨init, hs⟩ := List.getLast?_eq_some_iff.1 (getLast?_of_lowercaseFrom hstar)
  refine ⟨String.ofList init, String.toList_inj.1 ?_⟩
  rw [hs, String.toList_append, String.toList_ofList]
  rfl

theorem dropPrefix?_append (part rest : List Char) :
    dropPrefix? part (part ++ rest) = some rest := by
  induction part with
  | nil => rfl
  | cons p part ih => rw [List.cons_append, dropPrefix?, if_pos rfl, ih]

theorem dropSuffix?_append (part rest : List Char) :
    dropSuffix? part (rest ++ part) = some rest := by
  rw [dropSuffix?, List.reverse_append, dropPrefix?_append, Option.map_some, List.reverse_reverse]

/-- The characters before the first separator are those on its left. -/
theorem splitOnce?_append_cons {sep : Char} {left : List Char} (h : sep ∉ left)
    (right : List Char) : splitOnce? sep (left ++ sep :: right) = some (left, right) := by
  induction left with
  | nil => simp [splitOnce?]
  | cons c left ih =>
    obtain ⟨hc, hrest⟩ := not_or.1 (mt List.mem_cons.2 h)
    rw [List.cons_append, splitOnce?, if_neg (Ne.symm hc), ih hrest]
    rfl

end Text

/-! ## Conditions on values -/

namespace Property

theorem parts_eq {name : String} (hname : '=' ∉ name.toList) (value : String) :
    parts (name ++ "=" ++ value) = (Text.trim name, some (Text.trim value)) := by
  have hequals : (name ++ "=" ++ value).toList = name.toList ++ '=' :: value.toList := by
    rw [String.toList_append, String.toList_append, List.append_assoc]
    rfl
  rw [parts, hequals, Text.splitOnce?_append_cons hname]
  simp only [String.ofList_toList]

/-- With a star at the end of the wanted value, a value equals it that begins with what stands
before the star. -/
theorem matchesText_append_star (actual start : String) :
    matchesText actual (start ++ "*") = true ↔
      (Text.lowercase start).toList <+: (Text.lowercase actual).toList := by
  have hwanted : (Text.lowercase (start ++ "*")).toList =
      (Text.lowercase start).toList ++ ['*'] := by
    rw [Text.lowercase_append_star, String.toList_append]
    rfl
  rw [matchesText]
  simp only [hwanted, Text.dropSuffix?_append, List.isPrefixOf_iff_prefix]

/-- Without a star, a value equals the wanted one that differs at most in case. -/
theorem matchesText_of_no_star {wanted : String} (h : ∀ start, wanted ≠ start ++ "*")
    (actual : String) :
    matchesText actual wanted = true ↔ Text.lowercase actual = Text.lowercase wanted := by
  have hnone : Text.dropSuffix? ['*'] (Text.lowercase wanted).toList = none := by
    refine Option.eq_none_iff_forall_ne_some.2 fun rest hrest => ?_
    obtain ⟨start, hstart⟩ := Text.exists_eq_append_star (Text.dropSuffix?_eq_some hrest)
    exact h start hstart
  rw [matchesText]
  simp only [hnone, beq_iff_eq, String.toList_inj]

end Property

namespace PropertyPredicate

/-- A condition on the value of the property that it names. -/
theorem accepts_eq {name field : String} (hname : '=' ∉ name.toList)
    (hfield : Text.eqIgnoringAsciiCase (Text.trim name) (Text.trim field) = true)
    (op : FieldOperator) (value wanted : String) :
    (PropertyPredicate.mk field (some op) (some wanted)).accepts (name ++ "=" ++ value) =
      Property.valueMatches op (Text.trim value) wanted := by
  simp only [accepts, Property.parts_eq hname, hfield, Option.any_some, Bool.true_and]

/-- Of the conditions that a property equal a wanted value and that it differ from it, one is
satisfied. Only one of them is, unless the wanted value ends in a star and the value begins with
what stands before it, without being the wanted value itself: such a value satisfies both. -/
theorem notEqual_negates_equal {name field : String} (hname : '=' ∉ name.toList)
    (hfield : Text.eqIgnoringAsciiCase (Text.trim name) (Text.trim field) = true)
    (value wanted : String) :
    let property := name ++ "=" ++ value
    let equal : PropertyPredicate := ⟨field, some .equal, some wanted⟩
    let notEqual : PropertyPredicate := ⟨field, some .notEqual, some wanted⟩
    (equal.accepts property = true ∨ notEqual.accepts property = true) ∧
      (equal.accepts property = true ∧ notEqual.accepts property = true ↔
        ∃ start, wanted = start ++ "*" ∧
          (Text.lowercase start).toList <+: (Text.lowercase (Text.trim value)).toList ∧
            Text.lowercase (Text.trim value) ≠ Text.lowercase wanted) := by
  intro property equal notEqual
  have hequal : equal.accepts property = Property.matchesText (Text.trim value) wanted :=
    accepts_eq hname hfield .equal value wanted
  have hnotEqual : notEqual.accepts property = true ↔
      Text.lowercase (Text.trim value) ≠ Text.lowercase wanted := by
    rw [accepts_eq hname hfield .notEqual value wanted]
    exact bne_iff_ne
  rw [hequal, hnotEqual]
  by_cases hstar : ∃ start, wanted = start ++ "*"
  · obtain ⟨start, rfl⟩ := hstar
    rw [Property.matchesText_append_star]
    refine ⟨?_, ?_⟩
    · refine or_iff_not_imp_right.2 fun hsame => ?_
      rw [not_not.1 hsame, Text.lowercase_append_star, String.toList_append]
      exact List.prefix_append _ _
    · constructor
      · rintro ⟨hbegins, hne⟩
        exact ⟨start, rfl, hbegins, hne⟩
      · rintro ⟨start', hstart, hbegins, hne⟩
        obtain rfl := (String.append_left_inj "*").1 hstart
        exact ⟨hbegins, hne⟩
  · have hno : ∀ start, wanted ≠ start ++ "*" := fun start h => hstar ⟨start, h⟩
    rw [Property.matchesText_of_no_star hno]
    refine ⟨em _, iff_of_false (fun h => h.2 h.1) ?_⟩
    rintro ⟨start, h, -⟩
    exact hno start h

/-- The value that is the wanted one with its star has this value, and does not differ from it. -/
theorem notEqual_negates_equal_star :
    let property := "name=ali* "
    let equal : PropertyPredicate := ⟨" Name", some .equal, some "Ali*"⟩
    let notEqual : PropertyPredicate := ⟨" Name", some .notEqual, some "Ali*"⟩
    '=' ∉ "name".toList ∧
      Text.eqIgnoringAsciiCase (Text.trim "name") (Text.trim " Name") = true ∧
      (equal.accepts property = true ∨ notEqual.accepts property = true) ∧
      ¬(equal.accepts property = true ∧ notEqual.accepts property = true) := by
  intro property equal notEqual
  have hname : '=' ∉ "name".toList := by decide
  have hfield : Text.eqIgnoringAsciiCase (Text.trim "name") (Text.trim " Name") = true := by decide
  obtain ⟨hone, hboth⟩ := notEqual_negates_equal hname hfield "ali* " "Ali*"
  refine ⟨hname, hfield, hone, fun h => ?_⟩
  obtain ⟨start, -, -, hne⟩ := hboth.1 h
  exact hne (by decide)

/-- Alice has a name that begins with `Ali`, and one that is not these letters and a star. -/
theorem equal_and_notEqual_accept_alice :
    let equal : PropertyPredicate := ⟨"name", some .equal, some "Ali*"⟩
    let notEqual : PropertyPredicate := ⟨"name", some .notEqual, some "Ali*"⟩
    equal.accepts "name=Alice" = true ∧ notEqual.accepts "name=Alice" = true := by
  decide

end PropertyPredicate
end TagQuery
