import TagQuery.Proofs.Rule.Text

/-!
# Rule texts one after another

Every line of a rule text stands for itself. What a line means does not depend on the lines before
it, apart from its number, nor on whether it ends with a carriage return. So the text of two texts
with a newline between them has the rules of both, and its fault is the first of theirs.

## Main statements

- `TagRule.parseLine_dropReturn`: a carriage return at the end of a line makes no difference.
- `TagRule.parseLines_add`: a fault moves along with its line.
- `TagRule.parseLines_append`: lines are read one after another, up to the first with a fault.
- `TagRule.parseText_eq_parseLines`: a text is read as its parts between newlines.
- `TagRule.parseText_append`: the rules or the fault of two texts with a newline between them.
-/

namespace TagQuery.TagRule

/-! ## Carriage returns -/

/-- A carriage return at the end of a line is in its comment, or is a blank at its end. -/
theorem content_append_return (line : List Char) : content (line ++ ['\r']) = content line := by
  have hblank : ∀ c ∈ ['\r'], Text.isBlank c = true := List.forall_mem_singleton.2 rfl
  rw [content, content, Text.before_append_cons (by decide) (by decide)]
  split
  · rfl
  · next hcomment =>
    rw [Text.before_eq_self (Bool.eq_false_iff.2 hcomment)]
    exact Text.trimBy_append_right hblank

theorem parseLine_dropReturn (line : List Char) :
    parseLine (Text.dropReturn line) = parseLine line := by
  rcases Text.dropReturn_eq_or line with h | h
  · rw [h]
  · have hcontent : content line = content (Text.dropReturn line) := by
      conv_lhs => rw [h, content_append_return]
    rw [parseLine, parseLine, hcontent]

theorem parseLines_map_dropReturn (number : Nat) (ls : List (List Char)) :
    parseLines number (ls.map Text.dropReturn) = parseLines number ls := by
  induction ls generalizing number with
  | nil => rfl
  | cons line ls ih => rw [List.map_cons, parseLines, parseLines, parseLine_dropReturn, ih]

/-! ## Lines one after another -/

/-- Where lines start at a later number, a fault is found as much later. -/
theorem parseLines_add (number offset : Nat) (ls : List (List Char)) :
    parseLines (number + offset) ls =
      (parseLines number ls).mapError fun e => ⟨e.line + offset, e.fault⟩ := by
  induction ls generalizing number with
  | nil => rfl
  | cons line ls ih =>
    rw [parseLines, parseLines]
    cases parseLine line with
    | error fault => rfl
    | ok rule =>
      dsimp only
      rw [Nat.add_right_comm, ih]
      cases parseLines (number + 1) ls <;> rfl

/-- The rules of more lines come after those of the first; a fault among the first is the fault of
all. -/
theorem parseLines_append (number : Nat) (ls ls' : List (List Char)) :
    parseLines number (ls ++ ls') =
      (parseLines number ls).bind fun rules =>
        (parseLines (number + ls.length) ls').map (rules ++ ·) := by
  induction ls generalizing number with
  | nil =>
    rw [List.nil_append, List.length_nil, Nat.add_zero]
    cases h : parseLines number ls' <;> simp [parseLines, Except.bind, Except.map]
  | cons line ls ih =>
    rw [List.cons_append, parseLines, parseLines, List.length_cons]
    cases parseLine line with
    | error fault => rfl
    | ok rule =>
      dsimp only
      rw [ih, Nat.add_right_comm, ← Nat.add_assoc]
      cases parseLines (number + 1) ls with
      | error e => rfl
      | ok rules =>
        cases parseLines (number + ls.length + 1) ls' <;> simp [Except.bind, Except.map]

theorem parseLines_lines (number : Nat) (cs : List Char) :
    parseLines number (Text.lines cs) = parseLines number (Text.splitAt '\n' cs) := by
  obtain ⟨init, last, hsplit, hlines⟩ := Text.exists_lines_eq cs
  rw [hsplit, hlines, parseLines_append, parseLines_append, parseLines_map_dropReturn,
    List.length_map]
  split
  · next hlast =>
    rw [List.isEmpty_iff.1 hlast]
    rfl
  · rfl

/-- A text is read as its parts between newlines, since nothing in an empty part or in a return at
the end of a line is read. -/
theorem parseText_eq_parseLines (text : String) :
    parseText text = parseLines 1 (Text.splitAt '\n' text.toList) :=
  parseLines_lines 1 text.toList

/-- The text of two texts with a newline between them has the rules of both in their order. A fault
of the first is its fault, and otherwise one of the second, as many lines later as the first has. -/
theorem parseText_append (text text' : String) :
    parseText (text ++ "\n" ++ text') =
      match parseText text, parseText text' with
      | .error e, _ => .error e
      | .ok rules, .ok rules' => .ok (rules ++ rules')
      | .ok _, .error e => .error ⟨e.line + 1 + text.toList.count '\n', e.fault⟩ := by
  have hchars : (text ++ "\n" ++ text').toList = text.toList ++ '\n' :: text'.toList := by simp
  rw [parseText_eq_parseLines, hchars, Text.splitAt_append_cons, parseLines_append, parseLines_add,
    Text.length_splitAt, ← parseText_eq_parseLines, ← parseText_eq_parseLines]
  cases parseText text with
  | error e => rfl
  | ok rules =>
    cases parseText text' with
    | error e => simp [Except.bind, Except.mapError, Except.map, Nat.add_assoc, Nat.add_comm 1]
    | ok rules' => rfl

/-- Comments, returns and empty lines count as lines. -/
example :
    parseText ("a -> b // c\r\n\r" ++ "\n" ++ "// d\nc d") = .error ⟨4, .noOperator "c d"⟩ := by
  decide

end TagQuery.TagRule
