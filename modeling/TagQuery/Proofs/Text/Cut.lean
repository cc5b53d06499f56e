import Mathlib.Data.List.Basic
import Mathlib.Data.List.Infix
import Mathlib.Data.List.TakeWhile
import TagQuery.Text.Blank
import TagQuery.Text.Cut

/-!
# Cuts at blanks and at separators

What a text is put together from, the functions that cut it give back: the text between blanks, the
words between spaces, the lines between newlines. A part without the separator occurs in a text that
is put together only where it occurs in one of the pieces.

## Main statements

- `Text.trimBy_append`: the blanks around a text are cut off.
- `Text.words_intercalate`: the words of words with spaces between them.
- `Text.occursIn_iff_isInfix`: a part occurs where it is a run of neighbouring characters.
- `Text.occursIn_intercalate`: where a part occurs in pieces with a separator between them.
- `Text.splitAt_append_cons`: the parts of two texts with a separator between them.
- `Text.lines_intercalate`: the lines of lines with newlines between them.
-/

namespace TagQuery.Text

variable {p : Char → Bool}

/-! ## Trimming -/

theorem dropWhile_eq_self {cs : List Char} (h : ∀ c ∈ cs.head?, p c = false) :
    cs.dropWhile p = cs := by
  cases cs with
  | nil => rfl
  | cons c cs => rw [List.dropWhile_cons_of_neg (by simp [h c rfl])]

/-- What surrounds a text is cut off, where it satisfies `p` and the ends of the text do not. -/
theorem trimBy_append {before cs after : List Char} (hbefore : ∀ c ∈ before, p c = true)
    (hafter : ∀ c ∈ after, p c = true) (hhead : ∀ c ∈ cs.head?, p c = false)
    (hlast : ∀ c ∈ cs.getLast?, p c = false) : trimBy p (before ++ cs ++ after) = cs := by
  have hreverse : ∀ c ∈ after.reverse, p c = true := fun c hc => hafter c (List.mem_reverse.1 hc)
  unfold trimBy
  rw [List.append_assoc, List.dropWhile_append_of_pos hbefore]
  cases cs with
  | nil =>
    rw [List.nil_append, List.dropWhile_eq_nil_iff.2 hafter]
    rfl
  | cons c cs =>
    rw [List.cons_append, List.dropWhile_cons_of_neg (by simp [hhead c rfl]), ← List.cons_append,
      List.reverse_append, List.dropWhile_append_of_pos hreverse, dropWhile_eq_self,
      List.reverse_reverse]
    rwa [List.head?_reverse]

/-- Characters to be cut off at the end of a text make no difference. -/
theorem trimBy_append_right {cs after : List Char} (hafter : ∀ c ∈ after, p c = true) :
    trimBy p (cs ++ after) = trimBy p cs := by
  have hreverse : ∀ c ∈ after.reverse, p c = true := fun c hc => hafter c (List.mem_reverse.1 hc)
  unfold trimBy
  rw [List.dropWhile_append]
  split
  · next hcs => rw [List.isEmpty_iff.1 hcs, List.dropWhile_eq_nil_iff.2 hafter]
  · rw [List.reverse_append, List.dropWhile_append_of_pos hreverse]

theorem trimBy_eq_self {cs : List Char} (hhead : ∀ c ∈ cs.head?, p c = false)
    (hlast : ∀ c ∈ cs.getLast?, p c = false) : trimBy p cs = cs := by
  simpa using trimBy_append (List.forall_mem_nil _) (List.forall_mem_nil _) hhead hlast

/-! ## Pieces -/

section Pieces

variable {sep : List Char} {pieces : List (List Char)}

theorem intercalate_ne_nil (hne : ∀ w ∈ pieces, w ≠ []) (hpieces : pieces ≠ []) :
    sep.intercalate pieces ≠ [] := by
  cases pieces with
  | nil => exact absurd rfl hpieces
  | cons w pieces =>
    have hw : w ≠ [] := hne w List.mem_cons_self
    cases pieces <;> simp [hw]

theorem mem_intercalate {c : Char} (hc : c ∈ sep.intercalate pieces) :
    c ∈ sep ∨ ∃ w ∈ pieces, c ∈ w := by
  induction pieces with
  | nil => simp at hc
  | cons w pieces ih =>
    cases pieces with
    | nil => exact .inr ⟨w, List.mem_cons_self, by simpa using hc⟩
    | cons w' pieces =>
      rw [List.intercalate_cons_cons, List.append_assoc, List.mem_append, List.mem_append] at hc
      rcases hc with hw | hsep | hrest
      · exact .inr ⟨w, List.mem_cons_self, hw⟩
      · exact .inl hsep
      · exact (ih hrest).imp_right fun ⟨v, hv, hcv⟩ => ⟨v, List.mem_cons_of_mem w hv, hcv⟩

/-- A text of pieces starts with a character of a piece. -/
theorem exists_mem_of_mem_head?_intercalate (hne : ∀ w ∈ pieces, w ≠ []) {c : Char}
    (hc : c ∈ (sep.intercalate pieces).head?) : ∃ w ∈ pieces, c ∈ w := by
  cases pieces with
  | nil => simp at hc
  | cons w pieces =>
    refine ⟨w, List.mem_cons_self, List.mem_of_mem_head? ?_⟩
    have hw : w ≠ [] := hne w List.mem_cons_self
    cases pieces with
    | nil => simpa using hc
    | cons w' pieces =>
      rwa [List.intercalate_cons_cons, List.append_assoc, List.head?_append_of_ne_nil w hw] at hc

/-- A text of pieces ends with a character of a piece. -/
theorem exists_mem_of_mem_getLast?_intercalate (hne : ∀ w ∈ pieces, w ≠ []) {c : Char}
    (hc : c ∈ (sep.intercalate pieces).getLast?) : ∃ w ∈ pieces, c ∈ w := by
  induction pieces with
  | nil => simp at hc
  | cons w pieces ih =>
    cases pieces with
    | nil => exact ⟨w, List.mem_cons_self, List.mem_of_mem_getLast? (by simpa using hc)⟩
    | cons w' pieces =>
      have hrest : ∀ v ∈ w' :: pieces, v ≠ [] := (List.forall_mem_cons.1 hne).2
      rw [List.intercalate_cons_cons, List.getLast?_append_of_ne_nil _
        (intercalate_ne_nil hrest (List.cons_ne_nil _ _))] at hc
      obtain ⟨v, hv, hcv⟩ := ih hrest hc
      exact ⟨v, List.mem_cons_of_mem w hv, hcv⟩

end Pieces

/-! ## Words -/

theorem wordsFrom_append {word cs : List Char} (hword : ∀ c ∈ word, p c = false)
    (read : List Char) : wordsFrom p read (word ++ cs) = wordsFrom p (read ++ word) cs := by
  induction word generalizing read with
  | nil => rw [List.nil_append, List.append_nil]
  | cons c word ih =>
    obtain ⟨hc, hrest⟩ := List.forall_mem_cons.1 hword
    rw [List.cons_append, wordsFrom, if_neg (by simp [hc]), ih hrest, List.append_assoc]
    rfl

/-- The words of words with a separator between them. -/
theorem wordsFrom_intercalate {sep : Char} (hsep : p sep = true) {words : List (List Char)}
    (hwords : ∀ w ∈ words, w ≠ [] ∧ ∀ c ∈ w, p c = false) :
    wordsFrom p [] ([sep].intercalate words) = words := by
  induction words with
  | nil => rfl
  | cons w words ih =>
    obtain ⟨⟨hne, hw⟩, hrest⟩ := List.forall_mem_cons.1 hwords
    have hempty : w.isEmpty = false := by simpa using hne
    cases words with
    | nil =>
      have hlast : wordsFrom p [] (w ++ []) = wordsFrom p ([] ++ w) [] := wordsFrom_append hw []
      rw [List.append_nil, List.nil_append, wordsFrom, hempty] at hlast
      simpa using hlast
    | cons w' words =>
      rw [List.intercalate_cons_cons, List.append_assoc, wordsFrom_append hw, List.nil_append,
        List.singleton_append, wordsFrom, if_pos hsep, hempty, ih hrest]
      rfl

/-- The words of words with spaces between them. -/
theorem words_intercalate {ws : List String}
    (hws : ∀ w ∈ ws, w ≠ "" ∧ ∀ c ∈ w.toList, isBlank c = false) :
    words (" ".intercalate ws) = ws := by
  have hlists : ∀ w ∈ ws.map String.toList, w ≠ [] ∧ ∀ c ∈ w, isBlank c = false :=
    List.forall_mem_map.2 fun w hw => (hws w hw).imp_left (mt String.toList_eq_nil_iff.1)
  have hspace : " ".toList = [' '] := rfl
  rw [words, String.toList_intercalate, hspace, wordsFrom_intercalate rfl hlists, List.map_map]
  simp

/-! ## Parts -/

theorem dropPrefix?_eq_none {c : Char} {part cs : List Char} (h : ∀ d ∈ cs.head?, c ≠ d) :
    dropPrefix? (c :: part) cs = none := by
  cases cs with
  | nil => rfl
  | cons d cs => rw [dropPrefix?, if_neg (h d rfl)]

theorem dropSuffix?_eq_none {c : Char} {part cs : List Char} (h : ∀ d ∈ cs.getLast?, c ≠ d) :
    dropSuffix? (part ++ [c]) cs = none := by
  have hreverse : ∀ d ∈ cs.reverse.head?, c ≠ d := by rwa [List.head?_reverse]
  rw [dropSuffix?, List.reverse_append, List.reverse_singleton, List.singleton_append,
    dropPrefix?_eq_none hreverse, Option.map_none]

theorem dropSuffix?_eq_some {part cs rest : List Char} (h : dropSuffix? part cs = some rest) :
    cs = rest ++ part := by
  obtain ⟨tser, hprefix, rfl⟩ := Option.map_eq_some_iff.1 h
  rw [← List.reverse_reverse part, ← List.reverse_append, ← dropPrefix?_eq_some hprefix,
    List.reverse_reverse]

theorem occursIn_iff_isInfix {part cs : List Char} : occursIn part cs = true ↔ part <:+: cs := by
  induction cs with
  | nil => rw [occursIn, List.isEmpty_iff, List.infix_nil]
  | cons c cs ih =>
    rw [occursIn, Bool.or_eq_true, List.isPrefixOf_iff_prefix, ih, List.infix_cons_iff]

/-- A part without the separator does not go past it. -/
theorem isPrefixOf_append_cons {part : List Char} {sep : Char} (hsep : sep ∉ part)
    (xs ys : List Char) : part.isPrefixOf (xs ++ sep :: ys) = part.isPrefixOf xs := by
  induction part generalizing xs with
  | nil => simp
  | cons c part ih =>
    rw [List.mem_cons, not_or] at hsep
    obtain ⟨hc, hrest⟩ := hsep
    cases xs with
    | nil => simp [List.isPrefixOf, Ne.symm hc]
    | cons x xs => rw [List.cons_append, List.isPrefixOf, List.isPrefixOf, ih hrest]

theorem occursIn_append_cons {part : List Char} (hne : part ≠ []) {sep : Char} (hsep : sep ∉ part)
    (xs ys : List Char) :
    occursIn part (xs ++ sep :: ys) = (occursIn part xs || occursIn part ys) := by
  induction xs with
  | nil =>
    have hnil : part.isPrefixOf (sep :: ys) = occursIn part [] := by
      rw [← List.nil_append (sep :: ys), isPrefixOf_append_cons hsep]
      cases part <;> rfl
    rw [List.nil_append, ← hnil, occursIn]
  | cons x xs ih =>
    have hcons := isPrefixOf_append_cons hsep (x :: xs) ys
    rw [List.cons_append] at hcons ⊢
    rw [occursIn, occursIn, hcons, ih, Bool.or_assoc]

/-- A part without the separator occurs in pieces with it between them where it occurs in one of
these. -/
theorem occursIn_intercalate {part : List Char} (hne : part ≠ []) {sep : Char} (hsep : sep ∉ part)
    (pieces : List (List Char)) :
    occursIn part ([sep].intercalate pieces) = pieces.any (occursIn part) := by
  induction pieces with
  | nil => simpa [occursIn] using hne
  | cons piece pieces ih =>
    cases pieces with
    | nil => simp
    | cons piece' pieces =>
      rw [List.intercalate_cons_cons, List.append_assoc, List.singleton_append,
        occursIn_append_cons hne hsep, ih, List.any_cons (l := piece' :: pieces)]

theorem before_eq_self {part cs : List Char} (h : occursIn part cs = false) :
    before part cs = cs := by
  induction cs with
  | nil => rfl
  | cons c cs ih =>
    rw [occursIn, Bool.or_eq_false_iff] at h
    rw [before, if_neg (by simp [h.1]), ih h.2]

/-- A part without the separator starts before it or after it. -/
theorem before_append_cons {part : List Char} (hne : part ≠ []) {sep : Char} (hsep : sep ∉ part)
    (xs ys : List Char) :
    before part (xs ++ sep :: ys) =
      if occursIn part xs then before part xs else xs ++ sep :: before part ys := by
  induction xs with
  | nil =>
    have hnil : part.isPrefixOf ([] ++ sep :: ys) = false := by
      rw [isPrefixOf_append_cons hsep]
      cases part with
      | nil => exact absurd rfl hne
      | cons => rfl
    rw [List.nil_append] at hnil ⊢
    simp [before, hnil, occursIn, hne]
  | cons x xs ih =>
    have hcons := isPrefixOf_append_cons hsep (x :: xs) ys
    rw [List.cons_append] at hcons ⊢
    rw [before, hcons, ih, occursIn, before]
    cases part.isPrefixOf (x :: xs) <;> cases occursIn part xs <;> rfl

/-! ## Lines -/

theorem splitAt_eq_splitOn (sep : Char) (cs : List Char) : splitAt sep cs = cs.splitOn sep := by
  induction cs with
  | nil => rfl
  | cons c cs ih =>
    obtain ⟨part, parts, hparts⟩ := List.exists_cons_of_ne_nil (List.splitOn_ne_nil sep cs)
    have hcons := List.splitOnP_cons_eq_if_modifyHead (p := (· == sep)) c cs
    change List.splitOn sep (c :: cs) = if (c == sep) = true then [] :: List.splitOn sep cs else
      (List.splitOn sep cs).modifyHead (List.cons c) at hcons
    rw [splitAt, hcons, ih, hparts]
    simp only [beq_iff_eq, List.modifyHead_cons]

theorem splitAt_ne_nil (sep : Char) (cs : List Char) : splitAt sep cs ≠ [] := by
  rw [splitAt_eq_splitOn]
  exact List.splitOn_ne_nil sep cs

/-- No part has the separator. -/
theorem not_mem_of_mem_splitAt {sep : Char} {part cs : List Char} (h : part ∈ splitAt sep cs) :
    sep ∉ part := by
  induction cs generalizing part with
  | nil =>
    obtain rfl := List.mem_singleton.1 h
    exact List.not_mem_nil
  | cons c cs ih =>
    obtain ⟨first, rest, hcs⟩ := List.exists_cons_of_ne_nil (splitAt_ne_nil sep cs)
    rw [hcs] at ih
    rw [splitAt, hcs] at h
    split at h
    next =>
      rcases List.mem_cons.1 h with rfl | hrest
      · exact List.not_mem_nil
      · exact ih hrest
    next hc =>
      rcases List.mem_cons.1 h with rfl | hrest
      · rw [List.mem_cons, not_or]
        exact ⟨Ne.symm hc, ih List.mem_cons_self⟩
      · exact ih (List.mem_cons_of_mem _ hrest)

/-- A separator between two texts is between the parts of one and the parts of the other. -/
theorem splitAt_append_cons (sep : Char) (xs ys : List Char) :
    splitAt sep (xs ++ sep :: ys) = splitAt sep xs ++ splitAt sep ys := by
  induction xs with
  | nil => simp [splitAt]
  | cons x xs ih =>
    obtain ⟨part, parts, hxs⟩ := List.exists_cons_of_ne_nil (splitAt_ne_nil sep xs)
    rw [List.cons_append, splitAt, splitAt, ih, hxs]
    split <;> rfl

theorem length_splitAt (sep : Char) (cs : List Char) :
    (splitAt sep cs).length = cs.count sep + 1 := by
  induction cs with
  | nil => rfl
  | cons c cs ih =>
    obtain ⟨part, parts, hcs⟩ := List.exists_cons_of_ne_nil (splitAt_ne_nil sep cs)
    rw [splitAt, List.count_cons]
    split
    · next h => simp [h, ih]
    · next h => simp [h, ← ih, hcs]

/-- The lines of a text are its parts between newlines, but for returns at the ends of lines and for
an empty part after the last newline. -/
theorem exists_lines_eq (cs : List Char) :
    ∃ init last, splitAt '\n' cs = init ++ [last] ∧
      lines cs = init.map dropReturn ++ if last.isEmpty then [] else [last] := by
  rcases (splitAt '\n' cs).eq_nil_or_concat with hnil | ⟨init, last, hcs⟩
  · exact absurd hnil (splitAt_ne_nil _ _)
  · rw [List.concat_eq_append] at hcs
    refine ⟨init, last, hcs, ?_⟩
    unfold lines
    dsimp only
    rw [hcs, List.getLast?_concat, List.dropLast_concat]
    dsimp only
    split
    · rw [List.append_nil]
    · rfl

/-- A line is what is left of it without its return, which may be there or not. -/
theorem dropReturn_eq_or (line : List Char) :
    dropReturn line = line ∨ line = dropReturn line ++ ['\r'] := by
  rw [dropReturn]
  cases h : dropSuffix? ['\r'] line with
  | none => exact .inl rfl
  | some rest => exact .inr (dropSuffix?_eq_some h)

theorem dropReturn_eq_self {line : List Char} (h : '\r' ∉ line) : dropReturn line = line := by
  have hnone : dropSuffix? ([] ++ ['\r']) line = none :=
    dropSuffix?_eq_none fun d hd heq => h (heq ▸ List.mem_of_mem_getLast? hd)
  rw [List.nil_append] at hnone
  rw [dropReturn, hnone, Option.getD_none]

/-- The lines of lines with newlines between them. -/
theorem lines_intercalate {ls : List (List Char)}
    (hls : ∀ l ∈ ls, l ≠ [] ∧ '\n' ∉ l ∧ '\r' ∉ l) : lines (['\n'].intercalate ls) = ls := by
  rcases List.eq_nil_or_concat ls with rfl | ⟨init, last, rfl⟩
  · rfl
  · rw [List.concat_eq_append] at hls ⊢
    have hsplit : splitAt '\n' (['\n'].intercalate (init ++ [last])) = init ++ [last] := by
      rw [splitAt_eq_splitOn]
      exact List.splitOn_intercalate '\n' (fun l hl => (hls l hl).2.1) (by simp)
    have hlast : last.isEmpty = false := by simpa using (hls last (by simp)).1
    have hinit : init.map dropReturn = init :=
      (List.map_congr_left fun l hl => dropReturn_eq_self (hls l (by simp [hl])).2.2).trans
        (List.map_id init)
    unfold lines
    dsimp only
    rw [hsplit, List.getLast?_concat]
    simp [hlast, hinit]

end TagQuery.Text
