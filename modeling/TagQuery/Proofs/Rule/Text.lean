import TagQuery.Proofs.Engine.Rules
import TagQuery.Proofs.Text.Cut
import TagQuery.Rule.Text

/-!
# Rules as text are read back

A rule as text is its tags and its sign with spaces between them. Where the tags are words that are
not read as anything else, neither as a comment nor as a sign nor under another name, the line has
these words and no others, and the sign is found among them.

## Main definitions

- `TagRule.ReadsAsWritten`: a tag that stands for itself in the text of a rule.

## Main statements

- `normalizeTag_eq_self`: a word without a hash mark is a name as it stands.
- `TagRule.content_intercalate`: a line of words has no comment and no blanks around it.
- `TagRule.splitAtOperator_append`: the sign is found between words that are none.
- `TagRule.parseLine_render`: the line of a rule is read as the rule.
- `TagRule.parseText_render`: the lines of rules are read as the rules.
-/

namespace TagQuery

/-- A word without a hash mark is a name as it stands. -/
theorem normalizeTag_eq_self {t : String} (hblank : ∀ c ∈ t.toList, Text.isBlank c = false)
    (hhash : t.toList.head? ≠ some '#') : normalizeTag t = t := by
  have htrim : Text.trimBy Text.isBlank t.toList = t.toList :=
    Text.trimBy_eq_self (fun c hc => hblank c (List.mem_of_mem_head? hc))
      fun c hc => hblank c (List.mem_of_mem_getLast? hc)
  have hprefix : Text.dropPrefix? ['#'] t.toList = none :=
    Text.dropPrefix?_eq_none fun d hd => by
      rintro rfl
      exact hhash hd
  rw [normalizeTag, htrim, hprefix, Option.getD_none, String.ofList_toList]

namespace RuleOperator

theorem ofSymbol?_symbol (op : RuleOperator) : ofSymbol? op.symbol = some op := by
  cases op <;> rfl

/-- The words without a kind are those that are no sign. -/
theorem ofSymbol?_eq_none {w : String} :
    ofSymbol? w = none ↔ ∀ op : RuleOperator, w ≠ op.symbol := by
  refine ⟨fun h op heq => ?_, fun h => List.find?_eq_none.2 fun op _ heq => ?_⟩
  · rw [heq, ofSymbol?_symbol] at h
    cases h
  · exact h op (beq_iff_eq.1 heq).symm

end RuleOperator

namespace TagRule

/-! ## Words -/

/-- A word in a line: it has no blanks, and no comment starts in it. -/
structure IsWord (w : String) : Prop where
  ne_empty : w ≠ ""
  not_blank : ∀ c ∈ w.toList, Text.isBlank c = false
  not_comment : Text.occursIn ['/', '/'] w.toList = false

/-- A tag that stands for itself in a line: a word that begins with no hash mark and is no sign. -/
structure ReadsAsWritten (t : String) : Prop extends IsWord t where
  not_hash : t.toList.head? ≠ some '#'
  not_symbol : ∀ op : RuleOperator, t ≠ op.symbol

theorem isWord_iff {w : String} :
    IsWord w ↔ w ≠ "" ∧ w.toList.any Text.isBlank = false ∧
      Text.occursIn ['/', '/'] w.toList = false := by
  simp only [List.any_eq_false, Bool.not_eq_true]
  exact ⟨fun h => ⟨h.ne_empty, h.not_blank, h.not_comment⟩,
    fun ⟨hne, hblank, hcomment⟩ => ⟨hne, hblank, hcomment⟩⟩

theorem readsAsWritten_iff {t : String} :
    ReadsAsWritten t ↔
      IsWord t ∧ t.toList.head? ≠ some '#' ∧ RuleOperator.ofSymbol? t = none := by
  rw [RuleOperator.ofSymbol?_eq_none]
  exact ⟨fun h => ⟨h.toIsWord, h.not_hash, h.not_symbol⟩,
    fun ⟨hword, hhash, hsymbol⟩ => ⟨hword, hhash, hsymbol⟩⟩

instance (w : String) : Decidable (IsWord w) := decidable_of_iff _ isWord_iff.symm

instance (t : String) : Decidable (ReadsAsWritten t) := decidable_of_iff _ readsAsWritten_iff.symm

def words (r : TagRule) : List String :=
  r.left.toList ++ r.operator.symbol :: r.right.toList

theorem isWord_symbol (op : RuleOperator) : IsWord op.symbol := by
  cases op <;> decide

theorem render_eq {r : TagRule} (hr : r.HasSides) : r.render = " ".intercalate r.words := by
  have hleft : r.left.toList ≠ [] := by
    obtain ⟨t, ht⟩ := hr.left
    exact List.ne_nil_of_mem ht
  have hright : r.right.toList ≠ [] := by
    obtain ⟨t, ht⟩ := hr.right
    exact List.ne_nil_of_mem ht
  rw [words, String.intercalate_append_of_ne_nil hleft (List.cons_ne_nil _ _),
    String.intercalate_cons_of_ne_nil hright, render]
  simp only [String.append_assoc]

/-- A line of words is its own content: no comment starts between words, and no blanks surround
them. -/
theorem content_intercalate {ws : List String} (hws : ∀ w ∈ ws, IsWord w) :
    content (" ".intercalate ws).toList = (" ".intercalate ws).toList := by
  have hspace : " ".toList = [' '] := rfl
  have hne : ∀ w ∈ ws.map String.toList, w ≠ [] :=
    List.forall_mem_map.2 fun w hw => mt String.toList_eq_nil_iff.1 (hws w hw).ne_empty
  have hblank : ∀ w ∈ ws.map String.toList, ∀ c ∈ w, Text.isBlank c = false :=
    List.forall_mem_map.2 fun w hw => (hws w hw).not_blank
  have hcomment : Text.occursIn ['/', '/'] ([' '].intercalate (ws.map String.toList)) = false := by
    rw [Text.occursIn_intercalate (by decide) (by decide), List.any_eq_false]
    exact List.forall_mem_map.2 fun w hw => by simp [(hws w hw).not_comment]
  rw [String.toList_intercalate, hspace, content, Text.before_eq_self hcomment]
  refine Text.trimBy_eq_self (fun c hc => ?_) fun c hc => ?_
  · obtain ⟨w, hw, hcw⟩ := Text.exists_mem_of_mem_head?_intercalate hne hc
    exact hblank w hw c hcw
  · obtain ⟨w, hw, hcw⟩ := Text.exists_mem_of_mem_getLast?_intercalate hne hc
    exact hblank w hw c hcw

/-- The sign is found between words that are none. -/
theorem splitAtOperator_append (op : RuleOperator) {left right : List String}
    (hleft : ∀ w ∈ left, RuleOperator.ofSymbol? w = none) :
    splitAtOperator (left ++ op.symbol :: right) = some (left, op, right) := by
  induction left with
  | nil => rw [List.nil_append, splitAtOperator, op.ofSymbol?_symbol]
  | cons w left ih =>
    obtain ⟨hw, hrest⟩ := List.forall_mem_cons.1 hleft
    rw [List.cons_append, splitAtOperator, hw, ih hrest]
    rfl

theorem splitAtOperator_eq_none {ws : List String}
    (hws : ∀ w ∈ ws, RuleOperator.ofSymbol? w = none) : splitAtOperator ws = none := by
  induction ws with
  | nil => rfl
  | cons w ws ih =>
    obtain ⟨hw, hrest⟩ := List.forall_mem_cons.1 hws
    rw [splitAtOperator, hw, ih hrest]
    rfl

/-- The tags of a side are those of its words, which are their own names. -/
theorem side_toList {tags : TagSet} (htags : ∀ t ∈ tags, ReadsAsWritten t) :
    side tags.toList = tags := by
  have hname {t : String} (ht : t ∈ tags) : normalizeTag t = t :=
    normalizeTag_eq_self (htags t ht).not_blank (htags t ht).not_hash
  ext t
  rw [side, TagSet.mem_ofList, List.mem_filter, List.mem_map, bne_iff_ne]
  constructor
  · rintro ⟨⟨x, hx, rfl⟩, -⟩
    rwa [hname hx]
  · exact fun ht => ⟨⟨t, ht, hname ht⟩, (htags t ht).ne_empty⟩

/-! ## Lines -/

theorem render_ne_nil (r : TagRule) : r.render.toList ≠ [] := by
  simp [render]

section
variable {r : TagRule} (hr : r.fault? = none)
  (htags : ∀ t, t ∈ r.left ∨ t ∈ r.right → ReadsAsWritten t)
include htags

theorem isWord_of_mem_words {w : String} (hw : w ∈ r.words) : IsWord w := by
  rcases List.mem_append.1 hw with hleft | hright
  · exact (htags w (.inl hleft)).toIsWord
  · rcases List.mem_cons.1 hright with rfl | hright
    · exact isWord_symbol r.operator
    · exact (htags w (.inr hright)).toIsWord

include hr

/-- The only blanks in the line of a rule are spaces. -/
theorem eq_space_of_mem_render {c : Char} (hc : c ∈ r.render.toList)
    (hblank : Text.isBlank c = true) : c = ' ' := by
  have hspace : " ".toList = [' '] := rfl
  rw [render_eq (hasSides_of_fault?_eq_none hr), String.toList_intercalate, hspace] at hc
  rcases Text.mem_intercalate hc with hc | ⟨l, hl, hc⟩
  · exact List.mem_singleton.1 hc
  · obtain ⟨w, hw, rfl⟩ := List.mem_map.1 hl
    have hword : Text.isBlank c = false := (isWord_of_mem_words htags hw).not_blank c hc
    exact absurd hblank (by simp [hword])

/-- The line of a rule is read as the rule. -/
theorem parseLine_render : parseLine r.render.toList = .ok (some r) := by
  have hwords : ∀ w ∈ r.words, IsWord w := fun w hw => isWord_of_mem_words htags hw
  have hsides := hasSides_of_fault?_eq_none hr
  have hnonempty : (" ".intercalate r.words).toList.isEmpty = false := by
    rw [← render_eq hsides]
    exact List.isEmpty_eq_false_iff.2 (render_ne_nil r)
  -- the sign is the only one among the words, since no tag is one
  have hsplit : splitAtOperator r.words = some (r.left.toList, r.operator, r.right.toList) :=
    splitAtOperator_append r.operator fun w hw =>
      RuleOperator.ofSymbol?_eq_none.2 (htags w (.inl hw)).not_symbol
  have hone : splitAtOperator r.right.toList = none :=
    splitAtOperator_eq_none fun w hw =>
      RuleOperator.ofSymbol?_eq_none.2 (htags w (.inr hw)).not_symbol
  have hread : ofWords r.left.toList r.operator r.right.toList = .ok r := by
    rw [ofWords, side_toList fun t ht => htags t (.inl ht),
      side_toList fun t ht => htags t (.inr ht)]
    simp only [hr]
  rw [parseLine, render_eq hsides, content_intercalate hwords, String.ofList_toList,
    Text.words_intercalate fun w hw => ⟨(hwords w hw).ne_empty, (hwords w hw).not_blank⟩]
  simp only [hnonempty, hsplit, hone, hread]
  rfl

end

theorem parseLines_render {rules : List TagRule} (hrules : ∀ r ∈ rules, r.fault? = none)
    (htags : ∀ r ∈ rules, ∀ t, t ∈ r.left ∨ t ∈ r.right → ReadsAsWritten t) (number : Nat) :
    parseLines number (rules.map fun r => r.render.toList) = .ok rules := by
  induction rules generalizing number with
  | nil => rfl
  | cons r rules ih =>
    obtain ⟨hr, hrest⟩ := List.forall_mem_cons.1 hrules
    obtain ⟨ht, htrest⟩ := List.forall_mem_cons.1 htags
    rw [List.map_cons, parseLines, parseLine_render hr ht]
    simp only [ih hrest htrest]
    rfl

/-- The lines of acceptable rules, whose tags stand for themselves, are read as these rules. -/
theorem parseText_render {rules : List TagRule} (hrules : ∀ r ∈ rules, r.fault? = none)
    (htags : ∀ r ∈ rules, ∀ t, t ∈ r.left ∨ t ∈ r.right → ReadsAsWritten t) :
    parseText ("\n".intercalate (rules.map render)) = .ok rules := by
  have hnewline : "\n".toList = ['\n'] := rfl
  have hblank {r : TagRule} (hr : r ∈ rules) {c : Char} (hc : c ≠ ' ')
      (hblank : Text.isBlank c = true) : c ∉ r.render.toList :=
    fun hmem => hc (eq_space_of_mem_render (hrules r hr) (htags r hr) hmem hblank)
  have hlines : ∀ l ∈ rules.map fun r => r.render.toList, l ≠ [] ∧ '\n' ∉ l ∧ '\r' ∉ l :=
    List.forall_mem_map.2 fun r hr =>
      ⟨render_ne_nil r, hblank hr (by decide) rfl, hblank hr (by decide) rfl⟩
  rw [parseText, String.toList_intercalate, hnewline, List.map_map]
  exact (congrArg (parseLines 1) (Text.lines_intercalate hlines)).trans
    (parseLines_render hrules htags 1)

/-- Slashes, colons, hash marks and signs may stand inside tags. -/
theorem parseText_render_cats :
    let rules : List TagRule :=
      [⟨.ofList ["kitten/", "/whiskers"], .bidirectionalImplication, .ofList ["c#", "a->b", ":"]⟩,
        ⟨.singleton "felis::catus", .specialization, .singleton "=>>"⟩]
    (∀ r ∈ rules, r.fault? = none) ∧
      (∀ r ∈ rules, ∀ t, t ∈ r.left ∨ t ∈ r.right → ReadsAsWritten t) ∧
      parseText "/whiskers kitten/ <-> : a->b c#\nfelis::catus :: =>>" = .ok rules := by
  intro rules
  have hrules : ∀ r ∈ rules, r.fault? = none := by decide
  have hwritten : ∀ r ∈ rules, ∀ t ∈ r.left.toList ++ r.right.toList, ReadsAsWritten t := by
    decide
  have htags : ∀ r ∈ rules, ∀ t, t ∈ r.left ∨ t ∈ r.right → ReadsAsWritten t :=
    fun r hr t ht => hwritten r hr t (List.mem_append.2 ht)
  exact ⟨hrules, htags, parseText_render hrules htags⟩

end TagRule
end TagQuery
