import TagQuery.Proofs.Engine.Analysis
import TagQuery.Proofs.Engine.Canonical
import TagQuery.Proofs.Search.Kinship

/-!
# When rules ask for a tag

The expression for a tag that rules ask for is built downwards, from the more special tags that may
be held in place of a tag. What it means is said upwards, about the tags that a file holds and all
that is above them: the tag is not among these, some rule with it on the right side applies to them,
no exclusion against the tag, or against one above it, does so, and none of these is rejected.

## Main definitions

- `Engine.heldAbove`: the final names of the tags of a file, and all that is above them.
- `Engine.Fires`, `Engine.Blocks`: a rule asks for its right tags, an exclusion stands against some.

## Main statements

- `Engine.holdsOn_holds`: a tag is held when it is among the held tags or above one.
- `Engine.wanted_predicate`: which files the expression for a tag that rules ask for accepts.
-/

namespace TagQuery

namespace Engine

/-! ## Held tags -/

/-- The final names of the tags of a file, and all that is above them. -/
def heldAbove (e : Engine) (tags : TagSet) : TagSet :=
  e.startOf (tags.map e.renames.resolve)

theorem mem_heldAbove {e : Engine} {tags : TagSet} {t : String} :
    t ∈ e.heldAbove tags ↔
      ∃ x ∈ tags, t = e.renames.resolve x ∨ t ∈ e.ancestors (e.renames.resolve x) := by
  rw [heldAbove, mem_startOf]
  simp only [TagSet.mem_map]
  grind

/-- A rule asks for its right tags: all its left tags are among those given, and no right one is. -/
def Fires (r : TagRule) (up : TagSet) : Prop :=
  (∀ t ∈ r.left, t ∈ up) ∧ ∀ t ∈ r.right, t ∉ up

/-- An exclusion stands against some tags: one of them is on its right side, all its left tags are
among those given, and its right tags are among these or those that it stands against. -/
def Blocks (r : TagRule) (up against : TagSet) : Prop :=
  (∃ t ∈ r.right, t ∈ against) ∧ (∀ t ∈ r.left, t ∈ up) ∧ ∀ t ∈ r.right, t ∈ up ∨ t ∈ against

instance (r : TagRule) (up : TagSet) : Decidable (Fires r up) :=
  inferInstanceAs (Decidable ((∀ t ∈ r.left.toList, t ∈ up) ∧ ∀ t ∈ r.right.toList, t ∉ up))

instance (r : TagRule) (up against : TagSet) : Decidable (Blocks r up against) :=
  inferInstanceAs (Decidable ((∃ t ∈ r.right.toList, t ∈ against) ∧
    (∀ t ∈ r.left.toList, t ∈ up) ∧ ∀ t ∈ r.right.toList, t ∈ up ∨ t ∈ against))

/-- The tag itself and all that is above it. -/
theorem mem_selfOrAncestors {e : Engine} {tag : String} (htag : e.rename tag = tag) {t : String} :
    t ∈ e.selfOrAncestors tag ↔ t ∈ e.startOf (.singleton tag) := by
  rw [mem_startOf, selfOrAncestors, related, htag, TagSet.mem_insert]
  simp only [TagSet.mem_singleton, exists_eq_left]

section
variable {rules : List TagRule} {properties : List (String × String)} {e : Engine}
  (h : ofRules rules properties = .ok e) (scale : RatingScale) (item : Item)
include h

/-- To be the tag or below it is to have the tag as oneself or above. -/
theorem mem_related_selfOrDescendant {tag : String} (htag : e.rename tag = tag) {t : String} :
    t ∈ e.related tag .selfOrDescendant ↔ tag = t ∨ tag ∈ e.ancestors t := by
  obtain ⟨hrules, rfl⟩ := ofRules_eq_ok.1 h
  have hcloses := closes_construct hrules properties
  rw [related, htag, TagSet.mem_insert, ancestors, descendants, hcloses.mem_ancestors,
    hcloses.mem_descendants]
  grind

/-- A tag is held when it is among the final names of the held tags, or above one. -/
theorem holdsOn_holds {tag : String} (htag : e.rename tag = tag) :
    (e.holds tag).holdsOn scale item = true ↔ tag ∈ e.heldAbove item.tags := by
  change (!item.tags.isDisjoint (e.withAliases (e.related tag .selfOrDescendant))) = true ↔ _
  rw [TagSet.not_isDisjoint_iff, mem_heldAbove]
  refine exists_congr fun x => and_congr_right fun _ => ?_
  rw [mem_withAliases_related h, mem_related_selfOrDescendant h htag]

/-- The tag or one above it is rejected. -/
theorem holdsOn_rejectedTag {tag : String} (htag : e.rename tag = tag) :
    (Expr.rejectedTag (e.withAliases (e.selfOrAncestors tag))).holdsOn scale item = true ↔
      ∃ x ∈ item.rejectedTags, e.renames.resolve x ∈ e.startOf (.singleton tag) := by
  change (!item.rejectedTags.isDisjoint (e.withAliases (e.related tag .selfOrAncestor))) = true ↔ _
  rw [TagSet.not_isDisjoint_iff]
  refine exists_congr fun x => and_congr_right fun _ => ?_
  exact (mem_withAliases_related h).trans (mem_selfOrAncestors htag)

/-! ## Rules -/

/-- A rule applies when it asks for its right tags. -/
theorem holdsOn_fires {r : TagRule} (hr : ∀ x, x ∈ r.left ∨ x ∈ r.right → e.rename x = x) :
    (e.fires r).holdsOn scale item = true ↔ Fires r (e.heldAbove item.tags) := by
  simp only [fires, Expr.holdsOn_conjunction, List.all_append, List.all_map, Bool.and_eq_true,
    List.all_eq_true, Function.comp_apply, Expr.holdsOn_negation, Bool.not_eq_true',
    ← Bool.not_eq_true, TagSet.mem_toList, Fires]
  refine and_congr (forall₂_congr fun x hx => ?_) (forall₂_congr fun x hx => not_congr ?_)
  · exact holdsOn_holds h scale item (hr x (.inl hx))
  · exact holdsOn_holds h scale item (hr x (.inr hx))

/-- Some rule applies when some rule asks for its right tags. -/
theorem holdsOn_disjunction_fires {rs : List TagRule}
    (hrs : ∀ r ∈ rs, ∀ x, x ∈ r.left ∨ x ∈ r.right → e.rename x = x) :
    (Expr.disjunction (rs.map e.fires)).holdsOn scale item = true ↔
      ∃ r ∈ rs, Fires r (e.heldAbove item.tags) := by
  rw [Expr.holdsOn_disjunction, List.any_map, List.any_eq_true]
  exact exists_congr fun r => and_congr_right fun hr => holdsOn_fires h scale item (hrs r hr)

/-- An exclusion does not stand in the way when one of its left tags is not held, or one of its
right tags outside the excluded ones. -/
theorem holdsOn_escapes {r : TagRule} (hr : ∀ x, x ∈ r.left ∨ x ∈ r.right → e.rename x = x)
    (excluded : TagSet) :
    (e.escapes excluded r).holdsOn scale item = true ↔
      ¬((∀ t ∈ r.left, t ∈ e.heldAbove item.tags) ∧
        ∀ t ∈ r.right, t ∈ e.heldAbove item.tags ∨ t ∈ excluded) := by
  have hleft (x : String) (hx : x ∈ r.left) := holdsOn_holds h scale item (hr x (.inl hx))
  have hright (x : String) (hx : x ∈ r.right) := holdsOn_holds h scale item (hr x (.inr hx))
  simp only [escapes, Expr.holdsOn_disjunction, List.any_append, List.any_map, Bool.or_eq_true,
    List.any_eq_true, Function.comp_apply, Expr.holdsOn_negation, Bool.not_eq_true',
    ← Bool.not_eq_true, TagSet.mem_toList, TagSet.mem_diff]
  grind

/-- No exclusion that names an excluded tag stands in the way when none stands against these
tags. -/
theorem holdsOn_conjunction_escapes {rs : List TagRule}
    (hrs : ∀ r ∈ rs, ∀ x, x ∈ r.left ∨ x ∈ r.right → e.rename x = x) (excluded : TagSet) :
    (Expr.conjunction ((rs.filter fun r => !r.right.isDisjoint excluded).map
        (e.escapes excluded))).holdsOn scale item = true ↔
      ¬∃ r ∈ rs, Blocks r (e.heldAbove item.tags) excluded := by
  rw [Expr.holdsOn_conjunction, List.all_map, List.all_eq_true]
  simp only [List.mem_filter, TagSet.not_isDisjoint_iff, Function.comp_apply, Blocks, not_exists,
    not_and, and_imp]
  refine forall₂_congr fun r hr => ?_
  rw [holdsOn_escapes h scale item (hrs r hr)]
  grind

/-- For given rules, it can be decided whether their names are as written. -/
theorem normalizeTag_of_forall_mem_toList
    (hrules : ∀ r ∈ rules, ∀ x ∈ r.left.toList ++ r.right.toList, normalizeTag x = x) :
    ∀ r ∈ e.rules, ∀ x, x ∈ r.left ∨ x ∈ r.right → normalizeTag x = x :=
  fun _ hr _ => normalizeTag_of_mem_sides h
    (fun r hr x hx => hrules r hr x (List.mem_append.2 hx)) hr

end

/-! ## Tags that rules ask for -/

/-- The leaves of the expression for a tag that rules ask for say that a tag is held, or that a tag
or one above it is rejected. -/
theorem forall_leaves_wanted {e : Engine} {p : Expr → Prop} (hheld : ∀ t, p (e.holds t))
    (hrejected : ∀ t, p (.rejectedTag (e.withAliases (e.selfOrAncestors t)))) (op : RuleOperator)
    (target : String) : ∀ l ∈ (e.wanted op target).leaves, p l := by
  have hholds (t : String) : ∀ l ∈ (e.holds t).leaves, p l :=
    List.forall_mem_singleton.2 (hheld t)
  have hheldAll (tags : TagSet) : ∀ x ∈ tags.toList.map e.holds, ∀ l ∈ x.leaves, p l :=
    List.forall_mem_map.2 fun t _ => hholds t
  have hnotHeld (tags : TagSet) :
      ∀ x ∈ tags.toList.map fun t => Expr.negation (e.holds t), ∀ l ∈ x.leaves, p l :=
    List.forall_mem_map.2 fun t _ => hholds t
  have hfires (r : TagRule) : ∀ l ∈ (e.fires r).leaves, p l :=
    Expr.forall_leaves_conjunction.2 (List.forall_mem_append.2 ⟨hheldAll _, hnotHeld _⟩)
  have hescapes (excluded : TagSet) (r : TagRule) : ∀ l ∈ (e.escapes excluded r).leaves, p l :=
    Expr.forall_leaves_disjunction.2 (List.forall_mem_append.2 ⟨hnotHeld _, hnotHeld _⟩)
  refine Expr.forall_leaves_conjunction.2 (List.forall_mem_cons.2 ⟨hholds _,
    List.forall_mem_cons.2 ⟨List.forall_mem_singleton.2 (hrejected _),
      List.forall_mem_cons.2 ⟨?_, List.forall_mem_singleton.2 ?_⟩⟩⟩)
  · exact Expr.forall_leaves_disjunction.2 (List.forall_mem_map.2 fun r _ => hfires r)
  · exact Expr.forall_leaves_conjunction.2 (List.forall_mem_map.2 fun r _ => hescapes _ r)

/-- The expression for a tag that rules ask for can be evaluated. -/
theorem predicate_wanted (e : Engine) (op : RuleOperator) (target : String) (scale : RatingScale) :
    (e.wanted op target).predicate scale =
      .ok fun item => (e.wanted op target).holdsOn scale item := by
  refine Expr.predicate_eq_ok.2 ⟨Expr.fault?_resolveStars_eq_none.2 ?_, rfl⟩
  exact forall_leaves_wanted (fun _ => Expr.fault?_ofTags scale.stars .held _)
    (fun _ => Expr.fault?_ofTags scale.stars .rejected _) op target

/-- Where the names in rules and the final name of the target are as written, the expression for a
target that rules of a kind ask for can be evaluated, and it accepts a file exactly if the final
name of the target is not among those of the held tags and what is above them, no final name of a
rejected tag is the target or above it, a rule of the kind with the target on its right side asks
for it, and no exclusion stands against the target and what is above it. -/
theorem wanted_predicate {rules : List TagRule} {properties : List (String × String)} {e : Engine}
    (h : ofRules rules properties = .ok e)
    (hnames : ∀ r ∈ e.rules, ∀ x, x ∈ r.left ∨ x ∈ r.right → normalizeTag x = x)
    (op : RuleOperator) {target : String}
    (htarget : normalizeTag (e.rename target) = e.rename target) (scale : RatingScale) :
    ∃ p, (e.wanted op target).predicate scale = .ok p ∧ ∀ item,
      let tag := e.rename target
      let up := e.heldAbove item.tags
      let above := e.startOf (.singleton tag)
      (p item = true ↔ tag ∉ up ∧ (∀ x ∈ item.rejectedTags, e.renames.resolve x ∉ above) ∧
        (∃ r ∈ e.rulesOf op, tag ∈ r.right ∧ Fires r up) ∧
        ¬∃ r ∈ e.rulesOf .exclusion, Blocks r up above) := by
  refine ⟨_, predicate_wanted e op target scale, fun item => ?_⟩
  intro tag up above
  have htag : e.rename tag = tag := by
    rw [rename, htarget]
    exact settled_of_ofRules h _
  have hside {kind : RuleOperator} (r : TagRule) (hr : r ∈ e.rulesOf kind) (x : String)
      (hx : x ∈ r.left ∨ x ∈ r.right) : e.rename x = x := by
    have hmem : r ∈ e.rules := (List.mem_filter.1 hr).1
    rw [rename, hnames r hmem x hx, resolve_of_mem_sides h hmem hx]
  have hasked : ∀ r ∈ (e.rulesOf op).filter fun r => decide (tag ∈ r.right),
      ∀ x, x ∈ r.left ∨ x ∈ r.right → e.rename x = x :=
    fun r hr => hside r (List.mem_filter.1 hr).1
  have habove : e.selfOrAncestors tag = above := TagSet.ext fun _ => mem_selfOrAncestors htag
  change (Expr.conjunction [.negation (e.holds tag),
    .negation (.rejectedTag (e.withAliases (e.selfOrAncestors tag))), .disjunction (_ : List Expr),
    .conjunction (_ : List Expr)]).holdsOn scale item = true ↔ _
  rw [Expr.holdsOn_conjunction]
  simp only [Expr.holdsOn_negation, List.all_cons, List.all_nil, Bool.and_true, Bool.and_eq_true,
    Bool.not_eq_true', ← Bool.not_eq_true]
  refine and_congr (not_congr (holdsOn_holds h scale item htag)) (and_congr ?_ (and_congr ?_ ?_))
  · rw [holdsOn_rejectedTag h scale item htag]
    simp only [not_exists, not_and]
    rfl
  · rw [holdsOn_disjunction_fires h scale item hasked]
    simp only [List.mem_filter, decide_eq_true_eq, and_assoc]
    rfl
  · rw [habove]
    exact holdsOn_conjunction_escapes h scale item hside above

/-- Files of pets that are kept indoors lack a cat or a dog; a cat goes by another name here, and
what excludes it is not held. -/
theorem wanted_predicate_cat :
    let rules : List TagRule :=
      [⟨.singleton "felis", .definition, .singleton "cat"⟩,
        ⟨.singleton "kitten", .specialization, .singleton "felis"⟩,
        ⟨.ofList ["pet", "indoor"], .implication, .ofList ["felis", "dog"]⟩,
        ⟨.singleton "outdoor", .mutualExclusion, .singleton "cat"⟩]
    let e : Engine := .construct rules []
    let item : Item := ⟨"", 0, "", [], .ofList ["pet", "indoor"], .singleton "bird", [], ∅, ∅⟩
    ofRules rules [] = .ok e ∧
      (∀ r ∈ e.rules, ∀ x, x ∈ r.left ∨ x ∈ r.right → normalizeTag x = x) ∧
      normalizeTag (e.rename "#felis") = e.rename "#felis" ∧
      ∃ p, (e.wanted .implication "#felis").predicate ⟨"", ∅⟩ = .ok p ∧ p item = true := by
  intro rules e item
  have hrules : ofRules rules [] = .ok e := rfl
  have hwritten : ∀ r ∈ rules, ∀ x ∈ r.left.toList ++ r.right.toList, normalizeTag x = x := by
    decide
  have hnames : ∀ r ∈ e.rules, ∀ x, x ∈ r.left ∨ x ∈ r.right → normalizeTag x = x :=
    fun r hr x => normalizeTag_of_mem_sides hrules
      (fun s hs y hy => hwritten s hs y (List.mem_append.2 hy)) hr
  have htarget : normalizeTag (e.rename "#felis") = e.rename "#felis" := by decide
  obtain ⟨p, hp, hitems⟩ := wanted_predicate hrules hnames .implication htarget ⟨"", ∅⟩
  refine ⟨hrules, hnames, htarget, p, hp, (hitems item).2 ⟨by decide, ?_, by decide, by decide⟩⟩
  intro x hx
  rw [TagSet.mem_singleton.1 hx]
  decide

end Engine
end TagQuery
