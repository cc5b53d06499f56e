import TagQuery.Proofs.Engine.Reanalysis
import TagQuery.Proofs.Search.Wanted

/-!
# What a search finds missing, an analysis calls for

A search for a missing tag looks at every implication once, and at what may be held in place of the
tags on its sides. An analysis starts from the held tags and what is above them, and follows one
implication after the other. An implication that the search finds open has its left side in what the
analysis starts from, and so the analysis fulfils it or records its right side, in whatever order it
comes to its rules.

An analysis passes over held tags whose final name is the empty one, which a search does not.

## Main statements

- `Engine.holdsOn_wanted`: what a file satisfies that lacks a tag.
- `Engine.mem_closure_of_fires`: an analysis calls for the right tags of an implication that is
  open.
- `Engine.missing_agrees`: a tag that a search finds missing is called for by an analysis.
-/

namespace TagQuery.Engine

section
variable {rules : List TagRule} {properties : List (String × String)} {e : Engine}
  (h : ofRules rules properties = .ok e)
  (hnames : ∀ r ∈ e.rules, ∀ x, x ∈ r.left ∨ x ∈ r.right → normalizeTag x = x)
include h hnames

/-- A file that satisfies the expression for a tag that rules ask for does not hold the tag, and a
rule asks for it. Such a tag is on the right side of a rule, and so no name has to be given for it
as it is written there. -/
theorem holdsOn_wanted {op : RuleOperator} {target : String} {scale : RatingScale} {item : Item}
    (haccepts : (e.wanted op target).holdsOn scale item = true) :
    e.rename target ∉ e.heldAbove item.tags ∧
      ∃ r ∈ e.rulesOf op, e.rename target ∈ r.right ∧ Fires r (e.heldAbove item.tags) := by
  have hparts := haccepts
  unfold wanted at hparts
  rw [Expr.holdsOn_conjunction] at hparts
  simp only [Expr.holdsOn_negation, List.all_cons, Bool.and_eq_true, Bool.not_eq_true'] at hparts
  obtain ⟨hheld, -, hrules, -⟩ := hparts
  rw [Expr.holdsOn_disjunction, List.any_map, List.any_eq_true] at hrules
  obtain ⟨r, hr, hfires⟩ := hrules
  simp only [List.mem_filter, decide_eq_true_eq] at hr
  have hmem : r ∈ e.rules := (List.mem_filter.1 hr.1).1
  have hside (x : String) (hx : x ∈ r.left ∨ x ∈ r.right) := rename_of_mem_sides h hnames hmem hx
  have hnot : ¬(e.holds (e.rename target)).holdsOn scale item = true := by
    rw [Bool.not_eq_true]
    exact hheld
  rw [holdsOn_holds h scale item (hside _ (.inr hr.2))] at hnot
  exact ⟨hnot, r, hr.1, hr.2, (holdsOn_fires h scale item hside).1 hfires⟩

end

/-! ## Analysis of held tags -/

/-- Tags that are written as they are, and whose final names are not empty, are analysed under their
final names. -/
theorem startOf_normalize_toList {e : Engine} {tags : TagSet}
    (hread : ∀ x ∈ tags, normalizeTag x = x) (hnamed : ∀ x ∈ tags, e.rename x ≠ "") :
    e.startOf (e.normalize tags.toList) = e.heldAbove tags := by
  have hfinal {x : String} (hx : x ∈ tags) : e.rename x = e.renames.resolve x := by
    rw [rename, hread x hx]
  rw [heldAbove]
  congr 1
  ext t
  rw [normalize, TagSet.mem_ofList, List.mem_filter, List.mem_map, TagSet.mem_map, bne_iff_ne]
  constructor
  · rintro ⟨⟨x, hx, rfl⟩, -⟩
    exact ⟨x, hx, (hfinal hx).symm⟩
  · rintro ⟨x, hx, rfl⟩
    exact ⟨⟨x, hx, hfinal hx⟩, hfinal hx ▸ hnamed x hx⟩

/-- An analysis calls for the right tags of every implication whose left tags it starts from. -/
theorem mem_closure_of_fires {e : Engine} (he : e.Consistent) {raw : List String} {r : TagRule}
    (hr : r ∈ e.rulesOf .implication) (hfires : Fires r (e.startOf (e.normalize raw))) :
    ∀ t ∈ r.right, t ∈ (e.analyze raw).closure := by
  intro t ht
  rw [Analysis.closure, Analysis.missing, TagSet.mem_union, TagSet.mem_unions,
    analyze_effective he, analyze_missingSets he]
  have hleft := fun x hx => subset_close e (e.startOf (e.normalize raw)) [] x (hfires.1 x hx)
  rcases fulfilled_or_recorded _ [] hr hleft with hright | hright
  · exact .inl (hright t ht)
  · exact .inr ⟨r.right, hright, ht⟩

/-- Where the names in rules are as written, the expression for a target that implications ask for
can be evaluated. If it accepts a file whose tags are as written, the final name of the target is
neither that of a held tag nor above one; and if no held tag has the empty name as its final one,
the analysis of these tags has the final name of the target among the effective or missing tags. -/
theorem missing_agrees {rules : List TagRule} {properties : List (String × String)} {e : Engine}
    (h : ofRules rules properties = .ok e)
    (hnames : ∀ r ∈ e.rules, ∀ x, x ∈ r.left ∨ x ∈ r.right → normalizeTag x = x)
    (target : String) (scale : RatingScale) :
    ∃ p, (e.wanted .implication target).predicate scale = .ok p ∧ ∀ item : Item,
      (∀ x ∈ item.tags, normalizeTag x = x) → p item = true →
      let tag := e.rename target
      let analysis := e.analyze item.tags.toList
      (∀ x ∈ item.tags, tag ≠ e.rename x ∧ tag ∉ e.ancestors (e.rename x)) ∧
        ((∀ x ∈ item.tags, e.rename x ≠ "") →
          tag ∈ analysis.effective ∨ tag ∈ analysis.missing) := by
  refine ⟨_, predicate_wanted e .implication target scale, fun item hread haccepts => ?_⟩
  intro tag analysis
  obtain ⟨hnot, r, hr, htag, hfires⟩ := holdsOn_wanted h hnames haccepts
  constructor
  · intro x hx
    have hfinal : e.rename x = e.renames.resolve x := by rw [rename, hread x hx]
    rw [hfinal, ← not_or]
    exact fun habove => hnot (mem_heldAbove.2 ⟨x, hx, habove⟩)
  · intro hnamed
    rw [← startOf_normalize_toList hread hnamed] at hfires
    exact TagSet.mem_union.1 (mem_closure_of_fires (consistent_of_ofRules h) hr hfires tag htag)

/-- A file of a pet that is kept indoors lacks a cat or a dog, and the analysis of its tags has both
among the missing ones. -/
theorem missing_agrees_pet :
    let rules : List TagRule :=
      [⟨.singleton "felis", .definition, .singleton "cat"⟩,
        ⟨.singleton "pet", .implication, .singleton "animal"⟩,
        ⟨.ofList ["pet", "indoor"], .implication, .ofList ["felis", "dog"]⟩]
    let e : Engine := .construct rules []
    let item : Item := ⟨"", 0, "", [], .ofList ["pet", "indoor"], ∅, [], ∅, ∅⟩
    ofRules rules [] = .ok e ∧
      (∀ r ∈ e.rules, ∀ x, x ∈ r.left ∨ x ∈ r.right → normalizeTag x = x) ∧
      (∀ x ∈ item.tags, normalizeTag x = x) ∧ (∀ x ∈ item.tags, e.rename x ≠ "") ∧
      ∃ p, (e.wanted .implication "felis").predicate ⟨"", ∅⟩ = .ok p ∧ p item = true ∧
        ("cat" ∈ (e.analyze item.tags.toList).effective ∨
          "cat" ∈ (e.analyze item.tags.toList).missing) := by
  intro rules e item
  have hrules : ofRules rules [] = .ok e := rfl
  have hnames : ∀ r ∈ e.rules, ∀ x, x ∈ r.left ∨ x ∈ r.right → normalizeTag x = x :=
    normalizeTag_of_forall_mem_toList hrules (by decide)
  have hread : ∀ x ∈ item.tags.toList, normalizeTag x = x := by decide
  have hnamed : ∀ x ∈ item.tags.toList, e.rename x ≠ "" := by decide
  obtain ⟨p, hp, hitems⟩ := missing_agrees hrules hnames "felis" ⟨"", ∅⟩
  have haccepts : p item = true := by
    rw [(Expr.predicate_eq_ok.1 hp).2]
    decide
  exact ⟨hrules, hnames, hread, hnamed, p, hp, haccepts, (hitems item hread haccepts).2 hnamed⟩

/-- A tag without a name is held as any other, but an analysis passes over it: what it implies is
missing for a search, and not for an analysis. -/
theorem missing_disagrees_nameless :
    let rules : List TagRule := [⟨.singleton "", .implication, .singleton "b"⟩]
    let e : Engine := .construct rules []
    let item : Item := ⟨"", 0, "", [], .singleton "", ∅, [], ∅, ∅⟩
    ofRules rules [] = .ok e ∧
      (∀ r ∈ e.rules, ∀ x, x ∈ r.left ∨ x ∈ r.right → normalizeTag x = x) ∧
      (∀ x ∈ item.tags, normalizeTag x = x) ∧ e.rename "b" = "b" ∧
      ∃ p, (e.wanted .implication "b").predicate ⟨"", ∅⟩ = .ok p ∧ p item = true ∧
        "b" ∉ (e.analyze item.tags.toList).effective ∧
        "b" ∉ (e.analyze item.tags.toList).missing := by
  intro rules e item
  have hrules : ofRules rules [] = .ok e := rfl
  have hnames : ∀ r ∈ e.rules, ∀ x, x ∈ r.left ∨ x ∈ r.right → normalizeTag x = x :=
    normalizeTag_of_forall_mem_toList hrules (by decide)
  have hread : ∀ x ∈ item.tags.toList, normalizeTag x = x := by decide
  have hnone : e.analyze item.tags.toList = ∅ := by decide
  refine ⟨hrules, hnames, hread, by decide, _, predicate_wanted e .implication "b" ⟨"", ∅⟩,
    by decide, ?_, ?_⟩
  · rw [hnone]
    exact TagSet.not_mem_empty "b"
  · rw [hnone]
    exact TagSet.not_mem_empty "b"

end TagQuery.Engine
