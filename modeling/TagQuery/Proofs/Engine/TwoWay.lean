import TagQuery.Proofs.Engine.Analysis
import TagQuery.Proofs.Engine.Canonical

/-!
# Implications in both directions

An implication in both directions stands for implications between single tags, one of each side, and
so any of its tags leads to all of them: over a tag of the other side to those of its own. It does
not matter how many tags there are, whether a tag stands on both sides, or whether two tags have the
same final name. Only the empty name leads nowhere, since an analysis passes over it.

## Main statements

- `Engine.mem_rulesOf_twoWay`: the implications that such a rule stands for.
- `Engine.Saturated.forall_mem_twoWay`: a saturated set holds all tags of such a rule or none.
- `Engine.effective_twoWay`: from each tag of such a rule all the others follow.
-/

namespace TagQuery.Engine

/-! ## Between single tags -/

/-- Two different tags, one of each side, imply each other. -/
theorem mem_expandTwoWay (op : RuleOperator) {left right : TagSet} {l r : String} (hl : l ∈ left)
    (hr : r ∈ right) (hne : l ≠ r) :
    ⟨.singleton l, op, .singleton r⟩ ∈ expandTwoWay op left right ∧
      ⟨.singleton r, op, .singleton l⟩ ∈ expandTwoWay op left right := by
  have hpair :
      ∀ s ∈ [(⟨.singleton l, op, .singleton r⟩ : TagRule), ⟨.singleton r, op, .singleton l⟩],
      s ∈ expandTwoWay op left right := by
    intro s hs
    refine List.mem_append_right _ (List.mem_flatMap.2 ⟨l, hl, List.mem_flatMap.2 ⟨r, hr, ?_⟩⟩)
    rwa [if_neg hne]
  exact ⟨hpair _ (by simp), hpair _ (by simp)⟩

/-- The implications that a rule in both directions stands for. -/
theorem mem_rulesOf_twoWay {rules : List TagRule} {properties : List (String × String)} {e : Engine}
    (h : ofRules rules properties = .ok e) {left right : TagSet}
    (hrule : ⟨left, .bidirectionalImplication, right⟩ ∈ rules) {s : TagRule}
    (hs : s ∈ expandTwoWay .implication (left.map e.renames.resolve)
      (right.map e.renames.resolve)) : s ∈ e.rulesOf .implication := by
  obtain ⟨-, rfl⟩ := ofRules_eq_ok.1 h
  refine List.mem_filter.2 ⟨mem_simplify.2 ⟨_, hrule, by simp, ?_⟩, ?_⟩
  · exact hs
  · exact beq_iff_eq.2 (operator_of_mem_expandTwoWay hs)

/-! ## Closed sets -/

section
variable {e : Engine} {tags : Set String} (htags : e.Saturated tags) {left right : TagSet}
  (hrules : ∀ s ∈ expandTwoWay .implication left right, s ∈ e.rulesOf .implication)
include htags hrules

/-- A saturated set holds a tag of one side exactly when it holds any of the other. -/
theorem Saturated.mem_iff_of_twoWay {l r : String} (hl : l ∈ left) (hr : r ∈ right) :
    l ∈ tags ↔ r ∈ tags := by
  by_cases heq : l = r
  · rw [heq]
  · obtain ⟨hforth, hback⟩ := mem_expandTwoWay .implication hl hr heq
    have hleads {a b : String} (hab : ⟨.singleton a, .implication, .singleton b⟩ ∈
        e.rulesOf .implication) (ha : a ∈ tags) : b ∈ tags :=
      htags.implied _ hab b rfl fun x hx => TagSet.mem_singleton.1 hx ▸ ha
    exact ⟨hleads (hrules _ hforth), hleads (hrules _ hback)⟩

/-- A saturated set with one of the tags holds them all: those of the other side first, and over any
of these those of the same side. -/
theorem Saturated.forall_mem_twoWay (hleft : ∃ t, t ∈ left) (hright : ∃ t, t ∈ right) {x y : String}
    (hx : x ∈ left ∪ right) (hy : y ∈ left ∪ right) (hmem : x ∈ tags) : y ∈ tags := by
  have hsides {l r : String} (hl : l ∈ left) (hr : r ∈ right) : l ∈ tags ↔ r ∈ tags :=
    htags.mem_iff_of_twoWay hrules hl hr
  obtain ⟨l, hl⟩ := hleft
  obtain ⟨r, hr⟩ := hright
  have hl' : l ∈ tags := by
    rcases TagSet.mem_union.1 hx with hx | hx
    · exact (hsides hl hr).2 ((hsides hx hr).1 hmem)
    · exact (hsides hl hx).2 hmem
  rcases TagSet.mem_union.1 hy with hy | hy
  · exact (hsides hy hr).2 ((hsides hl hr).1 hl')
  · exact (hsides hl hy).1 hl'

end

/-! ## Analysis -/

theorem mem_normalize_singleton {e : Engine} {x t : String} :
    t ∈ e.normalize [x] ↔ t = e.rename x ∧ t ≠ "" := by
  simp [normalize]

/-- From no tags nothing follows, since every rule asks for a tag. -/
theorem saturated_empty {e : Engine} (he : e.Consistent) : e.Saturated ∅ where
  ancestors _ hx := absurd hx (Set.notMem_empty _)
  implied r hr _ _ hleft := by
    obtain ⟨x, hx⟩ := (he.sides r (List.mem_filter.1 hr).1).left
    exact absurd (hleft x hx) (Set.notMem_empty x)

/-- A single tag is effective unless its name is empty, and then no tag is. -/
theorem mem_effective_singleton {e : Engine} (he : e.Consistent) {x : String}
    (hx : e.rename x = x) : x ∈ (e.analyze [x]).effective ↔ x ≠ "" := by
  have hleast := isLeast_analyze_effective he [x]
  rw [analyze_normalized] at hleast
  constructor
  · rintro hmem rfl
    refine absurd (hleast.2 ⟨fun t ht => ?_, saturated_empty he⟩ hmem) (Set.notMem_empty _)
    obtain ⟨rfl, hne⟩ := mem_normalize_singleton.1 ht
    exact absurd hx hne
  · exact fun hne => hleast.1.1 x (mem_normalize_singleton.2 ⟨hx.symm, hne⟩)

/-- From each tag of an implication in both directions, under its final name, all of its tags
follow; only from the empty name nothing does. -/
theorem effective_twoWay {rules : List TagRule} {properties : List (String × String)} {e : Engine}
    (h : ofRules rules properties = .ok e)
    (hnames : ∀ r ∈ rules, ∀ t, t ∈ r.left ∨ t ∈ r.right → normalizeTag t = t)
    {left right : TagSet} (hrule : ⟨left, .bidirectionalImplication, right⟩ ∈ rules) {x : String}
    (hx : x ∈ (left ∪ right).map e.rename) :
    (∀ y ∈ (left ∪ right).map e.rename, y ∈ (e.analyze [x]).effective) ↔ x ≠ "" := by
  have he := consistent_of_ofRules h
  have hrules := fun s => mem_rulesOf_twoWay (s := s) h hrule
  -- the rule between the whole sides, in final names
  have hwhole := (List.mem_filter.1 (hrules _ List.mem_cons_self)).1
  have hsides := he.sides _ hwhole
  have hfinal : (left ∪ right).map e.rename =
      left.map e.renames.resolve ∪ right.map e.renames.resolve := by
    have hrename {t : String} (ht : t ∈ left ∨ t ∈ right) : e.rename t = e.renames.resolve t := by
      rw [rename, hnames _ hrule t ht]
    ext y
    simp only [TagSet.mem_map, TagSet.mem_union]
    grind
  rw [hfinal] at hx ⊢
  have hxname : e.rename x = x :=
    rename_of_mem_sides h (fun _ hr _ => normalizeTag_of_mem_sides h hnames hr) hwhole
      (TagSet.mem_union.1 hx)
  have hsaturated := (isLeast_analyze_effective he [x]).1.2
  rw [← mem_effective_singleton he hxname]
  exact ⟨fun hall => hall x hx,
    fun hmem y hy => hsaturated.forall_mem_twoWay hrules hsides.left hsides.right hx hy hmem⟩

/-- Both sides share a tag, under two of its names. -/
theorem effective_twoWay_felis :
    let left : TagSet := .ofList ["felis", "purring"]
    let right : TagSet := .ofList ["cat", "whiskers"]
    let rules : List TagRule :=
      [⟨left, .bidirectionalImplication, right⟩,
        ⟨.singleton "felis", .definition, .singleton "cat"⟩]
    let e := construct rules []
    ofRules rules [] = .ok e ∧
      (∀ r ∈ rules, ∀ t, t ∈ r.left ∨ t ∈ r.right → normalizeTag t = t) ∧
      ((left ∪ right).map e.rename).toList = ["cat", "purring", "whiskers"] ∧
      ∀ y ∈ (left ∪ right).map e.rename, y ∈ (e.analyze ["purring"]).effective := by
  intro left right rules e
  have hrules : ofRules rules [] = .ok e := rfl
  have hwritten : ∀ r ∈ rules, ∀ t ∈ r.left.toList ++ r.right.toList, normalizeTag t = t := by
    decide
  have hnames : ∀ r ∈ rules, ∀ t, t ∈ r.left ∨ t ∈ r.right → normalizeTag t = t :=
    fun r hr t ht => hwritten r hr t (List.mem_append.2 ht)
  refine ⟨hrules, hnames, by decide, ?_⟩
  exact (effective_twoWay hrules hnames List.mem_cons_self (by decide)).2 (by decide)

/-- From the empty name nothing follows, also where such a rule has it. -/
theorem not_effective_twoWay_nameless :
    let left : TagSet := .singleton ""
    let right : TagSet := .singleton "b"
    let rules : List TagRule := [⟨left, .bidirectionalImplication, right⟩]
    ∃ e, ofRules rules [] = .ok e ∧
      (∀ r ∈ rules, ∀ t ∈ r.left.toList ++ r.right.toList, normalizeTag t = t) ∧
      "" ∈ (left ∪ right).map e.rename ∧ "b" ∈ (left ∪ right).map e.rename ∧
      "b" ∉ (e.analyze [""]).effective := by
  exact ⟨_, rfl, by decide, by decide, by decide, by decide +kernel⟩

end TagQuery.Engine
