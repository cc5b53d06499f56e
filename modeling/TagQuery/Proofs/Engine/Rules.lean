import TagQuery.Engine

/-!
# Simplified rules

The rules of an engine come from acceptable rules: both of their sides name tags.

## Main definitions

- `TagRule.HasSides`: both sides of a rule name tags.

## Main statements

- `Engine.ofRules_eq_ok`: an engine is built exactly from acceptable rules.
- `Engine.hasSides_of_mem_simplify`: simplified rules keep their sides.
-/

namespace TagQuery

/-! ## Sides -/

namespace TagSet

theorem isEmpty_eq_false {s : TagSet} : s.isEmpty = false ↔ ∃ t, t ∈ s := by
  simp only [isEmpty, List.isEmpty_eq_false_iff_exists_mem, mem_toList]

/-- A set of one is the set of its only member. -/
theorem single?_eq_some {s : TagSet} {t : String} : s.single? = some t ↔ s = singleton t := by
  constructor
  · intro h
    unfold single? at h
    split at h
    · next u hu =>
      rw [Option.some.injEq] at h
      ext x
      rw [← mem_toList, hu, h, mem_singleton, List.mem_singleton]
    · contradiction
  · rintro rfl
    rfl

theorem size_beq_one {s : TagSet} : (s.size == 1) = true ↔ ∃ t, s = singleton t := by
  rw [beq_iff_eq, size, List.length_eq_one_iff]
  refine exists_congr fun t => ⟨fun h => ?_, fun h => by rw [h]; rfl⟩
  exact single?_eq_some.1 (by rw [single?, h])

end TagSet

namespace TagRule

structure HasSides (r : TagRule) : Prop where
  left : ∃ t, t ∈ r.left
  right : ∃ t, t ∈ r.right

theorem hasSides_of_fault?_eq_none {r : TagRule} (h : r.fault? = none) : r.HasSides := by
  have hsides : ¬(r.left.isEmpty || r.right.isEmpty) = true := by
    intro hempty
    rw [fault?, if_pos hempty] at h
    contradiction
  rw [Bool.not_eq_true, Bool.or_eq_false_iff] at hsides
  exact ⟨TagSet.isEmpty_eq_false.1 hsides.1, TagSet.isEmpty_eq_false.1 hsides.2⟩

theorem mem_insertSorted {r x : TagRule} {rules : List TagRule} :
    x ∈ insertSorted r rules ↔ x = r ∨ x ∈ rules := by
  induction rules with
  | nil => simp [insertSorted]
  | cons s rules ih =>
    rw [insertSorted]
    split
    · rw [List.mem_cons]
    · split
      · next h => simp [h]
      · rw [List.mem_cons, ih, List.mem_cons, or_left_comm]

@[simp] theorem mem_sortDistinct {x : TagRule} {rules : List TagRule} :
    x ∈ sortDistinct rules ↔ x ∈ rules := by
  induction rules with
  | nil => simp [sortDistinct]
  | cons r rules ih =>
    change x ∈ insertSorted r (sortDistinct rules) ↔ _
    rw [mem_insertSorted, ih, List.mem_cons]

end TagRule

namespace Engine

/-! ## Construction -/

/-- An engine is built exactly from acceptable rules. -/
theorem ofRules_eq_ok {rules : List TagRule} {properties : List (String × String)} {e : Engine} :
    ofRules rules properties = .ok e ↔
      (∀ r ∈ rules, r.fault? = none) ∧ construct rules properties = e := by
  have hnone : (rules.findSome? fun r => r.fault?.map fun fault => (r, fault)) = none ↔
      ∀ r ∈ rules, r.fault? = none := by
    rw [List.findSome?_eq_none_iff]
    simp
  unfold ofRules
  split
  · next fault hfault =>
    refine ⟨fun h => by contradiction, fun h => ?_⟩
    rw [hnone.2 h.1] at hfault
    contradiction
  · next hfault =>
    rw [Except.ok.injEq]
    exact (and_iff_right (hnone.1 hfault)).symm

theorem hasSides_expandTwoWay {op : RuleOperator} {left right : TagSet} (hleft : ∃ t, t ∈ left)
    (hright : ∃ t, t ∈ right) {r : TagRule} (hr : r ∈ expandTwoWay op left right) : r.HasSides := by
  simp only [expandTwoWay, List.mem_append, List.mem_cons, List.not_mem_nil, or_false,
    List.mem_flatMap] at hr
  rcases hr with (rfl | rfl) | ⟨l, -, u, -, hr⟩
  · exact ⟨hleft, hright⟩
  · exact ⟨hright, hleft⟩
  · split at hr
    · simp at hr
    · have hpair (a b : String) : TagRule.HasSides ⟨.singleton a, op, .singleton b⟩ :=
        ⟨⟨a, TagSet.mem_singleton.2 rfl⟩, b, TagSet.mem_singleton.2 rfl⟩
      simp only [List.mem_cons, List.not_mem_nil, or_false] at hr
      rcases hr with rfl | rfl
      · exact hpair l u
      · exact hpair u l

theorem hasSides_simplifyRule {renames : Renames} {r s : TagRule} (hr : r.HasSides)
    (hs : s ∈ simplifyRule renames r) : s.HasSides := by
  have hmap {tags : TagSet} (h : ∃ t, t ∈ tags) : ∃ t, t ∈ tags.map renames.resolve := by
    obtain ⟨t, ht⟩ := h
    exact ⟨renames.resolve t, TagSet.mem_map.2 ⟨t, ht, rfl⟩⟩
  unfold simplifyRule at hs
  dsimp only at hs
  split at hs
  · exact hasSides_expandTwoWay (hmap hr.left) (hmap hr.right) hs
  · obtain rfl := List.mem_singleton.1 hs
    exact ⟨hmap hr.left, hmap hr.right⟩

theorem hasSides_of_mem_simplify {renames : Renames} {rules : List TagRule}
    (hrules : ∀ r ∈ rules, r.fault? = none) {s : TagRule} (hs : s ∈ simplify renames rules) :
    s.HasSides := by
  rw [simplify, TagRule.mem_sortDistinct] at hs
  obtain ⟨r, hr, hsr⟩ := List.mem_flatMap.1 hs
  have hmem : r ∈ rules := (List.mem_filter.1 hr).1
  exact hasSides_simplifyRule (TagRule.hasSides_of_fault?_eq_none (hrules r hmem)) hsr

end Engine
end TagQuery
