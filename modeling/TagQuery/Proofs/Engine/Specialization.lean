import TagQuery.Proofs.Engine.Hierarchy
import TagQuery.Proofs.Engine.Renames
import TagQuery.Proofs.Engine.Rules

/-!
# Specializations as written

The hierarchy of an engine is the one that the specializations among its rules describe, once every
name in them is final. Rules of the other kinds add nothing to it.

## Main definitions

- `Engine.IsKindOf`: the specializations among some rules, in final names.

## Main statements

- `Engine.closes_construct`: the hierarchy holds exactly the paths along the specializations.
- `Engine.mem_sides_simplify`: the names in simplified rules are final names of those in the rules.
-/

namespace TagQuery

open Relation (ReflTransGen)

namespace TagSet

@[simp] theorem map_singleton (f : String → String) (t : String) :
    (singleton t).map f = singleton (f t) := by
  ext x
  simp [eq_comm]

@[simp] theorem singleton_inj {s t : String} : singleton s = singleton t ↔ s = t := by
  refine ⟨fun h => ?_, fun h => h ▸ rfl⟩
  have hmem : s ∈ singleton t := h ▸ mem_singleton.2 rfl
  exact mem_singleton.1 hmem

end TagSet

namespace Engine

/-- The specializations among some rules, in final names; none leads from a tag to itself. -/
def IsKindOf (rules : List TagRule) (child parent : String) : Prop :=
  child ≠ parent ∧ ∃ x y, ⟨.singleton x, .specialization, .singleton y⟩ ∈ rules ∧
    (renamesOf rules).resolve x = child ∧ (renamesOf rules).resolve y = parent

/-! ## Pairs -/

theorem pairOf?_eq_some {r : TagRule} {p : String × String} :
    pairOf? r = some p ↔ r = ⟨.singleton p.1, r.operator, .singleton p.2⟩ := by
  obtain ⟨left, op, right⟩ := r
  obtain ⟨a, b⟩ := p
  unfold pairOf?
  dsimp only
  simp only [TagRule.mk.injEq, true_and, ← TagSet.single?_eq_some]
  cases left.single? <;> cases right.single? <;> simp

theorem mem_pairsOf {op : RuleOperator} {rules : List TagRule} {p : String × String} :
    p ∈ pairsOf op rules ↔ ⟨.singleton p.1, op, .singleton p.2⟩ ∈ rules := by
  simp only [pairsOf, List.mem_filterMap, List.mem_filter, beq_iff_eq, pairOf?_eq_some]
  constructor
  · rintro ⟨r, ⟨hr, rfl⟩, hpair⟩
    exact hpair ▸ hr
  · intro h
    exact ⟨_, ⟨h, rfl⟩, rfl⟩

/-! ## Simplified rules -/

theorem operator_of_mem_expandTwoWay {op : RuleOperator} {left right : TagSet} {s : TagRule}
    (hs : s ∈ expandTwoWay op left right) : s.operator = op := by
  simp only [expandTwoWay, List.mem_append, List.mem_cons, List.not_mem_nil, or_false,
    List.mem_flatMap] at hs
  rcases hs with (rfl | rfl) | ⟨l, -, u, -, hs⟩
  · rfl
  · rfl
  · split at hs
    · simp at hs
    · simp only [List.mem_cons, List.not_mem_nil, or_false] at hs
      rcases hs with rfl | rfl <;> rfl

/-- Rules in one direction stay of their kind, and none of the others becomes a specialization. -/
theorem mem_simplifyRule_specialization {renames : Renames} {r s : TagRule}
    (hs : s.operator = .specialization) :
    s ∈ simplifyRule renames r ↔ r.operator = .specialization ∧
      s.left = r.left.map renames.resolve ∧ s.right = r.right.map renames.resolve := by
  obtain ⟨left, op, right⟩ := s
  obtain rfl : op = .specialization := hs
  unfold simplifyRule
  dsimp only
  cases hop : r.operator with
  | bidirectionalImplication | bidirectionalSuggestion | mutualExclusion =>
    refine ⟨fun h => ?_, fun h => ?_⟩
    · have hkind := operator_of_mem_expandTwoWay h
      contradiction
    · simp at h
  | definition | implication | suggestion | exclusion => simp [RuleOperator.oneWay?]
  | specialization => simp [RuleOperator.oneWay?]

theorem mem_simplify {renames : Renames} {rules : List TagRule} {s : TagRule} :
    s ∈ simplify renames rules ↔
      ∃ r ∈ rules, r.operator ≠ .definition ∧ s ∈ simplifyRule renames r := by
  simp [simplify, and_assoc]

/-- An acceptable specialization has one tag on each side. -/
theorem exists_singletons {r : TagRule} (hfault : r.fault? = none)
    (hop : r.operator = .specialization) :
    ∃ x y, r = ⟨.singleton x, .specialization, .singleton y⟩ := by
  unfold TagRule.fault? at hfault
  split at hfault
  · contradiction
  · split at hfault
    · contradiction
    · next hsizes =>
      simp only [hop, RuleOperator.needsSingletons, Bool.true_and, Bool.or_eq_true, bne_iff_ne,
        ne_eq, not_or, Decidable.not_not] at hsizes
      obtain ⟨x, hx⟩ := TagSet.size_beq_one.1 (beq_iff_eq.2 hsizes.1)
      obtain ⟨y, hy⟩ := TagSet.size_beq_one.1 (beq_iff_eq.2 hsizes.2)
      exact ⟨x, y, by rw [← hx, ← hy, ← hop]⟩

theorem mem_simplify_specialization {renames : Renames} {rules : List TagRule}
    (hrules : ∀ r ∈ rules, r.fault? = none) {child parent : String} :
    ⟨.singleton child, .specialization, .singleton parent⟩ ∈ simplify renames rules ↔
      ∃ x y, ⟨.singleton x, .specialization, .singleton y⟩ ∈ rules ∧
        renames.resolve x = child ∧ renames.resolve y = parent := by
  rw [mem_simplify]
  constructor
  · rintro ⟨r, hr, -, hs⟩
    obtain ⟨hop, hleft, hright⟩ := (mem_simplifyRule_specialization rfl).1 hs
    obtain ⟨x, y, rfl⟩ := exists_singletons (hrules r hr) hop
    simp only [TagSet.map_singleton, TagSet.singleton_inj] at hleft hright
    exact ⟨x, y, hr, hleft.symm, hright.symm⟩
  · rintro ⟨x, y, hr, rfl, rfl⟩
    refine ⟨_, hr, by simp, (mem_simplifyRule_specialization rfl).2 ⟨rfl, ?_, ?_⟩⟩
    · exact (TagSet.map_singleton _ _).symm
    · exact (TagSet.map_singleton _ _).symm

/-! ## The hierarchy -/

/-- The hierarchy of acceptable rules holds exactly the paths along their specializations. -/
theorem closes_construct {rules : List TagRule} (hrules : ∀ r ∈ rules, r.fault? = none)
    (properties : List (String × String)) :
    (construct rules properties).hierarchy.Closes (IsKindOf rules) := by
  have hedges : IsKindOf rules = fun a b => False ∨
      (a, b) ∈ (pairsOf .specialization (simplify (renamesOf rules) rules)).filter
        fun p => p.1 != p.2 := by
    funext a b
    rw [false_or, List.mem_filter, mem_pairsOf, mem_simplify_specialization hrules, bne_iff_ne,
      and_comm]
    rfl
  rw [hedges]
  exact Hierarchy.closes_foldl_insert Hierarchy.closes_empty _

/-- Both ends of a specialization are final names. -/
theorem resolve_of_isKindOf {rules : List TagRule} {child parent : String}
    (h : IsKindOf rules child parent) :
    (renamesOf rules).resolve child = child ∧ (renamesOf rules).resolve parent = parent := by
  obtain ⟨-, x, y, -, rfl, rfl⟩ := h
  exact ⟨settled_renamesOf rules x, settled_renamesOf rules y⟩

/-- Paths along specializations lead from final names to final names. -/
theorem resolve_iff_of_reflTransGen {rules : List TagRule} {x y : String}
    (h : ReflTransGen (IsKindOf rules) x y) :
    (renamesOf rules).resolve x = x ↔ (renamesOf rules).resolve y = y := by
  rcases ReflTransGen.cases_head_iff.1 h with rfl | ⟨a, hxa, -⟩
  · rfl
  · rcases ReflTransGen.cases_tail_iff _ _ _ |>.1 h with rfl | ⟨b, -, hby⟩
    · rfl
    · exact iff_of_true (resolve_of_isKindOf hxa).1 (resolve_of_isKindOf hby).2

/-! ## Names -/

theorem mem_sides_expandTwoWay {op : RuleOperator} {left right : TagSet} {s : TagRule}
    (hs : s ∈ expandTwoWay op left right) {t : String} (ht : t ∈ s.left ∨ t ∈ s.right) :
    t ∈ left ∨ t ∈ right := by
  simp only [expandTwoWay, List.mem_append, List.mem_cons, List.not_mem_nil, or_false,
    List.mem_flatMap] at hs
  rcases hs with (rfl | rfl) | ⟨l, hl, u, hu, hs⟩
  · exact ht
  · exact ht.symm
  · split at hs
    · simp at hs
    · simp only [List.mem_cons, List.not_mem_nil, or_false] at hs
      rcases hs with rfl | rfl <;> simp only [TagSet.mem_singleton] at ht <;>
        rcases ht with rfl | rfl
      · exact .inl hl
      · exact .inr hu
      · exact .inr hu
      · exact .inl hl

/-- The names in simplified rules are the final names of those in the rules. -/
theorem mem_sides_simplify {renames : Renames} {rules : List TagRule} {s : TagRule}
    (hs : s ∈ simplify renames rules) {t : String} (ht : t ∈ s.left ∨ t ∈ s.right) :
    ∃ r ∈ rules, ∃ x, (x ∈ r.left ∨ x ∈ r.right) ∧ renames.resolve x = t := by
  obtain ⟨r, hr, -, hsr⟩ := mem_simplify.1 hs
  have hmapped : t ∈ r.left.map renames.resolve ∨ t ∈ r.right.map renames.resolve := by
    unfold simplifyRule at hsr
    dsimp only at hsr
    split at hsr
    · exact mem_sides_expandTwoWay hsr ht
    · obtain rfl := List.mem_singleton.1 hsr
      exact ht
  rcases hmapped with hmem | hmem
  · obtain ⟨x, hx, rfl⟩ := TagSet.mem_map.1 hmem
    exact ⟨r, hr, x, .inl hx, rfl⟩
  · obtain ⟨x, hx, rfl⟩ := TagSet.mem_map.1 hmem
    exact ⟨r, hr, x, .inr hx, rfl⟩

end Engine
end TagQuery
