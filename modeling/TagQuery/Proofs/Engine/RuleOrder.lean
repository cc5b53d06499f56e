import Mathlib.Data.List.Lex
import Mathlib.Data.List.Sort
import Mathlib.Data.Prod.Lex
import Mathlib.Data.String.Basic
import TagQuery.Proofs.Engine.Definitions
import TagQuery.Proofs.Engine.Specialization

/-!
# The order of rules

An engine depends on its rules as a set only. Simplified rules stand in their own order, in which no
rule can have two places, and everything else is built from them and from the final names. The final
names are where definitions end, if no name has two definitions and none leads back to itself.

## Main definitions

- `TagRule.key`: the order of rules as that of their keys.
- `Engine.IsRenamedTo`: the definitions among some rules.

## Main statements

- `TagRule.eq_of_pairwise_key`: increasing lists with the same rules are equal.
- `Engine.construct_eq_of_mem_iff`: the same rules and properties make the same engine.
- `Engine.ofRules_eq_of_mem_iff`: the order of acceptable rules does not matter.
-/

namespace TagQuery

open Relation (TransGen)

/-! ## Increasing rules -/

namespace TagRule

/-- What the order of rules compares: the left tags, then the kind, then the right tags. -/
def key (r : TagRule) : List String ×ₗ ℕ ×ₗ List String :=
  toLex (r.left.toList, toLex (r.operator.rank, r.right.toList))

theorem operator_eq_iff {op op' : RuleOperator} : op = op' ↔ op.rank = op'.rank := by
  cases op <;> cases op' <;> decide

theorem tags_eq_iff {s t : TagSet} : s = t ↔ s.toList = t.toList := by
  rw [TagSet.mk.injEq]

theorem precedes_iff {a b : TagRule} : a.precedes b = true ↔ a.key < b.key := by
  simp only [precedes, key, Bool.or_eq_true, Bool.and_eq_true, decide_eq_true_eq, beq_iff_eq,
    Prod.Lex.toLex_lt_toLex, operator_eq_iff, tags_eq_iff]

theorem key_injective : Function.Injective key := by
  intro a b h
  obtain ⟨left, op, right⟩ := a
  obtain ⟨left', op', right'⟩ := b
  obtain ⟨hleft, hrest⟩ := Prod.mk.inj (toLex.injective h)
  obtain ⟨hop, hright⟩ := Prod.mk.inj (toLex.injective hrest)
  rw [TagRule.mk.injEq, tags_eq_iff, operator_eq_iff, tags_eq_iff]
  exact ⟨hleft, hop, hright⟩

theorem pairwise_insertSorted {r : TagRule} {rules : List TagRule}
    (h : rules.Pairwise fun a b => a.key < b.key) :
    (insertSorted r rules).Pairwise fun a b => a.key < b.key := by
  induction rules with
  | nil => exact List.pairwise_singleton _ _
  | cons s rules ih =>
    obtain ⟨hs, hrest⟩ := List.pairwise_cons.1 h
    rw [insertSorted]
    split
    · next hlt =>
      rw [precedes_iff] at hlt
      refine List.pairwise_cons.2 ⟨fun x hx => ?_, h⟩
      rcases List.mem_cons.1 hx with rfl | hx
      · exact hlt
      · exact hlt.trans (hs x hx)
    · next hnot =>
      rw [precedes_iff] at hnot
      split
      · exact h
      · next hne =>
        have hgt : s.key < r.key := lt_of_le_of_ne (not_lt.1 hnot) fun heq =>
          hne (key_injective heq).symm
        refine List.pairwise_cons.2 ⟨fun x hx => ?_, ih hrest⟩
        rcases mem_insertSorted.1 hx with rfl | hx
        · exact hgt
        · exact hs x hx

theorem pairwise_sortDistinct (rules : List TagRule) :
    (sortDistinct rules).Pairwise fun a b => a.key < b.key := by
  induction rules with
  | nil => exact .nil
  | cons r rules ih => exact pairwise_insertSorted ih

/-- Increasing lists with the same rules are equal. -/
theorem eq_of_pairwise_key {rules rules' : List TagRule}
    (h : rules.Pairwise fun a b => a.key < b.key) (h' : rules'.Pairwise fun a b => a.key < b.key)
    (hsame : ∀ r, r ∈ rules ↔ r ∈ rules') : rules = rules' := by
  have hirrefl : Std.Irrefl fun a b : TagRule => a.key < b.key := ⟨fun a => lt_irrefl a.key⟩
  have hantisymm : Std.Antisymm fun a b : TagRule => a.key < b.key :=
    ⟨fun a b hlt hgt => absurd hgt hlt.asymm⟩
  exact h.eq_of_mem_iff h' hsame

end TagRule

namespace Engine

/-! ## Engines of the same rules -/

/-- The simplified rules depend on the rules as a set. -/
theorem simplify_eq_of_mem_iff {rules rules' : List TagRule} (hsame : ∀ r, r ∈ rules' ↔ r ∈ rules)
    (renames : Renames) : simplify renames rules' = simplify renames rules := by
  have hmem (s : TagRule) : s ∈ simplify renames rules' ↔ s ∈ simplify renames rules := by
    simp only [mem_simplify, hsame]
  exact TagRule.eq_of_pairwise_key (TagRule.pairwise_sortDistinct _)
    (TagRule.pairwise_sortDistinct _) hmem

/-- The definitions among some rules; none leads from a name to itself. -/
def IsRenamedTo (rules : List TagRule) (x y : String) : Prop :=
  x ≠ y ∧ ⟨.singleton x, .definition, .singleton y⟩ ∈ rules

theorem defines_pairsOf (rules : List TagRule) :
    Renames.Defines (pairsOf .definition rules) = IsRenamedTo rules := by
  funext x y
  rw [Renames.Defines, mem_pairsOf, IsRenamedTo]

section
variable {rules rules' : List TagRule}
  (hunique : ∀ x y z, IsRenamedTo rules x y → IsRenamedTo rules x z → y = z)
  (hacyclic : ∀ x, ¬TransGen (IsRenamedTo rules) x x)
  (hsame : ∀ r, r ∈ rules' ↔ r ∈ rules)
include hunique hacyclic hsame

/-- The renames depend on the rules as a set, if these define no name twice or in a circle. -/
theorem renamesOf_eq_of_mem_iff : renamesOf rules' = renamesOf rules := by
  have hcoherent : Renames.Coherent (pairsOf .definition rules) :=
    ⟨fun x y z => (defines_pairsOf rules).symm ▸ hunique x y z,
      (defines_pairsOf rules).symm ▸ hacyclic⟩
  refine hcoherent.ofPairs_eq fun p => ?_
  rw [mem_pairsOf, mem_pairsOf, hsame]

theorem construct_eq_of_mem_iff (properties : List (String × String)) :
    construct rules' properties = construct rules properties := by
  have hrenames : renamesOf rules' = renamesOf rules :=
    renamesOf_eq_of_mem_iff hunique hacyclic hsame
  have hsimplify := simplify_eq_of_mem_iff hsame (renamesOf rules)
  simp only [construct, hrenames, hsimplify]

end

/-- The order of acceptable rules does not matter, nor do repeats: the same rules and properties
make one and the same engine, and so every question about tags and every search has the same answer.
No name may be renamed to two others, and none may lead back to itself over others. -/
theorem ofRules_eq_of_mem_iff {rules rules' : List TagRule} (hrules : ∀ r ∈ rules, r.fault? = none)
    (hunique : ∀ x y z, IsRenamedTo rules x y → IsRenamedTo rules x z → y = z)
    (hacyclic : ∀ x, ¬TransGen (IsRenamedTo rules) x x) (hsame : ∀ r, r ∈ rules' ↔ r ∈ rules)
    (properties : List (String × String)) :
    ∃ e, ofRules rules properties = .ok e ∧ ofRules rules' properties = .ok e := by
  have hrules' : ∀ r ∈ rules', r.fault? = none := fun r hr => hrules r ((hsame r).1 hr)
  exact ⟨construct rules properties, ofRules_eq_ok.2 ⟨hrules, rfl⟩,
    ofRules_eq_ok.2 ⟨hrules', construct_eq_of_mem_iff hunique hacyclic hsame properties⟩⟩

/-- Rules with a chain of renames, in the other direction. -/
theorem ofRules_eq_of_mem_iff_bobcat :
    let rules : List TagRule :=
      [⟨.singleton "bobcat", .definition, .singleton "cat"⟩,
        ⟨.singleton "cat", .definition, .singleton "feline"⟩,
        ⟨.singleton "bobcat", .specialization, .singleton "animal"⟩,
        ⟨.singleton "cat", .mutualExclusion, .singleton "dog"⟩]
    let properties := [("#cat", "legs=4")]
    (∀ r ∈ rules, r.fault? = none) ∧
      (∀ x y z, IsRenamedTo rules x y → IsRenamedTo rules x z → y = z) ∧
      (∀ x, ¬TransGen (IsRenamedTo rules) x x) ∧ (∀ r, r ∈ rules.reverse ↔ r ∈ rules) ∧
      ∃ e, ofRules rules properties = .ok e ∧ ofRules rules.reverse properties = .ok e ∧
        e.rename "bobcat" = "feline" := by
  intro rules properties
  have hrules : ∀ r ∈ rules, r.fault? = none := by decide
  have hlist : pairsOf .definition rules = [("bobcat", "cat"), ("cat", "feline")] := rfl
  have hpairs {x y : String} (h : IsRenamedTo rules x y) :
      (x, y) ∈ [("bobcat", "cat"), ("cat", "feline")] := hlist ▸ mem_pairsOf.2 h.2
  have hunique (x y z : String) (hy : IsRenamedTo rules x y) (hz : IsRenamedTo rules x z) :
      y = z := by
    have hy := hpairs hy
    have hz := hpairs hz
    simp only [List.mem_cons, List.not_mem_nil, or_false, Prod.mk.injEq] at hy hz
    rcases hy with ⟨rfl, rfl⟩ | ⟨rfl, rfl⟩ <;> simpa [eq_comm] using hz
  have hacyclic : ∀ x, ¬TransGen (IsRenamedTo rules) x x :=
    Renames.not_transGen_of_lt fun x y h => by
      have hlt : ∀ p ∈ [("bobcat", "cat"), ("cat", "feline")], p.1 < p.2 := by decide
      exact hlt (x, y) (hpairs h)
  have hsame (r : TagRule) : r ∈ rules.reverse ↔ r ∈ rules := List.mem_reverse
  obtain ⟨e, he, he'⟩ := ofRules_eq_of_mem_iff hrules hunique hacyclic hsame properties
  refine ⟨hrules, hunique, hacyclic, hsame, e, he, he', ?_⟩
  obtain ⟨-, rfl⟩ := ofRules_eq_ok.1 he
  decide

end Engine
end TagQuery
