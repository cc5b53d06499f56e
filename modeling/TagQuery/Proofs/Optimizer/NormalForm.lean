import TagQuery.Optimizer
import TagQuery.Proofs.Optimizer.Weight

/-!
# Normal forms

The optimizer ends without any limit of steps, since every step makes the tree smaller. It ends on a
tree that no pass rewrites at any node, and so the nodes of this tree have nothing to simplify.

## Main definitions

- `Optimizer.Rewrites`: one tree leads to another in a number of steps.
- `Expr.Tidy`: a node without anything to simplify.

## Main statements

- `Optimizer.wellFounded_step?`: there is no infinite sequence of steps.
- `Expr.tidy_of_forall_irreducible`: what no pass rewrites is constant, or tidy at all nodes.
- `Optimizer.optimize_reaches_normalForm`: the optimizer ends on such a tree, and keeps it.
-/

namespace TagQuery

namespace Expr

/-! ## Nodes -/

theorem nodesAll_eq_flatMap (es : List Expr) : nodesAll es = es.flatMap nodes := by
  induction es with
  | nil => rfl
  | cons e es ih => simp [nodesAll, ih]

@[simp] theorem nodes_conjunction (parts : List Expr) :
    nodes (.conjunction parts) = .conjunction parts :: parts.flatMap nodes :=
  congrArg (_ :: ·) (nodesAll_eq_flatMap parts)

@[simp] theorem nodes_disjunction (parts : List Expr) :
    nodes (.disjunction parts) = .disjunction parts :: parts.flatMap nodes :=
  congrArg (_ :: ·) (nodesAll_eq_flatMap parts)

@[simp] theorem nodes_negation (e : Expr) : nodes (.negation e) = .negation e :: e.nodes := rfl

theorem nodes_of_isLeaf {e : Expr} (h : e.isLeaf = true) : e.nodes = [e] := by
  cases e <;> first | rfl | simp [isLeaf] at h

theorem transformNode_eq_none {f : Expr → Option Expr} {node : Expr} {rebuilt : Option Expr} :
    transformNode f node rebuilt = none ↔ rebuilt = none ∧ f node = none := by
  cases rebuilt <;> simp [transformNode]

/-- A visit changes nothing exactly when there is nothing to do at any node. -/
theorem transformUp_eq_none {f : Expr → Option Expr} {e : Expr} :
    transformUp f e = none ↔ ∀ node ∈ e.nodes, f node = none := by
  have hgroup {parts : List Expr}
      (ih : ∀ e ∈ parts, (transformUp f e = none ↔ ∀ node ∈ e.nodes, f node = none)) :
      transformAll f parts = none ↔ ∀ node ∈ parts.flatMap nodes, f node = none := by
    rw [transformAll_eq_none, List.forall_mem_flatMap]
    exact forall₂_congr ih
  induction e using treeInduction with
  | leaf e he =>
    simp [transformUp_of_isLeaf f he, nodes_of_isLeaf he]
  | conjunction parts ih =>
    rw [transformUp_conjunction, transformNode_eq_none, Option.map_eq_none_iff, hgroup ih,
      nodes_conjunction, List.forall_mem_cons, and_comm]
  | disjunction parts ih =>
    rw [transformUp_disjunction, transformNode_eq_none, Option.map_eq_none_iff, hgroup ih,
      nodes_disjunction, List.forall_mem_cons, and_comm]
  | negation e ih =>
    rw [transformUp_negation, transformNode_eq_none, Option.map_eq_none_iff, nodes_negation,
      List.forall_mem_cons, and_comm]
    exact and_congr_right fun _ => ih

end Expr

/-! ## Steps -/

namespace Optimizer

/-- One tree leads to another in a number of steps. -/
inductive Rewrites (passes : List Pass) : Nat → Expr → Expr → Prop where
  | refl (e : Expr) : Rewrites passes 0 e e
  | step {n : Nat} {e next last : Expr} (h : step? passes e = some next)
      (rest : Rewrites passes n next last) : Rewrites passes (n + 1) e last

section
variable {passes : List Pass} (hpasses : ∀ p ∈ passes, Pass.Shrinks p.transform)
include hpasses

theorem bound_lt_of_step? {e next : Expr} (h : step? passes e = some next) :
    next.bound < e.bound := by
  obtain ⟨p, hp, hnext⟩ := List.exists_of_findSome?_eq_some h
  exact Expr.bound_lt_of_transformUp (hpasses p hp) (Option.filter_eq_some_iff.1 hnext).1

/-- Steps end when no pass changes a tree: a tree that was changed does not equal the one before. -/
theorem step?_eq_none {e : Expr} :
    step? passes e = none ↔ ∀ p ∈ passes, e.transformUp p.transform = none := by
  rw [step?, List.findSome?_eq_none_iff]
  refine forall₂_congr fun p hp => ⟨fun h => ?_, fun h => by rw [h]; rfl⟩
  cases hnext : e.transformUp p.transform with
  | none => rfl
  | some next =>
    -- what a pass makes is smaller, but equal trees are of one size
    have hlt := Expr.bound_lt_of_transformUp (hpasses p hp) hnext
    have hsame : next.same e = true := by simpa [hnext] using h
    exact absurd (Expr.bound_eq_of_same hsame) hlt.ne

/-- There is no infinite sequence of steps. -/
theorem wellFounded_step? : WellFounded fun next e => step? passes e = some next :=
  Subrelation.wf (bound_lt_of_step? hpasses) (InvImage.wf Expr.bound wellFounded_lt)

theorem exists_rewrites (e : Expr) :
    ∃ n last, Rewrites passes n e last ∧ step? passes last = none := by
  induction e using (wellFounded_step? hpasses).induction with
  | _ e ih =>
    cases hstep : step? passes e with
    | none => exact ⟨0, e, .refl e, hstep⟩
    | some next =>
      obtain ⟨n, last, hrest, hlast⟩ := ih next hstep
      exact ⟨n + 1, last, .step hstep hrest, hlast⟩

end

/-- With fuel for all steps, a run ends where the steps end. -/
theorem run_eq_of_rewrites {passes : List Pass} {n fuel : Nat} {e last : Expr}
    (h : Rewrites passes n e last) (hlast : step? passes last = none) (hfuel : n ≤ fuel) :
    run passes fuel e = last := by
  induction h generalizing fuel with
  | refl e =>
    cases fuel with
    | zero => rfl
    | succ fuel => rw [run, hlast]
  | step hstep _ ih =>
    obtain ⟨fuel, rfl⟩ : ∃ m, fuel = m + 1 := ⟨fuel - 1, by omega⟩
    rw [run, hstep]
    exact ih hlast (by omega)

end Optimizer

/-! ## Tidy nodes -/

open Pass (TagKind ofTags tagsOf? tagsOf?_eq_some)

namespace Expr

/-- A node without anything to simplify. -/
structure Tidy (node : Expr) : Prop where
  not_constant : node ≠ .always ∧ node ≠ .never
  not_noTags (kind : TagKind) : node ≠ ofTags kind ∅
  not_single (e : Expr) : node ≠ .conjunction [e] ∧ node ≠ .disjunction [e]
  not_nested_conjunction {parts : List Expr} (h : node = .conjunction parts) (ps : List Expr) :
    .conjunction ps ∉ parts
  not_nested_disjunction {parts : List Expr} (h : node = .disjunction parts) (ps : List Expr) :
    .disjunction ps ∉ parts
  not_double_negation (e : Expr) : node ≠ .negation (.negation e)
  not_negated_disjunction (parts : List Expr) : node ≠ .negation (.disjunction parts)
  /-- Parts without samples do not repeat an earlier part. -/
  distinct {parts : List Expr} (h : node = .conjunction parts ∨ node = .disjunction parts) :
    parts.Pairwise fun a b => b.hasSample = false → a.same b = false
  /-- No two parts of a disjunction are sets of tags of one kind. -/
  merged {parts : List Expr} (h : node = .disjunction parts) :
    parts.Pairwise fun a b => ∀ kind s t, a = ofTags kind s → b ≠ ofTags kind t

end Expr

namespace Pass

theorem splice_eq_none {inner? : Expr → Option (List Expr)} {parts : List Expr} :
    splice inner? parts = none ↔ ∀ e ∈ parts, inner? e = none := by
  simp [splice]

/-- Where nothing repeats, every part without samples differs from those before it. -/
theorem pairwise_of_length_foldl_addDistinct {es kept : List Expr}
    (hkept : kept.Pairwise fun a b => b.hasSample = false → a.same b = false)
    (h : (es.foldl addDistinct kept).length = kept.length + es.length) :
    (kept ++ es).Pairwise fun a b => b.hasSample = false → a.same b = false := by
  induction es generalizing kept with
  | nil => rwa [List.append_nil]
  | cons e es ih =>
    have hle (kept : List Expr) : (es.foldl addDistinct kept).length ≤ kept.length + es.length := by
      obtain ⟨added, hsub, heq⟩ := foldl_addDistinct_sublist es kept
      rw [heq, List.length_append]
      exact Nat.add_le_add_left hsub.length_le _
    rw [List.foldl_cons, List.length_cons, addDistinct] at h
    split at h
    · have := hle kept
      omega
    · next hnew =>
      have hnext : (kept ++ [e]).Pairwise fun a b => b.hasSample = false → a.same b = false := by
        refine List.pairwise_append.2 ⟨hkept, List.pairwise_singleton _ _, fun a ha b hb hs => ?_⟩
        rw [List.mem_singleton.1 hb] at hs ⊢
        simp only [Bool.and_eq_true, Bool.not_eq_true', not_and, hs, true_implies, isAmong_iff,
          not_exists] at hnew
        exact Bool.not_eq_true _ ▸ hnew a ha
      have hrest := ih hnext (by rw [h, List.length_append, List.length_singleton]; omega)
      rwa [List.append_assoc] at hrest

theorem distinct_of_dedupe_eq_none {parts : List Expr} (h : dedupe parts = none) :
    parts.Pairwise fun a b => b.hasSample = false → a.same b = false := by
  simp only [dedupe, ite_eq_left_iff, reduceCtorEq, imp_false, Decidable.not_not] at h
  exact pairwise_of_length_foldl_addDistinct .nil (by simpa using h)

theorem length_mergeFrom_le (pick : Expr → Option (TagKind × TagSet)) (whole : TagKind → Expr)
    (seen : List TagKind) (parts : List Expr) :
    (mergeFrom pick whole seen parts).length ≤ parts.length := by
  induction parts generalizing seen with
  | nil => exact Nat.le_refl 0
  | cons e es ih =>
    rw [mergeFrom]
    split
    · exact Nat.succ_le_succ (ih seen)
    · split
      · exact (ih seen).trans (Nat.le_succ _)
      · exact Nat.succ_le_succ (ih _)

/-- Where nothing is merged, no two parts are sets of one kind. -/
theorem pairwise_of_length_mergeFrom {pick : Expr → Option (TagKind × TagSet)}
    {whole : TagKind → Expr} {seen : List TagKind} {parts : List Expr}
    (h : (mergeFrom pick whole seen parts).length = parts.length) :
    (∀ e ∈ parts, ∀ kind s, pick e = some (kind, s) → kind ∉ seen) ∧
      parts.Pairwise fun a b => ∀ kind s t, pick a = some (kind, s) → pick b ≠ some (kind, t) := by
  induction parts generalizing seen with
  | nil => simp
  | cons e es ih =>
    rw [mergeFrom, List.length_cons] at h
    split at h
    · next hnone =>
      obtain ⟨hunseen, hpairs⟩ := ih (Nat.succ.inj h)
      exact ⟨List.forall_mem_cons.2 ⟨by simp [hnone], hunseen⟩,
        List.pairwise_cons.2 ⟨by simp [hnone], hpairs⟩⟩
    · next kind tags hsome =>
      split at h
      · have hle := length_mergeFrom_le pick whole seen es
        omega
      · next hkind =>
        obtain ⟨hunseen, hpairs⟩ := ih (Nat.succ.inj h)
        refine ⟨List.forall_mem_cons.2 ⟨?_, fun x hx k s hpick hk =>
          hunseen x hx k s hpick (List.mem_cons_of_mem _ hk)⟩,
          List.pairwise_cons.2 ⟨?_, hpairs⟩⟩
        · rintro k s hpick
          obtain rfl := (Prod.mk.inj (Option.some.inj (hsome.symm.trans hpick))).1
          exact hkind
        · rintro x hx k s t hpick hx'
          obtain rfl := (Prod.mk.inj (Option.some.inj (hsome.symm.trans hpick))).1
          exact hunseen x hx kind t hx' List.mem_cons_self

theorem merged_of_merge_eq_none {wrap : TagKind → TagSet → Expr} {parts : List Expr}
    (h : merge tagsOf? wrap parts = none) :
    parts.Pairwise fun a b => ∀ kind s t, a = ofTags kind s → b ≠ ofTags kind t := by
  simp only [merge, ite_eq_left_iff, reduceCtorEq, imp_false, Decidable.not_not] at h
  simpa only [tagsOf?_eq_some, ne_eq] using (pairwise_of_length_mergeFrom h).2

end Pass

namespace Expr

/-! ## Irreducible nodes -/

/-- No pass does anything at a node. -/
def Irreducible (node : Expr) : Prop := ∀ p ∈ Pass.all, p.transform node = none

theorem irreducible_iff {node : Expr} : node.Irreducible ↔
    Pass.eliminateUnits node = none ∧ Pass.flattenNested node = none ∧
      Pass.eliminateDegenerate node = none ∧ Pass.removeDuplicates node = none ∧
      Pass.deMorgan node = none ∧ Pass.combineTagSets node = none ∧
      Pass.reduceTagSets node = none := by
  simp [Irreducible, Pass.all]

/-- No part of an irreducible group is a constant. -/
theorem not_constant_of_mem {node : Expr} (h : node.Irreducible) {parts : List Expr}
    (hnode : node = .conjunction parts ∨ node = .disjunction parts) {e : Expr} (he : e ∈ parts) :
    e ≠ .always ∧ e ≠ .never := by
  have hunits := (irreducible_iff.1 h).1
  have hconstants : parts.any isAlways = false ∧ parts.any isNever = false := by
    rcases hnode with rfl | rfl
    · simp only [Pass.eliminateUnits, Pass.unitsOfConjunction, ite_eq_iff, reduceCtorEq, and_false,
        false_or, and_true, Bool.not_eq_true] at hunits
      exact ⟨hunits.2, hunits.1⟩
    · simpa only [Pass.eliminateUnits, Pass.unitsOfDisjunction, ite_eq_iff, reduceCtorEq, and_false,
        false_or, and_true, Bool.not_eq_true] using hunits
  rw [List.any_eq_false, List.any_eq_false] at hconstants
  exact ⟨fun halways => hconstants.1 e he (halways ▸ rfl),
    fun hnever => hconstants.2 e he (hnever ▸ rfl)⟩

/-- Constants stand in no irreducible tree but as the tree. -/
theorem constant_or_forall_not_constant {e : Expr} (h : ∀ node ∈ e.nodes, node.Irreducible) :
    e = .always ∨ e = .never ∨ ∀ node ∈ e.nodes, node ≠ .always ∧ node ≠ .never := by
  have hgroup {group : Expr} {parts : List Expr} (hgroup : group.Irreducible)
      (hparts : group = .conjunction parts ∨ group = .disjunction parts)
      (ih : ∀ x ∈ parts, (∀ node ∈ x.nodes, node.Irreducible) →
        x = .always ∨ x = .never ∨ ∀ node ∈ x.nodes, node ≠ .always ∧ node ≠ .never)
      (hnodes : ∀ node ∈ parts.flatMap nodes, node.Irreducible) :
      ∀ node ∈ parts.flatMap nodes, node ≠ .always ∧ node ≠ .never := by
    refine List.forall_mem_flatMap.2 fun x hx => ?_
    have hconstant := not_constant_of_mem hgroup hparts hx
    rcases ih x hx (List.forall_mem_flatMap.1 hnodes x hx) with halways | hnever | hrest
    · exact absurd halways hconstant.1
    · exact absurd hnever hconstant.2
    · exact hrest
  induction e using treeInduction with
  | leaf e he =>
    refine .inr (.inr fun node hnode => ?_)
    rw [nodes_of_isLeaf he, List.mem_singleton] at hnode
    constructor <;> (rintro rfl; rw [← hnode] at he; contradiction)
  | conjunction parts ih =>
    rw [nodes_conjunction, List.forall_mem_cons] at h ⊢
    have hparts := hgroup h.1 (.inl rfl) ih h.2
    cases parts with
    | nil => exact .inl rfl
    | cons x xs => exact .inr (.inr ⟨by simp [always, never], hparts⟩)
  | disjunction parts ih =>
    rw [nodes_disjunction, List.forall_mem_cons] at h ⊢
    have hparts := hgroup h.1 (.inr rfl) ih h.2
    cases parts with
    | nil => exact .inr (.inl rfl)
    | cons x xs => exact .inr (.inr ⟨by simp [always, never], hparts⟩)
  | negation x ih =>
    rw [nodes_negation, List.forall_mem_cons] at h ⊢
    have hdegenerate := (irreducible_iff.1 h.1).2.2.1
    rcases ih h.2 with rfl | rfl | hnodes
    · simp [Pass.eliminateDegenerate, always] at hdegenerate
    · simp [Pass.eliminateDegenerate, never] at hdegenerate
    · exact .inr (.inr ⟨by simp [always, never], hnodes⟩)

theorem tidy_of_irreducible {node : Expr} (h : node.Irreducible)
    (hconstant : node ≠ .always ∧ node ≠ .never) : node.Tidy := by
  obtain ⟨hunits, hflatten, hdegenerate, hduplicates, hdeMorgan, hcombine, -⟩ := irreducible_iff.1 h
  constructor
  case not_constant => exact hconstant
  case not_noTags =>
    rintro kind rfl
    cases kind <;> contradiction
  case not_single =>
    intro e
    constructor <;> (rintro rfl; contradiction)
  case not_nested_conjunction =>
    rintro parts rfl ps hps
    have hnone := Pass.splice_eq_none.1 (Option.map_eq_none_iff.1 hflatten) _ hps
    contradiction
  case not_nested_disjunction =>
    rintro parts rfl ps hps
    have hnone := Pass.splice_eq_none.1 (Option.map_eq_none_iff.1 hflatten) _ hps
    contradiction
  case not_double_negation =>
    rintro e rfl
    contradiction
  case not_negated_disjunction =>
    rintro parts rfl
    cases parts <;> contradiction
  case distinct =>
    rintro parts (rfl | rfl)
    all_goals
      simp only [Pass.removeDuplicates, ite_eq_iff, reduceCtorEq, and_false, false_or,
        Option.map_eq_none_iff] at hduplicates
      exact Pass.distinct_of_dedupe_eq_none hduplicates.2
  case merged =>
    rintro parts rfl
    exact Pass.merged_of_merge_eq_none (Option.map_eq_none_iff.1 hcombine)

/-- A tree that no pass rewrites at any node is constant, or all its nodes are tidy. -/
theorem tidy_of_forall_irreducible {e : Expr} (h : ∀ node ∈ e.nodes, node.Irreducible) :
    e = .always ∨ e = .never ∨ ∀ node ∈ e.nodes, node.Tidy :=
  (constant_or_forall_not_constant h).imp_right <| Or.imp_right fun hconstant node hnode =>
    tidy_of_irreducible (h node hnode) (hconstant node hnode)

end Expr

/-! ## Normal forms -/

namespace Optimizer

/-- From every tree, finitely many steps lead to one that no pass rewrites at any node. It is
constant, or all its nodes are tidy; and with a limit that allows for these steps the optimizer ends
on it, and keeps it with any limit. -/
theorem optimize_reaches_normalForm (e : Expr) :
    ∃ n normal, Rewrites Pass.all n e normal ∧
      (∀ p ∈ Pass.all, normal.transformUp p.transform = none) ∧
      (∀ node ∈ normal.nodes, node.Irreducible) ∧
      (normal = .always ∨ normal = .never ∨ ∀ node ∈ normal.nodes, node.Tidy) ∧
      (∀ maxSteps, n ≤ maxSteps → (withLimit maxSteps).optimize e = normal) ∧
      ∀ maxSteps, (withLimit maxSteps).optimize normal = normal := by
  have hshrinks : ∀ p ∈ Pass.all, Pass.Shrinks p.transform := fun _ => Pass.shrinks_of_mem_all
  obtain ⟨n, normal, hrewrites, hlast⟩ := exists_rewrites hshrinks e
  have hvisits := (step?_eq_none hshrinks).1 hlast
  have hnodes : ∀ node ∈ normal.nodes, node.Irreducible := fun node hnode p hp =>
    Expr.transformUp_eq_none.1 (hvisits p hp) node hnode
  refine ⟨n, normal, hrewrites, hvisits, hnodes, Expr.tidy_of_forall_irreducible hnodes, ?_, ?_⟩
  · intro maxSteps hn
    exact run_eq_of_rewrites hrewrites hlast (hn.trans (Nat.le_max_right 1 maxSteps))
  · exact fun maxSteps => run_eq_of_rewrites (.refl normal) hlast (Nat.zero_le _)

end Optimizer
end TagQuery
