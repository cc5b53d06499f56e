import Mathlib.Algebra.Order.BigOperators.Group.List
import Mathlib.Algebra.Order.Monoid.Prod
import Mathlib.Algebra.Order.Ring.Nat
import TagQuery.Proofs.Optimizer.Pass

/-!
# Passes make expressions smaller

Every pass makes a node smaller in one order on trees: by their weights, and among trees of one
weight by the number of tags in their leaves. A negation weighs the square of what it negates, and
so to negate the parts of a group one by one weighs less than to negate the group. The weights are
monotone in the parts of a node, and so a visit makes a tree smaller that changes any of its nodes.

## Main definitions

- `Expr.bound`: the weight of a tree and the number of its tags, in lexicographic order.
- `Pass.Shrinks`: what a pass makes of a node is smaller.

## Main statements

- `Pass.shrinks_of_mem_all`: every pass shrinks nodes.
- `Expr.bound_lt_of_transformUp`: a visit that changes a node makes the tree smaller.
-/

namespace TagQuery

namespace Expr

/-! ## Weights -/

mutual
def weight : Expr → Nat
  | .conjunction parts => 2 + weightAll parts
  | .disjunction parts => 2 + weightAll parts
  | .negation part => part.weight ^ 2
  | _ => 3
termination_by structural e => e

def weightAll : List Expr → Nat
  | [] => 0
  | e :: es => e.weight + weightAll es
termination_by structural es => es
end

theorem weightAll_eq_sum (es : List Expr) : weightAll es = (es.map weight).sum := by
  induction es with
  | nil => rfl
  | cons e es ih => simp [weightAll, ih]

@[simp] theorem weight_conjunction (parts : List Expr) :
    weight (.conjunction parts) = 2 + (parts.map weight).sum :=
  congrArg (2 + ·) (weightAll_eq_sum parts)

@[simp] theorem weight_disjunction (parts : List Expr) :
    weight (.disjunction parts) = 2 + (parts.map weight).sum :=
  congrArg (2 + ·) (weightAll_eq_sum parts)

@[simp] theorem weight_negation (e : Expr) : weight (.negation e) = e.weight ^ 2 := rfl

theorem weight_of_isLeaf {e : Expr} (h : e.isLeaf = true) : e.weight = 3 := by
  cases e <;> first | rfl | simp [isLeaf] at h

theorem two_le_weight (e : Expr) : 2 ≤ e.weight := by
  induction e using treeInduction with
  | leaf e he => simp [weight_of_isLeaf he]
  | conjunction parts _ => simp
  | disjunction parts _ => simp
  | negation e ih =>
    rw [weight_negation]
    exact ih.trans (Nat.le_self_pow two_ne_zero _)

def leafTags : Expr → Nat
  | .tag tags => tags.size
  | .rejectedTag tags => tags.size
  | _ => 0

def tagMass (e : Expr) : Nat := (e.leaves.map leafTags).sum

theorem sum_leafTags_flatMap (parts : List Expr) :
    ((parts.flatMap leaves).map leafTags).sum = (parts.map tagMass).sum := by
  induction parts with
  | nil => rfl
  | cons e es ih => simp [tagMass, ih]

@[simp] theorem tagMass_negation (e : Expr) : tagMass (.negation e) = e.tagMass := rfl

def bound (e : Expr) : ℕ ×ₗ ℕ := toLex (e.weight, e.tagMass)

theorem bound_lt_of_weight_lt {a b : Expr} (h : a.weight < b.weight) : a.bound < b.bound :=
  Prod.Lex.toLex_lt_toLex.2 (.inl h)

theorem sum_bound (parts : List Expr) :
    (parts.map bound).sum = toLex ((parts.map weight).sum, (parts.map tagMass).sum) := by
  induction parts with
  | nil => rfl
  | cons e es ih =>
    rw [List.map_cons, List.sum_cons, ih]
    rfl

theorem bound_conjunction (parts : List Expr) :
    bound (.conjunction parts) = toLex (2, 0) + (parts.map bound).sum := by
  rw [bound, tagMass, leaves_conjunction, sum_leafTags_flatMap, weight_conjunction, sum_bound,
    ← toLex_add, Prod.mk_add_mk, Nat.zero_add]

theorem bound_disjunction (parts : List Expr) :
    bound (.disjunction parts) = toLex (2, 0) + (parts.map bound).sum := by
  rw [bound, tagMass, leaves_disjunction, sum_leafTags_flatMap, weight_disjunction, sum_bound,
    ← toLex_add, Prod.mk_add_mk, Nat.zero_add]

theorem bound_negation_lt {a b : Expr} (h : a.bound < b.bound) :
    (negation a).bound < (negation b).bound := by
  rcases Prod.Lex.toLex_lt_toLex.1 h with hlt | ⟨heq, hlt⟩
  · exact bound_lt_of_weight_lt (Nat.pow_lt_pow_left hlt two_ne_zero)
  · exact Prod.Lex.toLex_lt_toLex.2 (.inr ⟨congrArg (· ^ 2) heq, hlt⟩)

/-- Equal trees are of one size. -/
theorem bound_eq_of_same {a b : Expr} (h : a.same b = true) : a.bound = b.bound := by
  induction a using treeInduction generalizing b with
  | leaf a ha => cases a <;> cases b <;> simp_all [isLeaf, same, bound, weight, tagMass, leaves,
      leafTags]
  | conjunction as ih =>
    cases b with
    | conjunction bs =>
      have hparts : sameAll as bs = true := h
      rw [bound_conjunction, bound_conjunction, map_eq_of_sameAll hparts fun a ha b => ih a ha]
    | _ => simp [same] at h
  | disjunction as ih =>
    cases b with
    | disjunction bs =>
      have hparts : sameAll as bs = true := h
      rw [bound_disjunction, bound_disjunction, map_eq_of_sameAll hparts fun a ha b => ih a ha]
    | _ => simp [same] at h
  | negation a ih =>
    cases b with
    | negation b =>
      have hbound := Prod.mk.inj (toLex.injective (ih h))
      rw [bound, bound, weight_negation, weight_negation, tagMass_negation, tagMass_negation,
        hbound.1, hbound.2]
    | _ => simp [same] at h

/-! ## Fewer parts -/

/-- To leave out positive numbers makes a sum smaller. -/
theorem sum_lt_of_sublist {l₁ l₂ : List Nat} (h : l₁.Sublist l₂) (hpos : ∀ n ∈ l₂, 0 < n)
    (hlength : l₁.length ≠ l₂.length) : l₁.sum < l₂.sum := by
  induction h with
  | slnil => contradiction
  | @cons l₁ l₂ n hsub _ =>
    have hle : l₁.sum ≤ l₂.sum := hsub.sum_le_sum fun _ _ => Nat.zero_le _
    have hn := hpos n List.mem_cons_self
    rw [List.sum_cons]
    omega
  | cons_cons n _ ih =>
    simp only [List.length_cons, ne_eq, Nat.add_right_cancel_iff] at hlength
    have hlt := ih (fun m hm => hpos m (List.mem_cons_of_mem _ hm)) hlength
    rw [List.sum_cons, List.sum_cons]
    omega

theorem weight_pos_of_mem {es : List Expr} {n : Nat} (h : n ∈ es.map weight) : 0 < n := by
  obtain ⟨e, -, rfl⟩ := List.mem_map.1 h
  exact Nat.zero_lt_of_lt (two_le_weight e)

theorem sum_weight_lt_of_sublist {ps qs : List Expr} (h : ps.Sublist qs)
    (hlength : ps.length ≠ qs.length) : (ps.map weight).sum < (qs.map weight).sum :=
  sum_lt_of_sublist (h.map weight) (fun _ => weight_pos_of_mem) (by simpa using hlength)

theorem weight_le_sum {es : List Expr} {e : Expr} (h : e ∈ es) :
    e.weight ≤ (es.map weight).sum :=
  List.single_le_sum (fun _ _ => Nat.zero_le _) _ (List.mem_map_of_mem h)

end Expr

/-! ## Passes -/

namespace Pass

open TagQuery.Expr

def Shrinks (f : Expr → Option Expr) : Prop :=
  ∀ ⦃e e'⦄, f e = some e' → e'.bound < e.bound

/-! ### Constants -/

theorem weight_never_lt {e : Expr} {parts : List Expr} (h : e ∈ parts) :
    never.weight < 2 + (parts.map weight).sum := by
  have hle := weight_le_sum h
  have hpos := two_le_weight e
  have hnever : never.weight = 2 := rfl
  omega

theorem sum_weight_filter_lt {parts : List Expr} {p : Expr → Bool} {e : Expr} (h : e ∈ parts)
    (hp : p e = false) : ((parts.filter p).map weight).sum < (parts.map weight).sum := by
  refine sum_weight_lt_of_sublist List.filter_sublist fun hlength => ?_
  rw [List.length_filter_eq_length_iff] at hlength
  simpa [hp] using hlength e h

theorem shrinks_eliminateUnits : Shrinks eliminateUnits := by
  intro e e' h
  apply bound_lt_of_weight_lt
  cases e with
  | tag tags =>
    simp only [eliminateUnits, Option.ite_none_right_eq_some, Option.some.injEq] at h
    rw [← h.2]
    exact Nat.lt_succ_self 2
  | rejectedTag tags =>
    simp only [eliminateUnits, Option.ite_none_right_eq_some, Option.some.injEq] at h
    rw [← h.2]
    exact Nat.lt_succ_self 2
  | sample p =>
    simp only [eliminateUnits] at h
    split at h
    · rw [← Option.some.inj h]
      exact Nat.lt_succ_self 2
    · simp only [Option.ite_none_right_eq_some, Option.some.injEq] at h
      rw [← h.2]
      exact Nat.lt_succ_self 2
  | conjunction parts =>
    simp only [eliminateUnits, unitsOfConjunction] at h
    split at h
    · next hany =>
      obtain ⟨x, hx, -⟩ := List.any_eq_true.1 hany
      rw [← Option.some.inj h, weight_conjunction]
      exact weight_never_lt hx
    · simp only [Option.ite_none_right_eq_some, Option.some.injEq] at h
      obtain ⟨x, hx, halways⟩ := List.any_eq_true.1 h.1
      rw [← h.2, weight_conjunction, weight_conjunction]
      exact Nat.add_lt_add_left (sum_weight_filter_lt hx (by simp [halways])) 2
  | disjunction parts =>
    simp only [eliminateUnits, unitsOfDisjunction] at h
    split at h
    · next hany =>
      obtain ⟨x, hx, -⟩ := List.any_eq_true.1 hany
      rw [← Option.some.inj h, weight_disjunction]
      exact weight_never_lt hx
    · simp only [Option.ite_none_right_eq_some, Option.some.injEq] at h
      obtain ⟨x, hx, hnever⟩ := List.any_eq_true.1 h.1
      rw [← h.2, weight_disjunction, weight_disjunction]
      exact Nat.add_lt_add_left (sum_weight_filter_lt hx (by simp [hnever])) 2
  | _ => simp [eliminateUnits] at h

/-! ### Groups -/

/-- A group inside a group weighs more than its parts. -/
theorem sum_weight_splice_lt {inner? : Expr → Option (List Expr)}
    (hinner : ∀ {e ps}, inner? e = some ps → e.weight = 2 + (ps.map weight).sum)
    {parts spliced : List Expr} (h : splice inner? parts = some spliced) :
    (spliced.map weight).sum < (parts.map weight).sum := by
  have hpart (e : Expr) : (((inner? e).getD [e]).map weight).sum ≤ e.weight := by
    cases hps : inner? e with
    | none => simp
    | some ps => simp [hinner hps]
  simp only [splice, Option.ite_none_right_eq_some, Option.some.injEq, List.any_eq_true,
    Option.isSome_iff_exists] at h
  obtain ⟨⟨e, he, ps, hps⟩, rfl⟩ := h
  rw [List.map_flatMap, List.flatMap, List.sum_flatten, List.map_map]
  refine List.sum_lt_sum _ _ (fun e _ => hpart e) ⟨e, he, ?_⟩
  simp [hps, hinner hps]

theorem shrinks_flattenNested : Shrinks flattenNested := by
  intro e e' h
  apply bound_lt_of_weight_lt
  cases e with
  | conjunction parts =>
    obtain ⟨ps, hps, rfl⟩ := Option.map_eq_some_iff.1 h
    rw [weight_conjunction, weight_conjunction]
    refine Nat.add_lt_add_left (sum_weight_splice_lt (fun hinner => ?_) hps) 2
    rw [eq_of_conjunctionParts?_eq_some hinner, weight_conjunction]
  | disjunction parts =>
    obtain ⟨ps, hps, rfl⟩ := Option.map_eq_some_iff.1 h
    rw [weight_disjunction, weight_disjunction]
    refine Nat.add_lt_add_left (sum_weight_splice_lt (fun hinner => ?_) hps) 2
    rw [eq_of_disjunctionParts?_eq_some hinner, weight_disjunction]
  | _ => simp [flattenNested] at h

theorem shrinks_eliminateDegenerate : Shrinks eliminateDegenerate := by
  intro e e' h
  apply bound_lt_of_weight_lt
  unfold eliminateDegenerate at h
  split at h <;> try contradiction
  all_goals rw [← Option.some.inj h]
  · next x =>
    have hx := two_le_weight x
    have hsquare : x.weight < x.weight ^ 2 := lt_self_pow₀ hx (by omega)
    rw [weight_negation, weight_negation]
    exact hsquare.trans_le (Nat.le_self_pow two_ne_zero _)
  · decide
  · decide
  · simp
  · simp

/-! ### Repetition -/

theorem sum_weight_dedupe_lt {parts ps : List Expr} (h : dedupe parts = some ps) :
    (ps.map weight).sum < (parts.map weight).sum :=
  sum_weight_lt_of_sublist (sublist_of_dedupe h).1 (sublist_of_dedupe h).2

theorem shrinks_removeDuplicates : Shrinks removeDuplicates := by
  intro e e' h
  apply bound_lt_of_weight_lt
  cases e with
  | conjunction parts =>
    rw [weight_conjunction]
    simp only [removeDuplicates] at h
    split at h
    · next hc =>
      obtain ⟨x, hx, -⟩ := List.any_eq_true.1 hc
      rw [← Option.some.inj h]
      exact weight_never_lt hx
    · obtain ⟨ps, hps, rfl⟩ := Option.map_eq_some_iff.1 h
      rw [weight_conjunction]
      exact Nat.add_lt_add_left (sum_weight_dedupe_lt hps) 2
  | disjunction parts =>
    rw [weight_disjunction]
    simp only [removeDuplicates] at h
    split at h
    · next hc =>
      obtain ⟨x, hx, -⟩ := List.any_eq_true.1 hc
      rw [← Option.some.inj h]
      exact weight_never_lt hx
    · obtain ⟨ps, hps, rfl⟩ := Option.map_eq_some_iff.1 h
      rw [weight_disjunction]
      exact Nat.add_lt_add_left (sum_weight_dedupe_lt hps) 2
  | _ => simp [removeDuplicates] at h

/-! ### Negation -/

/-- To negate the parts one by one weighs less than to negate the group. -/
theorem sum_weight_negation_lt (es : List Expr) :
    2 + ((es.map negation).map weight).sum < (2 + (es.map weight).sum) ^ 2 := by
  have hsquares : ((es.map negation).map weight).sum ≤ (es.map weight).sum ^ 2 := by
    induction es with
    | nil => exact Nat.zero_le _
    | cons e es ih =>
      simp only [List.map_cons, List.sum_cons, weight_negation]
      rw [add_sq]
      exact Nat.add_le_add (Nat.le_add_right _ _) ih
  rw [add_sq]
  omega

theorem sum_weight_le_negation (es : List Expr) :
    (es.map weight).sum ≤ ((es.map negation).map weight).sum := by
  rw [List.map_map]
  exact List.sum_le_sum fun e _ => Nat.le_self_pow two_ne_zero _

theorem shrinks_deMorgan : Shrinks deMorgan := by
  intro e e' h
  apply bound_lt_of_weight_lt
  unfold deMorgan at h
  split at h
  · next x es =>
    rw [← Option.some.inj h, weight_conjunction, weight_negation, weight_disjunction]
    exact sum_weight_negation_lt (x :: es)
  · next x es =>
    simp only [Option.ite_none_right_eq_some, Option.some.injEq] at h
    have hparts := eq_map_negation h.1
    generalize (x :: es).filterMap negated? = xs at h hparts
    rw [← h.2, hparts, weight_disjunction, weight_negation, weight_conjunction]
    -- the parts lose their squares, and so does the group
    calc 2 + (xs.map weight).sum
        ≤ 2 + ((xs.map negation).map weight).sum := Nat.add_le_add_left (sum_weight_le_negation xs) 2
      _ < (2 + ((xs.map negation).map weight).sum) ^ 2 := lt_self_pow₀ (by omega) one_lt_two
  · contradiction

/-! ### Sets of tags -/

theorem weight_ofTags (kind : TagKind) (tags : TagSet) : (ofTags kind tags).weight = 3 := by
  cases kind <;> rfl

theorem weight_ofNegatedTags (kind : TagKind) (tags : TagSet) :
    (ofNegatedTags kind tags).weight = 3 ^ 2 := by
  rw [ofNegatedTags, weight_negation, weight_ofTags]

theorem tagMass_ofTags (kind : TagKind) (tags : TagSet) :
    (ofTags kind tags).tagMass = tags.size := by
  cases kind <;> rfl

/-- What is left after merging weighs what it weighed before. -/
theorem weights_mergeFrom_sublist {pick : Expr → Option (TagKind × TagSet)}
    {whole : TagKind → Expr} {n : Nat} (hwhole : ∀ kind, (whole kind).weight = n)
    (hpick : ∀ {e kind tags}, pick e = some (kind, tags) → e.weight = n) (seen : List TagKind)
    (parts : List Expr) :
    ((mergeFrom pick whole seen parts).map weight).Sublist (parts.map weight) := by
  induction parts generalizing seen with
  | nil => exact List.Sublist.slnil
  | cons e es ih =>
    rw [mergeFrom, List.map_cons]
    split
    · exact (ih seen).cons_cons _
    · next kind tags hsome =>
      split
      · exact (ih seen).cons _
      · rw [List.map_cons, hwhole, hpick hsome]
        exact (ih _).cons_cons _

theorem sum_weight_merge_lt {pick : Expr → Option (TagKind × TagSet)}
    {wrap : TagKind → TagSet → Expr} {n : Nat} (hwrap : ∀ kind tags, (wrap kind tags).weight = n)
    (hpick : ∀ {e kind tags}, pick e = some (kind, tags) → e = wrap kind tags)
    {parts merged : List Expr} (h : merge pick wrap parts = some merged) :
    (merged.map weight).sum < (parts.map weight).sum := by
  simp only [merge, Option.ite_none_left_eq_some, Option.some.injEq] at h
  obtain ⟨hlength, rfl⟩ := h
  refine sum_lt_of_sublist (weights_mergeFrom_sublist (fun _ => hwrap _ _) ?_ [] parts)
    (fun _ => weight_pos_of_mem) (by simpa using hlength)
  intro e kind tags hsome
  rw [hpick hsome, hwrap]

theorem shrinks_combineTagSets : Shrinks combineTagSets := by
  intro e e' h
  apply bound_lt_of_weight_lt
  cases e with
  | conjunction parts =>
    obtain ⟨merged, hmerge, rfl⟩ := Option.map_eq_some_iff.1 h
    rw [weight_conjunction, weight_conjunction]
    exact Nat.add_lt_add_left
      (sum_weight_merge_lt weight_ofNegatedTags negatedTagsOf?_eq_some.1 hmerge) 2
  | disjunction parts =>
    obtain ⟨merged, hmerge, rfl⟩ := Option.map_eq_some_iff.1 h
    rw [weight_disjunction, weight_disjunction]
    exact Nat.add_lt_add_left (sum_weight_merge_lt weight_ofTags tagsOf?_eq_some.1 hmerge) 2
  | _ => simp [combineTagSets] at h

/-! ### Decided tags -/

theorem size_diff_lt {tags decided : TagSet} (h : tags.isDisjoint decided = false) :
    (tags.diff decided).size < tags.size := by
  obtain ⟨t, ht, htd⟩ := List.all_eq_false.1 h
  exact List.length_filter_lt_length_iff_exists.2 ⟨t, ht, htd⟩

/-- Fewer tags at the same weight make a leaf smaller, and a negated one. -/
theorem bound_ofTags_lt (kind : TagKind) {s t : TagSet} (h : s.size < t.size) :
    (ofTags kind s).bound < (ofTags kind t).bound := by
  refine Prod.Lex.toLex_lt_toLex.2 (.inr ⟨?_, ?_⟩)
  · exact (weight_ofTags kind s).trans (weight_ofTags kind t).symm
  · simpa only [tagMass_ofTags] using h

theorem reducePart_of_not_isReducible {target : Expr → Option (TagKind × TagSet)}
    {decided : TagKind → TagSet} {wrap : TagKind → TagSet → Expr} {e : Expr}
    (h : ¬isReducible target decided e = true) : reducePart target decided wrap e = e := by
  unfold reducePart
  split
  · next kind tags hsome =>
    rw [if_pos (by simpa [isReducible, hsome] using h)]
  · rfl

theorem sum_bound_reduce_lt {target decider : Expr → Option (TagKind × TagSet)}
    {wrap : TagKind → TagSet → Expr}
    (hwrap : ∀ kind {s t : TagSet}, s.size < t.size → (wrap kind s).bound < (wrap kind t).bound)
    (htarget : ∀ {e kind tags}, target e = some (kind, tags) → e = wrap kind tags)
    {parts reduced : List Expr} (h : reduce target decider wrap parts = some reduced) :
    (reduced.map bound).sum < (parts.map bound).sum := by
  simp only [reduce, Option.ite_none_right_eq_some, Option.some.injEq] at h
  obtain ⟨hany, rfl⟩ := h
  -- weights stay as they are, and so the tags that are taken out decide
  generalize (fun kind => tagsAmong decider kind parts) = decided at hany
  have hlt {e : Expr} (he : isReducible target decided e = true) :
      (reducePart target decided wrap e).bound < e.bound := by
    cases hsome : target e with
    | none => simp [isReducible, hsome] at he
    | some p =>
      obtain ⟨kind, tags⟩ := p
      have hmeets : tags.isDisjoint (decided kind) = false := by
        simpa [isReducible, hsome] using he
      rw [reducePart, hsome]
      simp only [hmeets, Bool.false_eq_true, if_false]
      rw [htarget hsome]
      exact hwrap kind (size_diff_lt hmeets)
  have hle (e : Expr) : (reducePart target decided wrap e).bound ≤ e.bound := by
    by_cases he : isReducible target decided e = true
    · exact (hlt he).le
    · rw [reducePart_of_not_isReducible he]
  rw [List.map_map]
  obtain ⟨e, he, hreducible⟩ := List.any_eq_true.1 hany
  exact List.sum_lt_sum _ _ (fun e _ => hle e) ⟨e, he, hlt hreducible⟩

theorem shrinks_reduceTagSets : Shrinks reduceTagSets := by
  intro e e' h
  cases e with
  | conjunction parts =>
    obtain ⟨reduced, hreduce, rfl⟩ := Option.map_eq_some_iff.1 h
    rw [bound_conjunction, bound_conjunction]
    exact add_lt_add_right (sum_bound_reduce_lt bound_ofTags_lt tagsOf?_eq_some.1 hreduce) _
  | disjunction parts =>
    obtain ⟨reduced, hreduce, rfl⟩ := Option.map_eq_some_iff.1 h
    rw [bound_disjunction, bound_disjunction]
    exact add_lt_add_right (sum_bound_reduce_lt
      (fun kind _ _ hsize => bound_negation_lt (bound_ofTags_lt kind hsize))
      negatedTagsOf?_eq_some.1 hreduce) _
  | _ => simp [reduceTagSets] at h

/-- Every pass shrinks nodes. -/
theorem shrinks_of_mem_all {p : Pass} (h : p ∈ all) : Shrinks p.transform := by
  simp only [all, List.mem_cons, List.not_mem_nil, or_false] at h
  rcases h with rfl | rfl | rfl | rfl | rfl | rfl | rfl
  · exact shrinks_eliminateUnits
  · exact shrinks_flattenNested
  · exact shrinks_eliminateDegenerate
  · exact shrinks_removeDuplicates
  · exact shrinks_deMorgan
  · exact shrinks_combineTagSets
  · exact shrinks_reduceTagSets

end Pass

/-! ## Visits -/

namespace Expr

section
variable {f : Expr → Option Expr}

theorem sum_bound_lt_of_transformAll {es es' : List Expr}
    (ih : ∀ e ∈ es, ∀ e', transformUp f e = some e' → e'.bound < e.bound)
    (h : transformAll f es = some es') : (es'.map bound).sum < (es.map bound).sum := by
  rw [eq_map_of_transformAll h, List.map_map]
  refine List.sum_lt_sum _ _ (fun e he => ?_) ?_
  · cases hvisit : transformUp f e with
    | none => simp [visit, hvisit]
    | some e' => simpa [visit, hvisit] using (ih e he e' hvisit).le
  · -- had no part changed, there would be no new list
    by_contra hall
    suffices transformAll f es = none by simp [this] at h
    refine transformAll_eq_none.2 fun e he => ?_
    cases hvisit : transformUp f e with
    | none => rfl
    | some e' => exact absurd ⟨e, he, by simpa [visit, hvisit] using ih e he e' hvisit⟩ hall

variable (hf : Pass.Shrinks f)
include hf

/-- What is done at a node whose parts have been visited makes it smaller still. -/
theorem bound_lt_of_transformNode {node e' : Expr} {rebuilt : Option Expr}
    (hrebuilt : ∀ r, rebuilt = some r → r.bound < node.bound)
    (h : transformNode f node rebuilt = some e') : e'.bound < node.bound := by
  cases rebuilt with
  | none => exact hf h
  | some r =>
    have hr := hrebuilt r rfl
    obtain rfl := Option.some.inj h
    cases hnode : f r with
    | none => exact hr
    | some r' => exact (hf hnode).trans hr

/-- A visit that changes a node makes the tree smaller. -/
theorem bound_lt_of_transformUp {e e' : Expr} (h : transformUp f e = some e') :
    e'.bound < e.bound := by
  induction e using treeInduction generalizing e' with
  | leaf e he =>
    rw [transformUp_of_isLeaf f he] at h
    exact hf h
  | conjunction parts ih =>
    refine bound_lt_of_transformNode hf (fun r hr => ?_) h
    obtain ⟨ps, hps, rfl⟩ := Option.map_eq_some_iff.1 hr
    rw [bound_conjunction, bound_conjunction]
    exact add_lt_add_right (sum_bound_lt_of_transformAll (fun e he _ => ih e he) hps) _
  | disjunction parts ih =>
    refine bound_lt_of_transformNode hf (fun r hr => ?_) h
    obtain ⟨ps, hps, rfl⟩ := Option.map_eq_some_iff.1 hr
    rw [bound_disjunction, bound_disjunction]
    exact add_lt_add_right (sum_bound_lt_of_transformAll (fun e he _ => ih e he) hps) _
  | negation e ih =>
    refine bound_lt_of_transformNode hf (fun r hr => ?_) h
    obtain ⟨x, hx, rfl⟩ := Option.map_eq_some_iff.1 hr
    exact bound_negation_lt (ih hx)

end

end Expr
end TagQuery
