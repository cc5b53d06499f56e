import TagQuery.Optimizer.Transform

/-!
# Expressions as trees of leaves

An expression is a formula over its leaves. What it means follows from what its leaves mean, and a
transformation of its nodes is an ordinary map from the leaves up.

## Main definitions

- `Expr.leaves`: the leaves of a tree, in their order.
- `Expr.eval`: the truth value of a tree, given those of its leaves.
- `Expr.visit`: a transformation applied to every node, where nothing done leaves a node as it is.

## Main statements

- `Expr.treeInduction`: induction on trees by leaves, groups and negations.
- `Expr.eval_eq_of_same`: equal trees without samples have equal truth values.
- `Expr.transformAll_eq`: a visit of the parts of a group maps all of them, or changes none.
- `Expr.visit_conjunction`, `Expr.visit_disjunction`, `Expr.visit_negation`: a visit transforms the
  parts first and then the node.
-/

namespace TagQuery.Expr

/-! ## Induction -/

/-- Induction on trees: leaves, groups by their parts, and negations. -/
@[elab_as_elim]
theorem treeInduction {motive : Expr → Prop} (e : Expr)
    (leaf : ∀ e, e.isLeaf = true → motive e)
    (conjunction : ∀ parts, (∀ e ∈ parts, motive e) → motive (.conjunction parts))
    (disjunction : ∀ parts, (∀ e ∈ parts, motive e) → motive (.disjunction parts))
    (negation : ∀ e, motive e → motive (.negation e)) : motive e := by
  match e with
  | .conjunction parts =>
    exact conjunction parts fun x _ => treeInduction x leaf conjunction disjunction negation
  | .disjunction parts =>
    exact disjunction parts fun x _ => treeInduction x leaf conjunction disjunction negation
  | .negation x => exact negation x (treeInduction x leaf conjunction disjunction negation)
  | .typeEquals _ | .typeStart _ | .text _ | .hash _ | .fileSize _ | .copies _ | .tagCount _
  | .peopleCount _ | .ratingsCount _ | .rating _ | .stars _ | .personId _ | .personName _
  | .noPeople | .tag _ | .rejectedTag _ | .details _ _ _ | .sample _ => exact leaf _ rfl
termination_by sizeOf e
decreasing_by
  all_goals simp_wf
  all_goals have := List.sizeOf_lt_of_mem ‹_ ∈ parts›
  all_goals omega

/-! ## Leaves -/

mutual
def leaves : Expr → List Expr
  | .conjunction parts => leavesAll parts
  | .disjunction parts => leavesAll parts
  | .negation part => leaves part
  | e => [e]
termination_by structural e => e

def leavesAll : List Expr → List Expr
  | [] => []
  | e :: es => leaves e ++ leavesAll es
termination_by structural es => es
end

theorem leavesAll_eq_flatMap (es : List Expr) : leavesAll es = es.flatMap leaves := by
  induction es with
  | nil => rfl
  | cons e es ih => simp [leavesAll, ih]

@[simp] theorem leaves_conjunction (parts : List Expr) :
    leaves (.conjunction parts) = parts.flatMap leaves := leavesAll_eq_flatMap parts

@[simp] theorem leaves_disjunction (parts : List Expr) :
    leaves (.disjunction parts) = parts.flatMap leaves := leavesAll_eq_flatMap parts

@[simp] theorem leaves_negation (e : Expr) : leaves (.negation e) = leaves e := rfl

theorem leaves_of_isLeaf {e : Expr} (h : e.isLeaf = true) : leaves e = [e] := by
  cases e <;> first | rfl | simp [isLeaf] at h

theorem forall_leaves_conjunction {p : Expr → Prop} {parts : List Expr} :
    (∀ l ∈ leaves (.conjunction parts), p l) ↔ ∀ e ∈ parts, ∀ l ∈ e.leaves, p l := by
  rw [leaves_conjunction]
  exact List.forall_mem_flatMap

theorem forall_leaves_disjunction {p : Expr → Prop} {parts : List Expr} :
    (∀ l ∈ leaves (.disjunction parts), p l) ↔ ∀ e ∈ parts, ∀ l ∈ e.leaves, p l := by
  rw [leaves_disjunction]
  exact List.forall_mem_flatMap

/-! ## Truth values -/

mutual
/-- The truth value of a tree whose leaves have the truth values that `leaf` gives. -/
def eval (leaf : Expr → Bool) : Expr → Bool
  | .conjunction parts => evalAll leaf parts
  | .disjunction parts => evalAny leaf parts
  | .negation part => !eval leaf part
  | e => leaf e
termination_by structural e => e

def evalAll (leaf : Expr → Bool) : List Expr → Bool
  | [] => true
  | e :: es => eval leaf e && evalAll leaf es
termination_by structural es => es

def evalAny (leaf : Expr → Bool) : List Expr → Bool
  | [] => false
  | e :: es => eval leaf e || evalAny leaf es
termination_by structural es => es
end

section
variable (leaf : Expr → Bool)

@[simp] theorem eval_conjunction (parts : List Expr) :
    eval leaf (.conjunction parts) = parts.all (eval leaf) := by
  change evalAll leaf parts = _
  induction parts with
  | nil => rfl
  | cons e es ih => simp [evalAll, ih]

@[simp] theorem eval_disjunction (parts : List Expr) :
    eval leaf (.disjunction parts) = parts.any (eval leaf) := by
  change evalAny leaf parts = _
  induction parts with
  | nil => rfl
  | cons e es ih => simp [evalAny, ih]

@[simp] theorem eval_negation (e : Expr) : eval leaf (.negation e) = !eval leaf e := rfl

theorem eval_of_isLeaf {e : Expr} (h : e.isLeaf = true) : eval leaf e = leaf e := by
  cases e <;> first | rfl | simp [isLeaf] at h

end

/-- The truth value of a tree depends on those of its own leaves only. -/
theorem eval_congr {leaf leaf' : Expr → Bool} {e : Expr} (h : ∀ l ∈ e.leaves, leaf l = leaf' l) :
    eval leaf e = eval leaf' e := by
  induction e using treeInduction with
  | leaf e he =>
    rw [eval_of_isLeaf _ he, eval_of_isLeaf _ he]
    exact h e (leaves_of_isLeaf he ▸ List.mem_singleton_self e)
  | conjunction parts ih =>
    rw [forall_leaves_conjunction] at h
    have hparts := List.map_congr_left fun e he => ih e he (h e he)
    simpa [List.all_map] using congrArg (·.all id) hparts
  | disjunction parts ih =>
    rw [forall_leaves_disjunction] at h
    have hparts := List.map_congr_left fun e he => ih e he (h e he)
    simpa [List.any_map] using congrArg (·.any id) hparts
  | negation e ih => rw [eval_negation, eval_negation, ih h]

/-! ## Equal trees -/

theorem map_eq_of_sameAll {β : Type} {q : Expr → β} {as bs : List Expr} (h : sameAll as bs = true)
    (hq : ∀ a ∈ as, ∀ b, a.same b = true → q a = q b) : as.map q = bs.map q := by
  induction as generalizing bs with
  | nil => cases bs <;> simp_all [sameAll]
  | cons a as ih =>
    cases bs with
    | nil => simp [sameAll] at h
    | cons b bs =>
      simp only [sameAll, Bool.and_eq_true] at h
      rw [List.map_cons, List.map_cons, hq a List.mem_cons_self b h.1,
        ih h.2 fun x hx => hq x (List.mem_cons_of_mem _ hx)]

theorem anyHasSample_eq_any (es : List Expr) : anyHasSample es = es.any hasSample := by
  induction es with
  | nil => rfl
  | cons e es ih => simp [anyHasSample, ih]

@[simp] theorem hasSample_conjunction (parts : List Expr) :
    hasSample (.conjunction parts) = parts.any hasSample := anyHasSample_eq_any parts

@[simp] theorem hasSample_disjunction (parts : List Expr) :
    hasSample (.disjunction parts) = parts.any hasSample := anyHasSample_eq_any parts

@[simp] theorem hasSample_negation (e : Expr) : hasSample (.negation e) = e.hasSample := rfl

theorem hasSample_eq_of_same {a b : Expr} (h : a.same b = true) : a.hasSample = b.hasSample := by
  induction a using treeInduction generalizing b with
  | leaf a ha => cases a <;> cases b <;> simp_all [isLeaf, same, hasSample]
  | conjunction as ih =>
    cases b with
    | conjunction bs =>
      have hparts : sameAll as bs = true := h
      have hmap := map_eq_of_sameAll hparts fun a ha b => ih a ha
      simpa [List.any_map] using congrArg (·.any id) hmap
    | _ => simp [same] at h
  | disjunction as ih =>
    cases b with
    | disjunction bs =>
      have hparts : sameAll as bs = true := h
      have hmap := map_eq_of_sameAll hparts fun a ha b => ih a ha
      simpa [List.any_map] using congrArg (·.any id) hmap
    | _ => simp [same] at h
  | negation a ih =>
    cases b with
    | negation b => simpa using ih h
    | _ => simp [same] at h

/-- A tree draws samples when one of its leaves does. -/
theorem hasSample_eq_false {e : Expr} :
    e.hasSample = false ↔ ∀ x ∈ e.leaves, x.hasSample = false := by
  induction e using treeInduction with
  | leaf e he => simp [leaves_of_isLeaf he]
  | conjunction parts ih =>
    rw [hasSample_conjunction, List.any_eq_false, forall_leaves_conjunction]
    exact forall₂_congr fun e he => by rw [Bool.not_eq_true, ih e he]
  | disjunction parts ih =>
    rw [hasSample_disjunction, List.any_eq_false, forall_leaves_disjunction]
    exact forall₂_congr fun e he => by rw [Bool.not_eq_true, ih e he]
  | negation e ih => exact ih

/-- Trees without samples that are equal have the same truth value, if equal leaves do. -/
theorem eval_eq_of_same {leaf : Expr → Bool}
    (hleaf : ∀ a b, a.isLeaf = true → a.hasSample = false → a.same b = true → leaf a = leaf b)
    {a b : Expr} (hs : a.hasSample = false) (h : a.same b = true) : eval leaf a = eval leaf b := by
  induction a using treeInduction generalizing b with
  | leaf a ha =>
    rw [eval_of_isLeaf leaf ha, eval_of_isLeaf leaf (same_of_isLeaf ha h)]
    exact hleaf a b ha hs h
  | conjunction as ih =>
    cases b with
    | conjunction bs =>
      have hparts : sameAll as bs = true := h
      have hmap := map_eq_of_sameAll hparts fun a ha b => ih a ha (by simp_all)
      simpa [List.all_map] using congrArg (·.all id) hmap
    | _ => simp [same] at h
  | disjunction as ih =>
    cases b with
    | disjunction bs =>
      have hparts : sameAll as bs = true := h
      have hmap := map_eq_of_sameAll hparts fun a ha b => ih a ha (by simp_all)
      simpa [List.any_map] using congrArg (·.any id) hmap
    | _ => simp [same] at h
  | negation a ih =>
    cases b with
    | negation b => simp [ih hs h]
    | _ => simp [same] at h

/-! ## Visits -/

/-- A transformation applied to every node, parts first; where nothing is done, nothing changes. -/
def visit (f : Expr → Option Expr) (e : Expr) : Expr :=
  (transformUp f e).getD e

def transformOr (f : Expr → Option Expr) (e : Expr) : Expr :=
  (f e).getD e

theorem extendCopy_some (parts : List Expr) (i : Nat) (done : Array Expr) (e : Expr)
    (changed : Option Expr) :
    extendCopy parts i (some done) e changed = some (done.push (changed.getD e)) := by
  cases changed <;> rfl

/-- A copy that has been started grows by every part that is left. -/
theorem transformFrom_some (f : Expr → Option Expr) (parts : List Expr) (i : Nat)
    (done : Array Expr) (es : List Expr) :
    transformFrom f parts i (some done) es = some (done.toList ++ es.map (visit f)) := by
  induction es generalizing i done with
  | nil => simp [transformFrom]
  | cons e es ih => simp [transformFrom, extendCopy_some, ih, visit]

/-- As long as there is no copy, the parts that were visited are as they were: a copy that is
started at the first changed part begins with all of them. -/
theorem transformFrom_none (f : Expr → Option Expr) (before es : List Expr) :
    transformFrom f (before ++ es) before.length none es =
      if ∀ e ∈ es, transformUp f e = none then none else some (before ++ es.map (visit f)) := by
  induction es generalizing before with
  | nil => simp [transformFrom]
  | cons e es ih =>
    rw [transformFrom]
    cases he : transformUp f e with
    | none =>
      -- the part joins the ones before it, and there is still no copy
      have hrest := ih (before ++ [e])
      rw [List.append_assoc, List.length_append] at hrest
      simpa [extendCopy, he, visit] using hrest
    | some e' =>
      simp [extendCopy, transformFrom_some, he, visit]

/-- Either nothing is done in any part, or the parts are what single visits make of them. -/
theorem transformAll_eq (f : Expr → Option Expr) (es : List Expr) :
    transformAll f es =
      if ∀ e ∈ es, transformUp f e = none then none else some (es.map (visit f)) :=
  transformFrom_none f [] es

theorem transformAll_eq_none {f : Expr → Option Expr} {es : List Expr} :
    transformAll f es = none ↔ ∀ e ∈ es, transformUp f e = none := by
  rw [transformAll_eq]
  split <;> simp_all

theorem eq_map_of_transformAll {f : Expr → Option Expr} {es es' : List Expr}
    (h : transformAll f es = some es') : es' = es.map (visit f) := by
  rw [transformAll_eq] at h
  split at h
  · contradiction
  · exact (Option.some.inj h).symm

theorem transformAll_getD (f : Expr → Option Expr) (es : List Expr) :
    (transformAll f es).getD es = es.map (visit f) := by
  cases h : transformAll f es with
  | some es' => exact eq_map_of_transformAll h
  | none =>
    have hsame : ∀ e ∈ es, visit f e = e := fun e he => by
      rw [visit, transformAll_eq_none.1 h e he]
      rfl
    exact ((List.map_congr_left hsame).trans (List.map_id es)).symm

theorem transformNode_getD (f : Expr → Option Expr) (node : Expr) (rebuilt : Option Expr) :
    (transformNode f node rebuilt).getD node = transformOr f (rebuilt.getD node) := by
  cases rebuilt <;> rfl

section
variable (f : Expr → Option Expr)

theorem visit_conjunction (parts : List Expr) :
    visit f (.conjunction parts) = transformOr f (.conjunction (parts.map (visit f))) := by
  rw [visit, transformUp_conjunction, transformNode_getD, ← transformAll_getD]
  cases transformAll f parts <;> rfl

theorem visit_disjunction (parts : List Expr) :
    visit f (.disjunction parts) = transformOr f (.disjunction (parts.map (visit f))) := by
  rw [visit, transformUp_disjunction, transformNode_getD, ← transformAll_getD]
  cases transformAll f parts <;> rfl

theorem visit_negation (e : Expr) :
    visit f (.negation e) = transformOr f (.negation (visit f e)) := by
  rw [visit, transformUp_negation, transformNode_getD, visit]
  cases transformUp f e <;> rfl

theorem transformUp_of_isLeaf {e : Expr} (h : e.isLeaf = true) : transformUp f e = f e := by
  cases e <;> first | rfl | simp [isLeaf] at h

theorem visit_of_isLeaf {e : Expr} (h : e.isLeaf = true) : visit f e = transformOr f e :=
  congrArg (Option.getD · e) (transformUp_of_isLeaf f h)

end

/-- A relation between trees that a transformation of nodes and the building of trees respect holds
between every tree and the one that a visit makes of it. -/
theorem visit_induction {f : Expr → Option Expr} {rel : Expr → Expr → Prop}
    (refl : ∀ e, rel e e) (trans : ∀ {a b c}, rel a b → rel b c → rel a c)
    (node : ∀ e e', f e = some e' → rel e e')
    (conjunction : ∀ (parts : List Expr) (g : Expr → Expr), (∀ e ∈ parts, rel e (g e)) →
      rel (.conjunction parts) (.conjunction (parts.map g)))
    (disjunction : ∀ (parts : List Expr) (g : Expr → Expr), (∀ e ∈ parts, rel e (g e)) →
      rel (.disjunction parts) (.disjunction (parts.map g)))
    (negation : ∀ e e', rel e e' → rel (.negation e) (.negation e')) (e : Expr) :
    rel e (visit f e) := by
  have hnode : ∀ e, rel e (transformOr f e) := by
    intro e
    unfold transformOr
    cases h : f e with
    | none => exact refl e
    | some e' => exact node e e' h
  induction e using treeInduction with
  | leaf e he => exact visit_of_isLeaf f he ▸ hnode e
  | conjunction parts ih =>
    rw [visit_conjunction]
    exact trans (conjunction parts (visit f) ih) (hnode _)
  | disjunction parts ih =>
    rw [visit_disjunction]
    exact trans (disjunction parts (visit f) ih) (hnode _)
  | negation e ih =>
    rw [visit_negation]
    exact trans (negation e (visit f e) ih) (hnode _)

end TagQuery.Expr
