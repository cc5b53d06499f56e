import TagQuery.Optimizer
import TagQuery.Proofs.Number.Real64
import TagQuery.Proofs.Optimizer.Pass

/-!
# Optimized expressions select the same files

Whether a file satisfies an expression on a scale of ratings is determined by the leaves, and these
mean what passes need them to mean. So a visit by a pass, a step of the optimizer and a whole run
keep every truth value. None of them adds a leaf that cannot be evaluated.

## Main definitions

- `Expr.holdsOn`: the truth value of an expression for a file on a scale of ratings.
- `Item.meaning`: what leaves mean for a file.
- `Expr.Preserves`: what a rewriting keeps.

## Main statements

- `Expr.preserves_optimize`: the optimizer keeps truth values, and adds no leaves but sets of tags.
- `Expr.predicate_of_preserves`: a rewriting that does so keeps predicates.
-/

namespace TagQuery

namespace Expr

/-! ## Stars -/

section
variable (t : StarTable)

@[simp] theorem resolveStars_conjunction (parts : List Expr) :
    resolveStars t (.conjunction parts) = .conjunction (parts.map (resolveStars t)) := by
  change conjunction (resolveStarsAll t parts) = _
  congr 1
  induction parts with
  | nil => rfl
  | cons e es ih => simp [resolveStarsAll, ih]

@[simp] theorem resolveStars_disjunction (parts : List Expr) :
    resolveStars t (.disjunction parts) = .disjunction (parts.map (resolveStars t)) := by
  change disjunction (resolveStarsAll t parts) = _
  congr 1
  induction parts with
  | nil => rfl
  | cons e es ih => simp [resolveStarsAll, ih]

@[simp] theorem resolveStars_negation (e : Expr) :
    resolveStars t (.negation e) = .negation (resolveStars t e) := rfl

end

/-! ## Truth -/

section
variable (category : String) (item : Item)

@[simp] theorem holds_conjunction (parts : List Expr) :
    holds category item (.conjunction parts) = parts.all (holds category item) := by
  change allHold category item parts = _
  induction parts with
  | nil => rfl
  | cons e es ih => simp [allHold, ih]

@[simp] theorem holds_disjunction (parts : List Expr) :
    holds category item (.disjunction parts) = parts.any (holds category item) := by
  change anyHolds category item parts = _
  induction parts with
  | nil => rfl
  | cons e es ih => simp [anyHolds, ih]

@[simp] theorem holds_negation (e : Expr) :
    holds category item (.negation e) = !holds category item e := rfl

end

/-- The truth value of an expression for a file on a scale of ratings. -/
def holdsOn (scale : RatingScale) (item : Item) (e : Expr) : Bool :=
  (e.resolveStars scale.stars).holds scale.category item

section
variable (scale : RatingScale) (item : Item)

@[simp] theorem holdsOn_conjunction (parts : List Expr) :
    holdsOn scale item (.conjunction parts) = parts.all (holdsOn scale item) := by
  simp only [holdsOn, resolveStars_conjunction, holds_conjunction, List.all_map]
  rfl

@[simp] theorem holdsOn_disjunction (parts : List Expr) :
    holdsOn scale item (.disjunction parts) = parts.any (holdsOn scale item) := by
  simp only [holdsOn, resolveStars_disjunction, holds_disjunction, List.any_map]
  rfl

@[simp] theorem holdsOn_negation (e : Expr) :
    holdsOn scale item (.negation e) = !holdsOn scale item e := rfl

/-- The truth value of a tree comes from those of its leaves. -/
theorem eval_holdsOn (e : Expr) : eval (holdsOn scale item) e = holdsOn scale item e := by
  induction e using treeInduction with
  | leaf e he => exact eval_of_isLeaf _ he
  | conjunction parts ih =>
    rw [eval_conjunction, holdsOn_conjunction, Bool.eq_iff_iff, List.all_eq_true, List.all_eq_true]
    exact forall₂_congr fun x hx => by rw [ih x hx]
  | disjunction parts ih =>
    rw [eval_disjunction, holdsOn_disjunction, Bool.eq_iff_iff, List.any_eq_true, List.any_eq_true]
    exact exists_congr fun x => and_congr_right fun hx => by rw [ih x hx]
  | negation e ih => rw [eval_negation, holdsOn_negation, ih]

end

/-! ## Faults -/

theorem firstFault?_eq_none {es : List Expr} :
    firstFault? es = none ↔ ∀ e ∈ es, e.fault? = none := by
  induction es with
  | nil => simp [firstFault?]
  | cons e es ih => simp [firstFault?, ih]

/-- A tree can be evaluated when all its leaves can. -/
theorem fault?_resolveStars_eq_none {t : StarTable} {e : Expr} :
    (e.resolveStars t).fault? = none ↔ ∀ l ∈ e.leaves, (l.resolveStars t).fault? = none := by
  induction e using treeInduction with
  | leaf e he => simp [leaves_of_isLeaf he]
  | conjunction parts ih =>
    rw [resolveStars_conjunction, forall_leaves_conjunction, fault?, firstFault?_eq_none,
      List.forall_mem_map]
    exact forall₂_congr ih
  | disjunction parts ih =>
    rw [resolveStars_disjunction, forall_leaves_disjunction, fault?, firstFault?_eq_none,
      List.forall_mem_map]
    exact forall₂_congr ih
  | negation e ih => exact ih

theorem fault?_ofTags (t : StarTable) (kind : Pass.TagKind) (tags : TagSet) :
    ((Pass.ofTags kind tags).resolveStars t).fault? = none := by
  cases kind <;> rfl

/-! ## Predicates -/

theorem predicate_eq_ok {scale : RatingScale} {e : Expr} {p : Item → Bool} :
    e.predicate scale = .ok p ↔
      (e.resolveStars scale.stars).fault? = none ∧ p = fun item => e.holdsOn scale item := by
  unfold predicate
  dsimp only
  split
  · next hfault => simp [hfault]
  · next hnone =>
    simp only [hnone, true_and, Except.ok.injEq]
    exact eq_comm

end Expr

/-! ## The meaning of leaves -/

def Item.hasTag (item : Item) : Pass.TagKind → String → Bool
  | .held, t => decide (t ∈ item.tags)
  | .rejected, t => decide (t ∈ item.rejectedTags)

theorem TagSet.not_isDisjoint_eq_any (held tags : TagSet) :
    (!held.isDisjoint tags) = tags.toList.any fun t => decide (t ∈ held) := by
  rw [Bool.eq_iff_iff]
  simp only [TagSet.isDisjoint, List.not_all_eq_any_not, Bool.not_not, List.any_eq_true,
    decide_eq_true_eq]
  exact exists_congr fun t => and_comm

theorem Comparison.acceptsReal_congr {a b : Comparison Real64} (h : Expr.sameBound a b = true)
    (actual : Real64) : a.acceptsReal actual = b.acceptsReal actual := by
  simp only [Expr.sameBound, Bool.and_eq_true, beq_iff_eq] at h
  rw [acceptsReal, acceptsReal, CompareOp.testReal, CompareOp.testReal, h.1,
    Real64.compare?_congr_right h.2]

theorem DetailValue.compare_congr_right {a b : DetailValue} (h : a.same b = true) (op : CompareOp)
    (v : DetailValue) : v.compare op a = v.compare op b := by
  cases a <;> cases b <;> simp only [same, beq_iff_eq, Bool.false_eq_true] at h
  case integer.integer => rw [h]
  case real.real => cases v <;> simp [compare, CompareOp.testReal, Real64.compare?_congr_right h]
  case text.text => rw [h]

theorem Expr.holdsOn_eq_of_same (scale : RatingScale) (item : Item) {a b : Expr}
    (ha : a.isLeaf = true) (hs : a.hasSample = false) (h : a.same b = true) :
    a.holdsOn scale item = b.holdsOn scale item := by
  cases a <;> cases b <;>
    simp only [isLeaf, hasSample, same, beq_iff_eq, Bool.false_eq_true, Bool.true_eq_false,
      Bool.and_eq_true] at ha hs h
  case rating.rating c d =>
    simp [holdsOn, resolveStars, holds, Comparison.acceptsReal_congr h]
  case details.details f op v f' op' v' =>
    obtain ⟨⟨rfl, rfl⟩, hv⟩ := h
    simp [holdsOn, resolveStars, holds, DetailValue.compare_congr_right hv]
  case noPeople.noPeople => rfl
  all_goals rw [h]

def Item.meaning (scale : RatingScale) (item : Item) : LeafMeaning where
  leaf := Expr.holdsOn scale item
  has := item.hasTag
  same _ _ := Expr.holdsOn_eq_of_same scale item
  tags kind tags := by
    cases kind with
    | held => exact TagSet.not_isDisjoint_eq_any item.tags tags
    | rejected => exact TagSet.not_isDisjoint_eq_any item.rejectedTags tags
  sample_of_one_le _ := samplePoint_blt_clamp_of_one_le item.hash
  sample_of_le_zero _ := samplePoint_blt_clamp_of_le_zero item.hash

/-! ## Rewriting -/

/-- A step of the optimizer is a visit by one of its passes, and a run is a sequence of steps. So
what relates every tree to its visit by any of the passes relates it to the end of a run. -/
theorem Optimizer.run_induction {passes : List Pass} {rel : Expr → Expr → Prop}
    (refl : ∀ e, rel e e) (trans : ∀ {a b c}, rel a b → rel b c → rel a c)
    (visit : ∀ p ∈ passes, ∀ e, rel e (e.visit p.transform)) (fuel : Nat) (e : Expr) :
    rel e (run passes fuel e) := by
  induction fuel generalizing e with
  | zero => exact refl e
  | succ fuel ih =>
    rw [run]
    cases hstep : step? passes e with
    | none => exact refl e
    | some next =>
      obtain ⟨p, hp, hnext⟩ := List.exists_of_findSome?_eq_some hstep
      have hvisit : e.visit p.transform = next := by
        rw [Expr.visit, (Option.filter_eq_some_iff.1 hnext).1]
        rfl
      exact trans (hvisit ▸ visit p hp e) (ih next)

namespace Expr

/-- What a rewriting keeps: truth values, and the leaves other than sets of tags. -/
structure Preserves (e e' : Expr) : Prop where
  eval_eq : ∀ m : LeafMeaning, m.eval e' = m.eval e
  leaves_sub : ∀ l ∈ e'.leaves, l ∈ e.leaves ∨ ∃ kind tags, l = Pass.ofTags kind tags

namespace Preserves

theorem refl (e : Expr) : Preserves e e :=
  ⟨fun _ => rfl, fun _ => .inl⟩

theorem trans {a b c : Expr} (h : Preserves a b) (g : Preserves b c) : Preserves a c where
  eval_eq m := (g.eval_eq m).trans (h.eval_eq m)
  leaves_sub l hl := (g.leaves_sub l hl).elim (h.leaves_sub l) .inr

theorem leaves_map {parts : List Expr} {g : Expr → Expr} (h : ∀ e ∈ parts, Preserves e (g e)) :
    ∀ l ∈ (parts.map g).flatMap leaves,
      l ∈ parts.flatMap leaves ∨ ∃ kind tags, l = Pass.ofTags kind tags := by
  intro l hl
  rw [List.flatMap_map] at hl
  obtain ⟨e, he, hle⟩ := List.mem_flatMap.1 hl
  exact ((h e he).leaves_sub l hle).imp_left fun hmem => List.mem_flatMap.2 ⟨e, he, hmem⟩

theorem conjunction {parts : List Expr} {g : Expr → Expr} (h : ∀ e ∈ parts, Preserves e (g e)) :
    Preserves (.conjunction parts) (.conjunction (parts.map g)) where
  eval_eq m := by
    rw [LeafMeaning.eval_conjunction, LeafMeaning.eval_conjunction, List.all_map,
      Bool.eq_iff_iff, List.all_eq_true, List.all_eq_true]
    exact forall₂_congr fun e he => by rw [Function.comp_apply, (h e he).eval_eq]
  leaves_sub := by simpa only [leaves_conjunction] using leaves_map h

theorem disjunction {parts : List Expr} {g : Expr → Expr} (h : ∀ e ∈ parts, Preserves e (g e)) :
    Preserves (.disjunction parts) (.disjunction (parts.map g)) where
  eval_eq m := by
    rw [LeafMeaning.eval_disjunction, LeafMeaning.eval_disjunction, List.any_map,
      Bool.eq_iff_iff, List.any_eq_true, List.any_eq_true]
    exact exists_congr fun e => and_congr_right fun he => by
      rw [Function.comp_apply, (h e he).eval_eq]
  leaves_sub := by simpa only [leaves_disjunction] using leaves_map h

theorem negation {e e' : Expr} (h : Preserves e e') : Preserves (.negation e) (.negation e') where
  eval_eq m := by rw [LeafMeaning.eval_negation, LeafMeaning.eval_negation, h.eval_eq]
  leaves_sub := h.leaves_sub

end Preserves

/-- A visit by a sound pass rewrites every node soundly, and so the tree. -/
theorem preserves_visit {f : Expr → Option Expr} (hf : Pass.Sound f) (e : Expr) :
    Preserves e (visit f e) := by
  refine visit_induction Preserves.refl Preserves.trans ?_ (fun _ _ => Preserves.conjunction)
    (fun _ _ => Preserves.disjunction) (fun _ _ => Preserves.negation) e
  intro e e' h
  exact ⟨fun m => hf.eval_eq m h, hf.leaves_sub h⟩

/-- The optimizer keeps truth values and adds no leaves but sets of tags, for any limit of steps. -/
theorem preserves_optimize (maxSteps : Nat) (e : Expr) :
    Preserves e ((Optimizer.withLimit maxSteps).optimize e) :=
  Optimizer.run_induction Preserves.refl Preserves.trans
    (fun _ hp => preserves_visit (Pass.sound_of_mem_all hp)) _ e

/-! ## Selections -/

theorem holdsOn_of_preserves {e e' : Expr} (h : Preserves e e') (scale : RatingScale)
    (item : Item) : e'.holdsOn scale item = e.holdsOn scale item := by
  rw [← eval_holdsOn scale item e', ← eval_holdsOn scale item e]
  exact h.eval_eq (item.meaning scale)

/-- A rewriting that keeps truth values, and adds no leaves but sets of tags, keeps predicates. -/
theorem predicate_of_preserves {e e' : Expr} (h : Preserves e e') {scale : RatingScale}
    {p : Item → Bool} (hp : e.predicate scale = .ok p) : e'.predicate scale = .ok p := by
  obtain ⟨hfault, rfl⟩ := predicate_eq_ok.1 hp
  refine predicate_eq_ok.2 ⟨?_, funext fun item => (holdsOn_of_preserves h scale item).symm⟩
  rw [fault?_resolveStars_eq_none] at hfault ⊢
  intro l hl
  rcases h.leaves_sub l hl with hmem | ⟨kind, tags, rfl⟩
  · exact hfault l hmem
  · exact fault?_ofTags scale.stars kind tags

/-- An expression with a predicate keeps it when it is optimized, whatever the limit of steps, and
when a single pass visits it. -/
theorem predicate_optimize_and_visit {scale : RatingScale} {e : Expr} {p : Item → Bool}
    (hp : e.predicate scale = .ok p) :
    (∀ maxSteps, ((Optimizer.withLimit maxSteps).optimize e).predicate scale = .ok p) ∧
      ∀ pass ∈ Pass.all, ((e.transformUp pass.transform).getD e).predicate scale = .ok p := by
  constructor
  · intro maxSteps
    exact predicate_of_preserves (preserves_optimize maxSteps e) hp
  · intro pass hpass
    exact predicate_of_preserves (preserves_visit (Pass.sound_of_mem_all hpass) e) hp

/-- A tag next to its negation and a group of one: there is a predicate, and it is kept. -/
theorem predicate_optimize_and_visit_complement :
    let e : Expr := .conjunction [.negation (.tag (.singleton "cat")), .disjunction
      [.tag (.singleton "cat")]]
    let p : Item → Bool := fun item => e.holdsOn ⟨"art", ∅⟩ item
    e.predicate ⟨"art", ∅⟩ = .ok p ∧
      (∀ maxSteps, ((Optimizer.withLimit maxSteps).optimize e).predicate ⟨"art", ∅⟩ = .ok p) ∧
      ∀ pass ∈ Pass.all, ((e.transformUp pass.transform).getD e).predicate ⟨"art", ∅⟩ = .ok p :=
  ⟨rfl, predicate_optimize_and_visit rfl⟩

end Expr
end TagQuery
