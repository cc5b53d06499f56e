import TagQuery.Proofs.Expr.Tree

/-!
# Samples as draws

Each sample of a tree is a draw of its own, and two samples of equal portions may be drawn
differently. The truth value of a tree is then that of a formula over its other leaves and a list of
draws, one for each sample in order.

To follow samples through a rewriting, they are marked: a marked tree comes with a mark for every
sample, and a draw is a truth value for every mark.

## Main definitions

- `Expr.samples`: the portions of the samples of a tree, in order.
- `Expr.evalDrawn`: the truth value of a tree, given those of its leaves and the draws.
- `Expr.Group`: the two kinds of groups.
- `Marked`: a tree with marks on its samples.

## Main statements

- `Expr.evalDrawn_of_hasSample`: without samples, draws do not matter.
- `Marked.exists_group`, `Marked.exists_negation`: a marked group has marked parts.
- `Marked.value_group`, `Marked.value_negation`: the truth value of a marked tree comes from its
  parts.
-/

namespace TagQuery

namespace Expr

/-! ## Samples -/

def portion? : Expr → Option Real64
  | .sample p => some p
  | _ => none

/-- The portions of the samples of a tree, in order. -/
def samples (e : Expr) : List Real64 :=
  e.leaves.filterMap portion?

@[simp] theorem samples_conjunction (parts : List Expr) :
    samples (.conjunction parts) = parts.flatMap samples := by
  rw [samples, leaves_conjunction, List.filterMap_flatMap]
  rfl

@[simp] theorem samples_disjunction (parts : List Expr) :
    samples (.disjunction parts) = parts.flatMap samples := by
  rw [samples, leaves_disjunction, List.filterMap_flatMap]
  rfl

/-- A tree draws samples when it has any. -/
theorem samples_eq_nil {e : Expr} : e.samples = [] ↔ e.hasSample = false := by
  induction e using treeInduction with
  | leaf e he =>
    cases e <;> simp_all [isLeaf, samples, leaves, List.filterMap_cons, portion?, hasSample]
  | conjunction parts ih =>
    rw [samples_conjunction, hasSample_conjunction, List.flatMap_eq_nil_iff, List.any_eq_false]
    exact forall₂_congr fun e he => by rw [ih e he, Bool.not_eq_true]
  | disjunction parts ih =>
    rw [samples_disjunction, hasSample_disjunction, List.flatMap_eq_nil_iff, List.any_eq_false]
    exact forall₂_congr fun e he => by rw [ih e he, Bool.not_eq_true]
  | negation e ih => exact ih

/-! ## Truth values under draws -/

mutual
/-- The truth value of a tree whose samples are drawn as given, one after the other, and whose other
leaves have the truth values that `leaf` gives. -/
def evalDrawn (leaf : Expr → Bool) : Expr → List Bool → Bool
  | .sample _, draws => draws.headD false
  | .conjunction parts, draws => allDrawn leaf parts draws
  | .disjunction parts, draws => anyDrawn leaf parts draws
  | .negation part, draws => !evalDrawn leaf part draws
  | e, _ => leaf e
termination_by structural e => e

def allDrawn (leaf : Expr → Bool) : List Expr → List Bool → Bool
  | [], _ => true
  | e :: es, draws =>
    evalDrawn leaf e (draws.take e.samples.length) &&
      allDrawn leaf es (draws.drop e.samples.length)
termination_by structural es => es

def anyDrawn (leaf : Expr → Bool) : List Expr → List Bool → Bool
  | [], _ => false
  | e :: es, draws =>
    evalDrawn leaf e (draws.take e.samples.length) ||
      anyDrawn leaf es (draws.drop e.samples.length)
termination_by structural es => es
end

theorem allDrawn_eq_all {leaf : Expr → Bool} {es : List Expr}
    (h : ∀ e ∈ es, ∀ draws, evalDrawn leaf e draws = eval leaf e) (draws : List Bool) :
    allDrawn leaf es draws = es.all (eval leaf) := by
  induction es generalizing draws with
  | nil => rfl
  | cons e es ih =>
    rw [List.forall_mem_cons] at h
    rw [allDrawn, h.1, ih h.2, List.all_cons]

theorem anyDrawn_eq_any {leaf : Expr → Bool} {es : List Expr}
    (h : ∀ e ∈ es, ∀ draws, evalDrawn leaf e draws = eval leaf e) (draws : List Bool) :
    anyDrawn leaf es draws = es.any (eval leaf) := by
  induction es generalizing draws with
  | nil => rfl
  | cons e es ih =>
    rw [List.forall_mem_cons] at h
    rw [anyDrawn, h.1, ih h.2, List.any_cons]

/-- Without samples, draws do not matter. -/
theorem evalDrawn_of_hasSample {leaf : Expr → Bool} {e : Expr} (h : e.hasSample = false)
    (draws : List Bool) : evalDrawn leaf e draws = eval leaf e := by
  induction e using treeInduction generalizing draws with
  | leaf e he => cases e <;> simp_all [isLeaf, hasSample, evalDrawn, eval]
  | conjunction parts ih =>
    rw [hasSample_conjunction, List.any_eq_false] at h
    rw [evalDrawn, eval_conjunction]
    exact allDrawn_eq_all (fun e he draws => ih e he (Bool.eq_false_iff.2 (h e he)) draws) draws
  | disjunction parts ih =>
    rw [hasSample_disjunction, List.any_eq_false] at h
    rw [evalDrawn, eval_disjunction]
    exact anyDrawn_eq_any (fun e he draws => ih e he (Bool.eq_false_iff.2 (h e he)) draws) draws
  | negation e ih => rw [evalDrawn, eval_negation, ih h]

/-! ## Groups of both kinds -/

/-- The kinds of groups: all parts have to be true, or any of them. -/
inductive Group where
  | all
  | any

namespace Group

def build : Group → List Expr → Expr
  | .all => .conjunction
  | .any => .disjunction

def dual : Group → Group
  | .all => .any
  | .any => .all

/-- Truth values, seen such that a group is true if all its parts are. -/
def sign : Group → Bool → Bool
  | .all => id
  | .any => not

@[simp] theorem sign_sign (g : Group) (b : Bool) : g.sign (g.sign b) = b := by
  cases g <;> simp [sign]

@[simp] theorem sign_dual (g : Group) (b : Bool) : g.dual.sign b = g.sign (!b) := by
  cases g <;> simp [sign, dual]

@[simp] theorem sign_not (g : Group) (b : Bool) : g.sign (!b) = !g.sign b := by
  cases g <;> simp [sign]

@[simp] theorem samples_build (g : Group) (es : List Expr) :
    (g.build es).samples = es.flatMap samples := by
  cases g <;> simp [build]

end Group
end Expr

/-! ## Marked trees -/

open TagQuery.Expr (Group)

/-- A tree with marks on its samples, next to their portions. -/
@[ext]
structure Marked (ι : Type) where
  tree : Expr
  marks : List (ι × Real64)
  portions : marks.map Prod.snd = tree.samples

namespace Marked

variable {ι : Type}

def plain (e : Expr) (h : e.hasSample = false) : Marked ι :=
  ⟨e, [], (Expr.samples_eq_nil.2 h).symm⟩

def group (g : Group) (ts : List (Marked ι)) : Marked ι where
  tree := g.build (ts.map tree)
  marks := ts.flatMap marks
  portions := by
    rw [Group.samples_build, List.map_flatMap, List.flatMap_map]
    exact congrArg (ts.flatMap ·) (funext portions)

def negation (t : Marked ι) : Marked ι :=
  ⟨.negation t.tree, t.marks, t.portions⟩

theorem marks_eq_nil {t : Marked ι} (h : t.tree.hasSample = false) : t.marks = [] :=
  List.map_eq_nil_iff.1 (t.portions.trans (Expr.samples_eq_nil.2 h))

/-- The marks of some trees are those of each, one after the other. -/
theorem exists_parts {es : List Expr} {marks : List (ι × Real64)}
    (h : marks.map Prod.snd = es.flatMap Expr.samples) :
    ∃ ts : List (Marked ι), ts.map tree = es ∧ ts.flatMap Marked.marks = marks := by
  induction es generalizing marks with
  | nil => exact ⟨[], rfl, (List.map_eq_nil_iff.1 h).symm⟩
  | cons e es ih =>
    rw [List.flatMap_cons, List.map_eq_append_iff] at h
    obtain ⟨own, rest, rfl, hown, hrest⟩ := h
    obtain ⟨ts, rfl, rfl⟩ := ih hrest
    exact ⟨⟨e, own, hown⟩ :: ts, rfl, rfl⟩

/-- A marked group has marked parts. -/
theorem exists_group {g : Group} {es : List Expr} {t : Marked ι} (h : t.tree = g.build es) :
    ∃ ts : List (Marked ι), ts.map tree = es ∧ t = group g ts := by
  obtain ⟨ts, rfl, hmarks⟩ := exists_parts (t.portions.trans (h ▸ g.samples_build es))
  exact ⟨ts, rfl, Marked.ext h hmarks.symm⟩

/-- A marked negation has a marked part. -/
theorem exists_negation {e : Expr} {t : Marked ι} (h : t.tree = .negation e) :
    ∃ s : Marked ι, s.tree = e ∧ t = negation s :=
  ⟨⟨e, t.marks, t.portions.trans (h ▸ rfl)⟩, rfl, Marked.ext h rfl⟩

/-! ## Truth values -/

section
variable (leaf : Expr → Bool) (draw : ι → Bool)

/-- The truth value of a marked tree, given those of its leaves and those drawn for the marks. -/
def value (t : Marked ι) : Bool :=
  t.tree.evalDrawn leaf (t.marks.map fun s => draw s.1)

/-- There are as many draws for a marked tree as it has samples. -/
theorem length_draws (t : Marked ι) :
    (t.marks.map fun s => draw s.1).length = t.tree.samples.length := by
  rw [← t.portions, List.length_map, List.length_map]

theorem allDrawn_eq_all (ts : List (Marked ι)) :
    Expr.allDrawn leaf (ts.map tree) ((ts.flatMap marks).map fun s => draw s.1) =
      ts.all (value leaf draw) := by
  induction ts with
  | nil => rfl
  | cons t ts ih =>
    rw [List.map_cons, List.flatMap_cons, List.map_append, Expr.allDrawn, ← t.length_draws draw,
      List.take_left, List.drop_left, ih]
    rfl

theorem anyDrawn_eq_any (ts : List (Marked ι)) :
    Expr.anyDrawn leaf (ts.map tree) ((ts.flatMap marks).map fun s => draw s.1) =
      ts.any (value leaf draw) := by
  induction ts with
  | nil => rfl
  | cons t ts ih =>
    rw [List.map_cons, List.flatMap_cons, List.map_append, Expr.anyDrawn, ← t.length_draws draw,
      List.take_left, List.drop_left, ih]
    rfl

theorem value_group (g : Group) (ts : List (Marked ι)) :
    (group g ts).value leaf draw = g.sign (ts.all fun t => g.sign (t.value leaf draw)) := by
  cases g with
  | all => exact allDrawn_eq_all leaf draw ts
  | any =>
    rw [Group.sign, ← List.not_any_eq_all_not, Bool.not_not]
    exact anyDrawn_eq_any leaf draw ts

theorem value_negation (t : Marked ι) :
    (negation t).value leaf draw = !t.value leaf draw := rfl

theorem value_of_hasSample {t : Marked ι} (h : t.tree.hasSample = false) :
    t.value leaf draw = t.tree.eval leaf :=
  Expr.evalDrawn_of_hasSample h _

end

end Marked
end TagQuery
