import TagQuery.Optimizer.Pass
import TagQuery.Proofs.Expr.Tree

/-!
# Passes keep the meaning of expressions

Each pass replaces a node by one that is true of the same files, whatever the leaves mean, as long
as equal leaves mean the same, leaves about tags mean that one of their tags is there, and samples
of all or nothing are certain. A pass adds no leaves other than sets of tags.

## Main definitions

- `LeafMeaning`: what the leaves of expressions mean.
- `Pass.Sound`: what a pass has to keep.

## Main statements

- `Pass.sound_of_mem_all`: every pass is sound.
-/

namespace TagQuery

open Pass (TagKind tagsOf? negatedTagsOf? ofTags ofNegatedTags)

structure LeafMeaning where
  leaf : Expr → Bool
  /-- Whether a tag is there, as a held tag or as a rejected one. -/
  has : TagKind → String → Bool
  same : ∀ a b, a.isLeaf = true → a.hasSample = false → a.same b = true → leaf a = leaf b
  tags : ∀ kind tags, leaf (ofTags kind tags) = tags.toList.any (has kind)
  sample_of_one_le : ∀ p, Real64.one.ble p = true → leaf (.sample p) = true
  sample_of_le_zero : ∀ p, p.ble (.zero false) = true → leaf (.sample p) = false

namespace LeafMeaning

def eval (m : LeafMeaning) : Expr → Bool := Expr.eval m.leaf

def meets (m : LeafMeaning) (kind : TagKind) (tags : TagSet) : Bool :=
  tags.toList.any (m.has kind)

variable (m : LeafMeaning)

@[simp] theorem eval_conjunction (parts : List Expr) :
    m.eval (.conjunction parts) = parts.all m.eval := Expr.eval_conjunction m.leaf parts

@[simp] theorem eval_disjunction (parts : List Expr) :
    m.eval (.disjunction parts) = parts.any m.eval := Expr.eval_disjunction m.leaf parts

@[simp] theorem eval_negation (e : Expr) : m.eval (.negation e) = !m.eval e := rfl

@[simp] theorem eval_ofTags (kind : TagKind) (tags : TagSet) :
    m.eval (ofTags kind tags) = m.meets kind tags := by
  have hleaf : (ofTags kind tags).isLeaf = true := by cases kind <;> rfl
  rw [eval, Expr.eval_of_isLeaf m.leaf hleaf, m.tags]
  rfl

@[simp] theorem eval_ofNegatedTags (kind : TagKind) (tags : TagSet) :
    m.eval (ofNegatedTags kind tags) = !m.meets kind tags := by
  simp [ofNegatedTags]

theorem meets_iff {kind : TagKind} {tags : TagSet} :
    m.meets kind tags = true ↔ ∃ t ∈ tags, m.has kind t = true := by
  simp [meets, TagSet.mem_toList]

theorem eval_eq_of_same {a b : Expr} (hs : a.hasSample = false) (h : a.same b = true) :
    m.eval a = m.eval b :=
  Expr.eval_eq_of_same m.same hs h

end LeafMeaning

namespace Pass

/-- What a pass keeps: truth values, and the leaves other than sets of tags. -/
structure Sound (f : Expr → Option Expr) : Prop where
  eval_eq : ∀ (m : LeafMeaning) {e e' : Expr}, f e = some e' → m.eval e' = m.eval e
  leaves_sub : ∀ {e e' : Expr}, f e = some e' →
    ∀ l ∈ e'.leaves, l ∈ e.leaves ∨ ∃ kind tags, l = ofTags kind tags

/-! ## Leaves of groups -/

theorem mem_leaves_group {parts : List Expr} {l : Expr} :
    l ∈ parts.flatMap Expr.leaves ↔ ∃ x ∈ parts, l ∈ x.leaves := by
  simp

theorem leaves_subset_of_subset {ps qs : List Expr} (h : ∀ x ∈ ps, x ∈ qs) :
    ∀ l ∈ ps.flatMap Expr.leaves, l ∈ qs.flatMap Expr.leaves := by
  intro l hl
  obtain ⟨x, hx, hlx⟩ := mem_leaves_group.1 hl
  exact mem_leaves_group.2 ⟨x, h x hx, hlx⟩

theorem leaves_conjunction_of_subset {ps qs : List Expr} (h : ∀ x ∈ ps, x ∈ qs) :
    ∀ l ∈ (Expr.conjunction ps).leaves, l ∈ (Expr.conjunction qs).leaves := by
  rw [Expr.leaves_conjunction, Expr.leaves_conjunction]
  exact leaves_subset_of_subset h

theorem leaves_disjunction_of_subset {ps qs : List Expr} (h : ∀ x ∈ ps, x ∈ qs) :
    ∀ l ∈ (Expr.disjunction ps).leaves, l ∈ (Expr.disjunction qs).leaves := by
  rw [Expr.leaves_disjunction, Expr.leaves_disjunction]
  exact leaves_subset_of_subset h

/-! ## Constants -/

theorem eq_always_of_isAlways {e : Expr} (h : e.isAlways = true) : e = .always := by
  unfold Expr.isAlways at h
  split at h
  · rfl
  · contradiction

theorem eq_never_of_isNever {e : Expr} (h : e.isNever = true) : e = .never := by
  unfold Expr.isNever at h
  split at h
  · rfl
  · contradiction

@[simp] theorem eval_always (m : LeafMeaning) : m.eval .always = true := by
  simp [Expr.always]

@[simp] theorem eval_never (m : LeafMeaning) : m.eval .never = false := by
  simp [Expr.never]

@[simp] theorem leaves_always : Expr.always.leaves = [] := rfl

@[simp] theorem leaves_never : Expr.never.leaves = [] := rfl

theorem eval_unitsOfConjunction (m : LeafMeaning) {parts : List Expr} {e' : Expr}
    (h : unitsOfConjunction parts = some e') : m.eval e' = parts.all m.eval := by
  unfold unitsOfConjunction at h
  split at h
  · next hany =>
    obtain ⟨x, hx, hnever⟩ := List.any_eq_true.1 hany
    obtain rfl := Option.some.inj h
    rw [eval_never, eq_comm, List.all_eq_false]
    exact ⟨x, hx, by simp [eq_never_of_isNever hnever]⟩
  · split at h
    · obtain rfl := Option.some.inj h
      rw [LeafMeaning.eval_conjunction, List.all_filter, Bool.eq_iff_iff]
      simp only [List.all_eq_true]
      refine forall_congr' fun x => forall_congr' fun _ => ?_
      by_cases hx : x.isAlways = true
      · simp [eq_always_of_isAlways hx]
      · simp [hx]
    · contradiction

theorem eval_unitsOfDisjunction (m : LeafMeaning) {parts : List Expr} {e' : Expr}
    (h : unitsOfDisjunction parts = some e') : m.eval e' = parts.any m.eval := by
  unfold unitsOfDisjunction at h
  split at h
  · next hany =>
    obtain ⟨x, hx, halways⟩ := List.any_eq_true.1 hany
    obtain rfl := Option.some.inj h
    rw [eval_always, eq_comm, List.any_eq_true]
    exact ⟨x, hx, by simp [eq_always_of_isAlways halways]⟩
  · split at h
    · obtain rfl := Option.some.inj h
      rw [LeafMeaning.eval_disjunction, List.any_filter, Bool.eq_iff_iff]
      simp only [List.any_eq_true]
      refine exists_congr fun x => and_congr_right fun _ => ?_
      by_cases hx : x.isNever = true
      · simp [eq_never_of_isNever hx]
      · simp [hx]
    · contradiction

theorem leaves_unitsOfConjunction {parts : List Expr} {e' : Expr}
    (h : unitsOfConjunction parts = some e') :
    ∀ l ∈ e'.leaves, l ∈ (Expr.conjunction parts).leaves := by
  unfold unitsOfConjunction at h
  split at h
  · obtain rfl := Option.some.inj h
    simp
  · obtain ⟨-, hparts⟩ := Option.ite_none_right_eq_some.1 h
    obtain rfl := Option.some.inj hparts
    exact leaves_conjunction_of_subset fun _ hx => (List.mem_filter.1 hx).1

theorem leaves_unitsOfDisjunction {parts : List Expr} {e' : Expr}
    (h : unitsOfDisjunction parts = some e') :
    ∀ l ∈ e'.leaves, l ∈ (Expr.disjunction parts).leaves := by
  unfold unitsOfDisjunction at h
  split at h
  · obtain rfl := Option.some.inj h
    simp
  · obtain ⟨-, hparts⟩ := Option.ite_none_right_eq_some.1 h
    obtain rfl := Option.some.inj hparts
    exact leaves_disjunction_of_subset fun _ hx => (List.mem_filter.1 hx).1

theorem eval_tag_of_isEmpty (m : LeafMeaning) (kind : TagKind) {tags : TagSet}
    (h : tags.isEmpty = true) : m.eval (ofTags kind tags) = false := by
  simp_all [LeafMeaning.meets, TagSet.isEmpty]

theorem sound_eliminateUnits : Sound eliminateUnits where
  eval_eq m e e' h := by
    cases e with
    | tag tags =>
      simp only [eliminateUnits, Option.ite_none_right_eq_some, Option.some.injEq] at h
      rw [← h.2, eval_never]
      exact (eval_tag_of_isEmpty m .held h.1).symm
    | rejectedTag tags =>
      simp only [eliminateUnits, Option.ite_none_right_eq_some, Option.some.injEq] at h
      rw [← h.2, eval_never]
      exact (eval_tag_of_isEmpty m .rejected h.1).symm
    | sample p =>
      by_cases hone : Real64.one.ble p = true
      · rw [eliminateUnits, if_pos hone] at h
        rw [← Option.some.inj h, eval_always]
        exact (m.sample_of_one_le p hone).symm
      · by_cases hzero : p.ble (.zero false) = true
        · rw [eliminateUnits, if_neg hone, if_pos hzero] at h
          rw [← Option.some.inj h, eval_never]
          exact (m.sample_of_le_zero p hzero).symm
        · rw [eliminateUnits, if_neg hone, if_neg hzero] at h
          contradiction
    | conjunction parts => rw [eval_unitsOfConjunction m h, LeafMeaning.eval_conjunction]
    | disjunction parts => rw [eval_unitsOfDisjunction m h, LeafMeaning.eval_disjunction]
    | _ => simp [eliminateUnits] at h
  leaves_sub {e e'} h l hl := by
    cases e with
    | conjunction parts => exact .inl (leaves_unitsOfConjunction h l hl)
    | disjunction parts => exact .inl (leaves_unitsOfDisjunction h l hl)
    | sample p =>
      by_cases hone : Real64.one.ble p = true
      · rw [eliminateUnits, if_pos hone] at h
        simp [← Option.some.inj h] at hl
      · rw [eliminateUnits, if_neg hone, Option.ite_none_right_eq_some] at h
        simp [← Option.some.inj h.2] at hl
    | tag tags =>
      simp only [eliminateUnits, Option.ite_none_right_eq_some, Option.some.injEq] at h
      simp [← h.2] at hl
    | rejectedTag tags =>
      simp only [eliminateUnits, Option.ite_none_right_eq_some, Option.some.injEq] at h
      simp [← h.2] at hl
    | _ => simp [eliminateUnits] at h

/-! ## Groups -/

theorem eq_of_conjunctionParts?_eq_some {e : Expr} {ps : List Expr}
    (h : conjunctionParts? e = some ps) : e = .conjunction ps := by
  unfold conjunctionParts? at h
  split at h
  · rw [Option.some.inj h]
  · contradiction

theorem eq_of_disjunctionParts?_eq_some {e : Expr} {ps : List Expr}
    (h : disjunctionParts? e = some ps) : e = .disjunction ps := by
  unfold disjunctionParts? at h
  split at h
  · rw [Option.some.inj h]
  · contradiction

/-- Splicing replaces each part by trees that stand for it. -/
theorem splice_eq_some {inner? : Expr → Option (List Expr)} {parts spliced : List Expr}
    (h : splice inner? parts = some spliced) :
    spliced = parts.flatMap fun e => (inner? e).getD [e] := by
  simp only [splice, Option.ite_none_right_eq_some, Option.some.injEq] at h
  exact h.2.symm

theorem all_eval_conjunctionParts (m : LeafMeaning) (e : Expr) :
    ((conjunctionParts? e).getD [e]).all m.eval = m.eval e := by
  cases h : conjunctionParts? e with
  | none => simp
  | some ps => simp [eq_of_conjunctionParts?_eq_some h]

theorem any_eval_disjunctionParts (m : LeafMeaning) (e : Expr) :
    ((disjunctionParts? e).getD [e]).any m.eval = m.eval e := by
  cases h : disjunctionParts? e with
  | none => simp
  | some ps => simp [eq_of_disjunctionParts?_eq_some h]

theorem leaves_conjunctionParts (e : Expr) :
    ((conjunctionParts? e).getD [e]).flatMap Expr.leaves = e.leaves := by
  cases h : conjunctionParts? e with
  | none => simp
  | some ps => simp [eq_of_conjunctionParts?_eq_some h]

theorem leaves_disjunctionParts (e : Expr) :
    ((disjunctionParts? e).getD [e]).flatMap Expr.leaves = e.leaves := by
  cases h : disjunctionParts? e with
  | none => simp
  | some ps => simp [eq_of_disjunctionParts?_eq_some h]

theorem sound_flattenNested : Sound flattenNested where
  eval_eq m e e' h := by
    cases e with
    | conjunction parts =>
      obtain ⟨ps, hps, rfl⟩ := Option.map_eq_some_iff.1 h
      simp only [LeafMeaning.eval_conjunction, splice_eq_some hps, List.all_flatMap,
        all_eval_conjunctionParts]
    | disjunction parts =>
      obtain ⟨ps, hps, rfl⟩ := Option.map_eq_some_iff.1 h
      simp only [LeafMeaning.eval_disjunction, splice_eq_some hps, List.any_flatMap,
        any_eval_disjunctionParts]
    | _ => simp [flattenNested] at h
  leaves_sub {e e'} h l hl := by
    cases e with
    | conjunction parts =>
      obtain ⟨ps, hps, rfl⟩ := Option.map_eq_some_iff.1 h
      rw [Expr.leaves_conjunction, splice_eq_some hps, List.flatMap_assoc] at hl
      simp only [leaves_conjunctionParts] at hl
      exact .inl (Expr.leaves_conjunction parts ▸ hl)
    | disjunction parts =>
      obtain ⟨ps, hps, rfl⟩ := Option.map_eq_some_iff.1 h
      rw [Expr.leaves_disjunction, splice_eq_some hps, List.flatMap_assoc] at hl
      simp only [leaves_disjunctionParts] at hl
      exact .inl (Expr.leaves_disjunction parts ▸ hl)
    | _ => simp [flattenNested] at h

theorem sound_eliminateDegenerate : Sound eliminateDegenerate where
  eval_eq m e e' h := by
    unfold eliminateDegenerate at h
    split at h <;> try contradiction
    all_goals rw [← Option.some.inj h]
    all_goals simp [Expr.never, Expr.always]
  leaves_sub {e e'} h l hl := by
    unfold eliminateDegenerate at h
    split at h <;> try contradiction
    all_goals rw [← Option.some.inj h] at hl
    all_goals simp_all [Expr.never, Expr.always]

/-! ## Repetition -/

theorem isAmong_iff {e : Expr} {es : List Expr} :
    e.isAmong es = true ↔ ∃ x ∈ es, x.same e = true := by
  simp [Expr.isAmong]

theorem eval_eq_of_same_right (m : LeafMeaning) {x e : Expr} (hs : e.hasSample = false)
    (h : x.same e = true) : m.eval x = m.eval e :=
  m.eval_eq_of_same ((Expr.hasSample_eq_of_same h).trans hs) h

/-- A part whose negation is a part as well. -/
theorem exists_complement (m : LeafMeaning) {parts : List Expr} (h : hasComplement parts = true) :
    ∃ x ∈ parts, ∃ y ∈ parts, m.eval y = !m.eval x := by
  obtain ⟨y, hy, hcase⟩ := List.any_eq_true.1 h
  split at hcase
  · next e =>
    simp only [Bool.and_eq_true, Bool.not_eq_true'] at hcase
    obtain ⟨x, hx, hsame⟩ := isAmong_iff.1 hcase.2
    refine ⟨x, hx, .negation e, hy, ?_⟩
    rw [LeafMeaning.eval_negation, eval_eq_of_same_right m hcase.1 hsame]
  · contradiction

/-- A part and its negation do not hold together. -/
theorem all_of_hasComplement (m : LeafMeaning) {parts : List Expr}
    (h : hasComplement parts = true) : parts.all m.eval = false := by
  obtain ⟨x, hx, y, hy, hxy⟩ := exists_complement m h
  rw [List.all_eq_false]
  cases hvalue : m.eval x with
  | false => exact ⟨x, hx, by simp [hvalue]⟩
  | true => exact ⟨y, hy, by simp [hxy, hvalue]⟩

/-- Of a part and its negation one holds. -/
theorem any_of_hasComplement (m : LeafMeaning) {parts : List Expr}
    (h : hasComplement parts = true) : parts.any m.eval = true := by
  obtain ⟨x, hx, y, hy, hxy⟩ := exists_complement m h
  rw [List.any_eq_true]
  cases hvalue : m.eval x with
  | false => exact ⟨y, hy, by simp [hxy, hvalue]⟩
  | true => exact ⟨x, hx, hvalue⟩

/-- What is added is among the kept parts, or one is that is not told apart from it. -/
theorem addDistinct_covers {β : Type} {q : Expr → β}
    (hq : ∀ {x e}, e.hasSample = false → x.same e = true → q x = q e) (kept : List Expr)
    (e : Expr) :
    (∀ x ∈ kept, x ∈ addDistinct kept e) ∧ ∃ x ∈ addDistinct kept e, q x = q e := by
  unfold addDistinct
  split
  · next h =>
    simp only [Bool.and_eq_true, Bool.not_eq_true'] at h
    obtain ⟨x, hx, hsame⟩ := isAmong_iff.1 h.2
    exact ⟨fun _ => id, x, hx, hq h.1 hsame⟩
  · exact ⟨fun x hx => List.mem_append_left _ hx, e, by simp, rfl⟩

/-- Parts are added in their order, without some that repeat others. -/
theorem foldl_addDistinct_sublist (es kept : List Expr) :
    ∃ added, added.Sublist es ∧ es.foldl addDistinct kept = kept ++ added := by
  induction es generalizing kept with
  | nil => exact ⟨[], List.Sublist.slnil, by simp⟩
  | cons e es ih =>
    rw [List.foldl_cons, addDistinct]
    split
    · obtain ⟨added, hsub, heq⟩ := ih kept
      exact ⟨added, hsub.cons e, heq⟩
    · obtain ⟨added, hsub, heq⟩ := ih (kept ++ [e])
      exact ⟨e :: added, hsub.cons_cons e, by rw [heq, List.append_assoc]; rfl⟩

theorem foldl_addDistinct_covers {β : Type} {q : Expr → β}
    (hq : ∀ {x e}, e.hasSample = false → x.same e = true → q x = q e) (es kept : List Expr) :
    (∀ x ∈ kept, x ∈ es.foldl addDistinct kept) ∧
      ∀ e ∈ es, ∃ x ∈ es.foldl addDistinct kept, q x = q e := by
  induction es generalizing kept with
  | nil => simp
  | cons d es ih =>
    obtain ⟨hkept, x, hx, heq⟩ := addDistinct_covers hq kept d
    obtain ⟨hrest, hcover⟩ := ih (addDistinct kept d)
    refine ⟨fun y hy => hrest y (hkept y hy), fun e he => ?_⟩
    rcases List.mem_cons.1 he with rfl | he
    · exact ⟨x, hrest x hx, heq⟩
    · exact hcover e he

theorem sublist_of_dedupe {parts ps : List Expr} (h : dedupe parts = some ps) :
    ps.Sublist parts ∧ ps.length ≠ parts.length := by
  simp only [dedupe, Option.ite_none_left_eq_some, Option.some.injEq] at h
  obtain ⟨hlength, rfl⟩ := h
  obtain ⟨added, hsub, heq⟩ := foldl_addDistinct_sublist parts []
  rw [heq, List.nil_append] at hlength ⊢
  exact ⟨hsub, hlength⟩

theorem subset_of_dedupe {parts ps : List Expr} (h : dedupe parts = some ps) :
    ∀ x ∈ ps, x ∈ parts := fun _ hx => (sublist_of_dedupe h).1.subset hx

theorem dedupe_covers {β : Type} {q : Expr → β}
    (hq : ∀ {x e}, e.hasSample = false → x.same e = true → q x = q e)
    {parts ps : List Expr} (h : dedupe parts = some ps) : ∀ e ∈ parts, ∃ x ∈ ps, q x = q e := by
  simp only [dedupe, Option.ite_none_left_eq_some, Option.some.injEq] at h
  rw [← h.2]
  exact (foldl_addDistinct_covers hq parts []).2

/-- Repeated parts make no difference to what holds of all parts. -/
theorem all_dedupe {q : Expr → Bool}
    (hq : ∀ {x e}, e.hasSample = false → x.same e = true → q x = q e)
    {parts ps : List Expr} (h : dedupe parts = some ps) : ps.all q = parts.all q := by
  rw [Bool.eq_iff_iff, List.all_eq_true, List.all_eq_true]
  refine ⟨fun hall e he => ?_, fun hall x hx => hall x (subset_of_dedupe h x hx)⟩
  obtain ⟨x, hx, heq⟩ := dedupe_covers hq h e he
  exact heq ▸ hall x hx

/-- Repeated parts make no difference to what holds of some part. -/
theorem any_dedupe {q : Expr → Bool}
    (hq : ∀ {x e}, e.hasSample = false → x.same e = true → q x = q e)
    {parts ps : List Expr} (h : dedupe parts = some ps) : ps.any q = parts.any q := by
  rw [List.any_eq_not_all_not, List.any_eq_not_all_not]
  exact congrArg not (all_dedupe (fun he hsame => congrArg not (hq he hsame)) h)

theorem sound_removeDuplicates : Sound removeDuplicates where
  eval_eq m e e' h := by
    cases e with
    | conjunction parts =>
      simp only [removeDuplicates] at h
      split at h
      · next hc =>
        rw [← Option.some.inj h, eval_never, LeafMeaning.eval_conjunction,
          all_of_hasComplement m hc]
      · obtain ⟨ps, hps, rfl⟩ := Option.map_eq_some_iff.1 h
        rw [LeafMeaning.eval_conjunction, LeafMeaning.eval_conjunction]
        exact all_dedupe (eval_eq_of_same_right m) hps
    | disjunction parts =>
      simp only [removeDuplicates] at h
      split at h
      · next hc =>
        rw [← Option.some.inj h, eval_always, LeafMeaning.eval_disjunction,
          any_of_hasComplement m hc]
      · obtain ⟨ps, hps, rfl⟩ := Option.map_eq_some_iff.1 h
        rw [LeafMeaning.eval_disjunction, LeafMeaning.eval_disjunction]
        exact any_dedupe (eval_eq_of_same_right m) hps
    | _ => simp [removeDuplicates] at h
  leaves_sub {e e'} h l hl := by
    cases e with
    | conjunction parts =>
      simp only [removeDuplicates] at h
      split at h
      · simp [← Option.some.inj h] at hl
      · obtain ⟨ps, hps, rfl⟩ := Option.map_eq_some_iff.1 h
        exact .inl (leaves_conjunction_of_subset (subset_of_dedupe hps) l hl)
    | disjunction parts =>
      simp only [removeDuplicates] at h
      split at h
      · simp [← Option.some.inj h] at hl
      · obtain ⟨ps, hps, rfl⟩ := Option.map_eq_some_iff.1 h
        exact .inl (leaves_disjunction_of_subset (subset_of_dedupe hps) l hl)
    | _ => simp [removeDuplicates] at h

/-! ## Negation -/

theorem negated?_eq_some {e x : Expr} : negated? e = some x ↔ e = .negation x := by
  cases e <;> simp [negated?]

/-- A list of negations is the list of what they negate, each negated. -/
theorem eq_map_negation {parts : List Expr} (h : (parts.all fun x => (negated? x).isSome) = true) :
    parts = (parts.filterMap negated?).map .negation := by
  induction parts with
  | nil => rfl
  | cons e es ih =>
    simp only [List.all_cons, Bool.and_eq_true] at h
    obtain ⟨x, hx⟩ := Option.isSome_iff_exists.1 h.1
    rw [List.filterMap_cons_some hx, List.map_cons, ← ih h.2, ← negated?_eq_some.1 hx]

theorem sound_deMorgan : Sound deMorgan where
  eval_eq m e e' h := by
    unfold deMorgan at h
    split at h
    · rw [← Option.some.inj h]
      simp only [LeafMeaning.eval_conjunction, LeafMeaning.eval_negation,
        LeafMeaning.eval_disjunction, List.all_map, List.not_any_eq_all_not]
      rfl
    · next d es =>
      simp only [Option.ite_none_right_eq_some, Option.some.injEq] at h
      have hparts := eq_map_negation h.1
      generalize (d :: es).filterMap negated? = xs at h hparts
      rw [← h.2, hparts]
      simp [List.all_map, Function.comp_def, List.not_all_eq_any_not]
    · contradiction
  leaves_sub {e e'} h l hl := by
    unfold deMorgan at h
    split at h
    · rw [← Option.some.inj h, Expr.leaves_conjunction, List.flatMap_map] at hl
      exact .inl (by simpa using hl)
    · next d es =>
      simp only [Option.ite_none_right_eq_some, Option.some.injEq] at h
      rw [← h.2] at hl
      rw [eq_map_negation h.1]
      exact .inl (by simpa [List.flatMap_map] using hl)
    · contradiction

/-! ## Sets of tags -/

theorem tagsOf?_eq_some {e : Expr} {kind : TagKind} {tags : TagSet} :
    tagsOf? e = some (kind, tags) ↔ e = ofTags kind tags := by
  cases e <;> cases kind <;> simp [tagsOf?, ofTags]

theorem negatedTagsOf?_eq_some {e : Expr} {kind : TagKind} {tags : TagSet} :
    negatedTagsOf? e = some (kind, tags) ↔ e = ofNegatedTags kind tags := by
  cases e <;> simp [negatedTagsOf?, ofNegatedTags, tagsOf?_eq_some]

/-- The tags of one kind among the parts that `pick` recognizes. -/
theorem mem_tagsAmong {pick : Expr → Option (TagKind × TagSet)} {kind : TagKind}
    {parts : List Expr} {t : String} :
    t ∈ tagsAmong pick kind parts ↔ ∃ e ∈ parts, ∃ tags, pick e = some (kind, tags) ∧ t ∈ tags := by
  simp only [tagsAmong, TagSet.mem_unions, List.mem_map, List.mem_filter, List.mem_filterMap,
    beq_iff_eq]
  constructor
  · rintro ⟨_, ⟨⟨_, tags⟩, ⟨⟨e, he, hpick⟩, rfl⟩, rfl⟩, ht⟩
    exact ⟨e, he, tags, hpick, ht⟩
  · rintro ⟨e, he, tags, hpick, ht⟩
    exact ⟨tags, ⟨(kind, tags), ⟨⟨e, he, hpick⟩, rfl⟩, rfl⟩, ht⟩

/-- A reading of parts under which `pick` finds the sets of tags, and `wrap` builds them. -/
structure Picks (m : LeafMeaning) (pick : Expr → Option (TagKind × TagSet))
    (wrap : TagKind → TagSet → Expr) (q : Expr → Bool) : Prop where
  pick_eq : ∀ {e kind tags}, pick e = some (kind, tags) → q e = m.meets kind tags
  wrap_eq : ∀ kind tags, q (wrap kind tags) = m.meets kind tags

theorem picks_tags (m : LeafMeaning) : Picks m tagsOf? ofTags m.eval where
  pick_eq h := by rw [tagsOf?_eq_some.1 h, LeafMeaning.eval_ofTags]
  wrap_eq := m.eval_ofTags

theorem picks_negatedTags (m : LeafMeaning) :
    Picks m negatedTagsOf? ofNegatedTags fun e => !m.eval e where
  pick_eq h := by rw [negatedTagsOf?_eq_some.1 h, LeafMeaning.eval_ofNegatedTags, Bool.not_not]
  wrap_eq kind tags := by rw [LeafMeaning.eval_ofNegatedTags, Bool.not_not]

/-- What is merged holds of some part in place of the first of its kind. -/
theorem any_mergeFrom {pick : Expr → Option (TagKind × TagSet)} {whole : TagKind → Expr}
    {q : Expr → Bool} (seen : List TagKind) (parts : List Expr) :
    (mergeFrom pick whole seen parts).any q =
      parts.any fun e =>
        match pick e with
        | none => q e
        | some (kind, _) => decide (kind ∉ seen) && q (whole kind) := by
  induction parts generalizing seen with
  | nil => rfl
  | cons e es ih =>
    simp only [mergeFrom, List.any_cons]
    cases hpick : pick e with
    | none => simp [ih]
    | some p =>
      obtain ⟨kind, tags⟩ := p
      by_cases hseen : kind ∈ seen
      · simp [hseen, ih]
      · simp only [hseen, if_false, List.any_cons, ih, not_false_eq_true, decide_true,
          Bool.true_and]
        cases hq : q (whole kind) with
        | true => simp
        | false =>
          -- where the merged tree is false, it does not matter that its kind has been seen
          refine congrArg (fun r => false || es.any r) (funext fun d => ?_)
          cases pick d with
          | none => rfl
          | some p =>
            by_cases hkind : p.1 = kind
            · simp [hkind, hq]
            · simp [hkind]

theorem mem_mergeFrom {pick : Expr → Option (TagKind × TagSet)} {whole : TagKind → Expr}
    {seen : List TagKind} {parts : List Expr} {x : Expr}
    (h : x ∈ mergeFrom pick whole seen parts) : x ∈ parts ∨ ∃ kind, x = whole kind := by
  induction parts generalizing seen with
  | nil => simp [mergeFrom] at h
  | cons e es ih =>
    have hcons : x ∈ es ∨ (∃ kind, x = whole kind) → x ∈ e :: es ∨ ∃ kind, x = whole kind :=
      Or.imp (List.mem_cons_of_mem _) id
    simp only [mergeFrom] at h
    split at h
    · rcases List.mem_cons.1 h with rfl | h
      · exact .inl List.mem_cons_self
      · exact hcons (ih h)
    · next kind _ _ =>
      split at h
      · exact hcons (ih h)
      · rcases List.mem_cons.1 h with rfl | h
        · exact .inr ⟨kind, rfl⟩
        · exact hcons (ih h)

theorem merge_eq_some {pick : Expr → Option (TagKind × TagSet)} {wrap : TagKind → TagSet → Expr}
    {parts merged : List Expr} (h : merge pick wrap parts = some merged) :
    merged = mergeFrom pick (fun kind => wrap kind (tagsAmong pick kind parts)) [] parts := by
  simp only [merge, Option.ite_none_left_eq_some, Option.some.injEq] at h
  exact h.2.symm

/-- Merging sets of tags keeps whether some part holds. -/
theorem any_merge {m : LeafMeaning} {pick : Expr → Option (TagKind × TagSet)}
    {wrap : TagKind → TagSet → Expr} {q : Expr → Bool} (hq : Picks m pick wrap q)
    {parts merged : List Expr} (h : merge pick wrap parts = some merged) :
    merged.any q = parts.any q := by
  rw [merge_eq_some h, any_mergeFrom, Bool.eq_iff_iff]
  simp only [List.any_eq_true]
  constructor
  · rintro ⟨e, he, htrue⟩
    split at htrue
    · exact ⟨e, he, htrue⟩
    · next kind _ _ =>
      simp only [Bool.and_eq_true, hq.wrap_eq, LeafMeaning.meets_iff] at htrue
      obtain ⟨_, t, ht, hhas⟩ := htrue
      obtain ⟨d, hd, tags, hpick, htd⟩ := mem_tagsAmong.1 ht
      exact ⟨d, hd, (hq.pick_eq hpick).trans (m.meets_iff.2 ⟨t, htd, hhas⟩)⟩
  · rintro ⟨e, he, htrue⟩
    refine ⟨e, he, ?_⟩
    split
    · exact htrue
    · next kind tags hpick =>
      rw [hq.pick_eq hpick, m.meets_iff] at htrue
      obtain ⟨t, ht, hhas⟩ := htrue
      simp only [Bool.and_eq_true, hq.wrap_eq, LeafMeaning.meets_iff]
      exact ⟨by simp, t, mem_tagsAmong.2 ⟨e, he, tags, hpick, ht⟩, hhas⟩

/-- The only leaf of a leaf about tags, negated or not, is the leaf about these tags. -/
theorem eq_of_mem_leaves_ofTags {kind : TagKind} {tags : TagSet} {l : Expr}
    (h : l ∈ (ofTags kind tags).leaves) : l = ofTags kind tags := by
  cases kind <;> simpa [ofTags, Expr.leaves] using h

theorem leaves_ofNegatedTags (kind : TagKind) (tags : TagSet) :
    (ofNegatedTags kind tags).leaves = (ofTags kind tags).leaves := rfl

/-- Merging adds no leaves other than sets of tags. -/
theorem leaves_merge {pick : Expr → Option (TagKind × TagSet)} {wrap : TagKind → TagSet → Expr}
    (hwrap : ∀ kind tags, (wrap kind tags).leaves = (ofTags kind tags).leaves)
    {parts merged : List Expr} (h : merge pick wrap parts = some merged) {l : Expr}
    (hl : l ∈ merged.flatMap Expr.leaves) :
    l ∈ parts.flatMap Expr.leaves ∨ ∃ kind tags, l = ofTags kind tags := by
  obtain ⟨x, hx, hlx⟩ := mem_leaves_group.1 hl
  rw [merge_eq_some h] at hx
  rcases mem_mergeFrom hx with hmem | ⟨kind, rfl⟩
  · exact .inl (mem_leaves_group.2 ⟨x, hmem, hlx⟩)
  · rw [hwrap] at hlx
    exact .inr ⟨kind, _, eq_of_mem_leaves_ofTags hlx⟩

theorem sound_combineTagSets : Sound combineTagSets where
  eval_eq m e e' h := by
    cases e with
    | conjunction parts =>
      obtain ⟨merged, hmerge, rfl⟩ := Option.map_eq_some_iff.1 h
      have hany := any_merge (picks_negatedTags m) hmerge
      simpa [← List.not_all_eq_any_not] using hany
    | disjunction parts =>
      obtain ⟨merged, hmerge, rfl⟩ := Option.map_eq_some_iff.1 h
      simpa using any_merge (picks_tags m) hmerge
    | _ => simp [combineTagSets] at h
  leaves_sub {e e'} h l hl := by
    cases e with
    | conjunction parts =>
      obtain ⟨merged, hmerge, rfl⟩ := Option.map_eq_some_iff.1 h
      rw [Expr.leaves_conjunction] at hl ⊢
      exact leaves_merge leaves_ofNegatedTags hmerge hl
    | disjunction parts =>
      obtain ⟨merged, hmerge, rfl⟩ := Option.map_eq_some_iff.1 h
      rw [Expr.leaves_disjunction] at hl ⊢
      exact leaves_merge (fun _ _ => rfl) hmerge hl
    | _ => simp [combineTagSets] at h

/-! ## Decided tags -/

/-- Tags that are not there do not matter. -/
theorem meets_diff (m : LeafMeaning) {kind : TagKind} {tags decided : TagSet}
    (h : m.meets kind decided = false) : m.meets kind (tags.diff decided) = m.meets kind tags := by
  rw [← Bool.not_eq_true, m.meets_iff] at h
  rw [Bool.eq_iff_iff, m.meets_iff, m.meets_iff]
  constructor
  · rintro ⟨t, ht, hhas⟩
    exact ⟨t, (TagSet.mem_diff.1 ht).1, hhas⟩
  · rintro ⟨t, ht, hhas⟩
    exact ⟨t, TagSet.mem_diff.2 ⟨ht, fun hd => h ⟨t, hd, hhas⟩⟩, hhas⟩

theorem reducePart_eq {target : Expr → Option (TagKind × TagSet)} {decided : TagKind → TagSet}
    {wrap : TagKind → TagSet → Expr} {m : LeafMeaning} {q : Expr → Bool}
    (hq : Picks m target wrap q) (hd : ∀ kind, m.meets kind (decided kind) = false) (e : Expr) :
    q (reducePart target decided wrap e) = q e := by
  unfold reducePart
  split
  · next kind tags htarget =>
    split
    · rfl
    · rw [hq.wrap_eq, meets_diff m (hd kind), hq.pick_eq htarget]
  · rfl

/-- Taking out tags that a sibling decides keeps whether all parts hold. -/
theorem all_reduce {m : LeafMeaning} {target decider : Expr → Option (TagKind × TagSet)}
    {wrap : TagKind → TagSet → Expr} {q : Expr → Bool} (hq : Picks m target wrap q)
    (hdecider : ∀ {e kind tags}, decider e = some (kind, tags) →
      target e = none ∧ q e = !m.meets kind tags)
    {parts reduced : List Expr} (h : reduce target decider wrap parts = some reduced) :
    reduced.all q = parts.all q := by
  simp only [reduce, Option.ite_none_right_eq_some, Option.some.injEq] at h
  rw [← h.2, List.all_map]
  by_cases hd : ∀ kind, m.meets kind (tagsAmong decider kind parts) = false
  · exact congrArg parts.all (funext fun e => reducePart_eq hq hd e)
  · -- a sibling decides against a tag that is there, and so it is false before and after
    simp only [Classical.not_forall, Bool.not_eq_false, LeafMeaning.meets_iff] at hd
    obtain ⟨kind, t, ht, hhas⟩ := hd
    obtain ⟨e, he, tags, hpick, hte⟩ := mem_tagsAmong.1 ht
    obtain ⟨htarget, hvalue⟩ := hdecider hpick
    rw [m.meets_iff.2 ⟨t, hte, hhas⟩] at hvalue
    have hsame : reducePart target (fun kind => tagsAmong decider kind parts) wrap e = e := by
      simp [reducePart, htarget]
    rw [List.all_eq_false.2 ⟨e, he, by simp [hsame, hvalue]⟩,
      List.all_eq_false.2 ⟨e, he, by simp [hvalue]⟩]

/-- Taking out tags adds no leaves other than sets of tags. -/
theorem leaves_reduce {target decider : Expr → Option (TagKind × TagSet)}
    {wrap : TagKind → TagSet → Expr}
    (hwrap : ∀ kind tags, (wrap kind tags).leaves = (ofTags kind tags).leaves)
    {parts reduced : List Expr} (h : reduce target decider wrap parts = some reduced) {l : Expr}
    (hl : l ∈ reduced.flatMap Expr.leaves) :
    l ∈ parts.flatMap Expr.leaves ∨ ∃ kind tags, l = ofTags kind tags := by
  simp only [reduce, Option.ite_none_right_eq_some, Option.some.injEq] at h
  rw [← h.2] at hl
  obtain ⟨x, hx, hlx⟩ := mem_leaves_group.1 hl
  obtain ⟨e, he, rfl⟩ := List.mem_map.1 hx
  unfold reducePart at hlx
  split at hlx
  · split at hlx
    · exact .inl (mem_leaves_group.2 ⟨e, he, hlx⟩)
    · rw [hwrap] at hlx
      exact .inr ⟨_, _, eq_of_mem_leaves_ofTags hlx⟩
  · exact .inl (mem_leaves_group.2 ⟨e, he, hlx⟩)

theorem tagsOf?_ofNegatedTags (kind : TagKind) (tags : TagSet) :
    tagsOf? (ofNegatedTags kind tags) = none := rfl

theorem negatedTagsOf?_ofTags (kind : TagKind) (tags : TagSet) :
    negatedTagsOf? (ofTags kind tags) = none := by
  cases kind <;> rfl

theorem sound_reduceTagSets : Sound reduceTagSets where
  eval_eq m e e' h := by
    cases e with
    | conjunction parts =>
      obtain ⟨reduced, hreduce, rfl⟩ := Option.map_eq_some_iff.1 h
      rw [LeafMeaning.eval_conjunction, LeafMeaning.eval_conjunction]
      refine all_reduce (picks_tags m) (fun hpick => ?_) hreduce
      rw [negatedTagsOf?_eq_some.1 hpick]
      exact ⟨tagsOf?_ofNegatedTags _ _, m.eval_ofNegatedTags _ _⟩
    | disjunction parts =>
      obtain ⟨reduced, hreduce, rfl⟩ := Option.map_eq_some_iff.1 h
      have hdecider {d : Expr} {kind : TagKind} {tags : TagSet}
          (hpick : tagsOf? d = some (kind, tags)) :
          negatedTagsOf? d = none ∧ (!m.eval d) = !m.meets kind tags := by
        rw [tagsOf?_eq_some.1 hpick]
        exact ⟨negatedTagsOf?_ofTags _ _, congrArg _ (m.eval_ofTags _ _)⟩
      have hall := all_reduce (picks_negatedTags m) hdecider hreduce
      simpa [← List.not_any_eq_all_not] using hall
    | _ => simp [reduceTagSets] at h
  leaves_sub {e e'} h l hl := by
    cases e with
    | conjunction parts =>
      obtain ⟨reduced, hreduce, rfl⟩ := Option.map_eq_some_iff.1 h
      rw [Expr.leaves_conjunction] at hl ⊢
      exact leaves_reduce (fun _ _ => rfl) hreduce hl
    | disjunction parts =>
      obtain ⟨reduced, hreduce, rfl⟩ := Option.map_eq_some_iff.1 h
      rw [Expr.leaves_disjunction] at hl ⊢
      exact leaves_reduce leaves_ofNegatedTags hreduce hl
    | _ => simp [reduceTagSets] at h

/-! ## All passes -/

/-- Every pass is sound. -/
theorem sound_of_mem_all {p : Pass} (h : p ∈ all) : Sound p.transform := by
  simp only [all, List.mem_cons, List.not_mem_nil, or_false] at h
  rcases h with rfl | rfl | rfl | rfl | rfl | rfl | rfl
  · exact sound_eliminateUnits
  · exact sound_flattenNested
  · exact sound_eliminateDegenerate
  · exact sound_removeDuplicates
  · exact sound_deMorgan
  · exact sound_combineTagSets
  · exact sound_reduceTagSets

end Pass
end TagQuery
