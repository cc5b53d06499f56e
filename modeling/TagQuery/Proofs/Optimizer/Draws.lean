import Mathlib.Data.List.NodupEquivFin
import TagQuery.Proofs.Expr.Draws
import TagQuery.Proofs.Optimizer.Soundness

/-!
# The optimizer keeps samples apart

Every sample of an optimized tree is one of the samples of the tree it was made from, in the same
order, and the two trees have the same truth value however the samples are drawn. So no draw is made
twice, none is merged with another of the same portion, and none is cancelled against one.

Passes that compare parts pass over those with samples. Of these they neither drop nor repeat any,
and so their marks stay (`narrowsTo_group`). The other passes move parts to other places.

## Main definitions

- `Marked.Narrows`: a marked tree keeps some of the marks of another, and its truth value.
- `Expr.NarrowsTo`: whatever the marks of a tree, a rewriting keeps some of them and the truth
  value.
- `Expr.KeepsDraws`: the same, said of the positions of samples.

## Main statements

- `Pass.narrowsTo_of_mem_all`: every pass rewrites nodes in this way.
- `Expr.keepsDraws_optimize_and_visit`: so do the optimizer, and every pass alone.
-/

namespace TagQuery

open TagQuery.Expr (Group)

/-- Draws that agree with what is certain: a portion of one or more is always drawn, and one of zero
or less never. -/
def Fair {ι : Type} (draw : ι → Bool) (marks : List (ι × Real64)) : Prop :=
  ∀ s ∈ marks, (Real64.one.ble s.2 = true → draw s.1 = true) ∧
    (s.2.ble (.zero false) = true → draw s.1 = false)

theorem Fair.mono {ι : Type} {draw : ι → Bool} {marks marks' : List (ι × Real64)}
    (h : Fair draw marks) (hsub : ∀ s ∈ marks', s ∈ marks) : Fair draw marks' :=
  fun s hs => h s (hsub s hs)

/-! ## Narrowing marked trees -/

namespace Marked

variable {ι : Type}

/-- A marked tree keeps some of the marks of another in their order, and has the same truth value
under all fair draws. -/
structure Narrows (t t' : Marked ι) : Prop where
  sublist : t'.marks.Sublist t.marks
  value_eq : ∀ (m : LeafMeaning) (draw : ι → Bool), Fair draw t.marks →
    t'.value m.leaf draw = t.value m.leaf draw

theorem Narrows.refl (t : Marked ι) : Narrows t t :=
  ⟨List.Sublist.refl _, fun _ _ _ => rfl⟩

theorem Narrows.trans {s t u : Marked ι} (h : Narrows s t) (k : Narrows t u) : Narrows s u where
  sublist := k.sublist.trans h.sublist
  value_eq m draw hfair :=
    (k.value_eq m draw (hfair.mono fun _ hs => h.sublist.subset hs)).trans (h.value_eq m draw hfair)

theorem Narrows.negation {t t' : Marked ι} (h : Narrows t t') :
    Narrows (negation t) (negation t') where
  sublist := h.sublist
  value_eq m draw hfair := by rw [value_negation, value_negation, h.value_eq m draw hfair]

theorem Narrows.group (g : Group) {ts ts' : List (Marked ι)} (h : List.Forall₂ Narrows ts ts') :
    Narrows (group g ts) (group g ts') where
  sublist := by
    change (ts'.flatMap marks).Sublist (ts.flatMap marks)
    induction h with
    | nil => exact List.Sublist.refl _
    | cons hhead _ ih => exact hhead.sublist.append ih
  value_eq m draw hfair := by
    change Fair draw (ts.flatMap marks) at hfair
    rw [value_group, value_group]
    congr 1
    induction h with
    | nil => rfl
    | cons hhead _ ih =>
      rw [List.flatMap_cons] at hfair
      rw [List.all_cons, List.all_cons,
        hhead.value_eq m draw (hfair.mono fun _ hs => List.mem_append_left _ hs),
        ih (hfair.mono fun _ hs => List.mem_append_right _ hs)]

end Marked

/-! ## Narrowing trees -/

namespace Expr

/-- Whatever the marks of the first tree, some of them mark the second tree, with the same truth
value under all fair draws. -/
def NarrowsTo (e e' : Expr) : Prop :=
  ∀ (ι : Type) (t : Marked ι), t.tree = e → ∃ t' : Marked ι, t'.tree = e' ∧ t.Narrows t'

namespace NarrowsTo

theorem refl (e : Expr) : NarrowsTo e e :=
  fun _ t ht => ⟨t, ht, .refl t⟩

theorem trans {a b c : Expr} (h : NarrowsTo a b) (k : NarrowsTo b c) : NarrowsTo a c := by
  intro ι t ht
  obtain ⟨t', ht', hn⟩ := h ι t ht
  obtain ⟨t'', ht'', hn'⟩ := k ι t' ht'
  exact ⟨t'', ht'', hn.trans hn'⟩

theorem negation {e e' : Expr} (h : NarrowsTo e e') : NarrowsTo (.negation e) (.negation e') := by
  intro ι t ht
  obtain ⟨s, hs, rfl⟩ := Marked.exists_negation ht
  obtain ⟨s', rfl, hn⟩ := h ι s hs
  exact ⟨.negation s', rfl, hn.negation⟩

theorem group (g : Group) {es es' : List Expr} (h : List.Forall₂ NarrowsTo es es') :
    NarrowsTo (g.build es) (g.build es') := by
  intro ι t ht
  obtain ⟨ts, hts, rfl⟩ := Marked.exists_group ht
  suffices hparts : ∃ ts' : List (Marked ι),
      ts'.map Marked.tree = es' ∧ List.Forall₂ Marked.Narrows ts ts' by
    obtain ⟨ts', rfl, hn⟩ := hparts
    exact ⟨.group g ts', rfl, .group g hn⟩
  clear ht
  induction h generalizing ts with
  | nil =>
    obtain rfl := List.map_eq_nil_iff.1 hts
    exact ⟨[], rfl, .nil⟩
  | cons hhead _ ih =>
    obtain ⟨t, ts, rfl, rfl, hrest⟩ := List.map_eq_cons_iff.1 hts
    obtain ⟨t', rfl, hn⟩ := hhead ι t rfl
    obtain ⟨ts', rfl, hns⟩ := ih ts hrest
    exact ⟨t' :: ts', rfl, .cons hn hns⟩

theorem group_map (g : Group) {es : List Expr} {f : Expr → Expr} (h : ∀ e ∈ es, NarrowsTo e (f e)) :
    NarrowsTo (g.build es) (g.build (es.map f)) :=
  group g (List.forall₂_map_right_iff.2 (List.forall₂_same.2 h))

end NarrowsTo

/-! ## Parts without samples -/

/-- Trees without samples have to mean the same. -/
theorem narrowsTo_of_hasSample {e e' : Expr} (he : e.hasSample = false) (he' : e'.hasSample = false)
    (h : ∀ m : LeafMeaning, m.eval e' = m.eval e) : NarrowsTo e e' := by
  rintro ι t rfl
  refine ⟨.plain e' he', rfl, List.nil_sublist _, fun m draw _ => ?_⟩
  rw [Marked.value_of_hasSample _ _ he, Marked.value_of_hasSample _ _ he']
  exact h m

/-- A part that decides its group without any draw makes it constant. -/
theorem narrowsTo_of_decided {g : Group} {es : List Expr} {e' : Expr} (he' : e'.hasSample = false)
    (hvalue : ∀ m : LeafMeaning, m.eval e' = g.sign false)
    (h : ∀ m : LeafMeaning, ∃ x ∈ es, x.hasSample = false ∧ g.sign (m.eval x) = false) :
    NarrowsTo (g.build es) e' := by
  intro ι t ht
  obtain ⟨ts, rfl, rfl⟩ := Marked.exists_group ht
  refine ⟨.plain e' he', rfl, List.nil_sublist _, fun m draw _ => ?_⟩
  obtain ⟨x, hx, hplain, hfalse⟩ := h m
  obtain ⟨s, hs, rfl⟩ := List.mem_map.1 hx
  have hdecided : (ts.all fun t => g.sign (t.value m.leaf draw)) = false := by
    rw [List.all_eq_false]
    refine ⟨s, hs, ?_⟩
    rw [Marked.value_of_hasSample _ _ hplain, Bool.not_eq_true]
    exact hfalse
  rw [Marked.value_of_hasSample _ _ he', Marked.value_group, hdecided]
  exact hvalue m

def holdsPlain (m : LeafMeaning) (g : Group) (e : Expr) : Bool :=
  e.hasSample || g.sign (m.eval e)

/-- Marks on the parts with samples are marks on all parts. -/
theorem exists_marked_of_filter {ι : Type} (es : List Expr) (ts : List (Marked ι))
    (h : ts.map Marked.tree = es.filter hasSample) :
    ∃ ts' : List (Marked ι), ts'.map Marked.tree = es ∧
      ts'.filter (fun t => t.tree.hasSample) = ts := by
  induction es generalizing ts with
  | nil => exact ⟨[], rfl, (List.map_eq_nil_iff.1 h).symm⟩
  | cons e es ih =>
    cases he : e.hasSample with
    | false =>
      rw [List.filter_cons_of_neg (by simp [he])] at h
      obtain ⟨ts', rfl, rfl⟩ := ih ts h
      exact ⟨.plain e he :: ts', rfl, List.filter_cons_of_neg (by simp [Marked.plain, he])⟩
    | true =>
      rw [List.filter_cons_of_pos he] at h
      obtain ⟨t, ts, rfl, rfl, hrest⟩ := List.map_eq_cons_iff.1 h
      obtain ⟨ts', rfl, rfl⟩ := ih ts hrest
      exact ⟨t :: ts', rfl, List.filter_cons_of_pos he⟩

/-- All marks are on the parts with samples. -/
theorem flatMap_marks_filter {ι : Type} (ts : List (Marked ι)) :
    (ts.filter fun t => t.tree.hasSample).flatMap Marked.marks = ts.flatMap Marked.marks := by
  induction ts with
  | nil => rfl
  | cons t ts ih =>
    cases ht : t.tree.hasSample with
    | false =>
      rw [List.filter_cons_of_neg (by simp [ht]), ih, List.flatMap_cons, Marked.marks_eq_nil ht,
        List.nil_append]
    | true =>
      rw [List.filter_cons_of_pos (by simp [ht]), List.flatMap_cons, ih,
        List.flatMap_cons]

/-- Draws decide about the parts with samples, and the leaves about the others. -/
theorem all_value_eq {ι : Type} (m : LeafMeaning) (draw : ι → Bool) (g : Group)
    (ts : List (Marked ι)) :
    (ts.all fun t => g.sign (t.value m.leaf draw)) =
      (((ts.filter fun t => t.tree.hasSample).all fun t => g.sign (t.value m.leaf draw)) &&
        (ts.map Marked.tree).all (holdsPlain m g)) := by
  induction ts with
  | nil => rfl
  | cons t ts ih =>
    rw [List.all_cons, ih, List.map_cons, List.all_cons, holdsPlain]
    cases ht : t.tree.hasSample with
    | false =>
      rw [List.filter_cons_of_neg (by simp [ht]), Marked.value_of_hasSample _ _ ht, Bool.false_or,
        Bool.and_left_comm]
      rfl
    | true =>
      rw [List.filter_cons_of_pos (by simp [ht]), List.all_cons, Bool.true_or,
        Bool.true_and, Bool.and_assoc]

/-- A group keeps its marks and its truth value if it keeps its parts with samples, and the meaning
of the others taken together. -/
theorem narrowsTo_group {g : Group} {es es' : List Expr}
    (hsampled : es'.filter hasSample = es.filter hasSample)
    (hplain : ∀ m : LeafMeaning, es'.all (holdsPlain m g) = es.all (holdsPlain m g)) :
    NarrowsTo (g.build es) (g.build es') := by
  intro ι t ht
  obtain ⟨ts, rfl, rfl⟩ := Marked.exists_group ht
  have htrees : (ts.filter fun t => t.tree.hasSample).map Marked.tree = es'.filter hasSample := by
    rw [hsampled, List.filter_map]
    rfl
  obtain ⟨ts', rfl, hfilter⟩ := exists_marked_of_filter es' _ htrees
  refine ⟨.group g ts', rfl, ?_, fun m draw _ => ?_⟩
  · change (ts'.flatMap Marked.marks).Sublist (ts.flatMap Marked.marks)
    rw [← flatMap_marks_filter ts', hfilter, flatMap_marks_filter]
  · rw [Marked.value_group, Marked.value_group, all_value_eq m draw g ts', all_value_eq m draw g ts,
      hfilter, hplain]

/-- Parts that are true without any draw do not count. -/
theorem narrowsTo_filter {g : Group} {c : Expr → Bool}
    (hc : ∀ x, c x = true → x.hasSample = false ∧ ∀ m : LeafMeaning, g.sign (m.eval x) = true)
    (es : List Expr) : NarrowsTo (g.build es) (g.build (es.filter fun x => !c x)) := by
  refine narrowsTo_group ?_ fun m => ?_
  · rw [List.filter_filter]
    refine List.filter_congr fun x _ => ?_
    cases hx : c x with
    | false => simp
    | true => simp [(hc x hx).1]
  · rw [List.all_filter, Bool.eq_iff_iff, List.all_eq_true, List.all_eq_true]
    refine forall₂_congr fun x _ => ?_
    cases hx : c x with
    | false => simp
    | true => simp [holdsPlain, (hc x hx).2 m]

end Expr

/-! ## Passes -/

namespace Pass

open TagQuery.Expr (NarrowsTo narrowsTo_of_hasSample narrowsTo_of_decided narrowsTo_group
  narrowsTo_filter holdsPlain)

/-! ### Constants -/

theorem narrowsTo_sample_of_one_le {p : Real64} (h : Real64.one.ble p = true) :
    NarrowsTo (.sample p) .always := by
  intro ι t ht
  obtain ⟨tree, marks, hportions⟩ := t
  obtain rfl : tree = .sample p := ht
  obtain ⟨⟨i, _⟩, hmarks, rfl⟩ := List.map_eq_singleton_iff.1 hportions
  obtain rfl := hmarks
  refine ⟨.plain .always rfl, rfl, List.nil_sublist _, fun m draw hfair => ?_⟩
  exact ((hfair _ List.mem_cons_self).1 h).symm

theorem narrowsTo_sample_of_le_zero {p : Real64} (h : p.ble (.zero false) = true) :
    NarrowsTo (.sample p) .never := by
  intro ι t ht
  obtain ⟨tree, marks, hportions⟩ := t
  obtain rfl : tree = .sample p := ht
  obtain ⟨⟨i, _⟩, hmarks, rfl⟩ := List.map_eq_singleton_iff.1 hportions
  obtain rfl := hmarks
  refine ⟨.plain .never rfl, rfl, List.nil_sublist _, fun m draw hfair => ?_⟩
  exact ((hfair _ List.mem_cons_self).2 h).symm

theorem narrowsTo_unitsOfConjunction {parts : List Expr} {e' : Expr}
    (h : unitsOfConjunction parts = some e') : NarrowsTo (.conjunction parts) e' := by
  unfold unitsOfConjunction at h
  split at h
  · next hany =>
    obtain ⟨x, hx, hnever⟩ := List.any_eq_true.1 hany
    obtain rfl := Option.some.inj h
    obtain rfl := eq_never_of_isNever hnever
    exact narrowsTo_of_decided (g := .all) rfl eval_never fun m => ⟨.never, hx, rfl, eval_never m⟩
  · simp only [Option.ite_none_right_eq_some, Option.some.injEq] at h
    rw [← h.2]
    refine narrowsTo_filter (g := .all) (fun x hx => ?_) parts
    obtain rfl := eq_always_of_isAlways hx
    exact ⟨rfl, eval_always⟩

theorem narrowsTo_unitsOfDisjunction {parts : List Expr} {e' : Expr}
    (h : unitsOfDisjunction parts = some e') : NarrowsTo (.disjunction parts) e' := by
  unfold unitsOfDisjunction at h
  split at h
  · next hany =>
    obtain ⟨x, hx, halways⟩ := List.any_eq_true.1 hany
    obtain rfl := Option.some.inj h
    obtain rfl := eq_always_of_isAlways halways
    exact narrowsTo_of_decided (g := .any) rfl eval_always fun m =>
      ⟨.always, hx, rfl, congrArg not (eval_always m)⟩
  · simp only [Option.ite_none_right_eq_some, Option.some.injEq] at h
    rw [← h.2]
    refine narrowsTo_filter (g := .any) (fun x hx => ?_) parts
    obtain rfl := eq_never_of_isNever hx
    exact ⟨rfl, fun m => congrArg not (eval_never m)⟩

theorem narrowsTo_eliminateUnits {e e' : Expr} (h : eliminateUnits e = some e') :
    NarrowsTo e e' := by
  cases e with
  | tag tags =>
    have hnever := h
    simp only [eliminateUnits, Option.ite_none_right_eq_some, Option.some.injEq] at hnever
    obtain rfl := hnever.2
    exact narrowsTo_of_hasSample rfl rfl fun m => sound_eliminateUnits.eval_eq m h
  | rejectedTag tags =>
    have hnever := h
    simp only [eliminateUnits, Option.ite_none_right_eq_some, Option.some.injEq] at hnever
    obtain rfl := hnever.2
    exact narrowsTo_of_hasSample rfl rfl fun m => sound_eliminateUnits.eval_eq m h
  | sample p =>
    by_cases hone : Real64.one.ble p = true
    · rw [eliminateUnits, if_pos hone] at h
      obtain rfl := Option.some.inj h
      exact narrowsTo_sample_of_one_le hone
    · rw [eliminateUnits, if_neg hone, Option.ite_none_right_eq_some] at h
      obtain rfl := Option.some.inj h.2
      exact narrowsTo_sample_of_le_zero h.1
  | conjunction parts => exact narrowsTo_unitsOfConjunction h
  | disjunction parts => exact narrowsTo_unitsOfDisjunction h
  | _ => simp [eliminateUnits] at h

/-! ### Groups -/

def partsOf? : Group → Expr → Option (List Expr)
  | .all => conjunctionParts?
  | .any => disjunctionParts?

theorem eq_build_of_partsOf? {g : Group} {e : Expr} {es : List Expr} (h : partsOf? g e = some es) :
    e = g.build es := by
  cases g with
  | all => exact eq_of_conjunctionParts?_eq_some h
  | any => exact eq_of_disjunctionParts?_eq_some h

/-- Groups inside a group of the same kind keep all marks. -/
theorem narrowsTo_splice (g : Group) {es es' : List Expr} (h : splice (partsOf? g) es = some es') :
    NarrowsTo (g.build es) (g.build es') := by
  intro ι t ht
  obtain ⟨ts, rfl, rfl⟩ := Marked.exists_group ht
  rw [splice_eq_some h]
  clear h ht
  suffices hparts : ∃ ts' : List (Marked ι),
      ts'.map Marked.tree = (ts.map Marked.tree).flatMap (fun e => (partsOf? g e).getD [e]) ∧
        ts'.flatMap Marked.marks = ts.flatMap Marked.marks ∧
        ∀ leaf draw, (ts'.all fun t => g.sign (t.value leaf draw)) =
          ts.all fun t => g.sign (t.value leaf draw) by
    obtain ⟨ts', htrees, hmarks, hall⟩ := hparts
    refine ⟨.group g ts', congrArg g.build htrees, ?_, fun m draw _ => ?_⟩
    · change (ts'.flatMap Marked.marks).Sublist (ts.flatMap Marked.marks)
      rw [hmarks]
    · rw [Marked.value_group, Marked.value_group, hall]
  induction ts with
  | nil => exact ⟨[], rfl, rfl, fun _ _ => rfl⟩
  | cons t ts ih =>
    obtain ⟨ts', htrees, hmarks, hall⟩ := ih
    rw [List.map_cons, List.flatMap_cons, List.flatMap_cons, ← htrees, ← hmarks]
    cases hinner : partsOf? g t.tree with
    | none =>
      refine ⟨t :: ts', rfl, rfl, fun leaf draw => ?_⟩
      rw [List.all_cons, List.all_cons, hall]
    | some es =>
      obtain ⟨inner, rfl, rfl⟩ := Marked.exists_group (eq_build_of_partsOf? hinner)
      refine ⟨inner ++ ts', List.map_append, List.flatMap_append, fun leaf draw => ?_⟩
      rw [List.all_append, List.all_cons, hall, Marked.value_group, Group.sign_sign]

theorem narrowsTo_flattenNested {e e' : Expr} (h : flattenNested e = some e') : NarrowsTo e e' := by
  cases e with
  | conjunction parts =>
    obtain ⟨ps, hps, rfl⟩ := Option.map_eq_some_iff.1 h
    exact narrowsTo_splice .all hps
  | disjunction parts =>
    obtain ⟨ps, hps, rfl⟩ := Option.map_eq_some_iff.1 h
    exact narrowsTo_splice .any hps
  | _ => simp [flattenNested] at h

theorem narrowsTo_single (g : Group) (e : Expr) : NarrowsTo (g.build [e]) e := by
  intro ι t ht
  obtain ⟨ts, hts, rfl⟩ := Marked.exists_group ht
  obtain ⟨s, rfl, rfl⟩ := List.map_eq_singleton_iff.1 hts
  refine ⟨s, rfl, ?_, fun m draw _ => ?_⟩
  · change s.marks.Sublist (List.flatMap Marked.marks [s])
    rw [List.flatMap_singleton]
  · simp [Marked.value_group]

theorem narrowsTo_negation_negation (e : Expr) : NarrowsTo (.negation (.negation e)) e := by
  intro ι t ht
  obtain ⟨s, hs, rfl⟩ := Marked.exists_negation ht
  obtain ⟨r, rfl, rfl⟩ := Marked.exists_negation hs
  refine ⟨r, rfl, List.Sublist.refl _, fun m draw _ => ?_⟩
  rw [Marked.value_negation, Marked.value_negation, Bool.not_not]

theorem narrowsTo_eliminateDegenerate {e e' : Expr} (h : eliminateDegenerate e = some e') :
    NarrowsTo e e' := by
  have hsound := fun m => sound_eliminateDegenerate.eval_eq m h
  unfold eliminateDegenerate at h
  split at h
  · exact Option.some.inj h ▸ narrowsTo_negation_negation _
  · exact Option.some.inj h ▸ narrowsTo_of_hasSample rfl rfl (Option.some.inj h ▸ hsound)
  · exact Option.some.inj h ▸ narrowsTo_of_hasSample rfl rfl (Option.some.inj h ▸ hsound)
  · exact Option.some.inj h ▸ narrowsTo_single .all _
  · exact Option.some.inj h ▸ narrowsTo_single .any _
  · contradiction

/-! ### Repetition -/

/-- A part next to its negation, both without samples, decides every group. -/
theorem exists_decided {g : Group} (m : LeafMeaning) {parts : List Expr}
    (h : hasComplement parts = true) :
    ∃ x ∈ parts, x.hasSample = false ∧ g.sign (m.eval x) = false := by
  obtain ⟨y, hy, hcase⟩ := List.any_eq_true.1 h
  split at hcase
  · next e =>
    simp only [Bool.and_eq_true, Bool.not_eq_true'] at hcase
    obtain ⟨x, hx, hsame⟩ := isAmong_iff.1 hcase.2
    cases hvalue : g.sign (m.eval e) with
    | false =>
      refine ⟨x, hx, (Expr.hasSample_eq_of_same hsame).trans hcase.1, ?_⟩
      rw [eval_eq_of_same_right m hcase.1 hsame, hvalue]
    | true =>
      refine ⟨.negation e, hy, hcase.1, ?_⟩
      rw [LeafMeaning.eval_negation, Group.sign_not, hvalue]
      rfl
  · contradiction

theorem filter_hasSample_foldl_addDistinct (es kept : List Expr) :
    (es.foldl addDistinct kept).filter Expr.hasSample =
      kept.filter Expr.hasSample ++ es.filter Expr.hasSample := by
  induction es generalizing kept with
  | nil => simp
  | cons e es ih =>
    rw [List.foldl_cons, ih, addDistinct]
    split
    · next h =>
      simp only [Bool.and_eq_true, Bool.not_eq_true'] at h
      rw [List.filter_cons_of_neg (by simp [h.1])]
    · rw [List.filter_append, List.append_assoc, ← List.filter_append, List.singleton_append]

/-- Parts with samples are never repetitions. -/
theorem narrowsTo_dedupe (g : Group) {parts ps : List Expr} (h : dedupe parts = some ps) :
    NarrowsTo (g.build parts) (g.build ps) := by
  refine narrowsTo_group ?_ fun m => ?_
  · have heq := h
    simp only [dedupe, Option.ite_none_left_eq_some, Option.some.injEq] at heq
    rw [← heq.2, filter_hasSample_foldl_addDistinct]
    rfl
  · have hsame {x e : Expr} (he : e.hasSample = false) (hxe : x.same e = true) :
        holdsPlain m g x = holdsPlain m g e := by
      rw [holdsPlain, holdsPlain, Expr.hasSample_eq_of_same hxe, eval_eq_of_same_right m he hxe]
    exact all_dedupe hsame h

theorem narrowsTo_removeDuplicates {e e' : Expr} (h : removeDuplicates e = some e') :
    NarrowsTo e e' := by
  cases e with
  | conjunction parts =>
    rw [removeDuplicates] at h
    split at h
    · next hc =>
      obtain rfl := Option.some.inj h
      exact narrowsTo_of_decided (g := .all) rfl eval_never fun m => exists_decided m hc
    · obtain ⟨ps, hps, rfl⟩ := Option.map_eq_some_iff.1 h
      exact narrowsTo_dedupe .all hps
  | disjunction parts =>
    rw [removeDuplicates] at h
    split at h
    · next hc =>
      obtain rfl := Option.some.inj h
      exact narrowsTo_of_decided (g := .any) rfl eval_always fun m => exists_decided m hc
    · obtain ⟨ps, hps, rfl⟩ := Option.map_eq_some_iff.1 h
      exact narrowsTo_dedupe .any hps
  | _ => simp [removeDuplicates] at h

/-! ### Negation -/

theorem narrowsTo_negated_group (g : Group) (es : List Expr) :
    NarrowsTo (.negation (g.build es)) (g.dual.build (es.map .negation)) := by
  intro ι t ht
  obtain ⟨s, hs, rfl⟩ := Marked.exists_negation ht
  obtain ⟨ts, rfl, rfl⟩ := Marked.exists_group hs
  refine ⟨.group g.dual (ts.map .negation), ?_, ?_, fun m draw _ => ?_⟩
  · change g.dual.build ((ts.map Marked.negation).map Marked.tree) = _
    rw [List.map_map, List.map_map]
    rfl
  · change ((ts.map Marked.negation).flatMap Marked.marks).Sublist (ts.flatMap Marked.marks)
    rw [List.flatMap_map]
    exact List.Sublist.refl _
  · simp [Marked.value_group, Marked.value_negation, List.all_map, Function.comp_def]

/-- A negated group of negations is the other group of what they negate. -/
theorem narrowsTo_negated_negations (g : Group) (es : List Expr) :
    NarrowsTo (.negation (g.build (es.map .negation))) (g.dual.build es) := by
  refine (narrowsTo_negated_group g _).trans ?_
  rw [List.map_map]
  exact .group _ (List.forall₂_map_left_iff.2
    (List.forall₂_same.2 fun e _ => narrowsTo_negation_negation e))

theorem narrowsTo_deMorgan {e e' : Expr} (h : deMorgan e = some e') : NarrowsTo e e' := by
  unfold deMorgan at h
  split at h
  · exact Option.some.inj h ▸ narrowsTo_negated_group .any _
  · next d es =>
    simp only [Option.ite_none_right_eq_some, Option.some.injEq] at h
    have hnegations := narrowsTo_negated_negations .all ((d :: es).filterMap negated?)
    rw [← eq_map_negation h.1] at hnegations
    exact h.2 ▸ hnegations
  · contradiction

/-! ### Sets of tags -/

theorem hasSample_ofTags (kind : TagKind) (tags : TagSet) :
    (ofTags kind tags).hasSample = false := by
  cases kind <;> rfl

theorem hasSample_ofNegatedTags (kind : TagKind) (tags : TagSet) :
    (ofNegatedTags kind tags).hasSample = false :=
  hasSample_ofTags kind tags

theorem hasSample_of_tagsOf? {e : Expr} {p : TagKind × TagSet} (h : tagsOf? e = some p) :
    e.hasSample = false := by
  rw [tagsOf?_eq_some.1 h]
  exact hasSample_ofTags p.1 p.2

theorem hasSample_of_negatedTagsOf? {e : Expr} {p : TagKind × TagSet}
    (h : negatedTagsOf? e = some p) : e.hasSample = false := by
  rw [negatedTagsOf?_eq_some.1 h]
  exact hasSample_ofNegatedTags p.1 p.2

section
variable {pick : Expr → Option (TagKind × TagSet)} {wrap : TagKind → TagSet → Expr}
  (hpick : ∀ {e p}, pick e = some p → e.hasSample = false)
  (hwrap : ∀ kind tags, (wrap kind tags).hasSample = false)
include hpick hwrap

theorem filter_hasSample_mergeFrom (tags : TagKind → TagSet) (seen : List TagKind)
    (parts : List Expr) :
    (mergeFrom pick (fun kind => wrap kind (tags kind)) seen parts).filter Expr.hasSample =
      parts.filter Expr.hasSample := by
  induction parts generalizing seen with
  | nil => rfl
  | cons e es ih =>
    rw [mergeFrom]
    split
    · rw [List.filter_cons, List.filter_cons, ih]
    · next hsome =>
      rw [List.filter_cons_of_neg (by simp [hpick hsome])]
      split
      · exact ih _
      · rw [List.filter_cons_of_neg (by simp [hwrap]), ih]

theorem filter_hasSample_reducePart (decided : TagKind → TagSet) (parts : List Expr) :
    (parts.map (reducePart pick decided wrap)).filter Expr.hasSample =
      parts.filter Expr.hasSample := by
  induction parts with
  | nil => rfl
  | cons e es ih =>
    rw [List.map_cons, reducePart]
    split
    · next hsome =>
      rw [List.filter_cons_of_neg (a := e) (by simp [hpick hsome])]
      split
      · rw [List.filter_cons_of_neg (by simp [hpick hsome]), ih]
      · rw [List.filter_cons_of_neg (by simp [hwrap]), ih]
    · rw [List.filter_cons, List.filter_cons, ih]

/-- Merging sets of tags passes over parts with samples. -/
theorem narrowsTo_merge {g : Group}
    (hq : ∀ m : LeafMeaning, Picks m pick wrap fun e => !holdsPlain m g e)
    {parts merged : List Expr} (h : merge pick wrap parts = some merged) :
    NarrowsTo (g.build parts) (g.build merged) := by
  refine narrowsTo_group ?_ fun m => ?_
  · rw [merge_eq_some h]
    exact filter_hasSample_mergeFrom hpick hwrap _ _ parts
  · have hany := any_merge (hq m) h
    rwa [← List.not_all_eq_any_not, ← List.not_all_eq_any_not, Bool.not_inj_iff] at hany

/-- Taking out tags that a sibling decides passes over parts with samples. -/
theorem narrowsTo_reduce {g : Group} {decider : Expr → Option (TagKind × TagSet)}
    (hq : ∀ m : LeafMeaning, Picks m pick wrap (holdsPlain m g))
    (hdecider : ∀ (m : LeafMeaning) {e kind tags}, decider e = some (kind, tags) →
      pick e = none ∧ holdsPlain m g e = !m.meets kind tags)
    {parts reduced : List Expr} (h : reduce pick decider wrap parts = some reduced) :
    NarrowsTo (g.build parts) (g.build reduced) := by
  refine narrowsTo_group ?_ fun m => all_reduce (hq m) (hdecider m) h
  simp only [reduce, Option.ite_none_right_eq_some, Option.some.injEq] at h
  rw [← h.2]
  exact filter_hasSample_reducePart hpick hwrap _ parts

end

theorem holdsPlain_ofTags (m : LeafMeaning) (g : Group) (kind : TagKind) (tags : TagSet) :
    holdsPlain m g (ofTags kind tags) = g.sign (m.meets kind tags) := by
  rw [holdsPlain, hasSample_ofTags, LeafMeaning.eval_ofTags, Bool.false_or]

theorem holdsPlain_ofNegatedTags (m : LeafMeaning) (g : Group) (kind : TagKind) (tags : TagSet) :
    holdsPlain m g (ofNegatedTags kind tags) = g.sign (!m.meets kind tags) := by
  rw [holdsPlain, hasSample_ofNegatedTags, LeafMeaning.eval_ofNegatedTags, Bool.false_or]

theorem narrowsTo_combineTagSets {e e' : Expr} (h : combineTagSets e = some e') :
    NarrowsTo e e' := by
  cases e with
  | conjunction parts =>
    obtain ⟨merged, hmerge, rfl⟩ := Option.map_eq_some_iff.1 h
    refine narrowsTo_merge (g := .all) hasSample_of_negatedTagsOf? hasSample_ofNegatedTags
      (fun m => ⟨fun hpick => ?_, fun kind tags => ?_⟩) hmerge
    · rw [negatedTagsOf?_eq_some.1 hpick, holdsPlain_ofNegatedTags, Group.sign, id, Bool.not_not]
    · rw [holdsPlain_ofNegatedTags, Group.sign, id, Bool.not_not]
  | disjunction parts =>
    obtain ⟨merged, hmerge, rfl⟩ := Option.map_eq_some_iff.1 h
    refine narrowsTo_merge (g := .any) hasSample_of_tagsOf? hasSample_ofTags
      (fun m => ⟨fun hpick => ?_, fun kind tags => ?_⟩) hmerge
    · rw [tagsOf?_eq_some.1 hpick, holdsPlain_ofTags, Group.sign, Bool.not_not]
    · rw [holdsPlain_ofTags, Group.sign, Bool.not_not]
  | _ => simp [combineTagSets] at h

theorem narrowsTo_reduceTagSets {e e' : Expr} (h : reduceTagSets e = some e') :
    NarrowsTo e e' := by
  cases e with
  | conjunction parts =>
    obtain ⟨reduced, hreduce, rfl⟩ := Option.map_eq_some_iff.1 h
    refine narrowsTo_reduce (g := .all) hasSample_of_tagsOf? hasSample_ofTags
      (fun m => ⟨fun hpick => ?_, fun kind tags => ?_⟩) (fun m {d kind tags} hpick => ?_) hreduce
    · rw [tagsOf?_eq_some.1 hpick, holdsPlain_ofTags, Group.sign, id]
    · rw [holdsPlain_ofTags, Group.sign, id]
    · rw [negatedTagsOf?_eq_some.1 hpick]
      exact ⟨tagsOf?_ofNegatedTags kind tags, holdsPlain_ofNegatedTags m .all kind tags⟩
  | disjunction parts =>
    obtain ⟨reduced, hreduce, rfl⟩ := Option.map_eq_some_iff.1 h
    refine narrowsTo_reduce (g := .any) hasSample_of_negatedTagsOf? hasSample_ofNegatedTags
      (fun m => ⟨fun hpick => ?_, fun kind tags => ?_⟩) (fun m {d kind tags} hpick => ?_) hreduce
    · rw [negatedTagsOf?_eq_some.1 hpick, holdsPlain_ofNegatedTags, Group.sign, Bool.not_not]
    · rw [holdsPlain_ofNegatedTags, Group.sign, Bool.not_not]
    · rw [tagsOf?_eq_some.1 hpick]
      exact ⟨negatedTagsOf?_ofTags kind tags, holdsPlain_ofTags m .any kind tags⟩
  | _ => simp [reduceTagSets] at h

/-! ### All passes -/

/-- Every pass keeps samples apart. -/
theorem narrowsTo_of_mem_all {p : Pass} (hp : p ∈ all) {e e' : Expr}
    (h : p.transform e = some e') : NarrowsTo e e' := by
  simp only [all, List.mem_cons, List.not_mem_nil, or_false] at hp
  rcases hp with rfl | rfl | rfl | rfl | rfl | rfl | rfl
  · exact narrowsTo_eliminateUnits h
  · exact narrowsTo_flattenNested h
  · exact narrowsTo_eliminateDegenerate h
  · exact narrowsTo_removeDuplicates h
  · exact narrowsTo_deMorgan h
  · exact narrowsTo_combineTagSets h
  · exact narrowsTo_reduceTagSets h

end Pass

/-! ## Trees -/

namespace Expr

theorem narrowsTo_visit {p : Pass} (hp : p ∈ Pass.all) (e : Expr) :
    NarrowsTo e (visit p.transform e) :=
  visit_induction NarrowsTo.refl NarrowsTo.trans (fun _ _ => Pass.narrowsTo_of_mem_all hp)
    (fun _ _ => NarrowsTo.group_map .all) (fun _ _ => NarrowsTo.group_map .any)
    (fun _ _ => NarrowsTo.negation) e

theorem narrowsTo_optimize (maxSteps : Nat) (e : Expr) :
    NarrowsTo e ((Optimizer.withLimit maxSteps).optimize e) :=
  Optimizer.run_induction NarrowsTo.refl NarrowsTo.trans (fun _ => narrowsTo_visit) _ e

/-- The samples of the second tree are some of those of the first in their order, with their
portions. Whatever the other leaves mean and however the samples of the first tree are drawn, where
those of all or nothing are certain, the two trees have the same truth value. What a meaning says of
samples is not looked at. -/
def KeepsDraws (e e' : Expr) : Prop :=
  ∃ f : Fin e'.samples.length ↪o Fin e.samples.length,
    (∀ i, e'.samples.get i = e.samples.get (f i)) ∧
      ∀ (m : LeafMeaning) (draw : Fin e.samples.length → Bool),
        (∀ i, (Real64.one.ble (e.samples.get i) = true → draw i = true) ∧
          ((e.samples.get i).ble (.zero false) = true → draw i = false)) →
        e'.evalDrawn m.leaf (List.ofFn fun i => draw (f i)) = e.evalDrawn m.leaf (List.ofFn draw)

/-- Samples can be marked with their positions. -/
theorem keepsDraws_of_narrowsTo {e e' : Expr} (h : NarrowsTo e e') : KeepsDraws e e' := by
  let marks := List.ofFn fun i => (i, e.samples.get i)
  have hportions : marks.map Prod.snd = e.samples := by
    rw [List.map_ofFn]
    exact List.ofFn_get e.samples
  obtain ⟨t', rfl, hsub, hvalue⟩ := h _ ⟨e, marks, hportions⟩ rfl
  let positions := t'.marks.map Prod.fst
  have hlength : t'.tree.samples.length = positions.length := by
    rw [← t'.portions, List.length_map, List.length_map]
  have hordered : positions.Pairwise (· < ·) := by
    have hall : (marks.map Prod.fst).Pairwise (· < ·) := by
      rw [List.map_ofFn, List.pairwise_ofFn]
      exact fun i j hij => hij
    exact hall.sublist (hsub.map Prod.fst)
  have hmono : StrictMono fun i => positions.get (Fin.cast hlength i) := by
    intro i j hij
    exact List.pairwise_iff_get.1 hordered _ _ hij
  refine ⟨.ofStrictMono _ hmono, fun i => ?_, fun m draw hfair => ?_⟩
  · have hi : i.val < t'.marks.length := by
      rw [← List.length_map (f := Prod.fst)]
      exact hlength ▸ i.isLt
    obtain ⟨j, hj⟩ := List.mem_ofFn.1 (hsub.subset (List.getElem_mem hi))
    simp [positions, ← t'.portions, ← hj]
  · have hdraws : (List.ofFn fun i => draw (positions.get (Fin.cast hlength i))) =
        t'.marks.map fun s => draw s.1 := by
      refine List.ext_getElem ?_ fun i _ _ => ?_
      · simp [hlength, positions]
      · simp [positions]
    have hmarks : (marks.map fun s => draw s.1) = List.ofFn draw := List.map_ofFn
    rw [← hmarks]
    refine (congrArg _ hdraws).trans (hvalue m draw fun s hs => ?_)
    obtain ⟨i, rfl⟩ := List.mem_ofFn.1 hs
    exact hfair i

/-- The optimizer keeps draws, whatever the limit of steps, and so does every pass alone. -/
theorem keepsDraws_optimize_and_visit (e : Expr) :
    (∀ maxSteps, KeepsDraws e ((Optimizer.withLimit maxSteps).optimize e)) ∧
      ∀ pass ∈ Pass.all, KeepsDraws e ((e.transformUp pass.transform).getD e) :=
  ⟨fun maxSteps => keepsDraws_of_narrowsTo (narrowsTo_optimize maxSteps e),
    fun _ hpass => keepsDraws_of_narrowsTo (narrowsTo_visit hpass e)⟩

/-- Of two equal tags one is dropped, and of two equal samples beside them none. -/
theorem keepsDraws_optimize_and_visit_halves :
    let half : Real64 := .ofRatio false 1 2
    let e : Expr := .disjunction
      [.sample half, .tag (.singleton "cat"), .sample half, .tag (.singleton "cat")]
    let e' : Expr := (Optimizer.withLimit 8).optimize e
    let pass : Pass := ⟨"remove-duplicates", Pass.removeDuplicates⟩
    e'.size = 4 ∧ e'.samples = [half, half] ∧ KeepsDraws e e' ∧
      pass ∈ Pass.all ∧ KeepsDraws e ((e.transformUp pass.transform).getD e) := by
  intro half e e' pass
  have hpass : pass ∈ Pass.all := by simp [Pass.all, pass]
  exact ⟨by decide +kernel, by decide +kernel, (keepsDraws_optimize_and_visit e).1 8, hpass,
    (keepsDraws_optimize_and_visit e).2 pass hpass⟩

end Expr
end TagQuery
