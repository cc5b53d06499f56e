import TagQuery.Proofs.Compile.Results

/-!
# What a walk notes

A note is never taken back. So a walk that ends well has noted that the query names a hidden tag
exactly when one of the parts that it met does so on its own, and it meets all parts of the term and
of what the term refers to.

## Main definitions

- `Compiler.Notes`: when a computation that ends well has noted a hidden tag.
- `Term.conditions`: the conditions on properties in a term.
- `Term.HasPart`: a term has a field term or conditions of some kind.
- `Dialect.NotesParts`: which parts of a dialect note a hidden tag.

## Main statements

- `Dialect.walk_notes`: a walk notes what the parts of the term and its references do.
- `Dialect.compile_notes`: so does the meaning of a term with all that it leads to.
-/

namespace TagQuery

open Relation (ReflTransGen)

variable {α β : Type}

namespace Compiler

/-- A computation that ends well has noted a hidden tag exactly if `P` holds, or if one was noted
before. -/
def Notes (P : Prop) (m : Compiler α) : Prop :=
  ∀ ctx a, (m.runFrom ctx).1 = .ok a →
    ((m.runFrom ctx).2.mentionsHidden = true ↔ ctx.mentionsHidden = true ∨ P)

namespace Notes

variable {P Q : Prop} {m : Compiler α}

theorem congr (h : Notes P m) (hiff : P ↔ Q) : Notes Q m := by
  intro ctx a ha
  rw [h ctx a ha, hiff]

theorem pure (a : α) : Notes False (Pure.pure a : Compiler α) :=
  fun _ _ _ => (or_false _).symm.to_iff

theorem get : Notes False (MonadState.get : Compiler Context) :=
  fun _ _ _ => (or_false _).symm.to_iff

theorem throw (e : SearchError) : Notes P (throw e : Compiler α) := by
  rintro ctx a ⟨⟩

/-- The note may depend on an outcome that is there from the start. -/
theorem liftM_bind {outcome : Except SearchError α} {f : α → Compiler β} {R : α → Prop}
    (h : ∀ a, Notes (R a) (f a)) :
    Notes (∃ a, outcome = .ok a ∧ R a) (liftM outcome >>= f) := by
  cases outcome with
  | ok a =>
    refine Notes.congr (m := f a) (h a) ⟨fun ha => ⟨a, rfl, ha⟩, ?_⟩
    rintro ⟨_, ⟨⟩, ha⟩
    exact ha
  | error e => exact throw e

theorem liftM (outcome : Except SearchError α) : Notes False (liftM outcome : Compiler α) :=
  fun _ _ _ => (or_false _).symm.to_iff

theorem noteHidden : Notes True Compiler.noteHidden :=
  fun _ _ _ => ⟨fun _ => .inr trivial, fun _ => rfl⟩

theorem bind {f : α → Compiler β} (h : Notes P m) (hf : ∀ a, Notes Q (f a)) :
    Notes (P ∨ Q) (m >>= f) := by
  intro ctx b hb
  cases hm : m.runFrom ctx with
  | mk outcome between =>
    cases outcome with
    | ok a =>
      have hfirst := h ctx a (congrArg Prod.fst hm)
      rw [hm] at hfirst
      rw [runFrom_bind_of_ok hm] at hb ⊢
      rw [hf a between b hb, hfirst, or_assoc]
    | error e =>
      rw [runFrom_bind_of_error hm] at hb
      contradiction

/-- What is done with a result after all notes are made. -/
theorem bind_nothing {f : α → Compiler β} (h : Notes P m) (hf : ∀ a, Notes False (f a)) :
    Notes P (m >>= f) :=
  (h.bind hf).congr (or_false _).to_iff

/-- What is done before the first note. -/
theorem nothing_bind {f : α → Compiler β} (h : Notes False m) (hf : ∀ a, Notes P (f a)) :
    Notes P (m >>= f) :=
  (h.bind hf).congr (false_or _).to_iff

theorem mapM {ι : Type} {xs : List ι} {f : ι → Compiler α} {R : ι → Prop}
    (h : ∀ x ∈ xs, Notes (R x) (f x)) : Notes (∃ x ∈ xs, R x) (xs.mapM f) := by
  induction xs with
  | nil => exact (pure []).congr (by simp)
  | cons x xs ih =>
    obtain ⟨hx, hxs⟩ := List.forall_mem_cons.1 h
    have hcons : Notes (R x ∨ ∃ y ∈ xs, R y) ((x :: xs).mapM f) := by
      rw [List.mapM_cons]
      exact hx.bind fun a => (ih hxs).bind_nothing fun as => pure (a :: as)
    exact hcons.congr (List.exists_mem_cons_iff R x xs).symm

theorem whileExpanding {name : String} (h : Notes P m) : Notes P (m.whileExpanding name) :=
  fun _ a ha => h _ a ha

/-- A failure under a condition before all other steps. -/
theorem guarded {p : Prop} [Decidable p] {e : SearchError} {k : PUnit → Compiler α}
    (hk : Notes P (k ⟨⟩)) :
    Notes P (if p then (MonadExcept.throw e : Compiler PUnit) >>= k else k ⟨⟩) := by
  split
  · exact .nothing_bind (.throw e) fun _ => hk
  · exact hk

end Notes

end Compiler

namespace Term

/-! ## Parts of a term -/

mutual
def conditions : Term → List (List PropertyPredicate)
  | .conjunction terms => conditionsAll terms
  | .disjunction terms => conditionsAll terms
  | .negation t => conditions t
  | .properties ps => [ps]
  | _ => []
termination_by structural t => t

def conditionsAll : List Term → List (List PropertyPredicate)
  | [] => []
  | t :: ts => conditions t ++ conditionsAll ts
termination_by structural ts => ts
end

theorem conditionsAll_eq_flatMap (ts : List Term) : conditionsAll ts = ts.flatMap conditions := by
  induction ts with
  | nil => rfl
  | cons t ts ih => simp [conditionsAll, ih]

@[simp] theorem conditions_conjunction (terms : List Term) :
    conditions (.conjunction terms) = terms.flatMap conditions := conditionsAll_eq_flatMap terms

@[simp] theorem conditions_disjunction (terms : List Term) :
    conditions (.disjunction terms) = terms.flatMap conditions := conditionsAll_eq_flatMap terms

/-- A term has a field term or conditions of some kind. -/
def HasPart (F : FieldTerm → Prop) (C : List PropertyPredicate → Prop) (t : Term) : Prop :=
  (∃ f ∈ t.fields, F f) ∨ ∃ ps ∈ t.conditions, C ps

section
variable {F : FieldTerm → Prop} {C : List PropertyPredicate → Prop}

/-- A group has what one of its terms has. -/
theorem hasPart_group (terms : List Term) :
    ((∃ f ∈ terms.flatMap fields, F f) ∨ ∃ ps ∈ terms.flatMap conditions, C ps) ↔
      ∃ t ∈ terms, t.HasPart F C := by
  simp only [HasPart, List.mem_flatMap]
  constructor
  · rintro (⟨f, ⟨t, ht, hf⟩, h⟩ | ⟨ps, ⟨t, ht, hps⟩, h⟩)
    · exact ⟨t, ht, .inl ⟨f, hf, h⟩⟩
    · exact ⟨t, ht, .inr ⟨ps, hps, h⟩⟩
  · rintro ⟨t, ht, ⟨f, hf, h⟩ | ⟨ps, hps, h⟩⟩
    · exact .inl ⟨f, ⟨t, ht, hf⟩, h⟩
    · exact .inr ⟨ps, ⟨t, ht, hps⟩, h⟩

theorem hasPart_conjunction (terms : List Term) :
    HasPart F C (.conjunction terms) ↔ ∃ t ∈ terms, t.HasPart F C := by
  rw [← hasPart_group, HasPart, fields_conjunction, conditions_conjunction]

theorem hasPart_disjunction (terms : List Term) :
    HasPart F C (.disjunction terms) ↔ ∃ t ∈ terms, t.HasPart F C := by
  rw [← hasPart_group, HasPart, fields_disjunction, conditions_disjunction]

theorem references_of_isEmpty {t : Term} (h : t.isEmpty = true) : t.references = [] := by
  have hgroup {terms : List Term} (ih : ∀ t ∈ terms, t.isEmpty = true → t.references = [])
      (h : areEmpty terms = true) : terms.flatMap references = [] := by
    rw [areEmpty_eq_all, List.all_eq_true] at h
    exact List.flatMap_eq_nil_iff.2 fun t ht => ih t ht (h t ht)
  induction t using treeInduction with
  | conjunction terms ih => exact (references_conjunction terms).trans (hgroup ih h)
  | disjunction terms ih => exact (references_disjunction terms).trans (hgroup ih h)
  | negation | field | properties | saved => contradiction

theorem not_hasPart_of_isEmpty {t : Term} (h : t.isEmpty = true) : ¬t.HasPart F C := by
  have hgroup {terms : List Term} (ih : ∀ t ∈ terms, t.isEmpty = true → ¬t.HasPart F C)
      (h : areEmpty terms = true) : ¬∃ t ∈ terms, t.HasPart F C := by
    rw [areEmpty_eq_all, List.all_eq_true] at h
    rintro ⟨t, ht, hpart⟩
    exact ih t ht (h t ht) hpart
  induction t using treeInduction with
  | conjunction terms ih => exact mt (hasPart_conjunction terms).1 (hgroup ih h)
  | disjunction terms ih => exact mt (hasPart_disjunction terms).1 (hgroup ih h)
  | negation | field | properties | saved => contradiction

end

/-- What a term leads to is the term itself, or what something leads to that it refers to. -/
theorem exists_leadsTo_iff {saved : Table Term} {t : Term} {p : Term → Prop} :
    (∃ u, t.LeadsTo saved u ∧ p u) ↔ p t ∨ ∃ name ∈ t.references,
      ∃ v, saved.get? name = some v ∧ ∃ u, v.LeadsTo saved u ∧ p u := by
  constructor
  · rintro ⟨u, htu, hu⟩
    rcases htu.cases_head with rfl | ⟨v, ⟨name, hname, hv⟩, hvu⟩
    · exact .inl hu
    · exact .inr ⟨name, hname, v, hv, u, hvu, hu⟩
  · rintro (ht | ⟨name, hname, v, hv, u, hvu, hu⟩)
    · exact ⟨t, .refl, ht⟩
    · exact ⟨u, .head ⟨name, hname, hv⟩ hvu, hu⟩

end Term

/-! ## Walks -/

namespace Dialect

open Compiler (Notes)

/-- Of the parts of a dialect, field terms with `F` note a hidden tag and conditions with `C`, and
groups and negations do not. -/
structure NotesParts (d : Dialect α) (F : FieldTerm → Prop) (C : List PropertyPredicate → Prop) :
    Prop where
  conjunction (parts : List α) : Notes False (d.conjunction parts)
  disjunction (parts : List α) : Notes False (d.disjunction parts)
  negation (part : α) : Notes False (d.negation part)
  field (f : FieldTerm) : Notes (F f) (d.field f)
  properties (ps : List PropertyPredicate) : Notes (C ps) (d.properties ps)

variable {d : Dialect α} {F : FieldTerm → Prop} {C : List PropertyPredicate → Prop}
  {saved : Table Term}

/-- A walk notes a hidden tag for the parts of the term, and for its references. -/
theorem walk_notes (h : d.NotesParts F C) {ref : String → Compiler α} {R : String → Prop}
    (href : ∀ name, Notes (R name) (ref name)) (t : Term) :
    Notes (t.HasPart F C ∨ ∃ name ∈ t.references, R name) (d.walk ref t) := by
  have hgroup {terms : List Term}
      (ih : ∀ t ∈ terms, Notes (t.HasPart F C ∨ ∃ name ∈ t.references, R name) (d.walk ref t)) :
      Notes ((∃ t ∈ terms, t.HasPart F C) ∨ ∃ name ∈ terms.flatMap Term.references, R name)
        (d.walkAll ref terms) := by
    rw [walkAll_eq_mapM]
    refine (Notes.mapM ih).congr ?_
    simp only [List.mem_flatMap]
    constructor
    · rintro ⟨t, ht, hpart | ⟨name, hname, hR⟩⟩
      · exact .inl ⟨t, ht, hpart⟩
      · exact .inr ⟨name, ⟨t, ht, hname⟩, hR⟩
    · rintro (⟨t, ht, hpart⟩ | ⟨name, ⟨t, ht, hname⟩, hR⟩)
      · exact ⟨t, ht, .inl hpart⟩
      · exact ⟨t, ht, .inr ⟨name, hname, hR⟩⟩
  induction t using Term.treeInduction with
  | conjunction terms ih =>
    rw [Term.hasPart_conjunction, Term.references_conjunction]
    exact (hgroup ih).bind_nothing h.conjunction
  | disjunction terms ih =>
    rw [Term.hasPart_disjunction, Term.references_disjunction]
    exact (hgroup ih).bind_nothing h.disjunction
  | negation t ih => exact ih.bind_nothing h.negation
  | field f =>
    refine (h.field f).congr ?_
    simp [Term.HasPart, Term.fields, Term.conditions, Term.references]
  | properties ps =>
    refine (h.properties ps).congr ?_
    simp [Term.HasPart, Term.fields, Term.conditions, Term.references]
  | saved name =>
    refine (href name).congr ?_
    simp [Term.HasPart, Term.fields, Term.conditions]

/-- A reference notes a hidden tag for the parts of what it leads to, down to any depth: where it is
deeper, it does not end well. -/
theorem referenceUpTo_notes (h : d.NotesParts F C) (e : SearchError) (depth : Nat) (name : String) :
    Notes (∃ t, saved.get? name = some t ∧ ∃ u, t.LeadsTo saved u ∧ u.HasPart F C)
      (d.referenceUpTo saved (throw e) depth name) := by
  induction depth generalizing name with
  | zero => exact .throw e
  | succ depth ih =>
    rw [referenceUpTo]
    refine .nothing_bind .get fun ctx => ?_
    split
    · exact .nothing_bind .get fun _ => .throw _
    · split
      · next hget => exact (h.disjunction []).congr (by simp [hget])
      · next t hget =>
        have hwalk := (walk_notes h ih t).congr Term.exists_leadsTo_iff.symm
        refine (Notes.whileExpanding hwalk).congr ?_
        simp [hget]

/-- The meaning of a term is found with a hidden tag noted exactly if the term leads to a part that
notes one. -/
theorem compile_notes (hd : d.KeepsPath) (h : d.NotesParts F C) {t : Term} {a : α} {after : Context}
    (hrun : (d.compile saved t).runFrom .start = (.ok a, after)) :
    after.mentionsHidden = true ↔ ∃ u, t.LeadsTo saved u ∧ u.HasPart F C := by
  -- the bound on the depth is never met, so a failure will do in place of what is deeper
  have hwalk : Notes (∃ u, t.LeadsTo saved u ∧ u.HasPart F C)
      (d.walk (d.referenceUpTo saved (throw (.savedSearchCycle [])) (saved.size + 1)) t) :=
    (walk_notes h (referenceUpTo_notes h _ _) t).congr Term.exists_leadsTo_iff.symm
  rw [← walk_referenceUpTo hd (throw (.savedSearchCycle [])) (Nat.lt_succ_self _)] at hrun
  have hnoted := hwalk .start a (congrArg Prod.fst hrun)
  rwa [hrun, Context.start, or_iff_right Bool.false_ne_true] at hnoted

end Dialect
end TagQuery
