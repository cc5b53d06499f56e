import TagQuery.Proofs.Compile.Walk

/-!
# What a walk leaves in its context

A walk puts a name on the path before it replaces a saved search, and takes it off again however the
replacement ends. So it leaves the path as it is, also where it fails deep inside of other saved
searches. All that it does to the context is to note a hidden tag; it never looks at what was noted.

## Main definitions

- `Compiler.OnlyNotes`: a computation has one outcome, and does no more to its context than to note.

## Main statements

- `Compiler.OnlyNotes.whileExpanding`: a name that is put on the path is taken off again.
- `Dialect.walk_onlyNotes`: a walk only notes if the parts of its dialect and its references do.
- `Dialect.compile_onlyNotes`: the meaning of a term is found under any path in this way.
-/

namespace TagQuery

namespace Compiler

variable {α β : Type} {P : List String → Prop}

/-- Under paths with `P`, a computation has the same outcome in every context. It leaves the path as
it is, and either notes a hidden tag in all of these contexts or in none. -/
def OnlyNotes (P : List String → Prop) (m : Compiler α) : Prop :=
  ∃ outcome noted, ∀ path hidden, P path →
    m.runFrom ⟨path, hidden⟩ = (outcome, ⟨path, hidden || noted⟩)

namespace OnlyNotes

theorem congr {m m' : Compiler α} (h : OnlyNotes P m)
    (heq : ∀ path hidden, P path → m'.runFrom ⟨path, hidden⟩ = m.runFrom ⟨path, hidden⟩) :
    OnlyNotes P m' := by
  obtain ⟨outcome, noted, hm⟩ := h
  exact ⟨outcome, noted, fun path hidden hpath =>
    (heq path hidden hpath).trans (hm path hidden hpath)⟩

theorem liftM (outcome : Except SearchError α) : OnlyNotes P (liftM outcome : Compiler α) :=
  ⟨outcome, false, fun _ hidden _ => by rw [Bool.or_false]; rfl⟩

theorem pure (a : α) : OnlyNotes P (Pure.pure a : Compiler α) := liftM (.ok a)

theorem throw (e : SearchError) : OnlyNotes P (throw e : Compiler α) := liftM (.error e)

theorem noteHidden : OnlyNotes P Compiler.noteHidden :=
  ⟨.ok (), true, fun _ hidden _ => by rw [Bool.or_true]; rfl⟩

theorem bind {m : Compiler α} {f : α → Compiler β} (h : OnlyNotes P m)
    (hf : ∀ a, OnlyNotes P (f a)) : OnlyNotes P (m >>= f) := by
  obtain ⟨outcome, noted, hm⟩ := h
  cases outcome with
  | ok a =>
    obtain ⟨outcome, noted', ha⟩ := hf a
    refine ⟨outcome, noted || noted', fun path hidden hpath => ?_⟩
    rw [runFrom_bind_of_ok (hm path hidden hpath), ha path _ hpath, Bool.or_assoc]
  | error e =>
    exact ⟨.error e, noted, fun path hidden hpath => runFrom_bind_of_error (hm path hidden hpath)⟩

theorem mapM {ι : Type} {xs : List ι} {f : ι → Compiler α} (h : ∀ x ∈ xs, OnlyNotes P (f x)) :
    OnlyNotes P (xs.mapM f) := by
  induction xs with
  | nil => exact pure []
  | cons x xs ih =>
    obtain ⟨hx, hxs⟩ := List.forall_mem_cons.1 h
    rw [List.mapM_cons]
    exact hx.bind fun a => (ih hxs).bind fun as => pure (a :: as)

/-- A step that is taken under a condition before all others. -/
theorem guarded {p : Prop} [Decidable p] {step : Compiler PUnit} {k : PUnit → Compiler α}
    (hstep : OnlyNotes P step) (hk : OnlyNotes P (k ⟨⟩)) :
    OnlyNotes P (if p then step >>= k else k ⟨⟩) := by
  split
  · exact hstep.bind fun _ => hk
  · exact hk

/-- A name that is put on the path is taken off again, whatever the outcome is. -/
theorem whileExpanding {m : Compiler α} {p : List String} {name : String}
    (h : OnlyNotes (· = p ++ [name]) m) : OnlyNotes (· = p) (m.whileExpanding name) := by
  obtain ⟨outcome, noted, hm⟩ := h
  refine ⟨outcome, noted, ?_⟩
  rintro _ hidden rfl
  exact runFrom_whileExpanding (hm _ hidden rfl)

/-- What only notes under all paths does the same under any two of them. -/
theorem agrees {m : Compiler α} (h : OnlyNotes (fun _ => True) m) (p q : List String) :
    Agrees p q m m := by
  obtain ⟨outcome, noted, hm⟩ := h
  exact fun hidden => ⟨outcome, hidden || noted, hm p hidden trivial, hm q hidden trivial⟩

end OnlyNotes

end Compiler

/-! ## Walks -/

namespace Dialect

variable {α : Type} {d : Dialect α} {P : List String → Prop}

/-- The parts of a dialect do no more to their context than to note. -/
structure OnlyNotes (d : Dialect α) (P : List String → Prop) : Prop where
  conjunction (parts : List α) : Compiler.OnlyNotes P (d.conjunction parts)
  disjunction (parts : List α) : Compiler.OnlyNotes P (d.disjunction parts)
  negation (part : α) : Compiler.OnlyNotes P (d.negation part)
  field (t : FieldTerm) : Compiler.OnlyNotes P (d.field t)
  properties (ps : List PropertyPredicate) : Compiler.OnlyNotes P (d.properties ps)

theorem OnlyNotes.ignoresPath (h : d.OnlyNotes fun _ => True) : d.IgnoresPath := fun p q =>
  ⟨fun parts => (h.conjunction parts).agrees p q, fun parts => (h.disjunction parts).agrees p q,
    fun part => (h.negation part).agrees p q, fun t => (h.field t).agrees p q,
    fun ps => (h.properties ps).agrees p q⟩

theorem walk_onlyNotes (hd : d.OnlyNotes P) {ref : String → Compiler α}
    (href : ∀ name, Compiler.OnlyNotes P (ref name)) (t : Term) :
    Compiler.OnlyNotes P (d.walk ref t) := by
  have hgroup {terms : List Term} (ih : ∀ t ∈ terms, Compiler.OnlyNotes P (d.walk ref t)) :
      Compiler.OnlyNotes P (d.walkAll ref terms) := by
    rw [walkAll_eq_mapM]
    exact .mapM ih
  induction t using Term.treeInduction with
  | conjunction terms ih => exact (hgroup ih).bind hd.conjunction
  | disjunction terms ih => exact (hgroup ih).bind hd.disjunction
  | negation t ih => exact ih.bind hd.negation
  | field f => exact hd.field f
  | properties ps => exact hd.properties ps
  | saved name => exact href name

/-- A reference only notes: a cycle is refused before the path gets longer, and else the name is
taken off after the walk over what is saved, in which fewer saved searches are left. -/
theorem reference_onlyNotes (hd : ∀ p, d.OnlyNotes (· = p)) (saved : List (String × Term))
    (p : List String) (name : String) : Compiler.OnlyNotes (· = p) (d.reference saved name) := by
  by_cases hname : name ∈ p
  · refine (Compiler.OnlyNotes.throw (.savedSearchCycle (p ++ [name]))).congr ?_
    rintro _ hidden rfl
    exact reference_of_mem d hname saved hidden
  · cases hentry : takeSaved name saved with
    | none =>
      refine ((hd p).disjunction []).congr ?_
      rintro _ hidden rfl
      rw [reference, Compiler.runFrom_bind_of_ok (Compiler.runFrom_get _), if_neg hname, hentry]
    | some entry =>
      obtain ⟨t, rest, hlt⟩ := entry
      have hreferences (b : String) : Compiler.OnlyNotes (· = p ++ [name]) (d.reference rest b) :=
        reference_onlyNotes hd rest (p ++ [name]) b
      refine (Compiler.OnlyNotes.whileExpanding (walk_onlyNotes (hd _) hreferences t)).congr ?_
      rintro _ hidden rfl
      rw [reference, Compiler.runFrom_bind_of_ok (Compiler.runFrom_get _), if_neg hname, hentry]
termination_by saved.length

/-- Under any path, the meaning of a term or its fault does not depend on what was noted before, and
the path is left as it is. -/
theorem compile_onlyNotes (hd : ∀ p, d.OnlyNotes (· = p)) (saved : Table Term) (t : Term)
    (p : List String) : Compiler.OnlyNotes (· = p) (d.compile saved t) :=
  walk_onlyNotes (hd p) (reference_onlyNotes hd saved.entries p) t

end Dialect
end TagQuery
