import TagQuery.Proofs.Compile.Frame
import TagQuery.Search.Query

/-!
# What a search leaves in its context

The parts of a search neither look at the context nor change more of it than the note on hidden
tags. So a context can be used again after a search, also after one that failed.

## Main statements

- `Catalog.onlyNotes_dialect`: the parts of a search only note.
- `Catalog.compile_frame`: what is the same before and after a search, and what it does not depend
  on.
-/

namespace TagQuery.Catalog

open Compiler (OnlyNotes runFrom_bind_of_error runFrom_bind_of_ok runFrom_whileExpanding)
open Dialect (others)

variable (c : Catalog) {P : List String → Prop}

theorem onlyNotes_noteIfHidden (value : String) : OnlyNotes P (c.noteIfHidden value) := by
  unfold noteIfHidden
  split
  · exact .noteHidden
  · exact .pure ()

theorem onlyNotes_held (op : CompareOp) (value : String) : OnlyNotes P (c.held op value) :=
  .bind (c.onlyNotes_noteIfHidden value) fun _ => .pure _

theorem onlyNotes_rejected (op : CompareOp) (value : String) : OnlyNotes P (c.rejected op value) :=
  .bind (c.onlyNotes_noteIfHidden value) fun _ => .pure _

theorem onlyNotes_single (f : Search.Field) (op : CompareOp) (value : String) :
    OnlyNotes P (c.single f op value) := by
  unfold single
  refine .guarded (.throw _) ?_
  cases f with
  | tag => exact c.onlyNotes_held op value
  | rejected => exact c.onlyNotes_rejected op value
  | undecided =>
    exact .bind (c.onlyNotes_held .lessOrEqual value) fun _ =>
      .bind (c.onlyNotes_rejected .greaterOrEqual value) fun _ => .pure _
  | anyTag => exact .bind (c.onlyNotes_held .lessOrEqual value) fun _ => .pure _
  | suggested | missing | add => exact .pure _
  | _ => exact .liftM _

theorem onlyNotes_related (f : Search.Field) (op : CompareOp) (value : String) :
    OnlyNotes P (c.related f op value) := by
  unfold related
  split
  · refine .bind (.liftM _) fun tags => .bind ?_ fun _ => .pure _
    exact .mapM fun t _ => c.onlyNotes_single f op t
  · exact c.onlyNotes_single f op value

theorem onlyNotes_named (f : Search.Field) (op : FieldOperator) (value : String) :
    OnlyNotes P (c.named f op value) := by
  unfold named
  split
  · exact c.onlyNotes_related f _ value
  · split
    · exact .throw _
    · exact .bind (c.onlyNotes_related f .equal value) fun _ => .pure _

theorem onlyNotes_field (t : FieldTerm) : OnlyNotes P (c.field t) := by
  unfold field
  split
  · split
    · exact .pure _
    · exact .throw _
  · split
    · exact .throw _
    · exact c.onlyNotes_named _ _ _

theorem onlyNotes_properties (predicates : List PropertyPredicate) :
    OnlyNotes P (c.properties predicates) :=
  .bind (.liftM _) fun _ => .guarded .noteHidden (.pure _)

theorem onlyNotes_dialect : c.dialect.OnlyNotes P :=
  ⟨fun _ => .pure _, fun _ => .pure _, fun _ => .pure _, c.onlyNotes_field, c.onlyNotes_properties⟩

/-- However a search ends, the same saved searches are being replaced after it as before, and a
hidden tag that was noted before stays noted. What was noted before does not matter for its
expression or its fault. -/
theorem compile_frame (saved : Table Term) (t : Term) (ctx : Context) :
    let m := c.dialect.compile saved t
    (m.runFrom ctx).2.expanding = ctx.expanding ∧
      (ctx.mentionsHidden = true → (m.runFrom ctx).2.mentionsHidden = true) ∧
      ∀ hidden, (m.runFrom { ctx with mentionsHidden := hidden }).1 = (m.runFrom ctx).1 := by
  intro m
  obtain ⟨outcome, noted, hrun⟩ :=
    Dialect.compile_onlyNotes (fun _ => c.onlyNotes_dialect) saved t ctx.expanding
  have hm (hidden : Bool) : m.runFrom ⟨ctx.expanding, hidden⟩ =
      (outcome, ⟨ctx.expanding, hidden || noted⟩) := hrun _ hidden rfl
  rw [show m.runFrom ctx = _ from hm ctx.mentionsHidden]
  refine ⟨rfl, fun hhidden => ?_, fun hidden => ?_⟩
  · rw [hhidden, Bool.true_or]
  · rw [hm hidden]

/-- A search that refers to itself inside of another one. -/
theorem compile_frame_loop :
    let c : Catalog := ⟨.construct [] [], ∅, .default, ∅, .standard⟩
    let saved : Table Term :=
      ⟨[("loop", .negation (.saved "loop")), ("pets", .disjunction [.text "cat", .saved "loop"])],
        by decide⟩
    let m := c.dialect.compile saved (.saved "pets")
    let fault : SearchError := .savedSearchCycle ["trips", "pets", "loop", "loop"]
    (m.runFrom ⟨["trips"], false⟩).1 = .error fault ∧
      m.runFrom ⟨["trips"], true⟩ = (.error fault, ⟨["trips"], true⟩) := by
  intro c saved m fault
  have hloop : (c.dialect.reference (others saved ["trips", "pets"]) "loop").runFrom
      ⟨["trips", "pets"], false⟩ = (.error fault, ⟨["trips", "pets"], false⟩) := by
    rw [Dialect.reference_of_not_mem _ (by decide)]
    exact runFrom_whileExpanding
      (runFrom_bind_of_error (Dialect.reference_of_mem _ (by decide) _ false))
  have hpets : (c.dialect.walk (c.dialect.reference (others saved ["trips", "pets"]))
      (.disjunction [.text "cat", .saved "loop"])).runFrom ⟨["trips", "pets"], false⟩ =
        (.error fault, ⟨["trips", "pets"], false⟩) :=
    runFrom_bind_of_error ((runFrom_bind_of_ok rfl).trans
      (runFrom_bind_of_error (runFrom_bind_of_error hloop)))
  have hfault : (m.runFrom ⟨["trips"], false⟩).1 = .error fault := by
    change ((c.dialect.reference (others saved ["trips"]) "pets").runFrom _).1 = _
    rw [Dialect.reference_of_not_mem _ (by decide)]
    exact congrArg Prod.fst (runFrom_whileExpanding hpets)
  obtain ⟨hpath, hnoted, hsame⟩ := c.compile_frame saved (.saved "pets") ⟨["trips"], true⟩
  exact ⟨hfault,
    Prod.ext ((hsame false).symm.trans hfault) (congrArg₂ Context.mk hpath (hnoted rfl))⟩

end TagQuery.Catalog
