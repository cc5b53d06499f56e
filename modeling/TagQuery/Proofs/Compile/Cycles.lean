import Mathlib.Data.List.Nodup
import Mathlib.Tactic.Choose
import TagQuery.Proofs.Compile.Walk

/-!
# Cycles

When the parts of a dialect never fail, a walk fails only at a reference to what is being replaced,
and the first such reference decides. It ends well exactly when all references come to an end.

## Main definitions

- `Dialect.NeverFails`: the parts of a dialect never fail.
- `Compiler.Settles`: a computation ends well, or with a given cycle.

## Main statements

- `Dialect.walk_settles`: a walk ends with the cycle of its first reference that has one.
- `Dialect.compile_settles`: what a walk over saved searches ends with.
- `Dialect.compileQuery_eq_error`: a query fails exactly where its references lead into a cycle.
-/

namespace TagQuery

variable {α β : Type}

namespace Compiler

def Succeeds (m : Compiler α) : Prop := ∀ ctx, ∃ a, (m.runFrom ctx).1 = .ok a

namespace Succeeds

theorem pure (a : α) : (Pure.pure a : Compiler α).Succeeds := fun _ => ⟨a, rfl⟩

theorem bind {m : Compiler α} {f : α → Compiler β} (h : m.Succeeds) (hf : ∀ a, (f a).Succeeds) :
    (m >>= f).Succeeds := by
  intro ctx
  obtain ⟨a, ha⟩ := h ctx
  rw [runFrom_bind_of_ok (Prod.ext ha rfl)]
  exact hf a _

end Succeeds

/-- Under a path, a computation ends with the given cycle, or well if none is given, and leaves the
path as it is. -/
def Settles (p : List String) (cycle? : Option (List String)) (m : Compiler α) : Prop :=
  ∀ hidden, ∃ outcome after, m.runFrom ⟨p, hidden⟩ = (outcome, ⟨p, after⟩) ∧
    match cycle? with
    | none => ∃ a, outcome = .ok a
    | some chain => outcome = .error (.savedSearchCycle chain)

namespace Settles

variable {p : List String} {cycle? : Option (List String)}

theorem of_succeeds {m : Compiler α} (hkeeps : Agrees p p m m) (h : m.Succeeds) :
    Settles p none m := by
  intro hidden
  obtain ⟨outcome, after, hm, -⟩ := hkeeps hidden
  obtain ⟨a, ha⟩ := h ⟨p, hidden⟩
  rw [hm] at ha
  exact ⟨outcome, after, hm, a, ha⟩

theorem pure (a : α) : Settles p none (Pure.pure a : Compiler α) :=
  fun hidden => ⟨.ok a, hidden, rfl, a, rfl⟩

/-- The first of two computations that has a cycle decides. -/
theorem bind {m : Compiler α} {f : α → Compiler β} {next? : Option (List String)}
    (h : Settles p cycle? m) (hf : ∀ a, Settles p next? (f a)) :
    Settles p (cycle?.or next?) (m >>= f) := by
  intro hidden
  obtain ⟨outcome, after, hm, houtcome⟩ := h hidden
  cases cycle? with
  | none =>
    obtain ⟨a, rfl⟩ := houtcome
    rw [runFrom_bind_of_ok hm]
    exact hf a after
  | some chain =>
    obtain rfl := houtcome
    exact ⟨_, after, runFrom_bind_of_error hm, rfl⟩

theorem mapM {ι : Type} {xs : List ι} {f : ι → Compiler α} {cycleOf : ι → Option (List String)}
    (h : ∀ x ∈ xs, Settles p (cycleOf x) (f x)) :
    Settles p (xs.findSome? cycleOf) (xs.mapM f) := by
  induction xs with
  | nil => exact pure []
  | cons x xs ih =>
    have hrest := ih fun y hy => h y (List.mem_cons_of_mem _ hy)
    have hcons :
        Settles p ((cycleOf x).or ((xs.findSome? cycleOf).or none)) ((x :: xs).mapM f) := by
      rw [List.mapM_cons]
      exact (h x List.mem_cons_self).bind fun a => hrest.bind fun as => pure (a :: as)
    rw [List.findSome?_cons]
    cases hx : cycleOf x <;> simpa [hx] using hcons

theorem whileExpanding {m : Compiler α} {name : String} (h : Settles (p ++ [name]) cycle? m) :
    Settles p cycle? (m.whileExpanding name) := by
  intro hidden
  obtain ⟨outcome, after, hm, houtcome⟩ := h hidden
  exact ⟨outcome, after, runFrom_whileExpanding hm, houtcome⟩

end Settles

end Compiler

namespace Dialect

open Compiler (Settles Succeeds)

structure NeverFails (d : Dialect α) : Prop where
  conjunction (parts : List α) : (d.conjunction parts).Succeeds
  disjunction (parts : List α) : (d.disjunction parts).Succeeds
  negation (part : α) : (d.negation part).Succeeds
  field (t : FieldTerm) : (d.field t).Succeeds
  properties (ps : List PropertyPredicate) : (d.properties ps).Succeeds

variable {d : Dialect α}

theorem findSome?_flatMap (f : α → Option β) (terms : List Term) (g : Term → List α) :
    (terms.flatMap g).findSome? f = terms.findSome? fun t => (g t).findSome? f := by
  induction terms with
  | nil => rfl
  | cons t ts ih =>
    rw [List.flatMap_cons, List.findSome?_append, ih, List.findSome?_cons]
    cases (g t).findSome? f <;> rfl

/-- A walk ends with the cycle of its first reference that has one. -/
theorem walk_settles (hd : d.KeepsPath) (hf : d.NeverFails) {p : List String}
    {ref : String → Compiler α} {cycleOf : String → Option (List String)} {t : Term}
    (h : ∀ name ∈ t.references, Settles p (cycleOf name) (ref name)) :
    Settles p (t.references.findSome? cycleOf) (d.walk ref t) := by
  have hgroup {terms : List Term}
      (ih : ∀ t ∈ terms, (∀ name ∈ t.references, Settles p (cycleOf name) (ref name)) →
        Settles p (t.references.findSome? cycleOf) (d.walk ref t))
      (hterms : ∀ name ∈ terms.flatMap Term.references, Settles p (cycleOf name) (ref name)) :
      Settles p ((terms.flatMap Term.references).findSome? cycleOf) (d.walkAll ref terms) := by
    rw [walkAll_eq_mapM, findSome?_flatMap]
    exact .mapM fun t ht => ih t ht fun name hname =>
      hterms name (List.mem_flatMap.2 ⟨t, ht, hname⟩)
  induction t using Term.treeInduction with
  | conjunction terms ih =>
    rw [Term.references_conjunction] at h ⊢
    have hwalk := (hgroup ih h).bind fun parts =>
      .of_succeeds ((hd p).conjunction parts) (hf.conjunction parts)
    rwa [Option.or_none] at hwalk
  | disjunction terms ih =>
    rw [Term.references_disjunction] at h ⊢
    have hwalk := (hgroup ih h).bind fun parts =>
      .of_succeeds ((hd p).disjunction parts) (hf.disjunction parts)
    rwa [Option.or_none] at hwalk
  | negation t ih =>
    have hwalk := (ih h).bind fun part =>
      .of_succeeds ((hd p).negation part) (hf.negation part)
    rwa [Option.or_none] at hwalk
  | field f => exact .of_succeeds ((hd p).field f) (hf.field f)
  | properties ps => exact .of_succeeds ((hd p).properties ps) (hf.properties ps)
  | saved name =>
    rw [Term.references_saved, List.findSome?_singleton]
    exact h name List.mem_cons_self

/-! ## References -/

/-- A chain that prolongs a path by references from a name on, up to the first name that occurs
again. -/
structure ClosesPath (saved : Table Term) (path : List String) (name : String)
    (chain : List String) : Prop where
  prolongs : ∃ names, chain = path ++ name :: names ∧ (name :: names).IsChain saved.RefersTo
  last : ∃ names again, chain = names ++ [again] ∧ names.Nodup ∧ again ∈ names

/-- A reference ends well and with it all references from its name on, or it ends with a chain that
closes the path. -/
theorem reference_settles (hd : d.KeepsPath) (hf : d.NeverFails) (saved : Table Term)
    (path : List String) (hpath : path.Nodup) (name : String) :
    ∃ cycle?, Settles path cycle? (d.reference (others saved path) name) ∧
      (cycle? = none → saved.Ends name) ∧
      ∀ chain, cycle? = some chain → ClosesPath saved path name chain := by
  by_cases hname : name ∈ path
  · have hfails : Settles path (some (path ++ [name])) (d.reference (others saved path) name) :=
      fun hidden => ⟨_, hidden, reference_of_mem d hname _ hidden, rfl⟩
    refine ⟨some (path ++ [name]), hfails, fun h => by contradiction, ?_⟩
    rintro chain ⟨⟩
    exact ⟨⟨[], rfl, .singleton name⟩, path, name, rfl, hpath, hname⟩
  · cases hget : saved.get? name with
    | none =>
      refine ⟨none, fun hidden => ?_, fun _ => ⟨name, ?_⟩, fun chain h => by contradiction⟩
      · rw [reference_of_not_mem d hname, hget]
        exact Settles.of_succeeds ((hd path).disjunction []) (hf.disjunction []) hidden
      · rintro b ⟨t, ht, -⟩
        rw [hget] at ht
        contradiction
    | some t =>
      -- the references of what is saved are met under the longer path, with fewer others left
      have hdeeper := length_others_lt hname hget
      have hnodup : (path ++ [name]).Nodup :=
        List.Nodup.append hpath (List.nodup_singleton name) (List.disjoint_singleton.2 hname)
      choose cycleOf hsettles hends hcloses using
        fun b => reference_settles hd hf saved (path ++ [name]) hnodup b
      refine ⟨t.references.findSome? cycleOf, fun hidden => ?_, fun h => ⟨name, ?_⟩,
        fun chain h => ?_⟩
      · rw [reference_of_not_mem d hname, hget]
        exact (walk_settles hd hf fun b _ => hsettles b).whileExpanding hidden
      · rintro b ⟨t', ht', hb⟩
        obtain rfl := Option.some.inj (hget.symm.trans ht')
        exact hends b (List.findSome?_eq_none_iff.1 h b hb)
      · obtain ⟨b, hb, hchain⟩ := List.exists_of_findSome?_eq_some h
        obtain ⟨⟨names, heq, hrefers⟩, hlast⟩ := hcloses b chain hchain
        refine ⟨⟨b :: names, by rw [heq, List.append_assoc]; rfl, ?_⟩, hlast⟩
        exact List.isChain_cons_cons.2 ⟨⟨t, hget, hb⟩, hrefers⟩
termination_by (others saved path).length

/-- Without parts that fail, a term ends well when all its references come to an end, and otherwise
with a chain of references from the term that meets a name again. -/
theorem compile_settles (hd : d.KeepsPath) (hf : d.NeverFails) (saved : Table Term) (t : Term) :
    ∃ cycle?, Settles [] cycle? (d.compile saved t) ∧
      (cycle? = none → ∀ a ∈ t.references, saved.Ends a) ∧
      ∀ chain, cycle? = some chain → t.IsCycleChain saved chain := by
  choose cycleOf hsettles hends hcloses using
    reference_settles hd hf saved [] List.nodup_nil
  rw [others_nil] at hsettles
  refine ⟨t.references.findSome? cycleOf, walk_settles hd hf fun a _ => hsettles a, fun h a ha =>
    hends a (List.findSome?_eq_none_iff.1 h a ha), fun chain h => ?_⟩
  obtain ⟨a, ha, hchain⟩ := List.exists_of_findSome?_eq_some h
  obtain ⟨⟨names, rfl, hrefers⟩, hlast⟩ := hcloses a chain hchain
  exact ⟨⟨a, ha, rfl⟩, hrefers, hlast⟩

/-- Without parts that fail, a query fails exactly where its references lead into a cycle, and a
chain says which. -/
theorem compileQuery_eq_error (hd : d.KeepsPath) (hf : d.NeverFails) (saved : Table Term)
    (t : Term) :
    ((∃ e, d.compileQuery saved t = .error e) ↔ t.ReachesCycle saved) ∧
      ∀ e, d.compileQuery saved t = .error e →
        ∃ chain, e = .savedSearchCycle chain ∧ t.IsCycleChain saved chain := by
  obtain ⟨cycle?, hsettles, hends, hchain⟩ := compile_settles hd hf saved t
  obtain ⟨outcome, after, hrun, houtcome⟩ := hsettles false
  have hquery : d.compileQuery saved t = outcome := congrArg Prod.fst hrun
  rw [hquery]
  cases cycle? with
  | none =>
    obtain ⟨a, rfl⟩ := houtcome
    have hacyclic := Term.not_reachesCycle (hends rfl)
    simp [hacyclic]
  | some chain =>
    obtain rfl := houtcome
    have hcycle := hchain chain rfl
    refine ⟨⟨fun _ => hcycle.reachesCycle, fun _ => ⟨_, rfl⟩⟩, ?_⟩
    rintro e ⟨⟩
    exact ⟨chain, rfl, hcycle⟩

end Dialect
end TagQuery
