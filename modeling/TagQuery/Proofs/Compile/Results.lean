import TagQuery.Proofs.Compile.Walk

/-!
# Results of a walk

What all parts of a dialect ensure of their results, a walk ensures of its own. Of the field terms,
only those count that the walk can meet: the ones of the term, and of what it refers to.

And all that a walk knows of a field term is its meaning. Where some field terms are replaced by
others with the same meaning, in a term or in saved searches, the walk does the same.

## Main definitions

- `Compiler.Ensures`: all results of a computation have a property.
- `Term.LeadsTo`: the terms that a term refers to, directly or through what is saved.
- `Dialect.Maintains`: the parts of a dialect ensure a property of their results.
- `Term.Alike`: terms that differ in some field terms only.

## Main statements

- `Dialect.compile_ensures`: what the parts of a dialect maintain holds of the meaning of a term.
- `Dialect.compile_eq_of_alike`: terms alike mean the same where their field terms do.
-/

namespace TagQuery

open Relation (ReflTransGen)

variable {α β : Type}

namespace Compiler

/-! ## Properties of results -/

def Ensures (P : α → Prop) (m : Compiler α) : Prop :=
  ∀ ctx a, (m.runFrom ctx).1 = .ok a → P a

namespace Ensures

variable {P : α → Prop} {Q : β → Prop} {m : Compiler α}

theorem anything (m : Compiler α) : Ensures (fun _ => True) m := fun _ _ _ => trivial

theorem pure {a : α} (h : P a) : Ensures P (Pure.pure a : Compiler α) := by
  rintro ctx b ⟨⟩
  exact h

theorem throw (e : SearchError) : Ensures P (throw e : Compiler α) := by
  intro ctx a h
  contradiction

theorem liftM {outcome : Except SearchError α} (h : ∀ a, outcome = .ok a → P a) :
    Ensures P (liftM outcome : Compiler α) := fun _ a ha => h a ha

theorem bind {f : α → Compiler β} (h : Ensures P m) (hf : ∀ a, P a → Ensures Q (f a)) :
    Ensures Q (m >>= f) := by
  intro ctx b hb
  cases hm : m.runFrom ctx with
  | mk outcome after =>
    cases outcome with
    | ok a =>
      rw [runFrom_bind_of_ok hm] at hb
      exact hf a (h ctx a (congrArg Prod.fst hm)) after b hb
    | error e =>
      rw [runFrom_bind_of_error hm] at hb
      contradiction

theorem mapM {ι : Type} {xs : List ι} {f : ι → Compiler α} (h : ∀ x ∈ xs, Ensures P (f x)) :
    Ensures (fun as => ∀ a ∈ as, P a) (xs.mapM f) := by
  induction xs with
  | nil => exact pure (List.forall_mem_nil P)
  | cons x xs ih =>
    obtain ⟨hx, hxs⟩ := List.forall_mem_cons.1 h
    rw [List.mapM_cons]
    refine bind hx fun a ha => bind (ih hxs) fun as has => ?_
    exact pure (List.forall_mem_cons.2 ⟨ha, has⟩)

theorem whileExpanding {name : String} (h : Ensures P m) : Ensures P (m.whileExpanding name) :=
  fun _ a ha => h _ a ha

/-- A step that is taken under a condition before all others. -/
theorem guarded {p : Prop} [Decidable p] {step : Compiler PUnit} {k : PUnit → Compiler α}
    (hk : Ensures P (k ⟨⟩)) : Ensures P (if p then step >>= k else k ⟨⟩) := by
  split
  · exact bind (anything step) fun _ _ => hk
  · exact hk

end Ensures

end Compiler

namespace Term

/-! ## Field terms of a term -/

mutual
def fields : Term → List FieldTerm
  | .conjunction terms => fieldsAll terms
  | .disjunction terms => fieldsAll terms
  | .negation t => fields t
  | .field f => [f]
  | _ => []
termination_by structural t => t

def fieldsAll : List Term → List FieldTerm
  | [] => []
  | t :: ts => fields t ++ fieldsAll ts
termination_by structural ts => ts
end

theorem fieldsAll_eq_flatMap (ts : List Term) : fieldsAll ts = ts.flatMap fields := by
  induction ts with
  | nil => rfl
  | cons t ts ih => simp [fieldsAll, ih]

@[simp] theorem fields_conjunction (terms : List Term) :
    fields (.conjunction terms) = terms.flatMap fields := fieldsAll_eq_flatMap terms

@[simp] theorem fields_disjunction (terms : List Term) :
    fields (.disjunction terms) = terms.flatMap fields := fieldsAll_eq_flatMap terms

def RefersTo (saved : Table Term) (t u : Term) : Prop :=
  ∃ name ∈ t.references, saved.get? name = some u

/-- The terms that a term refers to, directly or through what is saved, and the term itself. -/
def LeadsTo (saved : Table Term) : Term → Term → Prop :=
  ReflTransGen (RefersTo saved)

end Term

namespace Dialect

open Compiler (Ensures)

/-! ## What walks maintain -/

/-- The parts of a dialect ensure `P` of their results: groups of theirs, if all parts of these have
it, and of field terms those with `Q`. -/
structure Maintains (d : Dialect α) (Q : FieldTerm → Prop) (P : α → Prop) : Prop where
  conjunction {parts : List α} (h : ∀ a ∈ parts, P a) : Ensures P (d.conjunction parts)
  disjunction {parts : List α} (h : ∀ a ∈ parts, P a) : Ensures P (d.disjunction parts)
  negation {part : α} (h : P part) : Ensures P (d.negation part)
  field {f : FieldTerm} (h : Q f) : Ensures P (d.field f)
  properties (ps : List PropertyPredicate) : Ensures P (d.properties ps)

variable {d : Dialect α} {Q : FieldTerm → Prop} {P : α → Prop} {saved : Table Term}

/-- A walk ensures what the parts of the dialect maintain, if its references do. -/
theorem walk_ensures (h : d.Maintains Q P) {ref : String → Compiler α} {t : Term}
    (hfields : ∀ f ∈ t.fields, Q f) (href : ∀ name ∈ t.references, Ensures P (ref name)) :
    Ensures P (d.walk ref t) := by
  have hgroup {terms : List Term}
      (ih : ∀ t ∈ terms, (∀ f ∈ t.fields, Q f) → (∀ name ∈ t.references, Ensures P (ref name)) →
        Ensures P (d.walk ref t))
      (hfields : ∀ f ∈ terms.flatMap Term.fields, Q f)
      (href : ∀ name ∈ terms.flatMap Term.references, Ensures P (ref name)) :
      Ensures (fun parts => ∀ a ∈ parts, P a) (d.walkAll ref terms) := by
    rw [List.forall_mem_flatMap] at hfields href
    rw [walkAll_eq_mapM]
    exact .mapM fun t ht => ih t ht (hfields t ht) (href t ht)
  induction t using Term.treeInduction with
  | conjunction terms ih =>
    rw [Term.fields_conjunction] at hfields
    rw [Term.references_conjunction] at href
    exact .bind (hgroup ih hfields href) fun _ => h.conjunction
  | disjunction terms ih =>
    rw [Term.fields_disjunction] at hfields
    rw [Term.references_disjunction] at href
    exact .bind (hgroup ih hfields href) fun _ => h.disjunction
  | negation t ih => exact .bind (ih hfields href) fun _ => h.negation
  | field f => exact h.field (hfields f List.mem_cons_self)
  | properties ps => exact h.properties ps
  | saved name => exact href name List.mem_cons_self

/-- References ensure what the parts of the dialect maintain, down to any depth. -/
theorem referenceUpTo_ensures (h : d.Maintains Q P) {stuck : Compiler α} (hstuck : Ensures P stuck)
    (depth : Nat) {name : String}
    (hfields : ∀ t, saved.get? name = some t → ∀ u, t.LeadsTo saved u → ∀ f ∈ u.fields, Q f) :
    Ensures P (d.referenceUpTo saved stuck depth name) := by
  induction depth generalizing name with
  | zero => exact hstuck
  | succ depth ih =>
    rw [referenceUpTo]
    refine .bind (.anything _) fun ctx _ => ?_
    split
    · exact .bind (.anything _) fun _ _ => .throw _
    · split
      · exact h.disjunction (List.forall_mem_nil P)
      · next t hget =>
        refine .whileExpanding (walk_ensures h (hfields t hget t .refl) fun b hb => ih ?_)
        intro v hv u hu
        exact hfields t hget u (.head ⟨b, hb, hv⟩ hu)

/-- What the parts of a dialect maintain holds of the meaning of a term, if the field terms that it
leads to are as they need it. -/
theorem compile_ensures (hd : d.KeepsPath) (h : d.Maintains Q P) {t : Term}
    (hfields : ∀ u, t.LeadsTo saved u → ∀ f ∈ u.fields, Q f) {a : α} {after : Context}
    (hrun : (d.compile saved t).runFrom .start = (.ok a, after)) : P a := by
  -- the bound on the depth is never met, so any computation will do in place of what is deeper
  have hwalk : Ensures P (d.walk (d.referenceUpTo saved (throw (.savedSearchCycle []))
      (saved.size + 1)) t) := by
    refine walk_ensures h (hfields t .refl) fun name hname => ?_
    refine referenceUpTo_ensures h (.throw _) _ fun v hv u hu => ?_
    exact hfields u (.head ⟨name, hname, hv⟩ hu)
  rw [← walk_referenceUpTo hd _ (Nat.lt_succ_self _)] at hrun
  exact hwalk .start a (congrArg Prod.fst hrun)

end Dialect

/-! ## Terms that differ in field terms -/

/-- Terms that differ in some field terms only, which are related by `r`. -/
inductive Term.Alike (r : FieldTerm → FieldTerm → Prop) : Term → Term → Prop
  | refl (t : Term) : Alike r t t
  | field {f g : FieldTerm} (h : r f g) : Alike r (.field f) (.field g)
  | conjunction {ts us : List Term} (h : List.Forall₂ (Alike r) ts us) :
      Alike r (.conjunction ts) (.conjunction us)
  | disjunction {ts us : List Term} (h : List.Forall₂ (Alike r) ts us) :
      Alike r (.disjunction ts) (.disjunction us)
  | negation {t u : Term} (h : Alike r t u) : Alike r (.negation t) (.negation u)

def Table.Alike (r : FieldTerm → FieldTerm → Prop) (saved saved' : Table Term) : Prop :=
  ∀ name, Option.Rel (Term.Alike r) (saved.get? name) (saved'.get? name)

section
variable {r : FieldTerm → FieldTerm → Prop}

theorem Table.Alike.refl (r : FieldTerm → FieldTerm → Prop) (saved : Table Term) :
    saved.Alike r saved := by
  intro name
  cases saved.get? name with
  | none => exact .none
  | some t => exact .some (.refl t)

theorem Term.map_eq_of_alike {q : Term → β} {ts us : List Term}
    (h : List.Forall₂ (Term.Alike r) ts us) (hq : ∀ t ∈ ts, ∀ u, t.Alike r u → q t = q u) :
    ts.map q = us.map q := by
  induction h with
  | nil => rfl
  | cons hfirst _ ih =>
    obtain ⟨ht, hts⟩ := List.forall_mem_cons.1 hq
    rw [List.map_cons, List.map_cons, ht _ hfirst, ih hts]

theorem Term.areEmpty_eq_all (ts : List Term) : areEmpty ts = ts.all isEmpty := by
  induction ts with
  | nil => rfl
  | cons t ts ih => rw [areEmpty, ih, List.all_cons]

/-- Which terms are empty does not depend on field terms. -/
theorem Term.Alike.isEmpty_eq {t u : Term} (h : t.Alike r u) : t.isEmpty = u.isEmpty := by
  have hgroup {ts us : List Term} (hterms : List.Forall₂ (Term.Alike r) ts us)
      (ih : ∀ t ∈ ts, ∀ u, t.Alike r u → t.isEmpty = u.isEmpty) : areEmpty ts = areEmpty us := by
    rw [areEmpty_eq_all, areEmpty_eq_all]
    simpa [List.all_map] using congrArg (·.all id) (map_eq_of_alike hterms ih)
  induction t using Term.treeInduction generalizing u with
  | conjunction ts ih =>
    cases h with
    | refl => rfl
    | conjunction hterms => exact hgroup hterms fun t ht u => ih t ht
  | disjunction ts ih =>
    cases h with
    | refl => rfl
    | disjunction hterms => exact hgroup hterms fun t ht u => ih t ht
  | negation t ih => cases h <;> rfl
  | field f => cases h <;> rfl
  | properties ps => cases h; rfl
  | saved name => cases h; rfl

namespace Dialect

variable {d : Dialect α} (hfield : ∀ f g, r f g → d.field f = d.field g)
include hfield

/-- Walks over terms alike are the same where their field terms mean the same. -/
theorem walk_eq_of_alike (ref : String → Compiler α) {t u : Term} (h : t.Alike r u) :
    d.walk ref t = d.walk ref u := by
  have hgroup {ts us : List Term} (hterms : List.Forall₂ (Term.Alike r) ts us)
      (ih : ∀ t ∈ ts, ∀ u, t.Alike r u → d.walk ref t = d.walk ref u) :
      d.walkAll ref ts = d.walkAll ref us := by
    rw [walkAll_eq_mapM, walkAll_eq_mapM]
    simpa [List.mapM_map] using congrArg (·.mapM id) (Term.map_eq_of_alike hterms ih)
  induction t using Term.treeInduction generalizing u with
  | conjunction ts ih =>
    cases h with
    | refl => rfl
    | conjunction hterms => rw [walk, walk, hgroup hterms fun t ht u => ih t ht]
  | disjunction ts ih =>
    cases h with
    | refl => rfl
    | disjunction hterms => rw [walk, walk, hgroup hterms fun t ht u => ih t ht]
  | negation t ih =>
    cases h with
    | refl => rfl
    | negation ht => rw [walk, walk, ih ht]
  | field f =>
    cases h with
    | refl => rfl
    | field hfg => exact hfield _ _ hfg
  | properties ps => cases h; rfl
  | saved name => cases h; rfl

/-- References to saved searches alike are the same, down to any depth. -/
theorem referenceUpTo_eq_of_alike {saved saved' : Table Term} (hsaved : saved.Alike r saved')
    (stuck : Compiler α) (depth : Nat) :
    d.referenceUpTo saved stuck depth = d.referenceUpTo saved' stuck depth := by
  induction depth with
  | zero => rfl
  | succ depth ih =>
    funext name
    rw [referenceUpTo, referenceUpTo, ih]
    have hname := hsaved name
    generalize saved.get? name = t?, saved'.get? name = u? at hname
    cases hname with
    | none => rfl
    | some h =>
      dsimp only
      rw [walk_eq_of_alike hfield _ h]

/-- Terms alike mean the same, with saved searches alike, where their field terms mean the same. -/
theorem compile_eq_of_alike (hd : d.KeepsPath) {saved saved' : Table Term}
    (hsaved : saved.Alike r saved') {t u : Term} (h : t.Alike r u) :
    (d.compile saved t).runFrom .start = (d.compile saved' u).runFrom .start := by
  have hdepth : saved.size < max saved.size saved'.size + 1 := by omega
  have hdepth' : saved'.size < max saved.size saved'.size + 1 := by omega
  rw [← walk_referenceUpTo hd (throw (.savedSearchCycle [])) hdepth,
    ← walk_referenceUpTo hd (throw (.savedSearchCycle [])) hdepth',
    referenceUpTo_eq_of_alike hfield hsaved, walk_eq_of_alike hfield _ h]

end Dialect
end

end TagQuery
