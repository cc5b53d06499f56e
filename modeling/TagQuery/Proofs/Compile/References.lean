import Mathlib.Data.List.Chain
import Mathlib.Logic.Relation
import TagQuery.Table
import TagQuery.Term

/-!
# References between saved searches

A term refers to saved searches by their names, and what is saved refers to more of them. The
references from a name on come to an end, or they lead into a cycle.

## Main definitions

- `Term.references`: the names that a term refers to.
- `Term.replace`: a term with other terms in place of its references.
- `Table.RefersTo`: what is saved under one name refers to another.
- `Table.Ends`: the references from a name on come to an end.
- `Term.ReachesCycle`: the references of a term lead into a cycle.

## Main statements

- `Term.treeInduction`: induction on terms by groups, negations and leaves.
- `Term.references_replace`: where a term with replaced references refers to.
- `Table.Ends.not_cycle`: references that come to an end meet no cycle.
-/

namespace TagQuery

namespace Term

/-! ## Terms as trees -/

/-- Induction on terms: groups by their terms, negations, and leaves. -/
@[elab_as_elim]
theorem treeInduction {motive : Term → Prop} (t : Term)
    (conjunction : ∀ terms, (∀ t ∈ terms, motive t) → motive (.conjunction terms))
    (disjunction : ∀ terms, (∀ t ∈ terms, motive t) → motive (.disjunction terms))
    (negation : ∀ t, motive t → motive (.negation t))
    (field : ∀ f, motive (.field f)) (properties : ∀ ps, motive (.properties ps))
    (saved : ∀ name, motive (.saved name)) : motive t := by
  match t with
  | .conjunction terms =>
    exact conjunction terms fun x _ =>
      treeInduction x conjunction disjunction negation field properties saved
  | .disjunction terms =>
    exact disjunction terms fun x _ =>
      treeInduction x conjunction disjunction negation field properties saved
  | .negation x =>
    exact negation x (treeInduction x conjunction disjunction negation field properties saved)
  | .field f => exact field f
  | .properties ps => exact properties ps
  | .saved name => exact saved name
termination_by sizeOf t
decreasing_by
  all_goals simp_wf
  all_goals have := List.sizeOf_lt_of_mem ‹_ ∈ terms›
  all_goals omega

mutual
def references : Term → List String
  | .conjunction terms => referencesAll terms
  | .disjunction terms => referencesAll terms
  | .negation t => references t
  | .saved name => [name]
  | _ => []
termination_by structural t => t

def referencesAll : List Term → List String
  | [] => []
  | t :: ts => references t ++ referencesAll ts
termination_by structural ts => ts
end

theorem referencesAll_eq_flatMap (ts : List Term) : referencesAll ts = ts.flatMap references := by
  induction ts with
  | nil => rfl
  | cons t ts ih => simp [referencesAll, ih]

@[simp] theorem references_conjunction (terms : List Term) :
    references (.conjunction terms) = terms.flatMap references := referencesAll_eq_flatMap terms

@[simp] theorem references_disjunction (terms : List Term) :
    references (.disjunction terms) = terms.flatMap references := referencesAll_eq_flatMap terms

@[simp] theorem references_negation (t : Term) : references (.negation t) = t.references := rfl

@[simp] theorem references_saved (name : String) : references (.saved name) = [name] := rfl

/-! ## Replacing references -/

mutual
/-- A term in which `σ` gives the terms that stand in place of references. -/
def replace (σ : String → Term) : Term → Term
  | .conjunction terms => .conjunction (replaceAll σ terms)
  | .disjunction terms => .disjunction (replaceAll σ terms)
  | .negation t => .negation (replace σ t)
  | .field f => .field f
  | .properties ps => .properties ps
  | .saved name => σ name
termination_by structural t => t

def replaceAll (σ : String → Term) : List Term → List Term
  | [] => []
  | t :: ts => replace σ t :: replaceAll σ ts
termination_by structural ts => ts
end

section
variable (σ : String → Term)

theorem replaceAll_eq_map (ts : List Term) : replaceAll σ ts = ts.map (replace σ) := by
  induction ts with
  | nil => rfl
  | cons t ts ih => simp [replaceAll, ih]

@[simp] theorem replace_conjunction (terms : List Term) :
    replace σ (.conjunction terms) = .conjunction (terms.map (replace σ)) :=
  congrArg conjunction (replaceAll_eq_map σ terms)

@[simp] theorem replace_disjunction (terms : List Term) :
    replace σ (.disjunction terms) = .disjunction (terms.map (replace σ)) :=
  congrArg disjunction (replaceAll_eq_map σ terms)

@[simp] theorem replace_negation (t : Term) :
    replace σ (.negation t) = .negation (t.replace σ) := rfl

@[simp] theorem replace_saved (name : String) : replace σ (.saved name) = σ name := rfl

/-- A term with replaced references refers to what the terms in their place refer to. -/
theorem references_replace (t : Term) :
    (t.replace σ).references = t.references.flatMap fun name => (σ name).references := by
  have hgroup {terms : List Term}
      (ih : ∀ t ∈ terms, (t.replace σ).references =
        t.references.flatMap fun name => (σ name).references) :
      (terms.map (replace σ)).flatMap references =
        (terms.flatMap references).flatMap fun name => (σ name).references := by
    rw [List.flatMap_map, List.flatMap_assoc]
    exact List.flatMap_congr ih
  induction t using treeInduction with
  | conjunction terms ih => simpa using hgroup ih
  | disjunction terms ih => simpa using hgroup ih
  | negation t ih => simpa using ih
  | field f => rfl
  | properties ps => rfl
  | saved name => simp

end

/-- What stands in place of other names makes no difference. -/
theorem replace_congr {σ τ : String → Term} {t : Term}
    (h : ∀ name ∈ t.references, σ name = τ name) : t.replace σ = t.replace τ := by
  have hgroup {terms : List Term}
      (ih : ∀ t ∈ terms, (∀ name ∈ t.references, σ name = τ name) → t.replace σ = t.replace τ)
      (hterms : ∀ name ∈ terms.flatMap references, σ name = τ name) :
      terms.map (replace σ) = terms.map (replace τ) :=
    List.map_congr_left fun t ht => ih t ht fun name hname =>
      hterms name (List.mem_flatMap.2 ⟨t, ht, hname⟩)
  induction t using treeInduction with
  | conjunction terms ih =>
    rw [replace_conjunction, replace_conjunction, hgroup ih (references_conjunction terms ▸ h)]
  | disjunction terms ih =>
    rw [replace_disjunction, replace_disjunction, hgroup ih (references_disjunction terms ▸ h)]
  | negation t ih => rw [replace_negation, replace_negation, ih h]
  | field f => rfl
  | properties ps => rfl
  | saved name => exact h name List.mem_cons_self

end Term

/-! ## References from name to name -/

open Relation (ReflTransGen TransGen)

namespace Table

/-- What is saved under one name refers to another. -/
def RefersTo (saved : Table Term) (a b : String) : Prop :=
  ∃ t, saved.get? a = some t ∧ b ∈ t.references

/-- The references from a name on come to an end. -/
def Ends (saved : Table Term) (name : String) : Prop :=
  Acc (fun b a => saved.RefersTo a b) name

variable {saved : Table Term} {a b : String}

theorem Ends.of_refersTo (ha : saved.Ends a) (h : saved.RefersTo a b) : saved.Ends b :=
  Acc.inv ha h

theorem Ends.of_reflTransGen (ha : saved.Ends a) (h : ReflTransGen saved.RefersTo a b) :
    saved.Ends b := by
  induction h with
  | refl => exact ha
  | tail _ hstep ih => exact ih.of_refersTo hstep

/-- References that come to an end do not lead back. -/
theorem Ends.not_cycle (ha : saved.Ends a) : ¬TransGen saved.RefersTo a a := by
  induction ha with
  | intro a _ ih =>
    intro hcycle
    obtain ⟨b, hab, hba⟩ := TransGen.head'_iff.1 hcycle
    exact ih b hab (TransGen.tail' hba hab)

end Table

namespace Term

/-- The references of a term lead into a cycle. -/
def ReachesCycle (saved : Table Term) (t : Term) : Prop :=
  ∃ a ∈ t.references, ∃ x, ReflTransGen saved.RefersTo a x ∧ TransGen saved.RefersTo x x

theorem not_reachesCycle {saved : Table Term} {t : Term} (h : ∀ a ∈ t.references, saved.Ends a) :
    ¬t.ReachesCycle saved := by
  rintro ⟨a, ha, x, hax, hcycle⟩
  exact ((h a ha).of_reflTransGen hax).not_cycle hcycle

/-- A chain of references from a term to a name that the chain has met before. -/
structure IsCycleChain (saved : Table Term) (t : Term) (chain : List String) : Prop where
  /-- The first name is one that the term refers to. -/
  head : ∃ a ∈ t.references, chain.head? = some a
  /-- Every name is one that the name before refers to. -/
  refers : chain.IsChain saved.RefersTo
  /-- The last name is the first to occur again. -/
  last : ∃ names name, chain = names ++ [name] ∧ names.Nodup ∧ name ∈ names

/-- A chain leads from its first name to its last. -/
theorem reflTransGen_of_isChain {r : String → String → Prop} {names : List String} {a x : String}
    (h : (names ++ [x]).IsChain r) (hhead : (names ++ [x]).head? = some a) :
    ReflTransGen r a x := by
  have hne : names ++ [x] ≠ [] := by simp
  have hpath := List.relationReflTransGen_of_exists_isChain _ h hne
  rw [List.head?_eq_some_head hne, Option.some.injEq] at hhead
  rwa [hhead, List.getLast_append_singleton] at hpath

/-- A chain that comes back to a name shows a cycle. -/
theorem IsCycleChain.reachesCycle {saved : Table Term} {t : Term} {chain : List String}
    (h : t.IsCycleChain saved chain) : t.ReachesCycle saved := by
  obtain ⟨a, ha, hhead⟩ := h.head
  obtain ⟨names, x, rfl, -, hx⟩ := h.last
  obtain ⟨before, between, rfl⟩ := List.append_of_mem hx
  have hrefers := h.refers
  rw [List.append_assoc, List.cons_append, List.isChain_split] at hrefers
  obtain ⟨hbefore, hcycle⟩ := hrefers
  refine ⟨a, ha, x, reflTransGen_of_isChain hbefore ?_, ?_⟩
  · cases before <;> simpa using hhead
  · cases between with
    | nil => exact .single (List.isChain_pair.1 hcycle)
    | cons y between =>
      obtain ⟨hxy, hback⟩ := List.isChain_cons_cons.1 hcycle
      have hback : ((y :: between) ++ [x]).IsChain saved.RefersTo := hback
      exact .head' hxy (reflTransGen_of_isChain hback rfl)

end Term
end TagQuery
