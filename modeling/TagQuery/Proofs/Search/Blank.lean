import TagQuery.Proofs.Search.Evaluable
import TagQuery.Proofs.Search.Expansion
import TagQuery.Proofs.Search.Hidden

/-!
# Blank queries

A query that has no content as written matches nothing. A query may also refer to saved searches
without content, and then it is searched for like any other: its groups are evaluated, where an
empty conjunction holds of every file and an empty disjunction of none. Hidden files are left out in
any case.

## Main definitions

- `Term.asksForAll`: whether groups without content hold of every file.

## Main statements

- `Catalog.walk_of_isEmpty`: the meaning of groups without content.
- `Catalog.search_of_isEmpty_expansion`: what a query matches whose expansion has no content.
-/

namespace TagQuery

namespace Term

mutual
/-- Whether a query of groups without content holds of every file: a conjunction does if all its
terms do, and a disjunction if one of them does. -/
def asksForAll : Term → Bool
  | .conjunction terms => allAskForAll terms
  | .disjunction terms => anyAsksForAll terms
  | _ => false
termination_by structural t => t

def allAskForAll : List Term → Bool
  | [] => true
  | t :: ts => asksForAll t && allAskForAll ts
termination_by structural ts => ts

def anyAsksForAll : List Term → Bool
  | [] => false
  | t :: ts => asksForAll t || anyAsksForAll ts
termination_by structural ts => ts
end

@[simp] theorem asksForAll_conjunction (terms : List Term) :
    asksForAll (.conjunction terms) = terms.all asksForAll := by
  rw [asksForAll]
  induction terms with
  | nil => rfl
  | cons t ts ih => rw [allAskForAll, ih, List.all_cons]

@[simp] theorem asksForAll_disjunction (terms : List Term) :
    asksForAll (.disjunction terms) = terms.any asksForAll := by
  rw [asksForAll]
  induction terms with
  | nil => rfl
  | cons t ts ih => rw [anyAsksForAll, ih, List.any_cons]

end Term

namespace Catalog

/-- Groups without content mean an expression without leaves, with the value that they have. -/
theorem walk_of_isEmpty (c : Catalog) (ref : String → Compiler Expr) {t : Term}
    (h : t.isEmpty = true) :
    ∃ e, c.dialect.walk ref t = pure e ∧ e.leaves = [] ∧
      ∀ scale item, e.holdsOn scale item = t.asksForAll := by
  have hgroup {terms : List Term}
      (ih : ∀ t ∈ terms, t.isEmpty = true → ∃ e, c.dialect.walk ref t = pure e ∧ e.leaves = [] ∧
        ∀ scale item, e.holdsOn scale item = t.asksForAll)
      (h : Term.areEmpty terms = true) :
      ∃ es, c.dialect.walkAll ref terms = pure es ∧ es.flatMap Expr.leaves = [] ∧
        ∀ scale item, es.map (Expr.holdsOn scale item) = terms.map Term.asksForAll := by
    induction terms with
    | nil => exact ⟨[], rfl, rfl, fun _ _ => rfl⟩
    | cons t ts ihts =>
      obtain ⟨ht, hts⟩ := Bool.and_eq_true_iff.1 h
      obtain ⟨e, hwalk, hleaves, hvalue⟩ := ih t List.mem_cons_self ht
      obtain ⟨es, hwalks, hnone, hvalues⟩ := ihts (fun u hu => ih u (List.mem_cons_of_mem _ hu)) hts
      refine ⟨e :: es, ?_, ?_, fun scale item => ?_⟩
      · rw [Dialect.walkAll, hwalk, pure_bind, hwalks, pure_bind]
      · rw [List.flatMap_cons, hleaves, hnone, List.append_nil]
      · rw [List.map_cons, List.map_cons, hvalue, hvalues]
  induction t using Term.treeInduction with
  | conjunction terms ih =>
    obtain ⟨es, hwalk, hleaves, hvalues⟩ := hgroup ih h
    refine ⟨.conjunction es, ?_, (Expr.leaves_conjunction es).trans hleaves, fun scale item => ?_⟩
    · rw [Dialect.walk, hwalk, pure_bind]
      rfl
    · rw [Expr.holdsOn_conjunction, Term.asksForAll_conjunction]
      simpa [List.all_map] using congrArg (·.all id) (hvalues scale item)
  | disjunction terms ih =>
    obtain ⟨es, hwalk, hleaves, hvalues⟩ := hgroup ih h
    refine ⟨.disjunction es, ?_, (Expr.leaves_disjunction es).trans hleaves, fun scale item => ?_⟩
    · rw [Dialect.walk, hwalk, pure_bind]
      rfl
    · rw [Expr.holdsOn_disjunction, Term.asksForAll_disjunction]
      simpa [List.any_map] using congrArg (·.any id) (hvalues scale item)
  | negation | field | properties | saved => contradiction

section
variable {c : Catalog} {saved : Table Term} {t : Term} {σ : String → Term}

/-- A query whose expansion has no content names no hidden tag, and its expression has no numbers.
The content is looked for in the query as written, before the expansion. -/
theorem exists_search_of_isEmpty_expansion (hacyclic : ¬t.ReachesCycle saved)
    (hσ : t.Expands saved σ) (hempty : (t.replace σ).isEmpty = true) :
    ∃ s, c.search saved t = .ok s ∧ s.mentionsHidden = false ∧
      (∀ l ∈ s.expression.leaves, l.IsEvaluable) ∧
      ∀ scale item, s.expression.holdsOn scale item =
        (!t.isEmpty && (t.replace σ).asksForAll && item.tags.isDisjoint c.hiddenTags) := by
  cases hwritten : t.isEmpty with
  | true =>
    have hsearch : c.search saved t = .ok ⟨.never, false, c.hiddenTags⟩ := by
      rw [search, hwritten, if_pos rfl]
    exact ⟨_, hsearch, rfl, Expr.forall_leaves_disjunction.2 (List.forall_mem_nil _),
      fun scale item => Expr.holdsOn_disjunction scale item []⟩
  | false =>
    obtain ⟨e, hwalk, hleaves, hvalue⟩ := c.walk_of_isEmpty (c.dialect.reference []) hempty
    have hrun : (c.dialect.compile saved t).runFrom .start = (.ok e, .start) := by
      rw [Dialect.compile_agrees_expansion c.ignoresPath_dialect
        (Term.ends_of_not_reachesCycle hacyclic) hσ]
      change (c.dialect.walk (c.dialect.reference []) (t.replace σ)).runFrom .start = _
      rw [hwalk]
      rfl
    have hsearch : c.search saved t =
        .ok ⟨.conjunction [e, .negation (.tag c.hiddenTags)], false, c.hiddenTags⟩ := by
      rw [search, hwritten, hrun]
      rfl
    refine ⟨_, hsearch, rfl, ?_, fun scale item => ?_⟩
    · rw [Expr.forall_leaves_conjunction, List.forall_mem_cons, hleaves]
      exact ⟨List.forall_mem_nil _,
        List.forall_mem_singleton.2 (List.forall_mem_singleton.2 trivial)⟩
    · have htags : (Expr.tag c.hiddenTags).holdsOn scale item =
          !item.tags.isDisjoint c.hiddenTags := rfl
      simp [hvalue, htags]

/-- What a query matches whose expansion has no content: nothing if it has none as written either,
and else all files without a hidden tag or nothing, as its groups say. -/
theorem search_of_isEmpty_expansion (hacyclic : ¬t.ReachesCycle saved) (hσ : t.Expands saved σ)
    (hempty : (t.replace σ).isEmpty = true) (scale : RatingScale) :
    ∃ s p, c.search saved t = .ok s ∧ s.mentionsHidden = false ∧ s.predicate scale = .ok p ∧
      ∀ item, p item = true ↔ t.isEmpty = false ∧ (t.replace σ).asksForAll = true ∧
        ∀ x ∈ item.tags, x ∉ c.hiddenTags := by
  obtain ⟨s, hsearch, hhides, hevaluable, hvalue⟩ :=
    exists_search_of_isEmpty_expansion (c := c) hacyclic hσ hempty
  obtain ⟨p, hp⟩ := Expr.exists_predicate hevaluable scale
  refine ⟨s, p, hsearch, hhides, (predicate_of_search hsearch scale).trans hp, fun item => ?_⟩
  obtain ⟨-, rfl⟩ := Expr.predicate_eq_ok.1 hp
  simp [hvalue, TagSet.isDisjoint_iff, and_assoc]

end

/-! ## A blank query that is saved -/

def savedBlank : Table Term := ⟨[("blank", .conjunction [])], by decide⟩

/-- What stands in place of a name: the blank query, or nothing that matches. -/
def blankOrNone (name : String) : Term :=
  if name = "blank" then .conjunction [] else .disjunction []

theorem get?_savedBlank (name : String) :
    savedBlank.get? name = if name = "blank" then some (.conjunction []) else none := rfl

theorem not_reachesCycle_savedBlank (t : Term) : ¬t.ReachesCycle savedBlank := by
  refine Term.not_reachesCycle fun a _ => ⟨a, ?_⟩
  rintro b ⟨s, hs, hb⟩
  rw [get?_savedBlank, Option.ite_none_right_eq_some] at hs
  obtain rfl := Option.some.inj hs.2
  contradiction

theorem expands_savedBlank (t : Term) : t.Expands savedBlank blankOrNone := by
  intro a _ name _
  rw [get?_savedBlank, blankOrNone]
  split <;> rfl

/-- A conjunction of the blank query and a disjunction without options has no content, and matches
nothing. -/
theorem search_of_isEmpty_expansion_blank :
    let c : Catalog := ⟨.construct [] [], ∅, .default, ∅, .standard⟩
    let t : Term := .conjunction [.saved "blank", .disjunction []]
    let item : Item := ⟨"", 0, "", [], ∅, ∅, [], ∅, ∅⟩
    ¬t.ReachesCycle savedBlank ∧ t.Expands savedBlank blankOrNone ∧
      (t.replace blankOrNone).isEmpty = true ∧
      ∃ s p, c.search savedBlank t = .ok s ∧ s.predicate ⟨"", ∅⟩ = .ok p ∧ p item = false := by
  intro c t item
  have hacyclic : ¬t.ReachesCycle savedBlank := not_reachesCycle_savedBlank t
  have hσ : t.Expands savedBlank blankOrNone := expands_savedBlank t
  have hempty : (t.replace blankOrNone).isEmpty = true := by decide
  obtain ⟨s, p, hs, -, hp, hiff⟩ := search_of_isEmpty_expansion (c := c) hacyclic hσ hempty ⟨"", ∅⟩
  refine ⟨hacyclic, hσ, hempty, s, p, hs, hp, ?_⟩
  rw [← Bool.not_eq_true, hiff]
  rintro ⟨-, hall, -⟩
  revert hall
  decide

/-- The blank query alone has content as written, as it is a reference, and matches every file
without a hidden tag. -/
theorem search_saved_blank :
    let c : Catalog := ⟨.construct [] [], ∅, .default, ∅, .standard⟩
    let t : Term := .saved "blank"
    let item : Item := ⟨"", 0, "", [], ∅, ∅, [], ∅, ∅⟩
    t.Expands savedBlank blankOrNone ∧ (t.replace blankOrNone).isEmpty = true ∧
      ∃ s p, c.search savedBlank t = .ok s ∧ s.predicate ⟨"", ∅⟩ = .ok p ∧ p item = true := by
  intro c t item
  have hσ : t.Expands savedBlank blankOrNone := expands_savedBlank t
  have hempty : (t.replace blankOrNone).isEmpty = true := by decide
  obtain ⟨s, hs, -, hevaluable, hvalue⟩ :=
    exists_search_of_isEmpty_expansion (c := c) (not_reachesCycle_savedBlank t) hσ hempty
  obtain ⟨p, hp⟩ := Expr.exists_predicate hevaluable ⟨"", ∅⟩
  refine ⟨hσ, hempty, s, p, hs, (predicate_of_search hs _).trans hp, ?_⟩
  obtain ⟨-, rfl⟩ := Expr.predicate_eq_ok.1 hp
  exact (hvalue _ item).trans (by decide)

end Catalog
end TagQuery
