import TagQuery.Proofs.Search.Leaves
import TagQuery.Proofs.Sql.Agreement

/-!
# Searches that compile can be evaluated

The parts of an expression that a backend refuses are numbers that are not finite. A search never
asks for such a number, nor does it leave a relation between stars to a table that it does not know.
So a query that compiles can be evaluated, as it is and after any number of steps of the optimizer.

## Main definitions

- `Expr.IsEvaluable`: no backend refuses a leaf, whatever it knows about stars.

## Main statements

- `Expr.exists_script`, `Expr.exists_predicate`: trees with such leaves can be evaluated.
- `Catalog.search_evaluates`: a search that compiles can be evaluated.
-/

namespace TagQuery

namespace Expr

/-- No backend refuses a leaf, whatever it knows about stars: the leaf is no relation between stars,
its bounds and details are finite, and its portion is a number from zero to one. -/
def IsEvaluable : Expr → Prop
  | .stars _ => False
  | .rating c => c.value.isFinite = true
  | .sample x => x.IsPortion
  | .details _ _ value => ∀ x, value = .real x → x.isFinite = true
  | _ => True

/-- The optimizer adds nothing but sets of tags. -/
theorem isEvaluable_optimize (maxSteps : Nat) {e : Expr} (h : ∀ l ∈ e.leaves, l.IsEvaluable) :
    ∀ l ∈ ((Optimizer.withLimit maxSteps).optimize e).leaves, l.IsEvaluable := by
  intro l hl
  rcases (preserves_optimize maxSteps e).leaves_sub l hl with hl | ⟨kind, tags, rfl⟩
  · exact h l hl
  · cases kind <;> trivial

/-- No relation between stars is left to resolve. -/
theorem resolveStars_eq_self (t : StarTable) {e : Expr} (h : ∀ l ∈ e.leaves, l.IsEvaluable) :
    e.resolveStars t = e := by
  refine resolveStars_of_forall_ne t fun l hl c hstars => ?_
  obtain rfl := hstars
  exact h _ hl

open Sql (Condition)

theorem exists_condition_of_isLeaf {e : Expr} (he : e.isLeaf = true) (h : e.IsEvaluable) :
    ∃ c, Condition.ofExpr e = .ok c := by
  cases e with
  | conjunction _ | disjunction _ | negation _ | stars _ => contradiction
  | rating bound => exact ⟨_, Condition.ofExpr_rating_of_isFinite h⟩
  | sample x => exact ⟨_, if_pos h.1⟩
  | details name op value => exact ⟨_, Condition.ofExpr_details_of_isFinite name op h⟩
  | _ => exact ⟨_, rfl⟩

theorem exists_conditions {parts : List Expr} (h : ∀ e ∈ parts, ∃ c, Condition.ofExpr e = .ok c) :
    ∃ cs, List.Forall₂ (fun e c => Condition.ofExpr e = .ok c) parts cs := by
  induction parts with
  | nil => exact ⟨[], .nil⟩
  | cons e es ih =>
    obtain ⟨⟨c, hc⟩, hes⟩ := List.forall_mem_cons.1 h
    obtain ⟨cs, hcs⟩ := ih hes
    exact ⟨c :: cs, .cons hc hcs⟩

/-- A tree has a condition if no backend refuses its leaves. -/
theorem exists_condition {e : Expr} (h : ∀ l ∈ e.leaves, l.IsEvaluable) :
    ∃ c, Condition.ofExpr e = .ok c := by
  induction e using treeInduction with
  | leaf e he =>
    rw [leaves_of_isLeaf he, List.forall_mem_singleton] at h
    exact exists_condition_of_isLeaf he h
  | conjunction parts ih =>
    rw [forall_leaves_conjunction] at h
    obtain ⟨cs, hcs⟩ := exists_conditions fun e he => ih e he (h e he)
    exact ⟨_, Condition.ofExpr_conjunction_of_forall₂ hcs⟩
  | disjunction parts ih =>
    rw [forall_leaves_disjunction] at h
    obtain ⟨cs, hcs⟩ := exists_conditions fun e he => ih e he (h e he)
    exact ⟨_, Condition.ofExpr_disjunction_of_forall₂ hcs⟩
  | negation e ih =>
    obtain ⟨c, hc⟩ := ih h
    exact ⟨.not c, congrArg (Except.map Condition.not) hc⟩

section
variable {e : Expr} (h : ∀ l ∈ e.leaves, l.IsEvaluable) (scale : RatingScale)
include h

theorem exists_script : ∃ s, Sql.Script.ofExpr scale e = .ok s := by
  obtain ⟨c, hc⟩ := exists_condition h
  unfold Sql.Script.ofExpr
  rw [resolveStars_eq_self scale.stars h, hc]
  exact ⟨_, rfl⟩

theorem exists_predicate : ∃ p, e.predicate scale = .ok p := by
  obtain ⟨c, hc⟩ := exists_condition h
  refine ⟨_, predicate_eq_ok.2 ⟨?_, rfl⟩⟩
  rw [resolveStars_eq_self scale.stars h]
  exact Condition.fault?_of_ofExpr hc

end
end Expr

namespace Catalog

/-- No backend refuses what a search asks for, if the bounds of its stars are finite. -/
theorem Asks.isEvaluable {c : Catalog} (hstars : c.stars.HasFiniteBounds)
    {kinds : Search.Field → Prop} {l : Expr} (h : c.Asks kinds l) : l.IsEvaluable := by
  cases h with
  | text _ | held _ _ | rejected _ _ | properties _ => trivial
  | field hkind h =>
    cases l with
    | rating bound => exact h.elim id (hstars _)
    | sample _ | details _ _ _ | stars _ => exact h
    | _ => trivial

/-- A table made of ratings has finite bounds only. And with finite bounds, or without a table,
every search that compiles can be evaluated, as it is or optimized: its numbers are finite, its
portions are from zero to one and no relation between stars is left, so that there are a script and
a predicate for any category and whatever table these are given. -/
theorem search_evaluates :
    (∀ ratings, (StarTable.ofRatings ratings).HasFiniteBounds) ∧
    ∀ (c : Catalog) (saved : Table Term) (t : Term) (s : CompiledSearch),
      c.stars.HasFiniteBounds → c.search saved t = .ok s →
      ∀ e, (e = s.expression ∨
          ∃ maxSteps, e = (Optimizer.withLimit maxSteps).optimize s.expression) →
        (∀ l ∈ e.leaves, l.IsEvaluable) ∧
        ∀ scale, (∃ script, Sql.Script.ofExpr scale e = .ok script) ∧
          ∃ p, e.predicate scale = .ok p := by
  refine ⟨StarTable.hasFiniteBounds_ofRatings, fun c saved t s hstars hs e he => ?_⟩
  have hasks : ∀ l ∈ s.expression.leaves, c.Asks (fun _ => True) l :=
    asks_search (fun _ _ _ _ _ _ => trivial) hs
  have hcompiled : ∀ l ∈ s.expression.leaves, l.IsEvaluable :=
    fun l hl => (hasks l hl).isEvaluable hstars
  have hleaves : ∀ l ∈ e.leaves, l.IsEvaluable := by
    rcases he with rfl | ⟨maxSteps, rfl⟩
    · exact hcompiled
    · exact Expr.isEvaluable_optimize maxSteps hcompiled
  exact ⟨hleaves, fun scale =>
    ⟨Expr.exists_script hleaves scale, Expr.exists_predicate hleaves scale⟩⟩

/-- A search for files with two stars or more, where ratings from zero on get two. -/
theorem search_evaluates_two_stars :
    let c : Catalog :=
      ⟨.construct [] [], ⟨[⟨none, some (.zero false)⟩, ⟨some (.zero false), none⟩]⟩, .default, ∅,
        .standard⟩
    let t : Term := .field ⟨some "stars", .greaterOrEqual, "2"⟩
    let e : Expr :=
      .conjunction [.rating ⟨.greaterOrEqual, .zero false⟩, .negation (.tag c.hiddenTags)]
    c.stars.HasFiniteBounds ∧ c.search ∅ t = .ok ⟨e, false, c.hiddenTags⟩ ∧
      ∀ scale, (∃ script, Sql.Script.ofExpr scale e = .ok script) ∧
        ∃ p, e.predicate scale = .ok p := by
  intro c t e
  have hbounds : c.stars.bounds = [.zero false, .zero false] := rfl
  have hstars : c.stars.HasFiniteBounds := by
    intro x hx
    obtain rfl : x = .zero false := by simpa [hbounds] using hx
    rfl
  have hs : c.search ∅ t = .ok ⟨e, false, c.hiddenTags⟩ := rfl
  exact ⟨hstars, hs, (search_evaluates.2 c ∅ t _ hstars hs e (.inl rfl)).2⟩

end Catalog
end TagQuery
