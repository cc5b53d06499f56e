import Mathlib.Logic.Relation
import TagQuery.Proofs.Compile.References

/-!
# Normal forms of terms

What is written of a term does not show a group within a group of the same kind, nor a group of one
part, nor half of a comparison with a property. A term without any of these is in normal form.

## Main definitions

- `Term.Junction`: the two kinds of groups.
- `Term.normalForm`: the term without what is not written.
- `Term.IsNormal`: no group lies directly within one of its kind or has one part only, and every
  condition on a property is either complete or about presence.
- `Term.Simplifies`: one group or comparison is simplified.

## Main statements

- `Term.isNormal_normalForm`: normal forms are normal.
- `Term.reflTransGen_normalForm`: a term leads to its normal form by such simplifications.
- `Term.eq_normalForm_of_simplified`: they lead to nothing else that is normal.
-/

namespace TagQuery

open Relation (ReflTransGen)

/-- The condition with both an operator and a value, or else on presence alone. -/
def PropertyPredicate.plain (p : PropertyPredicate) : PropertyPredicate :=
  match p.operator, p.value with
  | some _, some _ => p
  | _, _ => ⟨p.field, none, none⟩

namespace Term

/-! ## Groups -/

inductive Junction where
  | and
  | or
  deriving DecidableEq

namespace Junction

def group : Junction → List Term → Term
  | .and => .conjunction
  | .or => .disjunction

/-- The terms of a group of the kind; any other term is the only part of itself. -/
def parts : Junction → Term → List Term
  | .and, .conjunction ts => ts
  | .or, .disjunction ts => ts
  | _, t => [t]

def ofParts (j : Junction) : List Term → Term
  | [t] => t
  | ts => j.group ts

variable {j : Junction} {t : Term} {ts : List Term}

@[simp] theorem parts_group (j : Junction) (ts : List Term) : j.parts (j.group ts) = ts := by
  cases j <;> rfl

theorem ofParts_of_length_ne (h : ts.length ≠ 1) : j.ofParts ts = j.group ts := by
  unfold ofParts
  split
  · exact absurd rfl h
  · rfl

/-- A term is a group of the kind or its own only part. -/
theorem eq_group_or_parts_eq (j : Junction) (t : Term) :
    (∃ ts, t = j.group ts) ∨ j.parts t = [t] := by
  cases j with
  | and =>
    cases t with
    | conjunction ts => exact .inl ⟨ts, rfl⟩
    | _ => exact .inr rfl
  | or =>
    cases t with
    | disjunction ts => exact .inl ⟨ts, rfl⟩
    | _ => exact .inr rfl

theorem parts_ofParts (h : ∀ t ∈ ts, j.parts t = [t]) : j.parts (j.ofParts ts) = ts := by
  by_cases hlength : ts.length = 1
  · obtain ⟨t, rfl⟩ := List.length_eq_one_iff.1 hlength
    exact h t List.mem_cons_self
  · rw [ofParts_of_length_ne hlength, parts_group]

end Junction

/-! ## Normal terms -/

/-- No group lies directly within one of its kind or has one part only, and no comparison with a
property is incomplete. -/
inductive IsNormal : Term → Prop
  | conjunction {ts} (hlength : ts.length ≠ 1) (hparts : ∀ t ∈ ts, Junction.and.parts t = [t])
      (h : ∀ t ∈ ts, IsNormal t) : IsNormal (.conjunction ts)
  | disjunction {ts} (hlength : ts.length ≠ 1) (hparts : ∀ t ∈ ts, Junction.or.parts t = [t])
      (h : ∀ t ∈ ts, IsNormal t) : IsNormal (.disjunction ts)
  | negation {t} (h : IsNormal t) : IsNormal (.negation t)
  | field (f) : IsNormal (.field f)
  | properties {ps} (h : ∀ p ∈ ps, p.plain = p) : IsNormal (.properties ps)
  | saved (name) : IsNormal (.saved name)

namespace IsNormal

variable {j : Junction} {t u : Term} {ts : List Term}

theorem group (hlength : ts.length ≠ 1) (hparts : ∀ t ∈ ts, j.parts t = [t])
    (h : ∀ t ∈ ts, IsNormal t) : IsNormal (j.group ts) := by
  cases j with
  | and => exact .conjunction hlength hparts h
  | or => exact .disjunction hlength hparts h

theorem of_group (h : IsNormal (j.group ts)) :
    ts.length ≠ 1 ∧ ∀ t ∈ ts, IsNormal t ∧ j.parts t = [t] := by
  cases j with
  | and =>
    cases h with
    | conjunction hlength hparts h => exact ⟨hlength, fun t ht => ⟨h t ht, hparts t ht⟩⟩
  | or =>
    cases h with
    | disjunction hlength hparts h => exact ⟨hlength, fun t ht => ⟨h t ht, hparts t ht⟩⟩

/-- The parts of a normal term are normal, and are no groups of the kind. -/
theorem of_mem_parts (h : IsNormal t) (hu : u ∈ j.parts t) : IsNormal u ∧ j.parts u = [u] := by
  rcases j.eq_group_or_parts_eq t with ⟨ts, rfl⟩ | hpart
  · rw [Junction.parts_group] at hu
    exact h.of_group.2 u hu
  · rw [hpart] at hu
    obtain rfl := List.mem_singleton.1 hu
    exact ⟨h, hpart⟩

theorem ofParts_parts (h : IsNormal t) (j : Junction) : j.ofParts (j.parts t) = t := by
  rcases j.eq_group_or_parts_eq t with ⟨ts, rfl⟩ | hpart
  · rw [Junction.parts_group, Junction.ofParts_of_length_ne h.of_group.1]
  · rw [hpart]
    rfl

theorem ofParts (h : ∀ t ∈ ts, IsNormal t ∧ j.parts t = [t]) : IsNormal (j.ofParts ts) := by
  by_cases hlength : ts.length = 1
  · obtain ⟨t, rfl⟩ := List.length_eq_one_iff.1 hlength
    exact (h t List.mem_cons_self).1
  · rw [Junction.ofParts_of_length_ne hlength]
    exact .group hlength (fun t ht => (h t ht).2) fun t ht => (h t ht).1

end IsNormal

/-! ## The normal form -/

mutual
/-- The term without groups within groups of the same kind, without groups of one part, and without
incomplete comparisons. -/
def normalForm : Term → Term
  | .conjunction ts => Junction.and.ofParts ((normalForms ts).flatMap Junction.and.parts)
  | .disjunction ts => Junction.or.ofParts ((normalForms ts).flatMap Junction.or.parts)
  | .negation t => .negation t.normalForm
  | .field f => .field f
  | .properties ps => .properties (ps.map PropertyPredicate.plain)
  | .saved name => .saved name
termination_by structural t => t

def normalForms : List Term → List Term
  | [] => []
  | t :: ts => t.normalForm :: normalForms ts
termination_by structural ts => ts
end

theorem normalForms_eq_map (ts : List Term) : normalForms ts = ts.map normalForm := by
  induction ts with
  | nil => rfl
  | cons t ts ih => rw [normalForms, ih, List.map_cons]

theorem normalForm_group (j : Junction) (ts : List Term) :
    (j.group ts).normalForm = j.ofParts ((ts.map normalForm).flatMap j.parts) := by
  rw [← normalForms_eq_map]
  cases j <;> rfl

theorem plain_plain (p : PropertyPredicate) : p.plain.plain = p.plain := by
  obtain ⟨field, _ | op, _ | value⟩ := p <;> rfl

theorem isNormal_normalForm (t : Term) : t.normalForm.IsNormal := by
  have hgroup (j : Junction) {ts : List Term} (h : ∀ t ∈ ts, t.normalForm.IsNormal) :
      (j.group ts).normalForm.IsNormal := by
    rw [normalForm_group]
    refine .ofParts fun u hu => ?_
    simp only [List.mem_flatMap, List.mem_map, exists_exists_and_eq_and] at hu
    obtain ⟨t, ht, hu⟩ := hu
    exact (h t ht).of_mem_parts hu
  induction t using treeInduction with
  | conjunction ts ih => exact hgroup .and ih
  | disjunction ts ih => exact hgroup .or ih
  | negation t ih => exact .negation ih
  | field f => exact .field f
  | properties ps =>
    refine .properties fun p hp => ?_
    obtain ⟨q, -, rfl⟩ := List.mem_map.1 hp
    exact plain_plain q
  | saved name => exact .saved name

/-- The parts of the normal form of a group are those of its terms, in their order. -/
theorem parts_normalForm_group (j : Junction) (ts : List Term) :
    j.parts (j.group ts).normalForm = (ts.map normalForm).flatMap j.parts := by
  rw [normalForm_group]
  refine Junction.parts_ofParts fun u hu => ?_
  simp only [List.mem_flatMap, List.mem_map, exists_exists_and_eq_and] at hu
  obtain ⟨t, -, hu⟩ := hu
  exact (t.isNormal_normalForm.of_mem_parts hu).2

/-! ## Simplifications -/

/-- Anywhere in a term, one group within a group of its kind is flattened, one group of a single
part is replaced by it, or one incomplete comparison by presence. -/
inductive Simplifies : Term → Term → Prop
  | splice (j : Junction) (before ts after) :
      Simplifies (j.group (before ++ j.group ts :: after)) (j.group (before ++ ts ++ after))
  | single (j : Junction) (t) : Simplifies (j.group [t]) t
  | plain (before p after) :
      Simplifies (.properties (before ++ p :: after)) (.properties (before ++ p.plain :: after))
  | part (j : Junction) (before) {t u} (after) (h : Simplifies t u) :
      Simplifies (j.group (before ++ t :: after)) (j.group (before ++ u :: after))
  | negation {t u} (h : Simplifies t u) : Simplifies (.negation t) (.negation u)

theorem reflTransGen_parts (j : Junction) {ts : List Term}
    (h : ∀ t ∈ ts, ReflTransGen Simplifies t t.normalForm) (before : List Term) :
    ReflTransGen Simplifies (j.group (before ++ ts)) (j.group (before ++ ts.map normalForm)) := by
  induction ts generalizing before with
  | nil => exact .refl
  | cons t ts ih =>
    obtain ⟨ht, hts⟩ := List.forall_mem_cons.1 h
    have hfirst : ReflTransGen Simplifies (j.group (before ++ t :: ts))
        (j.group (before ++ t.normalForm :: ts)) :=
      ht.lift (fun u => j.group (before ++ u :: ts)) fun _ _ => Simplifies.part j before ts
    have hrest := ih hts (before ++ [t.normalForm])
    simp only [List.append_assoc, List.singleton_append] at hrest
    exact hfirst.trans hrest

theorem reflTransGen_flatMap_parts (j : Junction) (ts before : List Term) :
    ReflTransGen Simplifies (j.group (before ++ ts)) (j.group (before ++ ts.flatMap j.parts)) := by
  induction ts generalizing before with
  | nil => exact .refl
  | cons t ts ih =>
    rcases j.eq_group_or_parts_eq t with ⟨us, rfl⟩ | hpart
    · have hrest := ih (before ++ us)
      rw [List.flatMap_cons, Junction.parts_group, ← List.append_assoc]
      exact .head (.splice j before us ts) hrest
    · have hrest := ih (before ++ [t])
      rw [List.flatMap_cons, hpart]
      simp only [List.append_assoc, List.singleton_append] at hrest ⊢
      exact hrest

theorem reflTransGen_plain (before ps : List PropertyPredicate) :
    ReflTransGen Simplifies (.properties (before ++ ps))
      (.properties (before ++ ps.map PropertyPredicate.plain)) := by
  induction ps generalizing before with
  | nil => exact .refl
  | cons p ps ih =>
    have hrest := ih (before ++ [p.plain])
    simp only [List.append_assoc, List.singleton_append] at hrest
    exact .head (.plain before p ps) hrest

/-- A term leads to its normal form by simplifications. -/
theorem reflTransGen_normalForm (t : Term) : ReflTransGen Simplifies t t.normalForm := by
  have hgroup (j : Junction) {ts : List Term}
      (h : ∀ t ∈ ts, ReflTransGen Simplifies t t.normalForm) :
      ReflTransGen Simplifies (j.group ts) (j.group ts).normalForm := by
    have hflat := (reflTransGen_parts j h []).trans
      (reflTransGen_flatMap_parts j (ts.map normalForm) [])
    rw [normalForm_group]
    by_cases hlength : ((ts.map normalForm).flatMap j.parts).length = 1
    · obtain ⟨u, hu⟩ := List.length_eq_one_iff.1 hlength
      rw [List.nil_append, List.nil_append, hu] at hflat
      rw [hu]
      exact hflat.tail (.single j u)
    · rw [Junction.ofParts_of_length_ne hlength]
      exact hflat
  induction t using treeInduction with
  | conjunction ts ih => exact hgroup .and ih
  | disjunction ts ih => exact hgroup .or ih
  | negation t ih => exact ih.lift Term.negation fun _ _ => Simplifies.negation
  | field f => exact .refl
  | properties ps => exact reflTransGen_plain [] ps
  | saved name => exact .refl

/-- Simplifications do not change the normal form. -/
theorem Simplifies.normalForm_eq {t u : Term} (h : Simplifies t u) :
    t.normalForm = u.normalForm := by
  induction h with
  | splice j before ts after =>
    have hparts := parts_normalForm_group j ts
    rw [normalForm_group] at hparts
    simp [normalForm_group, hparts]
  | single j t =>
    rw [normalForm_group, List.map_singleton, List.flatMap_singleton,
      t.isNormal_normalForm.ofParts_parts]
  | plain before p after => simp [normalForm, plain_plain]
  | part j before after _ ih => simp [normalForm_group, ih]
  | negation _ ih => rw [normalForm, normalForm, ih]

theorem IsNormal.normalForm_eq {t : Term} (h : IsNormal t) : t.normalForm = t := by
  have hgroup (j : Junction) {ts : List Term} (hlength : ts.length ≠ 1)
      (hparts : ∀ t ∈ ts, j.parts t = [t]) (ih : ∀ t ∈ ts, t.normalForm = t) :
      (j.group ts).normalForm = j.group ts := by
    have hmap : ts.map normalForm = ts := (List.map_congr_left ih).trans (List.map_id ts)
    have hflat : ts.flatMap j.parts = ts := by
      rw [List.flatMap_congr hparts]
      simp
    rw [normalForm_group, hmap, hflat, Junction.ofParts_of_length_ne hlength]
  induction h with
  | conjunction hlength hparts _ ih => exact hgroup .and hlength hparts ih
  | disjunction hlength hparts _ ih => exact hgroup .or hlength hparts ih
  | negation _ ih => rw [normalForm, ih]
  | field f => rfl
  | @properties ps h =>
    have hmap : ps.map PropertyPredicate.plain = ps :=
      (List.map_congr_left h).trans (List.map_id ps)
    rw [normalForm, hmap]
  | saved name => rfl

/-- In whatever order a term is simplified, it comes to the same end. -/
theorem eq_normalForm_of_simplified {t u : Term} (h : ReflTransGen Simplifies t u)
    (hu : u.IsNormal) : u = t.normalForm := by
  induction h using ReflTransGen.head_induction_on with
  | refl => exact hu.normalForm_eq.symm
  | head hfirst _ ih => rw [hfirst.normalForm_eq, ih]

end Term
end TagQuery
