import TagQuery.Proofs.Compile.Cycles

/-!
# Expansion of saved searches

Where the references of a term meet no cycle, what they stand for can be put in their place. In a
dialect that ignores what is being replaced, it makes no difference whether this is done beforehand
or during the walk.

## Main definitions

- `Term.Expands`: terms in place of names are what is saved under them, expanded in the same way.
- `Table.expansion`: such terms.
- `Dialect.rebuild`: the dialect in which terms mean themselves.

## Main statements

- `Term.expands_expansion`: such terms exist where all references come to an end.
- `Term.references_replace_of_expands`: an expanded term has no references left.
- `Dialect.compile_agrees_expansion`: the walk over a term is the one over the expanded term.
-/

namespace TagQuery

open Relation (ReflTransGen TransGen)

/-! ## Expanded terms -/

/-- In place of all names that a term leads to, `σ` has what is saved under them, expanded by `σ`,
and an empty disjunction where nothing is saved. -/
def Term.Expands (saved : Table Term) (t : Term) (σ : String → Term) : Prop :=
  ∀ a ∈ t.references, ∀ name, ReflTransGen saved.RefersTo a name →
    σ name = match saved.get? name with
      | none => .disjunction []
      | some s => s.replace σ

namespace Table

variable (saved : Table Term)

theorem wellFounded_refersTo :
    WellFounded fun b a => saved.RefersTo a b ∧ saved.Ends a :=
  ⟨fun name => ⟨name, fun _ h => Subrelation.accessible And.left (h.2.of_refersTo h.1)⟩⟩

open Classical in
/-- The term that stands for a name, where the references from the name on come to an end. -/
noncomputable def expansion : String → Term :=
  (wellFounded_refersTo saved).fix fun name σ =>
    match saved.get? name with
    | none => .disjunction []
    | some s => s.replace fun b =>
      if h : saved.RefersTo name b ∧ saved.Ends name then σ b h else .disjunction []

variable {saved}

theorem expansion_eq {name : String} (h : saved.Ends name) :
    saved.expansion name = match saved.get? name with
      | none => .disjunction []
      | some s => s.replace saved.expansion := by
  rw [expansion, WellFounded.fix_eq]
  cases hget : saved.get? name with
  | none => rfl
  | some s => exact Term.replace_congr fun b hb => dif_pos ⟨⟨s, hget, hb⟩, h⟩

end Table

namespace Term

variable {saved : Table Term} {t : Term}

theorem Expands.of_mem {σ : String → Term} (h : t.Expands saved σ) {a : String}
    (ha : a ∈ t.references) : (Term.saved a).Expands saved σ := by
  intro b hb
  rw [references_saved, List.mem_singleton] at hb
  exact hb ▸ h a ha

theorem expands_expansion (h : ∀ a ∈ t.references, saved.Ends a) :
    t.Expands saved saved.expansion :=
  fun a ha _ hname => Table.expansion_eq ((h a ha).of_reflTransGen hname)

/-- The terms that stand for names have no references left. -/
theorem references_of_expands {σ : String → Term} {name : String} (hends : saved.Ends name)
    (hσ : (Term.saved name).Expands saved σ) : (σ name).references = [] := by
  replace hσ := hσ name List.mem_cons_self
  induction hends with
  | intro name _ ih =>
    rw [hσ name .refl]
    cases hget : saved.get? name with
    | none => rfl
    | some s =>
      change (s.replace σ).references = []
      rw [references_replace, List.flatMap_eq_nil_iff]
      exact fun b hb => ih b ⟨s, hget, hb⟩ fun x hx => hσ x (hx.head ⟨s, hget, hb⟩)

/-- An expanded term has no references left. -/
theorem references_replace_of_expands {σ : String → Term} (hends : ∀ a ∈ t.references, saved.Ends a)
    (hσ : t.Expands saved σ) : (t.replace σ).references = [] := by
  rw [references_replace, List.flatMap_eq_nil_iff]
  exact fun a ha => references_of_expands (hends a ha) (hσ.of_mem ha)

end Term

/-! ## Dialects that ignore the path -/

namespace Dialect

open Compiler (Agrees)

variable {α : Type} {d : Dialect α}

/-- The dialect in which terms mean themselves. -/
def rebuild : Dialect Term where
  conjunction terms := return .conjunction terms
  disjunction terms := return .disjunction terms
  negation t := return .negation t
  field f := return .field f
  properties ps := return .properties ps

theorem ignoresPath_rebuild : rebuild.IgnoresPath := fun _ _ =>
  ⟨fun _ => .pure _, fun _ => .pure _, fun _ => .pure _, fun _ => .pure _, fun _ => .pure _⟩

theorem neverFails_rebuild : rebuild.NeverFails :=
  ⟨fun _ _ => ⟨_, rfl⟩, fun _ _ => ⟨_, rfl⟩, fun _ _ => ⟨_, rfl⟩, fun _ _ => ⟨_, rfl⟩,
    fun _ _ => ⟨_, rfl⟩⟩

/-- A reference that leads to no name of the path does what the expanded term does, which refers to
nothing. -/
theorem reference_agrees_expansion (hd : d.IgnoresPath) {saved : Table Term} {σ : String → Term}
    {name : String} (hends : saved.Ends name) (hσ : (Term.saved name).Expands saved σ)
    {p q : List String} (hp : ∀ x, ReflTransGen saved.RefersTo name x → x ∉ p) :
    Agrees p q (d.reference (others saved p) name) (d.walk (d.reference []) (σ name)) := by
  replace hσ := hσ name List.mem_cons_self
  induction hends generalizing p with
  | intro name hacc ih =>
    intro hidden
    rw [reference_of_not_mem d (hp name .refl), hσ name .refl]
    cases hget : saved.get? name with
    | none => exact (hd p q).disjunction [] hidden
    | some s =>
      have hwalk : Agrees (p ++ [name]) q (d.walk (d.reference (others saved (p ++ [name]))) s)
          (d.walk (d.reference []) (s.replace σ)) := by
        rw [walk_replace]
        refine walk_agrees (hd _ q) fun b hb => ?_
        have hstep : saved.RefersTo name b := ⟨s, hget, hb⟩
        refine ih b hstep (fun x hx hmem => ?_) fun x hx => hσ x (hx.head hstep)
        rcases List.mem_append.1 hmem with hmem | hmem
        · exact hp x (hx.head hstep) hmem
        · -- otherwise the name would lead back to itself
          rw [List.mem_singleton.1 hmem] at hx
          have hends : saved.Ends name := ⟨name, hacc⟩
          exact hends.not_cycle (.head' hstep hx)
      obtain ⟨outcome, after, hm, hm'⟩ := hwalk hidden
      exact ⟨outcome, after, Compiler.runFrom_whileExpanding hm, hm'⟩

/-- The walk over a term and that over the expanded term do the same. -/
theorem compile_agrees_expansion (hd : d.IgnoresPath) {saved : Table Term} {t : Term}
    (hends : ∀ a ∈ t.references, saved.Ends a) {σ : String → Term} (hσ : t.Expands saved σ) :
    (d.compile saved t).runFrom .start = (d.compile ∅ (t.replace σ)).runFrom .start := by
  have hwalk : Agrees [] [] (d.walk (d.reference (others saved [])) t)
      (d.walk (d.reference []) (t.replace σ)) := by
    rw [walk_replace]
    exact walk_agrees (hd [] []) fun a ha =>
      reference_agrees_expansion hd (hends a ha) (hσ.of_mem ha) fun x _ => List.not_mem_nil
  rw [others_nil] at hwalk
  exact hwalk.eq false

end Dialect

namespace Term

variable {saved : Table Term} {t : Term}

/-- Where no cycle is reached, all references come to an end. -/
theorem ends_of_not_reachesCycle (h : ¬t.ReachesCycle saved) :
    ∀ a ∈ t.references, saved.Ends a := by
  obtain ⟨cycle?, -, hends, hchain⟩ := Dialect.compile_settles
    Dialect.ignoresPath_rebuild.keepsPath Dialect.neverFails_rebuild saved t
  cases cycle? with
  | none => exact hends rfl
  | some chain => exact absurd (hchain chain rfl).reachesCycle h

end Term

end TagQuery
