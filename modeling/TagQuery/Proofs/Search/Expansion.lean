import TagQuery.Proofs.Compile.Expansion
import TagQuery.Proofs.Search.Frame

/-!
# Searches that refer to saved searches

The meaning of the parts of a search does not depend on which saved searches are being replaced. So
saved searches are expanded exactly: a search that refers to them means what the expanded search
means, and only cycles are refused.

## Main statements

- `Catalog.ignoresPath_dialect`: the parts of a search mean the same during any replacement.
- `Term.compile_expands`: a walk ends, fails at cycles, and else is the walk over the expanded term.
- `Catalog.search_replace`: a search is the one that the expanded term asks for.
-/

namespace TagQuery

/-- The meaning of searches does not depend on what is being replaced. -/
theorem Catalog.ignoresPath_dialect (c : Catalog) : c.dialect.IgnoresPath :=
  c.onlyNotes_dialect.ignoresPath

/-! ## Compilation -/

namespace Term

/-- For every dialect that leaves the path as it is, the walk looks saved searches up no deeper than
there are any. If the dialect never fails, the walk fails exactly where the references of the term
lead into a cycle, with a chain that shows one. For searches, where there is no cycle, the walk does
what the one over the expanded term does. -/
theorem compile_expands (saved : Table Term) (t : Term) :
    (∀ {α : Type} (d : Dialect α), d.KeepsPath →
      (∀ depth, saved.size < depth → ∀ stuck,
        (d.walk (d.referenceUpTo saved stuck depth) t).runFrom .start =
          (d.compile saved t).runFrom .start) ∧
      (d.NeverFails →
        ((∃ e, d.compileQuery saved t = .error e) ↔ t.ReachesCycle saved) ∧
        ∀ e, d.compileQuery saved t = .error e →
          ∃ chain, e = .savedSearchCycle chain ∧ t.IsCycleChain saved chain)) ∧
    (¬t.ReachesCycle saved →
      (∃ σ, t.Expands saved σ) ∧
      ∀ σ, t.Expands saved σ → (t.replace σ).references = [] ∧
        ∀ c : Catalog, (c.dialect.compile saved t).runFrom .start =
          (c.dialect.compile ∅ (t.replace σ)).runFrom .start) := by
  refine ⟨fun d hd => ⟨fun depth hdepth stuck => ?_, fun hf => ?_⟩, fun hacyclic => ?_⟩
  · exact Dialect.walk_referenceUpTo hd stuck hdepth t
  · exact Dialect.compileQuery_eq_error hd hf saved t
  · have hends := ends_of_not_reachesCycle hacyclic
    exact ⟨⟨_, expands_expansion hends⟩, fun σ hσ => ⟨references_replace_of_expands hends hσ,
      fun c => Dialect.compile_agrees_expansion c.ignoresPath_dialect hends hσ⟩⟩

/-- A search that refers to itself, and one that is met twice but not inside itself. -/
theorem compile_expands_pets :
    let saved : Table Term :=
      ⟨[("cats", .tag "cat"), ("loop", .negation (.saved "loop")),
        ("pets", .disjunction [.saved "cats", .tag "dog"])], by decide⟩
    let t : Term := .conjunction [.saved "pets", .saved "cats", .saved "birds"]
    let c : Catalog := ⟨.construct [] [], ∅, .default, ∅, .standard⟩
    (Dialect.rebuild.KeepsPath ∧ Dialect.rebuild.NeverFails ∧
      (Dialect.rebuild.walk (Dialect.rebuild.referenceUpTo saved (pure t) 4) t).runFrom .start =
        (Dialect.rebuild.compile saved t).runFrom .start) ∧
    ((Term.saved "loop").ReachesCycle saved ∧
      ∃ chain, Dialect.rebuild.compileQuery saved (.saved "loop") =
        .error (.savedSearchCycle chain) ∧ (Term.saved "loop").IsCycleChain saved chain) ∧
    ¬t.ReachesCycle saved ∧ ∃ σ, t.Expands saved σ ∧
      (c.dialect.compile saved t).runFrom .start =
        (c.dialect.compile ∅ (t.replace σ)).runFrom .start := by
  intro saved t c
  have hkeeps : Dialect.rebuild.KeepsPath := Dialect.ignoresPath_rebuild.keepsPath
  have hnever : Dialect.rebuild.NeverFails := Dialect.neverFails_rebuild
  have hloop : (Term.saved "loop").ReachesCycle saved :=
    ⟨"loop", List.mem_cons_self, "loop", .refl, .single ⟨_, rfl, List.mem_cons_self⟩⟩
  have hcats : saved.Ends "cats" := by
    refine ⟨_, ?_⟩
    rintro b ⟨s, hs, hb⟩
    obtain rfl : Term.tag "cat" = s := Option.some.inj hs
    contradiction
  have hpets : saved.Ends "pets" := by
    refine ⟨_, ?_⟩
    rintro b ⟨s, hs, hb⟩
    obtain rfl : Term.disjunction [.saved "cats", .tag "dog"] = s := Option.some.inj hs
    obtain rfl : b = "cats" := by
      simpa [tag, references, referencesAll] using hb
    exact hcats
  have hbirds : saved.Ends "birds" := by
    refine ⟨_, ?_⟩
    rintro b ⟨s, hs, -⟩
    contradiction
  have hacyclic : ¬t.ReachesCycle saved := by
    refine not_reachesCycle fun a ha => ?_
    have ha : a = "pets" ∨ a = "cats" ∨ a = "birds" := by simpa [t] using ha
    rcases ha with rfl | rfl | rfl
    · exact hpets
    · exact hcats
    · exact hbirds
  obtain ⟨hdialects, hexpansion⟩ := compile_expands saved t
  obtain ⟨⟨σ, hσ⟩, hsame⟩ := hexpansion hacyclic
  obtain ⟨hiff, hchains⟩ := ((compile_expands saved (.saved "loop")).1 _ hkeeps).2 hnever
  obtain ⟨e, he⟩ := hiff.2 hloop
  obtain ⟨chain, rfl, hchain⟩ := hchains e he
  exact ⟨⟨hkeeps, hnever, (hdialects _ hkeeps).1 4 (by decide) _⟩, ⟨hloop, chain, he, hchain⟩,
    hacyclic, σ, hσ, (hsame σ hσ).2 c⟩

end Term

/-- A search is the one that the expanded term asks for, unless this is empty and the term is not:
an empty query asks for nothing, but a reference to an empty one is searched for. -/
theorem Catalog.search_replace (c : Catalog) {saved : Table Term} {t : Term}
    (hacyclic : ¬t.ReachesCycle saved) {σ : String → Term} (hσ : t.Expands saved σ)
    (hempty : (t.replace σ).isEmpty = t.isEmpty) :
    c.search saved t = c.search ∅ (t.replace σ) := by
  unfold search
  rw [hempty, Dialect.compile_agrees_expansion c.ignoresPath_dialect
    (Term.ends_of_not_reachesCycle hacyclic) hσ]

end TagQuery
