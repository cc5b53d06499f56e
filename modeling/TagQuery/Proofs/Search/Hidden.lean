import TagQuery.Item.Predicate
import TagQuery.Proofs.Engine.Renames
import TagQuery.Proofs.Optimizer.Soundness

/-!
# Hidden files

A search that does not name a hidden tag leaves out every file that holds one, whatever name the tag
goes by: the expression alone does so, also after it is optimized, and the policy that is applied on
top of the expression takes away nothing more.

## Main statements

- `Catalog.disjoint_of_search`: what a search that hides lets through holds no hidden tag.
- `Catalog.search_hides_and_agrees`: hidden files are left out, in both places alike.
-/

namespace TagQuery

namespace Catalog

theorem mem_hiddenCanonical {c : Catalog} {t : String} :
    t ∈ c.hiddenCanonical ↔ t = c.engine.rename c.config.hiddenTag ∨
      t ∈ c.engine.descendants (c.engine.rename c.config.hiddenTag) := by
  simp [hiddenCanonical, Engine.selfOrDescendants, Engine.related]

/-! ## The two places -/

theorem hiddenTags_of_search {c : Catalog} {saved : Table Term} {t : Term} {s : CompiledSearch}
    (h : c.search saved t = .ok s) : s.hiddenTags = c.hiddenTags := by
  unfold search at h
  split at h
  · rw [← Except.ok.inj h]
  · split at h
    · contradiction
    · split at h <;> rw [← Except.ok.inj h]

/-- What a written query means is searched for, without hidden files unless it names a hidden
tag. -/
theorem exists_search {c : Catalog} {saved : Table Term} {t : Term} (hwritten : t.isEmpty = false)
    {e : Expr} (he : ((c.dialect.compile saved t).runFrom .start).1 = .ok e) :
    ∃ s, c.search saved t = .ok s ∧ s.expression =
      if s.mentionsHidden then e else .conjunction [e, .negation (.tag c.hiddenTags)] := by
  rw [search, hwritten, if_neg Bool.false_ne_true,
    ← Prod.eta ((c.dialect.compile saved t).runFrom .start), he]
  dsimp only
  split <;> exact ⟨_, rfl, rfl⟩

/-- A search that hides lets no file through that holds a hidden tag. -/
theorem disjoint_of_search {c : Catalog} {saved : Table Term} {t : Term} {s : CompiledSearch}
    (h : c.search saved t = .ok s) (hhides : s.mentionsHidden = false) {scale : RatingScale}
    {item : Item} (hitem : s.expression.holdsOn scale item = true) :
    item.tags.isDisjoint c.hiddenTags = true := by
  unfold search at h
  split at h
  · rw [← Except.ok.inj h, Expr.never, Expr.holdsOn_disjunction] at hitem
    contradiction
  · split at h
    · contradiction
    · next e ctx _ =>
      split at h
      · rw [← Except.ok.inj h] at hhides
        contradiction
      · rw [← Except.ok.inj h] at hitem
        simp only [Expr.holdsOn_conjunction, Expr.holdsOn_negation, List.all_cons, List.all_nil,
          Bool.and_true, Bool.and_eq_true] at hitem
        have htags : (!!item.tags.isDisjoint c.hiddenTags) = true := hitem.2
        rwa [Bool.not_not] at htags

/-- The policy takes away nothing from an expression that lets no file with a hidden tag through. -/
theorem predicate_of_disjoint {s : CompiledSearch} {scale : RatingScale}
    (h : s.mentionsHidden = false → ∀ item, s.expression.holdsOn scale item = true →
      item.tags.isDisjoint s.hiddenTags = true) :
    s.predicate scale = s.expression.predicate scale := by
  unfold CompiledSearch.predicate
  cases hp : s.expression.predicate scale with
  | error fault => rfl
  | ok p =>
    obtain ⟨-, rfl⟩ := Expr.predicate_eq_ok.1 hp
    refine congrArg Except.ok ?_
    dsimp only
    by_cases hkeep : (s.mentionsHidden || s.hiddenTags.isEmpty) = true
    · rw [if_pos hkeep]
    · rw [if_neg hkeep]
      simp only [Bool.or_eq_true, not_or, Bool.not_eq_true] at hkeep
      funext item
      cases hitem : s.expression.holdsOn scale item with
      | false => rfl
      | true => rw [h hkeep.1 item hitem, Bool.and_true]

/-- The policy takes away nothing from the expression of a search, which follows it already. -/
theorem predicate_of_search {c : Catalog} {saved : Table Term} {t : Term} {s : CompiledSearch}
    (h : c.search saved t = .ok s) (scale : RatingScale) :
    s.predicate scale = s.expression.predicate scale := by
  refine predicate_of_disjoint fun hhides item hitem => ?_
  rw [hiddenTags_of_search h]
  exact disjoint_of_search h hhides hitem

/-- When a query names no hidden tag, neither its expression nor the optimized one accepts a file
that holds a tag whose final name is the hidden tag or a more special one; and whether or not it
names one, the search and the expression alone accept the same files. -/
theorem search_hides_and_agrees {c : Catalog} {saved : Table Term} {t : Term} {s : CompiledSearch}
    (h : c.search saved t = .ok s) (scale : RatingScale) {e : Expr}
    (he : e = s.expression ∨ ∃ maxSteps, e = (Optimizer.withLimit maxSteps).optimize s.expression) :
    (s.mentionsHidden = false → ∀ p, e.predicate scale = .ok p → ∀ item, ∀ x ∈ item.tags,
      (c.engine.renames.resolve x = c.engine.rename c.config.hiddenTag ∨
        c.engine.renames.resolve x ∈
          c.engine.descendants (c.engine.rename c.config.hiddenTag)) → p item = false) ∧
    { s with expression := e }.predicate scale = e.predicate scale := by
  have hkept : ∀ item, e.holdsOn scale item = s.expression.holdsOn scale item := by
    intro item
    rcases he with rfl | ⟨maxSteps, rfl⟩
    · rfl
    · exact Expr.holdsOn_of_preserves (Expr.preserves_optimize maxSteps s.expression) scale item
  have hdisjoint (hhides : s.mentionsHidden = false) (item : Item)
      (hitem : e.holdsOn scale item = true) : item.tags.isDisjoint c.hiddenTags = true :=
    disjoint_of_search h hhides ((hkept item).symm.trans hitem)
  constructor
  · intro hhides p hp item x hx hresolve
    obtain ⟨-, rfl⟩ := Expr.predicate_eq_ok.1 hp
    rw [← Bool.not_eq_true]
    intro hitem
    have hmem : x ∈ c.hiddenTags :=
      Engine.mem_withAliases_of_resolve (mem_hiddenCanonical.2 hresolve)
    exact TagSet.isDisjoint_iff.1 (hdisjoint hhides item hitem) x hx hmem
  · apply predicate_of_disjoint
    intro hhides item hitem
    rw [hiddenTags_of_search h]
    exact hdisjoint hhides item hitem

/-- A file with another name of the hidden tag is left out of a search for a text. -/
theorem search_hides_and_agrees_alias :
    let c : Catalog := ⟨.construct [⟨.singleton "secret", .definition, .singleton "hidden"⟩] [],
      ∅, .default, ∅, .standard⟩
    let s : CompiledSearch :=
      ⟨.conjunction [.text "cat", .negation (.tag c.hiddenTags)], false, c.hiddenTags⟩
    let item : Item := ⟨"", 0, "", ["cat"], .singleton "secret", ∅, [], ∅, ∅⟩
    c.search ∅ (.field ⟨none, .equal, "cat"⟩) = .ok s ∧
      (∀ p, s.expression.predicate ⟨"", ∅⟩ = .ok p → p item = false) ∧
      s.predicate ⟨"", ∅⟩ = s.expression.predicate ⟨"", ∅⟩ := by
  intro c s item
  have hsearch : c.search ∅ (.field ⟨none, .equal, "cat"⟩) = .ok s := rfl
  obtain ⟨hhides, hagrees⟩ := search_hides_and_agrees hsearch ⟨"", ∅⟩ (.inl rfl)
  have hresolve : c.engine.renames.resolve "secret" = c.engine.rename c.config.hiddenTag := by
    decide
  exact ⟨hsearch, fun p hp => hhides rfl p hp item "secret" (TagSet.mem_singleton.2 rfl)
    (.inl hresolve), hagrees⟩

end Catalog
end TagQuery
