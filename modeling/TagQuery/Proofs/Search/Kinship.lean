import TagQuery.Item.Predicate
import TagQuery.Proofs.Engine.Specialization
import TagQuery.Proofs.Optimizer.Soundness

/-!
# Searching along the hierarchy

A search for a tag finds the files that hold a relative of it: the relation of the search says on
which side of the tag the relatives lie, and paths along the specializations as written say which
tags these are. Other names, of the tag and of those that files hold, make no difference.

## Main definitions

- `CompareOp.Relates`: the relatives that a relation asks for.

## Main statements

- `Engine.mem_related`: the relatives of a tag are those that paths lead to.
- `Engine.mem_withAliases_related`: their names are those whose final name is a relative.
- `Catalog.search_relates`: a search finds the files that hold such a relative, or reject one.
-/

namespace TagQuery

open Search
open Relation (ReflTransGen)

/-- Whether a tag is a relative of `target` that a relation asks for, where `r` leads from tags to
more general ones. -/
def CompareOp.Relates (r : String → String → Prop) : CompareOp → String → String → Prop
  | .equal, tag, target => tag = target
  | .lessOrEqual, tag, target => ReflTransGen r tag target
  | .less, tag, target => tag ≠ target ∧ ReflTransGen r tag target
  | .greaterOrEqual, tag, target => ReflTransGen r target tag
  | .greater, tag, target => tag ≠ target ∧ ReflTransGen r target tag

theorem TagSet.not_isDisjoint_iff {s t : TagSet} :
    (!s.isDisjoint t) = true ↔ ∃ x ∈ s, x ∈ t := by
  simp [isDisjoint, mem_toList]

/-! ## Relatives -/

namespace Engine

/-- The relatives of a tag are those that paths lead to. -/
theorem mem_related {e : Engine} {r : String → String → Prop} (he : e.hierarchy.Closes r)
    {op : CompareOp} {value tag : String} :
    tag ∈ e.related value (.ofOperator op) ↔ op.Relates r tag (e.rename value) := by
  cases op with
  | equal => exact TagSet.mem_singleton
  | greater => exact he.mem_ancestors
  | greaterOrEqual => exact he.mem_insert_ancestors
  | less => exact he.mem_descendants
  | lessOrEqual => exact he.mem_insert_descendants

/-- Relatives of final names are final names. -/
theorem resolve_of_relates {rules : List TagRule} {op : CompareOp} {tag target : String}
    (h : op.Relates (IsKindOf rules) tag target)
    (htarget : (renamesOf rules).resolve target = target) :
    (renamesOf rules).resolve tag = tag := by
  cases op with
  | equal => exact h ▸ htarget
  | greater => exact (resolve_iff_of_reflTransGen h.2).1 htarget
  | greaterOrEqual => exact (resolve_iff_of_reflTransGen h).1 htarget
  | less => exact (resolve_iff_of_reflTransGen h.2).2 htarget
  | lessOrEqual => exact (resolve_iff_of_reflTransGen h).2 htarget

/-- Every kinship is that of some relation. -/
theorem exists_ofOperator (kinship : Kinship) : ∃ op, kinship = .ofOperator op := by
  cases kinship with
  | selfOnly => exact ⟨.equal, rfl⟩
  | ancestor => exact ⟨.greater, rfl⟩
  | selfOrAncestor => exact ⟨.greaterOrEqual, rfl⟩
  | descendant => exact ⟨.less, rfl⟩
  | selfOrDescendant => exact ⟨.lessOrEqual, rfl⟩

/-- Final names lead nowhere else. -/
theorem settled_of_ofRules {rules : List TagRule} {properties : List (String × String)}
    {e : Engine} (h : ofRules rules properties = .ok e) : e.renames.Settled := by
  obtain ⟨-, rfl⟩ := ofRules_eq_ok.1 h
  exact settled_renamesOf rules

/-- The relatives of a tag are final names. -/
theorem resolve_of_mem_related {rules : List TagRule} {properties : List (String × String)}
    {e : Engine} (h : ofRules rules properties = .ok e) {value tag : String} {kinship : Kinship}
    (htag : tag ∈ e.related value kinship) : e.renames.resolve tag = tag := by
  obtain ⟨hrules, rfl⟩ := ofRules_eq_ok.1 h
  obtain ⟨op, rfl⟩ := exists_ofOperator kinship
  have hrelates := (mem_related (closes_construct hrules properties)).1 htag
  exact resolve_of_relates hrelates (settled_renamesOf rules _)

/-- The names of the relatives of a tag are those whose final name is a relative. -/
theorem mem_withAliases_related {rules : List TagRule} {properties : List (String × String)}
    {e : Engine} (h : ofRules rules properties = .ok e) {value x : String} {kinship : Kinship} :
    x ∈ e.withAliases (e.related value kinship) ↔ e.renames.resolve x ∈ e.related value kinship :=
  mem_withAliases fun _ ht => resolve_of_mem_related h ht

/-- Among the names of the relatives of a tag are those whose final name is a relative. -/
theorem mem_names_related {rules : List TagRule} (hrules : ∀ r ∈ rules, r.fault? = none)
    (properties : List (String × String)) {op : CompareOp} {value tag : String}
    (htag : normalizeTag tag = tag) :
    let e := construct rules properties
    tag ∈ e.withAliases (e.related value (.ofOperator op)) ↔
      op.Relates (IsKindOf rules) (e.rename tag) (e.rename value) := by
  intro e
  have he : ofRules rules properties = .ok e := ofRules_eq_ok.2 ⟨hrules, rfl⟩
  have htagFinal : e.rename tag = e.renames.resolve tag := by rw [rename, htag]
  rw [mem_withAliases_related he, mem_related (closes_construct hrules properties), htagFinal]

end Engine

/-! ## Searches -/

namespace Catalog

/-- However the name of a field is written, the field is what counts. -/
theorem field_eq_named (c : Catalog) {raw : String} {f : Field}
    (hfield : Field.ofName? (Text.lowercase (Text.trim raw)) = some f) (op : FieldOperator)
    (value : String) : c.field ⟨some raw, op, value⟩ = c.named f op value := by
  simp only [field, hfield]

/-- A value without a wildcard stands for itself. -/
theorem related_eq_single (c : Catalog) (f : Field) (op : CompareOp) {value : String}
    (hvalue : isGlob value = false) : c.related f op value = c.single f op value := by
  rw [related, hvalue, Bool.and_false, if_neg Bool.false_ne_true]

/-- A field with a relation, where the value has no wildcard. -/
theorem field_toField (c : Catalog) {raw : String} {f : Field}
    (hfield : Field.ofName? (Text.lowercase (Text.trim raw)) = some f) (op : CompareOp)
    {value : String} (hvalue : isGlob value = false) :
    c.field ⟨some raw, op.toField, value⟩ = c.single f op value := by
  have hop : op.toField.relation? = some op := by cases op <;> rfl
  rw [c.field_eq_named hfield, named, hop]
  exact c.related_eq_single f op hvalue

theorem runFrom_held (c : Catalog) (op : CompareOp) (value : String) (ctx : Context) :
    ((c.held op value).runFrom ctx).1 = .ok (.tag (c.namesOf op value)) := by
  unfold held noteIfHidden
  split <;> rfl

theorem runFrom_rejected (c : Catalog) (op : CompareOp) (value : String) (ctx : Context) :
    ((c.rejected op value).runFrom ctx).1 = .ok (.rejectedTag (c.namesOf op value)) := by
  unfold rejected noteIfHidden
  split <;> rfl

/-- A search for a tag, or for a rejected one, finds the files that hold, or reject, a tag whose
final name is a relative of the final name of the value: the relation tells on which side of it the
relatives lie, and they are those that paths along the specializations lead to. -/
theorem search_relates {rules : List TagRule} {properties : List (String × String)} {c : Catalog}
    (h : Engine.ofRules rules properties = .ok c.engine) (op : CompareOp) {value : String}
    (hvalue : isGlob value = false) (scale : RatingScale) (ctx : Context) :
    ∃ held rejected p q,
      ((c.field ⟨some "tag", op.toField, value⟩).runFrom ctx).1 = .ok held ∧
      ((c.field ⟨some "rejected", op.toField, value⟩).runFrom ctx).1 = .ok rejected ∧
      held.predicate scale = .ok p ∧ rejected.predicate scale = .ok q ∧
      ∀ item : Item, (∀ x, x ∈ item.tags ∨ x ∈ item.rejectedTags → normalizeTag x = x) →
        (p item = true ↔ ∃ x ∈ item.tags,
          op.Relates (Engine.IsKindOf rules) (c.engine.rename x) (c.engine.rename value)) ∧
        (q item = true ↔ ∃ x ∈ item.rejectedTags,
          op.Relates (Engine.IsKindOf rules) (c.engine.rename x) (c.engine.rename value)) := by
  obtain ⟨hrules, he⟩ := Engine.ofRules_eq_ok.1 h
  have htag : Field.ofName? (Text.lowercase (Text.trim "tag")) = some .tag := by decide
  have hrejected : Field.ofName? (Text.lowercase (Text.trim "rejected")) = some .rejected := by
    decide
  refine ⟨.tag (c.namesOf op value), .rejectedTag (c.namesOf op value),
    (Expr.tag (c.namesOf op value)).holdsOn scale,
    (Expr.rejectedTag (c.namesOf op value)).holdsOn scale, ?_, ?_, rfl, rfl, ?_⟩
  · rw [c.field_toField htag op hvalue]
    exact c.runFrom_held op value ctx
  · rw [c.field_toField hrejected op hvalue]
    exact c.runFrom_rejected op value ctx
  · intro item hitem
    have hnames (x : String) (hx : normalizeTag x = x) : x ∈ c.namesOf op value ↔
        op.Relates (Engine.IsKindOf rules) (c.engine.rename x) (c.engine.rename value) := by
      rw [namesOf, ← he]
      exact Engine.mem_names_related hrules properties hx
    have hmeets (tags : TagSet) (htags : ∀ x ∈ tags, normalizeTag x = x) :
        (!tags.isDisjoint (c.namesOf op value)) = true ↔ ∃ x ∈ tags,
          op.Relates (Engine.IsKindOf rules) (c.engine.rename x) (c.engine.rename value) := by
      rw [TagSet.not_isDisjoint_iff]
      exact exists_congr fun x => and_congr_right fun hx => hnames x (htags x hx)
    exact ⟨hmeets item.tags fun x hx => hitem x (.inl hx),
      hmeets item.rejectedTags fun x hx => hitem x (.inr hx)⟩

/-- A kitten is a cat under another name, and so a file with a kitten is found below the cat. -/
theorem search_relates_kitten :
    let rules : List TagRule :=
      [⟨.singleton "felis", .definition, .singleton "cat"⟩,
        ⟨.singleton "kitten", .specialization, .singleton "felis"⟩]
    let c : Catalog := ⟨.construct rules [], ∅, .default, ∅, .standard⟩
    let item : Item := ⟨"", 0, "", [], .singleton "kitten", ∅, [], ∅, ∅⟩
    Engine.ofRules rules [] = .ok c.engine ∧ isGlob "#felis" = false ∧
      (∀ x, x ∈ item.tags ∨ x ∈ item.rejectedTags → normalizeTag x = x) ∧
      ∃ held p, ((c.field ⟨some "tag", .less, "#felis"⟩).runFrom .start).1 = .ok held ∧
        held.predicate ⟨"", ∅⟩ = .ok p ∧ p item = true := by
  intro rules c item
  have hrules : Engine.ofRules rules [] = .ok c.engine := rfl
  have hvalue : isGlob "#felis" = false := by decide
  have hnames : ∀ x, x ∈ item.tags ∨ x ∈ item.rejectedTags → normalizeTag x = x := by
    rintro x (hx | hx)
    · rw [TagSet.mem_singleton.1 hx]
      decide
    · exact absurd hx (TagSet.not_mem_empty x)
  obtain ⟨held, _, p, _, hheld, -, hp, -, hitems⟩ :=
    search_relates hrules .less hvalue ⟨"", ∅⟩ .start
  refine ⟨hrules, hvalue, hnames, held, p, hheld, hp, (hitems item hnames).1.2 ?_⟩
  have hkind : Engine.IsKindOf rules "kitten" "cat" :=
    ⟨by decide, "kitten", "felis", by decide, by decide, by decide⟩
  have hkitten : c.engine.rename "kitten" = "kitten" := by decide
  have hcat : c.engine.rename "#felis" = "cat" := by decide
  refine ⟨"kitten", TagSet.mem_singleton.2 rfl, ?_⟩
  rw [hkitten, hcat]
  exact ⟨by decide, ReflTransGen.single hkind⟩

end Catalog
end TagQuery
