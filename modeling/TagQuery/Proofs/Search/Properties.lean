import TagQuery.Proofs.Search.Renaming

/-!
# Searching by property

Properties that were attached under several names of a tag are those of the tag. A tag satisfies
conditions on properties when each of them is satisfied by one of its properties, and a search for
the conditions finds the files that hold such a tag or a more special one, under any of their names.

## Main statements

- `Engine.mem_propertiesOf_construct`: a tag has the properties attached to any of its names.
- `Engine.exists_tagsWith`: the tags that conditions ask for are those that satisfy them, and the
  more special ones.
- `Engine.tagsWith_congr`: neither the order of conditions counts nor how often they are given.
- `Catalog.properties_follow_renames`: what a search for conditions on properties finds.
-/

namespace TagQuery

open Relation (ReflTransGen)

namespace Engine

/-! ## Properties of tags -/

theorem mem_getD_addProperty {renames : Renames} {m : Table (List String)}
    {entry : String × String} {tag property : String} :
    property ∈ ((addProperty renames m entry).get? tag).getD [] ↔
      property ∈ (m.get? tag).getD [] ∨
        renames.resolve (normalizeTag entry.1) = tag ∧ entry.2 = property := by
  unfold addProperty
  dsimp only
  rw [Table.get?_insert]
  by_cases htag : tag = renames.resolve (normalizeTag entry.1)
  · rw [if_pos htag, Option.getD_some, ← htag, eq_self_iff_true, true_and]
    -- a property that the tag has already is not listed again
    split
    · next hhas => exact ⟨.inl, fun h => h.elim id fun heq => heq ▸ hhas⟩
    · rw [List.mem_append, List.mem_singleton, eq_comm (a := entry.2)]
  · rw [if_neg htag, or_iff_left fun h => htag h.1.symm]

theorem mem_getD_foldl_addProperty {renames : Renames} {entries : List (String × String)}
    {m : Table (List String)} {tag property : String} :
    property ∈ ((entries.foldl (addProperty renames) m).get? tag).getD [] ↔
      property ∈ (m.get? tag).getD [] ∨
        ∃ entry ∈ entries, renames.resolve (normalizeTag entry.1) = tag ∧ entry.2 = property := by
  induction entries generalizing m with
  | nil => simp
  | cons entry entries ih =>
    rw [List.foldl_cons, ih, mem_getD_addProperty, or_assoc]
    simp only [List.mem_cons, exists_eq_or_imp]

/-- A tag has the properties that are attached to any of its names. -/
theorem mem_propertiesOf_construct {rules : List TagRule} {properties : List (String × String)}
    {tag property : String} :
    property ∈ (construct rules properties).propertiesOf tag ↔
      ∃ entry ∈ properties, (construct rules properties).rename entry.1 = tag ∧
        entry.2 = property :=
  mem_getD_foldl_addProperty.trans (or_iff_right List.not_mem_nil)

/-! ## Tags with properties -/

theorem satisfiesAll_iff {predicates : List PropertyPredicate} {properties : List String} :
    satisfiesAll predicates properties = true ↔
      ∀ p ∈ predicates, ∃ property ∈ properties, p.accepts property = true := by
  simp only [satisfiesAll, List.all_eq_true, List.any_eq_true]

section
variable {predicates : List PropertyPredicate} (hnone : predicates ≠ [])
  (hvalid : ∀ p ∈ predicates, p.fault? = none)
include hnone hvalid

theorem tagsWith_eq_ok (e : Engine) :
    e.tagsWith predicates = .ok (TagSet.unions
      ((e.properties.entries.filter fun entry => satisfiesAll predicates entry.2).map fun entry =>
        e.selfOrDescendants entry.1)) := by
  have hempty : predicates.isEmpty = false := by simpa using hnone
  rw [tagsWith, List.findSome?_eq_none_iff.2 hvalid, hempty]
  rfl

/-- The tags that conditions ask for are those with properties that satisfy them, and the more
special ones. -/
theorem exists_tagsWith (e : Engine) :
    ∃ tags, e.tagsWith predicates = .ok tags ∧ ∀ x, x ∈ tags ↔
      ∃ tag, (∀ p ∈ predicates, ∃ property ∈ e.propertiesOf tag, p.accepts property = true) ∧
        x ∈ e.selfOrDescendants tag := by
  refine ⟨_, tagsWith_eq_ok hnone hvalid e, fun x => ?_⟩
  simp only [TagSet.mem_unions, List.mem_map, List.mem_filter, satisfiesAll_iff,
    exists_exists_and_eq_and]
  constructor
  · rintro ⟨⟨tag, list⟩, ⟨hentry, hall⟩, hx⟩
    have hlist : e.propertiesOf tag = list := by
      rw [propertiesOf, Table.get?_eq_some.2 hentry, Option.getD_some]
    exact ⟨tag, hlist ▸ hall, hx⟩
  · rintro ⟨tag, hall, hx⟩
    cases hget : e.properties.get? tag with
    | some list =>
      rw [propertiesOf, hget] at hall
      exact ⟨(tag, list), ⟨Table.get?_eq_some.1 hget, hall⟩, hx⟩
    | none =>
      -- some condition has to be satisfied, and this tag has no property
      rw [propertiesOf, hget] at hall
      obtain ⟨p, hp⟩ := List.exists_mem_of_ne_nil _ hnone
      obtain ⟨_, hproperty, -⟩ := hall p hp
      exact absurd hproperty List.not_mem_nil

/-- The same conditions, in whatever order and however often, ask for the same tags. -/
theorem tagsWith_congr (e : Engine) {predicates' : List PropertyPredicate}
    (hsame : ∀ p, p ∈ predicates' ↔ p ∈ predicates) :
    e.tagsWith predicates' = e.tagsWith predicates := by
  have hnone' : predicates' ≠ [] := by
    obtain ⟨p, hp⟩ := List.exists_mem_of_ne_nil _ hnone
    exact List.ne_nil_of_mem ((hsame p).2 hp)
  obtain ⟨tags, htags, hmem⟩ := exists_tagsWith hnone hvalid e
  obtain ⟨tags', htags', hmem'⟩ :=
    exists_tagsWith hnone' (fun p hp => hvalid p ((hsame p).1 hp)) e
  rw [htags, htags']
  congr 1
  ext x
  simp only [hmem, hmem', hsame]

end

/-! ## Names and relatives -/

theorem mem_selfOrDescendants {e : Engine} {r : String → String → Prop}
    (he : e.hierarchy.Closes r) {value tag : String} :
    tag ∈ e.selfOrDescendants value ↔ ReflTransGen r tag (e.rename value) :=
  he.mem_insert_descendants

/-- Where the names in the rules are as written, a final name is its own. -/
theorem rename_rename {rules : List TagRule} {properties : List (String × String)} {e : Engine}
    (h : ofRules rules properties = .ok e)
    (hrules : ∀ r ∈ rules, ∀ x, x ∈ r.left ∨ x ∈ r.right → normalizeTag x = x) {x : String}
    (hx : normalizeTag x = x) : e.rename (e.rename x) = e.rename x := by
  obtain ⟨-, rfl⟩ := ofRules_eq_ok.1 h
  have hfinal : (construct rules properties).rename x = (renamesOf rules).resolve x := by
    rw [rename, hx]
    rfl
  rw [hfinal, rename, normalizeTag_resolve hrules hx]
  exact settled_renamesOf rules x

end Engine

/-! ## Searches -/

namespace Catalog

theorem runFrom_properties (c : Catalog) {predicates : List PropertyPredicate} {tags : TagSet}
    (h : c.engine.tagsWith predicates = .ok tags) (ctx : Context) :
    ((c.properties predicates).runFrom ctx).1 = .ok (.tag (c.engine.withAliases tags)) := by
  unfold properties
  rw [h]
  change ((do
    if !tags.isDisjoint c.hiddenCanonical then Compiler.noteHidden
    return .tag (c.engine.withAliases tags) : Compiler Expr).runFrom ctx).1 = _
  split <;> rfl

theorem properties_congr (c : Catalog) {predicates predicates' : List PropertyPredicate}
    (h : c.engine.tagsWith predicates' = c.engine.tagsWith predicates) :
    c.properties predicates' = c.properties predicates := by
  rw [properties, h, properties]

/-- A search for conditions on properties finds the files that hold a tag whose final name is, or is
below, one for which every condition is satisfied by a property attached to one of its names. The
same conditions in another order, or repeated, are the same search. -/
theorem properties_follow_renames {rules : List TagRule} {properties : List (String × String)}
    {c : Catalog} (h : Engine.ofRules rules properties = .ok c.engine)
    (hrules : ∀ r ∈ rules, ∀ x, x ∈ r.left ∨ x ∈ r.right → normalizeTag x = x)
    (hproperties : ∀ entry ∈ properties, normalizeTag entry.1 = entry.1)
    {predicates : List PropertyPredicate} (hnone : predicates ≠ [])
    (hvalid : ∀ p ∈ predicates, p.fault? = none) (saved : Table Term) (ctx : Context)
    (scale : RatingScale) :
    (∃ e p, ((c.dialect.compile saved (.properties predicates)).runFrom ctx).1 = .ok e ∧
      e.predicate scale = .ok p ∧
      ∀ item : Item, (∀ x ∈ item.tags, normalizeTag x = x) →
        (p item = true ↔ ∃ x ∈ item.tags, ∃ tag,
          ReflTransGen (Engine.IsKindOf rules) (c.engine.rename x) tag ∧
            ∀ q ∈ predicates, ∃ entry ∈ properties,
              c.engine.rename entry.1 = tag ∧ q.accepts entry.2 = true)) ∧
    ∀ predicates', (∀ q, q ∈ predicates' ↔ q ∈ predicates) →
      c.dialect.compile saved (.properties predicates') =
        c.dialect.compile saved (.properties predicates) := by
  obtain ⟨tags, htags, hmem⟩ := Engine.exists_tagsWith hnone hvalid c.engine
  refine ⟨⟨_, _, c.runFrom_properties htags ctx, rfl, fun item hitem => ?_⟩,
    fun predicates' hsame => c.properties_congr (Engine.tagsWith_congr hnone hvalid _ hsame)⟩
  obtain ⟨haccepted, he⟩ := Engine.ofRules_eq_ok.1 h
  have hclosed : c.engine.hierarchy.Closes (Engine.IsKindOf rules) :=
    he ▸ Engine.closes_construct haccepted properties
  refine TagSet.not_isDisjoint_iff.trans (exists_congr fun x => and_congr_right fun hx => ?_)
  have hfinal : c.engine.rename x = c.engine.renames.resolve x := by
    rw [Engine.rename, hitem x hx]
  rw [Engine.mem_withAliases fun t ht => Engine.resolve_of_mem_tagsWith h htags ht, ← hfinal, hmem]
  refine exists_congr fun tag => ?_
  have hpooled : (∀ q ∈ predicates, ∃ property ∈ c.engine.propertiesOf tag,
      q.accepts property = true) ↔ ∀ q ∈ predicates, ∃ entry ∈ properties,
        c.engine.rename entry.1 = tag ∧ q.accepts entry.2 = true := by
    rw [← he]
    simp only [Engine.mem_propertiesOf_construct]
    grind
  rw [hpooled, and_comm]
  refine and_congr_left fun hall => ?_
  obtain ⟨q, hq⟩ := List.exists_mem_of_ne_nil _ hnone
  obtain ⟨entry, hentry, rfl, -⟩ := hall q hq
  rw [Engine.mem_selfOrDescendants hclosed,
    Engine.rename_rename h hrules (hproperties entry hentry)]

/-- One property is attached to the cat and one to its other name, and a file with a kitten is found
by both. -/
theorem properties_follow_renames_kitten :
    let rules : List TagRule :=
      [⟨.singleton "felis", .definition, .singleton "cat"⟩,
        ⟨.singleton "kitten", .specialization, .singleton "felis"⟩]
    let properties := [("felis", "legs=4"), ("cat", "voice=meow")]
    let c : Catalog := ⟨.construct rules properties, ∅, .default, ∅, .standard⟩
    let legs : PropertyPredicate := ⟨"legs", some .greater, some "3"⟩
    let voice : PropertyPredicate := ⟨"Voice", some .equal, some "me*"⟩
    let item : Item := ⟨"", 0, "", [], .singleton "kitten", ∅, [], ∅, ∅⟩
    Engine.ofRules rules properties = .ok c.engine ∧
      (∀ r ∈ rules, ∀ x, x ∈ r.left ∨ x ∈ r.right → normalizeTag x = x) ∧
      (∀ entry ∈ properties, normalizeTag entry.1 = entry.1) ∧
      (∀ p ∈ [legs, voice], p.fault? = none) ∧ (∀ x ∈ item.tags, normalizeTag x = x) ∧
      (∃ e p, ((c.dialect.compile ∅ (.properties [legs, voice])).runFrom .start).1 = .ok e ∧
        e.predicate ⟨"", ∅⟩ = .ok p ∧ p item = true) ∧
      c.dialect.compile ∅ (.properties [voice, legs, voice]) =
        c.dialect.compile ∅ (.properties [legs, voice]) := by
  intro rules properties c legs voice item
  have hengine : Engine.ofRules rules properties = .ok c.engine := rfl
  have hrules : ∀ r ∈ rules, ∀ x, x ∈ r.left ∨ x ∈ r.right → normalizeTag x = x := by
    have hsides : ∀ r ∈ rules, ∀ x ∈ r.left.toList ++ r.right.toList, normalizeTag x = x := by
      decide
    exact fun r hr x hx => hsides r hr x (List.mem_append.2 hx)
  have hproperties : ∀ entry ∈ properties, normalizeTag entry.1 = entry.1 := by decide
  have hvalid : ∀ p ∈ [legs, voice], p.fault? = none := by decide
  have hitem : ∀ x ∈ item.tags, normalizeTag x = x := by
    intro x hx
    rw [TagSet.mem_singleton.1 hx]
    decide
  obtain ⟨⟨e, p, he, hp, hitems⟩, hsame⟩ := properties_follow_renames hengine hrules hproperties
    (List.cons_ne_nil legs [voice]) hvalid ∅ .start ⟨"", ∅⟩
  refine ⟨hengine, hrules, hproperties, hvalid, hitem, ⟨e, p, he, hp, (hitems item hitem).2 ?_⟩,
    hsame [voice, legs, voice] fun q => by grind⟩
  have hkind : Engine.IsKindOf rules "kitten" "cat" :=
    ⟨by decide, "kitten", "felis", by decide, by decide, by decide⟩
  have hkitten : c.engine.rename "kitten" = "kitten" := by decide
  refine ⟨"kitten", TagSet.mem_singleton.2 rfl, "cat", ?_, ?_⟩
  · rw [hkitten]
    exact ReflTransGen.single hkind
  · have hlegs : legs.accepts "legs=4" = true := by decide +kernel
    have hvoice : voice.accepts "voice=meow" = true := by decide
    exact List.forall_mem_cons.2 ⟨⟨("felis", "legs=4"), by decide, by decide, hlegs⟩,
      List.forall_mem_singleton.2 ⟨("cat", "voice=meow"), by decide, by decide, hvoice⟩⟩

end Catalog
end TagQuery
