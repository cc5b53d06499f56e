import TagQuery.Proofs.Engine.Specialization

/-!
# An engine speaks of final names only

The parts of an engine are built one after another from rules and properties as written, and each of
them passes every name through the same renames. Names that are not final occur only as the other
names of a tag.

## Main definitions

- `Hierarchy.AllNames`: a property of all keys of a table and of all members of its sets.
- `Engine.Canonical`: no part of an engine mentions a name that is not final.

## Main statements

- `Hierarchy.within_foldl_insert`: edges between such names lead to a hierarchy of such names.
- `Engine.operator_of_mem_simplify`: simplified rules hold in one direction.
- `Engine.canonical_of_ofRules`: every engine is in terms of final names.
-/

namespace TagQuery

namespace Table

theorem mem_keySet {m : Table α} {key : String} :
    key ∈ m.keySet ↔ ∃ value, m.get? key = some value := by
  change key ∈ m.entries.map Prod.fst ↔ _
  simp only [List.mem_map, get?_eq_some, Prod.exists, exists_eq_right, exists_and_right]

end Table

/-! ## Names in tables -/

namespace Hierarchy

/-- All keys of a table and all members of its sets satisfy `p`. -/
def AllNames (p : String → Prop) (m : Table TagSet) : Prop :=
  ∀ key tags, m.get? key = some tags → p key ∧ ∀ t ∈ tags, p t

structure Within (p : String → Prop) (h : Hierarchy) : Prop where
  above : AllNames p h.above
  below : AllNames p h.below

variable {p : String → Prop} {m : Table TagSet}

theorem allNames_empty : AllNames p ∅ := by
  intro key tags h
  contradiction

theorem AllNames.mem_setOf (hm : AllNames p m) {tag t : String} (ht : t ∈ setOf m tag) : p t := by
  unfold setOf at ht
  cases hget : m.get? tag with
  | none =>
    rw [hget] at ht
    exact absurd ht (TagSet.not_mem_empty t)
  | some tags =>
    rw [hget] at ht
    exact (hm tag tags hget).2 t ht

theorem AllNames.insert (hm : AllNames p m) {key : String} (hkey : p key) {tags : TagSet}
    (htags : ∀ t ∈ tags, p t) : AllNames p (m.insert key tags) := by
  intro k ts hget
  rw [Table.get?_insert] at hget
  split at hget
  · next hk =>
    obtain rfl := Option.some.inj hget
    exact ⟨hk ▸ hkey, htags⟩
  · exact hm k ts hget

theorem AllNames.addToAll (hm : AllNames p m) {keys : List String} (hkeys : ∀ key ∈ keys, p key)
    {tags : TagSet} (htags : ∀ t ∈ tags, p t) : AllNames p (addToAll keys tags m) := by
  induction keys generalizing m with
  | nil => exact hm
  | cons key keys ih =>
    obtain ⟨hkey, hrest⟩ := List.forall_mem_cons.1 hkeys
    refine ih (hm.insert hkey fun t ht => ?_) hrest
    rcases TagSet.mem_union.1 ht with ht | ht
    · exact hm.mem_setOf ht
    · exact htags t (TagSet.mem_erase.1 ht).1

/-- One more edge between names with the property. -/
protected theorem Within.insert {h : Hierarchy} (hh : h.Within p) {child parent : String}
    (hchild : p child) (hparent : p parent) : (h.insert child parent).Within p := by
  unfold Hierarchy.insert
  split
  · exact hh
  · have hup : ∀ t ∈ (h.ancestors parent).insert parent, p t := by
      intro t ht
      rcases TagSet.mem_insert.1 ht with rfl | ht
      · exact hparent
      · exact hh.above.mem_setOf ht
    have hdown : ∀ t ∈ (h.descendants child).insert child, p t := by
      intro t ht
      rcases TagSet.mem_insert.1 ht with rfl | ht
      · exact hchild
      · exact hh.below.mem_setOf ht
    exact ⟨hh.above.addToAll hdown hup, hh.below.addToAll hup hdown⟩

/-- Edges between names with the property lead to a hierarchy of such names. -/
theorem within_foldl_insert {h : Hierarchy} (hh : h.Within p) {edges : List (String × String)}
    (hedges : ∀ q ∈ edges, p q.1 ∧ p q.2) :
    (edges.foldl (fun h q => h.insert q.1 q.2) h).Within p := by
  induction edges generalizing h with
  | nil => exact hh
  | cons q edges ih =>
    obtain ⟨⟨hchild, hparent⟩, hrest⟩ := List.forall_mem_cons.1 hedges
    exact ih (hh.insert hchild hparent) hrest

/-- A table of direct neighbours, one for each edge. -/
theorem AllNames.foldl_addTo (hm : AllNames p m) {edges : List (String × String)}
    {key tag : String × String → String} (hedges : ∀ q ∈ edges, p (key q) ∧ p (tag q)) :
    AllNames p (edges.foldl (fun m q => Engine.addTo m (key q) (tag q)) m) := by
  induction edges generalizing m with
  | nil => exact hm
  | cons q edges ih =>
    obtain ⟨⟨hkey, htag⟩, hrest⟩ := List.forall_mem_cons.1 hedges
    refine ih (hm.insert hkey fun t ht => ?_) hrest
    rcases TagSet.mem_insert.1 ht with rfl | ht
    · exact htag
    · exact hm.mem_setOf ht

end Hierarchy

/-! ## Other names -/

namespace Renames

variable {m : Renames}

/-- A name that others lead to is final. -/
theorem Flat.resolve_of_mem_targets (hm : m.Flat) {name : String} (h : name ∈ m.targets) :
    m.resolve name = name := by
  simp only [targets, TagSet.mem_filter, Bool.not_eq_true', TagSet.isEmpty_eq_false] at h
  obtain ⟨-, x, hx⟩ := h
  exact resolve_of_get?_eq_none (hm x name (mem_aliases.1 hx))

end Renames

namespace Engine

theorem flat_renamesOf (rules : List TagRule) : (renamesOf rules).Flat :=
  Renames.flat_foldl_insert Renames.flat_empty _

/-! ## Simplified rules -/

theorem operator_of_mem_simplifyRule {renames : Renames} {r s : TagRule}
    (hs : s ∈ simplifyRule renames r) : s.operator = r.operator.oneWay?.getD r.operator := by
  unfold simplifyRule at hs
  dsimp only at hs
  split at hs
  · next op hop =>
    rw [hop, Option.getD_some]
    exact operator_of_mem_expandTwoWay hs
  · next hop =>
    obtain rfl := List.mem_singleton.1 hs
    rw [hop, Option.getD_none]

/-- Simplified rules hold in one direction, and none of them is a rename. -/
theorem operator_of_mem_simplify {renames : Renames} {rules : List TagRule} {s : TagRule}
    (hs : s ∈ simplify renames rules) :
    s.operator ≠ .definition ∧ s.operator.oneWay? = none := by
  obtain ⟨r, -, hop, hsr⟩ := mem_simplify.1 hs
  rw [operator_of_mem_simplifyRule hsr]
  revert hop
  cases r.operator <;> decide

theorem resolve_of_mem_sides_simplify {rules : List TagRule} {s : TagRule}
    (hs : s ∈ simplify (renamesOf rules) rules) {t : String} (ht : t ∈ s.left ∨ t ∈ s.right) :
    (renamesOf rules).resolve t = t := by
  obtain ⟨-, -, x, -, rfl⟩ := mem_sides_simplify hs ht
  exact settled_renamesOf rules x

/-! ## Names as written -/

/-- Where the names in the rules are as written, so are the final names of such names. -/
theorem normalizeTag_resolve {rules : List TagRule}
    (hrules : ∀ r ∈ rules, ∀ x, x ∈ r.left ∨ x ∈ r.right → normalizeTag x = x) {x : String}
    (hx : normalizeTag x = x) :
    normalizeTag ((renamesOf rules).resolve x) = (renamesOf rules).resolve x := by
  refine Renames.resolve_foldl_insert (p := fun x => normalizeTag x = x) (fun p hp => ?_)
    Renames.settled_empty (fun _ hx => hx) hx
  exact hrules _ (mem_pairsOf.1 hp) p.2 (.inr (TagSet.mem_singleton.2 rfl))

section
variable {rules : List TagRule} {properties : List (String × String)} {e : Engine}
  (h : ofRules rules properties = .ok e)
include h

/-- The names in the rules are final names. -/
theorem resolve_of_mem_sides {r : TagRule} (hr : r ∈ e.rules) {x : String}
    (hx : x ∈ r.left ∨ x ∈ r.right) : e.renames.resolve x = x := by
  obtain ⟨-, rfl⟩ := ofRules_eq_ok.1 h
  exact resolve_of_mem_sides_simplify hr hx

/-- The names in the rules are as written, where those in the rules that these come from are. -/
theorem normalizeTag_of_mem_sides
    (hrules : ∀ r ∈ rules, ∀ x, x ∈ r.left ∨ x ∈ r.right → normalizeTag x = x) {r : TagRule}
    (hr : r ∈ e.rules) {x : String} (hx : x ∈ r.left ∨ x ∈ r.right) : normalizeTag x = x := by
  obtain ⟨-, rfl⟩ := ofRules_eq_ok.1 h
  obtain ⟨s, hs, y, hy, rfl⟩ := mem_sides_simplify hr hx
  exact normalizeTag_resolve hrules (hrules s hs y hy)

/-- Names in rules, written as they are, stand for themselves. -/
theorem rename_of_mem_sides
    (hnames : ∀ r ∈ e.rules, ∀ x, x ∈ r.left ∨ x ∈ r.right → normalizeTag x = x) {r : TagRule}
    (hr : r ∈ e.rules) {x : String} (hx : x ∈ r.left ∨ x ∈ r.right) : e.rename x = x := by
  rw [rename, hnames r hr x hx, resolve_of_mem_sides h hr hx]

end

/-! ## Properties -/

/-- Properties are attached to the final names of tags. -/
theorem exists_of_get?_foldl_addProperty {renames : Renames} {entries : List (String × String)}
    {m : Table (List String)} {tag : String} {list : List String}
    (h : (entries.foldl (addProperty renames) m).get? tag = some list) :
    (∃ list, m.get? tag = some list) ∨
      ∃ entry ∈ entries, renames.resolve (normalizeTag entry.1) = tag := by
  induction entries generalizing m with
  | nil => exact .inl ⟨list, h⟩
  | cons entry entries ih =>
    rcases ih h with ⟨before, hbefore⟩ | ⟨later, hlater, rfl⟩
    · unfold addProperty at hbefore
      dsimp only at hbefore
      rw [Table.get?_insert] at hbefore
      split at hbefore
      · next htag => exact .inr ⟨entry, List.mem_cons_self, htag.symm⟩
      · exact .inl ⟨before, hbefore⟩
    · exact .inr ⟨later, List.mem_cons_of_mem _ hlater, rfl⟩

/-! ## Engines -/

/-- No part of an engine mentions a name that is not final, except as another name of a tag. -/
structure Canonical (e : Engine) : Prop where
  rules : ∀ r ∈ e.rules, ∀ t, t ∈ r.left ∨ t ∈ r.right → e.renames.resolve t = t
  /-- Renames are left out of the rules, and two-way rules are split. -/
  operators : ∀ r ∈ e.rules, r.operator ≠ .definition ∧ r.operator.oneWay? = none
  hierarchy : e.hierarchy.Within fun t => e.renames.resolve t = t
  parents : Hierarchy.AllNames (fun t => e.renames.resolve t = t) e.parents
  children : Hierarchy.AllNames (fun t => e.renames.resolve t = t) e.children
  properties : ∀ tag list, e.properties.get? tag = some list → e.renames.resolve tag = tag
  knownTags : ∀ t ∈ e.knownTags, e.renames.resolve t = t
  /-- No name is another name of two tags. -/
  aliases_inj : ∀ t u x, x ∈ e.aliases t → x ∈ e.aliases u → t = u
  aliases_unknown : ∀ t, ∀ x ∈ e.aliases t, x ∉ e.knownTags
  resolve_alias : ∀ t, ∀ x ∈ e.aliases t, e.renames.resolve x = t

/-- The known tags come from simplified rules, from properties and from renames. -/
theorem mem_knownTags_construct {rules : List TagRule} {properties : List (String × String)}
    {t : String} : t ∈ (construct rules properties).knownTags ↔
      (∃ r ∈ simplify (renamesOf rules) rules, t ∈ r.left ∨ t ∈ r.right) ∨
        (∃ list, (construct rules properties).properties.get? t = some list) ∨
        t ∈ (renamesOf rules).targets := by
  change t ∈ TagSet.unions _ ∪ Table.keySet _ ∪ (renamesOf rules).targets ↔ _
  rw [TagSet.mem_union, TagSet.mem_union, Table.mem_keySet, or_assoc]
  refine or_congr ?_ Iff.rfl
  simp only [TagSet.mem_unions, List.mem_map, exists_exists_and_eq_and, TagSet.mem_union]

theorem canonical_construct (rules : List TagRule) (properties : List (String × String)) :
    (construct rules properties).Canonical := by
  have hflat := flat_renamesOf rules
  have hsides (r : TagRule) (hr : r ∈ simplify (renamesOf rules) rules) (t : String)
      (ht : t ∈ r.left ∨ t ∈ r.right) : (renamesOf rules).resolve t = t :=
    resolve_of_mem_sides_simplify hr ht
  have hedges : ∀ q ∈ (pairsOf .specialization (simplify (renamesOf rules) rules)).filter
      (fun q => q.1 != q.2), (renamesOf rules).resolve q.1 = q.1 ∧
        (renamesOf rules).resolve q.2 = q.2 := by
    intro q hq
    have hrule := mem_pairsOf.1 (List.mem_filter.1 hq).1
    exact ⟨hsides _ hrule q.1 (.inl (TagSet.mem_singleton.2 rfl)),
      hsides _ hrule q.2 (.inr (TagSet.mem_singleton.2 rfl))⟩
  have hproperties (tag : String) (list : List String)
      (hget : (construct rules properties).properties.get? tag = some list) :
      (renamesOf rules).resolve tag = tag := by
    rcases exists_of_get?_foldl_addProperty hget with ⟨before, hbefore⟩ | ⟨entry, -, rfl⟩
    · contradiction
    · exact settled_renamesOf rules _
  have hknown : ∀ t ∈ (construct rules properties).knownTags, (renamesOf rules).resolve t = t := by
    intro t ht
    rcases mem_knownTags_construct.1 ht with ⟨r, hr, hside⟩ | ⟨list, hget⟩ | htarget
    · exact hsides r hr t hside
    · exact hproperties t list hget
    · exact hflat.resolve_of_mem_targets htarget
  exact {
    rules := hsides
    operators := fun r hr => operator_of_mem_simplify hr
    hierarchy := Hierarchy.within_foldl_insert
      ⟨Hierarchy.allNames_empty, Hierarchy.allNames_empty⟩ hedges
    parents := Hierarchy.allNames_empty.foldl_addTo hedges
    children := Hierarchy.allNames_empty.foldl_addTo fun q hq => (hedges q hq).symm
    properties := hproperties
    knownTags := hknown
    aliases_inj := fun t u x ht hu =>
      Option.some.inj ((Renames.mem_aliases.1 ht).symm.trans (Renames.mem_aliases.1 hu))
    aliases_unknown := fun t x hx hmem =>
      (hflat.mem_aliases_iff.1 hx).1 ((hknown x hmem).symm.trans (hflat.mem_aliases_iff.1 hx).2)
    resolve_alias := fun t x hx => (hflat.mem_aliases_iff.1 hx).2 }

/-- Every engine is in terms of final names, whatever renames came in, left out or repeated ones
among them, and wherever they stand among the rules. -/
theorem canonical_of_ofRules {rules : List TagRule} {properties : List (String × String)}
    {e : Engine} (h : ofRules rules properties = .ok e) : e.Canonical := by
  obtain ⟨-, rfl⟩ := ofRules_eq_ok.1 h
  exact canonical_construct rules properties

/-- Renames that come after the rules that use their names, one of them again and one in a
circle. -/
theorem canonical_of_ofRules_felis :
    let rules : List TagRule :=
      [⟨.singleton "felis", .bidirectionalImplication, .singleton "purring"⟩,
        ⟨.singleton "felis", .specialization, .singleton "beast"⟩,
        ⟨.singleton "felis", .definition, .singleton "pet"⟩,
        ⟨.singleton "felis", .definition, .singleton "cat"⟩,
        ⟨.singleton "cat", .definition, .singleton "felis"⟩,
        ⟨.singleton "beast", .definition, .singleton "animal"⟩]
    let e := construct rules [("#beast", "alive")]
    ofRules rules [("#beast", "alive")] = .ok e ∧ e.Canonical ∧
      e.knownTags.toList = ["animal", "cat", "purring"] := by
  intro rules e
  have hrules : ofRules rules [("#beast", "alive")] = .ok e := rfl
  exact ⟨hrules, canonical_of_ofRules hrules, by decide⟩

end Engine
end TagQuery
