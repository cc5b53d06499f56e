import TagQuery.Proofs.Search.Leaves
import TagQuery.Proofs.Search.Wildcards

/-!
# Searches do not tell the names of a tag apart

A tag has a final name and other names. Which of them a file holds or rejects makes no difference to
a search: every set of tags in its expression has with a name all others of the same tag. Only the
number of tags of a file can tell.

Nor does it make a difference by which name a query gives a tag, as long as it is a name and no
wildcard: all that the expression knows of a value is its final name.

## Main definitions

- `Item.mapTags`: the file with other names for its tags.
- `Expr.IgnoresNames`: an expression does not tell a file from the one with other names.
- `Term.CountsTags`: a term leads to a field about the number of tags.
- `Catalog.SameTag`: two fields give the same tag by its names.

## Main statements

- `Catalog.ignoresNames_search`: the expression of a search ignores names.
- `Catalog.field_eq_of_sameTag`: fields that give the same tag mean the same.
- `Catalog.search_ignores_renames`: the names of tags make no difference, in files and in queries.
-/

namespace TagQuery

open Search (Field isGlob)

/-! ## Files under other names -/

/-- The file with other names for the tags that it holds or rejects. -/
def Item.mapTags (f : String → String) (item : Item) : Item :=
  { item with tags := item.tags.map f, rejectedTags := item.rejectedTags.map f }

/-- What `f` leads into a set is what was there before. -/
def TagSet.Closed (f : String → String) (tags : TagSet) : Prop :=
  ∀ x, f x ∈ tags ↔ x ∈ tags

theorem TagSet.Closed.isDisjoint_map {f : String → String} {tags : TagSet} (h : tags.Closed f)
    (held : TagSet) : (held.map f).isDisjoint tags = held.isDisjoint tags := by
  rw [Bool.eq_iff_iff, isDisjoint_iff, isDisjoint_iff]
  simp only [mem_map, forall_exists_index, and_imp, forall_apply_eq_imp_iff₂]
  exact forall₂_congr fun x _ => not_congr (h x)

namespace Expr

variable {f : String → String}

/-- An expression does not tell a file from the one with the names that `f` gives to its tags. -/
def IgnoresNames (f : String → String) (e : Expr) : Prop :=
  ∀ scale item, e.holdsOn scale (item.mapTags f) = e.holdsOn scale item

/-- A tree ignores names when all its leaves do. -/
theorem ignoresNames_of_leaves {e : Expr} (h : ∀ l ∈ e.leaves, l.IgnoresNames f) :
    e.IgnoresNames f := by
  intro scale item
  rw [← eval_holdsOn, ← eval_holdsOn]
  exact eval_congr fun l hl => h l hl scale item

theorem ignoresNames_tag {tags : TagSet} (h : tags.Closed f) : (tag tags).IgnoresNames f :=
  fun _ item => congrArg (!·) (h.isDisjoint_map item.tags)

theorem ignoresNames_rejectedTag {tags : TagSet} (h : tags.Closed f) :
    (rejectedTag tags).IgnoresNames f :=
  fun _ item => congrArg (!·) (h.isDisjoint_map item.rejectedTags)

/-- The optimizer keeps what names an expression ignores. -/
theorem IgnoresNames.optimize {e : Expr} (h : e.IgnoresNames f) (maxSteps : Nat) :
    ((Optimizer.withLimit maxSteps).optimize e).IgnoresNames f := by
  intro scale item
  have hkept := holdsOn_of_preserves (preserves_optimize maxSteps e) scale
  rw [hkept, hkept, h]

/-- An expression that ignores names gives both files the same answer, if it gives any. -/
theorem IgnoresNames.map_predicate {e : Expr} (h : e.IgnoresNames f) (scale : RatingScale)
    (item : Item) :
    (e.predicate scale).map (· (item.mapTags f)) = (e.predicate scale).map (· item) := by
  cases hp : e.predicate scale with
  | error fault => rfl
  | ok p =>
    obtain ⟨-, rfl⟩ := predicate_eq_ok.1 hp
    exact congrArg Except.ok (h scale item)

end Expr

/-- What a field asks for that is not about tags ignores names, but for the number of tags. -/
theorem Search.Field.Asks.ignoresNames {stars : StarTable} {kind : Field} (hkind : kind ≠ .tags)
    {l : Expr} (h : kind.Asks stars l) {f : String → String} : l.IgnoresNames f := by
  cases l with
  | tagCount _ => exact absurd h hkind
  | stars _ | tag _ | rejectedTag _ | conjunction _ | disjunction _ | negation _ => contradiction
  | _ => exact fun _ _ => rfl

/-! ## Names that files have -/

/-- A term leads to a field about the number of tags, directly or through saved searches. -/
def Term.CountsTags (saved : Table Term) (t : Term) : Prop :=
  ∃ u, t.LeadsTo saved u ∧ ∃ f ∈ u.fields, f.IsAbout .tags

/-- Where neither a term nor what is saved counts tags, the term leads to nothing that does. -/
theorem Term.not_countsTags {saved : Table Term} {t : Term} (ht : ∀ f ∈ t.fields, ¬f.IsAbout .tags)
    (hsaved : ∀ name u, saved.get? name = some u → ∀ f ∈ u.fields, ¬f.IsAbout .tags) :
    ¬t.CountsTags saved := by
  rintro ⟨u, hu, f, hf, hcounts⟩
  cases hu with
  | refl => exact ht f hf hcounts
  | tail _ hlast =>
    obtain ⟨name, -, hget⟩ := hlast
    exact hsaved name u hget f hf hcounts

namespace Engine

/-- With a name, the names of a set of final names have all others of the same tag. -/
theorem closed_withAliases {e : Engine} (he : e.renames.Settled) {tags : TagSet}
    (htags : ∀ t ∈ tags, e.renames.resolve t = t) :
    (e.withAliases tags).Closed e.renames.resolve := by
  intro x
  rw [mem_withAliases htags, mem_withAliases htags, he x]

section
variable {rules : List TagRule} {properties : List (String × String)} {e : Engine}
  (h : ofRules rules properties = .ok e)
include h

theorem closed_related (value : String) (kinship : Kinship) :
    (e.withAliases (e.related value kinship)).Closed e.renames.resolve :=
  closed_withAliases (settled_of_ofRules h) fun _ ht => resolve_of_mem_related h ht

/-- The tags with some properties are final names. -/
theorem resolve_of_mem_tagsWith {predicates : List PropertyPredicate} {tags : TagSet}
    (htags : e.tagsWith predicates = .ok tags) {t : String} (ht : t ∈ tags) :
    e.renames.resolve t = t := by
  unfold tagsWith at htags
  split at htags
  · contradiction
  · split at htags
    · obtain rfl := Except.ok.inj htags
      exact absurd ht (TagSet.not_mem_empty t)
    · obtain rfl := Except.ok.inj htags
      obtain ⟨_, hset, ht⟩ := TagSet.mem_unions.1 ht
      obtain ⟨entry, -, rfl⟩ := List.mem_map.1 hset
      exact resolve_of_mem_related h ht

end
end Engine

namespace Catalog

section
variable {rules : List TagRule} {properties : List (String × String)} {c : Catalog}
  (h : Engine.ofRules rules properties = .ok c.engine)
include h

/-- What searches ask for ignores names, but for the number of tags. -/
theorem Asks.ignoresNames {l : Expr} (hl : c.Asks (· ≠ .tags) l) :
    l.IgnoresNames c.engine.renames.resolve := by
  cases hl with
  | text _ => exact fun _ _ => rfl
  | held value kinship => exact Expr.ignoresNames_tag (Engine.closed_related h value kinship)
  | rejected value kinship =>
    exact Expr.ignoresNames_rejectedTag (Engine.closed_related h value kinship)
  | properties htags =>
    have hfinal := fun t ht => Engine.resolve_of_mem_tagsWith (t := t) h htags ht
    exact Expr.ignoresNames_tag (Engine.closed_withAliases (Engine.settled_of_ofRules h) hfinal)
  | field hkind hl => exact hl.ignoresNames hkind

/-- The expression of a search ignores names, unless tags are counted. -/
theorem ignoresNames_search {saved : Table Term} {t : Term} (ht : ¬t.CountsTags saved)
    {s : CompiledSearch} (hs : c.search saved t = .ok s) :
    s.expression.IgnoresNames c.engine.renames.resolve := by
  have hkinds : ∀ u, t.LeadsTo saved u → ∀ f ∈ u.fields, ∀ kind, f.IsAbout kind → kind ≠ .tags := by
    rintro u hu f hf _ hcounts rfl
    exact ht ⟨u, hu, f, hf, hcounts⟩
  exact Expr.ignoresNames_of_leaves fun l hl => (asks_search hkinds hs l hl).ignoresNames h

end

end Catalog

/-! ## Names that queries give -/

namespace Search.Field

def supports (kind : Field) : FieldOperator → Bool
  | .equal | .notEqual => true
  | .like => false
  | _ => !kind.equalityOnly

theorem equalityOnly_of_supports {kind : Field} {op : FieldOperator} {relation : CompareOp}
    (h : kind.supports op = true) (hop : op.relation? = some relation) :
    (kind.equalityOnly && relation != .equal) = false := by
  cases op with
  | equal =>
    obtain rfl := Option.some.inj hop
    exact Bool.and_false _
  | notEqual | like => contradiction
  | _ =>
    have hany : kind.equalityOnly = false := by simpa [supports] using h
    rw [hany, Bool.false_and]

end Search.Field

namespace Catalog

/-- Two field terms ask the same of a tag, by names of it that are no wildcards. -/
inductive SameTag (c : Catalog) : FieldTerm → FieldTerm → Prop
  | intro {raw : String} {kind : Field} {op : FieldOperator} {value value' : String}
      (hfield : Field.ofName? (Text.lowercase (Text.trim raw)) = some kind)
      (htags : kind.takesGlob = true) (hop : kind.supports op = true)
      (hvalue : isGlob value = false) (hvalue' : isGlob value' = false)
      (hname : c.engine.rename value = c.engine.rename value') :
      SameTag c ⟨some raw, op, value⟩ ⟨some raw, op, value'⟩

section
variable {c : Catalog} {value value' : String}
  (hname : c.engine.rename value = c.engine.rename value')
include hname

theorem related_congr (kinship : Kinship) :
    c.engine.related value kinship = c.engine.related value' kinship := by
  unfold Engine.related
  rw [hname]

theorem held_congr (op : CompareOp) : c.held op value = c.held op value' := by
  rw [held, held, noteIfHidden, noteIfHidden, namesOf, namesOf, related_congr hname, hname]

theorem rejected_congr (op : CompareOp) : c.rejected op value = c.rejected op value' := by
  rw [rejected, rejected, noteIfHidden, noteIfHidden, namesOf, namesOf, related_congr hname, hname]

theorem wanted_congr (kind : RuleOperator) (op : CompareOp) :
    c.wanted kind op value = c.wanted kind op value' := by
  rw [wanted, wanted, related_congr hname]

theorem single_congr {kind : Field} (htags : kind.takesGlob = true) {op : CompareOp}
    (hop : (kind.equalityOnly && op != .equal) = false) :
    c.single kind op value = c.single kind op value' := by
  unfold single
  rw [hop, if_neg Bool.false_ne_true, if_neg Bool.false_ne_true]
  cases kind with
  | tag => exact held_congr hname op
  | rejected => exact rejected_congr hname op
  | undecided => simp only [held_congr hname, rejected_congr hname]
  | suggested | missing | add => simp only [wanted_congr hname]
  | anyTag => simp only [held_congr hname, wanted_congr hname]
  | _ => contradiction

end

theorem succeeds_held (c : Catalog) (op : CompareOp) (value : String) :
    (c.held op value).Succeeds :=
  fun ctx => ⟨_, c.runFrom_held op value ctx⟩

theorem succeeds_rejected (c : Catalog) (op : CompareOp) (value : String) :
    (c.rejected op value).Succeeds :=
  fun ctx => ⟨_, c.runFrom_rejected op value ctx⟩

theorem succeeds_single (c : Catalog) {kind : Field} (htags : kind.takesGlob = true)
    {op : CompareOp} (hop : (kind.equalityOnly && op != .equal) = false) (value : String) :
    (c.single kind op value).Succeeds := by
  unfold single
  rw [hop, if_neg Bool.false_ne_true]
  cases kind with
  | tag => exact c.succeeds_held op value
  | rejected => exact c.succeeds_rejected op value
  | undecided =>
    exact .bind (c.succeeds_held .lessOrEqual value) fun _ =>
      .bind (c.succeeds_rejected .greaterOrEqual value) fun _ => .pure _
  | suggested | missing | add => exact .pure _
  | anyTag => exact .bind (c.succeeds_held .lessOrEqual value) fun _ => .pure _
  | _ => contradiction

/-- A field about tags is its relation, or not equality. -/
theorem named_eq_single (c : Catalog) {kind : Field} (htags : kind.takesGlob = true)
    {op : FieldOperator} (hop : kind.supports op = true) {value : String}
    (hvalue : isGlob value = false) :
    c.named kind op value = match op.relation? with
      | some relation => c.single kind relation value
      | none => do return .negation (← c.single kind .equal value) := by
  have hsupported : ¬(op = .like ∨ kind = .percent ∨ kind = .sample) := by
    rintro (rfl | rfl | rfl) <;> contradiction
  unfold named
  cases op.relation? with
  | some relation => exact c.related_eq_single kind relation hvalue
  | none =>
    dsimp only
    rw [if_neg hsupported, c.related_eq_single kind .equal hvalue]

/-- Fields that ask the same of a tag mean the same. -/
theorem field_eq_of_sameTag {c : Catalog} {f g : FieldTerm} (h : c.SameTag f g) :
    c.field f = c.field g := by
  obtain ⟨hfield, htags, hop, hvalue, hvalue', hname⟩ := h
  rw [c.field_eq_named hfield, c.field_eq_named hfield, c.named_eq_single htags hop hvalue,
    c.named_eq_single htags hop hvalue']
  split
  · next relation hrelation =>
    exact single_congr hname htags (Field.equalityOnly_of_supports hop hrelation)
  · rw [single_congr hname htags (Bool.and_false _)]

/-- Fields that ask something of a tag have a meaning. -/
theorem succeeds_field_of_sameTag {c : Catalog} {f g : FieldTerm} (h : c.SameTag f g) :
    (c.field f).Succeeds := by
  obtain ⟨hfield, htags, hop, hvalue, -, -⟩ := h
  rw [c.field_eq_named hfield, c.named_eq_single htags hop hvalue]
  split
  · next relation hrelation =>
    exact c.succeeds_single htags (Field.equalityOnly_of_supports hop hrelation) _
  · exact .bind (c.succeeds_single htags (Bool.and_false _) _) fun _ => .pure _

/-! ## Searches -/

theorem compile_field (c : Catalog) (saved : Table Term) (f : FieldTerm) :
    c.dialect.compile saved (.field f) = c.field f := rfl

/-- A search for a tag that is not hidden, by one of its names. -/
theorem search_tag (c : Catalog) {value : String} (hvalue : isGlob value = false)
    (hvisible : c.engine.rename value ∉ c.hiddenCanonical) (saved : Table Term) :
    c.search saved (.tag value) =
      .ok ⟨.conjunction [.tag (c.namesOf .equal value), .negation (.tag c.hiddenTags)], false,
        c.hiddenTags⟩ := by
  have htag : Field.ofName? (Text.lowercase (Text.trim "tag")) = some .tag := by decide
  have hequal : Field.tag.supports .equal = true := rfl
  have hrun : (c.dialect.compile saved (.tag value)).runFrom .start =
      (.ok (.tag (c.namesOf .equal value)), .start) := by
    rw [Term.tag, compile_field, c.field_eq_named htag, c.named_eq_single rfl hequal hvalue]
    change (c.held .equal value).runFrom .start = _
    rw [held, noteIfHidden, if_neg hvisible]
    rfl
  rw [search, hrun]
  rfl

theorem exists_search_of_succeeds {c : Catalog} {saved : Table Term} {t : Term}
    (h : (c.dialect.compile saved t).Succeeds) : ∃ s, c.search saved t = .ok s := by
  obtain ⟨e, he⟩ := h .start
  unfold search
  split
  · exact ⟨_, rfl⟩
  · -- the context decides only whether hidden files are left out
    rw [← Prod.eta ((c.dialect.compile saved t).runFrom .start), he]
    dsimp only
    split <;> exact ⟨_, rfl⟩

/-- Searches for terms alike are the same, where the field terms ask the same of a tag. -/
theorem search_eq_of_alike {c : Catalog} {saved saved' : Table Term} {t u : Term}
    (hsaved : saved.Alike c.SameTag saved') (h : t.Alike c.SameTag u) :
    c.search saved t = c.search saved' u := by
  have hfield (f g : FieldTerm) (hfg : c.SameTag f g) : c.dialect.field f = c.dialect.field g := by
    change c.field f = c.field g
    exact field_eq_of_sameTag hfg
  have hrun := Dialect.compile_eq_of_alike hfield c.ignoresPath_dialect.keepsPath hsaved h
  unfold search
  rw [h.isEmpty_eq, hrun]

/-- For every search that counts no tags, its expression, optimized or not, gives the same answer on
a file and on the file that has the final names of its tags. And to give a tag by another of its
names, in a field about tags that supports the operator, leaves the search as it is, in a query as
well as in saved searches; only wildcards are no names. -/
theorem search_ignores_renames {rules : List TagRule} {properties : List (String × String)}
    {c : Catalog} (h : Engine.ofRules rules properties = .ok c.engine) :
    (∀ saved t s, ¬t.CountsTags saved → c.search saved t = .ok s →
      ∀ e, (e = s.expression ∨
          ∃ maxSteps, e = (Optimizer.withLimit maxSteps).optimize s.expression) →
        ∀ scale item, (e.predicate scale).map (· (item.mapTags c.engine.renames.resolve)) =
          (e.predicate scale).map (· item)) ∧
    (∀ saved f g, c.SameTag f g →
      ∃ s, c.search saved (.field f) = .ok s ∧ c.search saved (.field g) = .ok s) ∧
    ∀ saved saved' t u, saved.Alike c.SameTag saved' → t.Alike c.SameTag u →
      c.search saved t = c.search saved' u := by
  refine ⟨fun saved t s ht hs e he scale item => ?_, fun saved f g hfg => ?_,
    fun saved saved' t u hsaved htu => search_eq_of_alike hsaved htu⟩
  · have hignores := ignoresNames_search h ht hs
    rcases he with rfl | ⟨maxSteps, rfl⟩
    · exact hignores.map_predicate scale item
    · exact (hignores.optimize maxSteps).map_predicate scale item
  · have hcompile : (c.dialect.compile saved (.field f)).Succeeds := by
      rw [compile_field]
      exact succeeds_field_of_sameTag hfg
    obtain ⟨s, hs⟩ := exists_search_of_succeeds hcompile
    have hsame : c.search saved (.field f) = c.search saved (.field g) :=
      search_eq_of_alike (Table.Alike.refl _ saved) (.field hfg)
    exact ⟨s, hs, hsame ▸ hs⟩

/-- A search for the other name of a tag is the one for its final name, also where it is saved, and
finds a file with the other name as it would with the final one. -/
theorem search_ignores_renames_cat :
    let rules : List TagRule := [⟨.singleton "felis", .definition, .singleton "cat"⟩]
    let c : Catalog := ⟨.construct rules [], ∅, .default, ∅, .standard⟩
    let saved : Table Term := ⟨[("cats", .tag "felis")], by decide⟩
    let saved' : Table Term := ⟨[("cats", .tag "#cat")], by decide⟩
    let item : Item := ⟨"", 0, "", [], .singleton "felis", ∅, [], ∅, ∅⟩
    Engine.ofRules rules [] = .ok c.engine ∧
      c.SameTag ⟨some "tag", .equal, "felis"⟩ ⟨some "tag", .equal, "#cat"⟩ ∧
      saved.Alike c.SameTag saved' ∧ ¬(Term.tag "felis").CountsTags saved ∧
      c.search saved (.saved "cats") = c.search saved' (.saved "cats") ∧
      ∃ s, c.search saved (.tag "felis") = .ok s ∧ c.search saved (.tag "#cat") = .ok s ∧
        (s.expression.predicate ⟨"", ∅⟩).map (· (item.mapTags c.engine.renames.resolve)) =
          .ok true := by
  intro rules c saved saved' item
  have hrules : Engine.ofRules rules [] = .ok c.engine := rfl
  have htag : Field.ofName? (Text.lowercase (Text.trim "tag")) = some .tag := by decide
  have hfelis : isGlob "felis" = false := by decide
  have hcat : isGlob "#cat" = false := by decide
  have hsame : c.SameTag ⟨some "tag", .equal, "felis"⟩ ⟨some "tag", .equal, "#cat"⟩ :=
    .intro htag rfl rfl hfelis hcat (by decide)
  have hsaved : saved.Alike c.SameTag saved' := by
    intro name
    by_cases hname : name = "cats"
    · subst hname
      exact .some (.field hsame)
    · have hnone : saved.get? name = none := if_neg hname
      have hnone' : saved'.get? name = none := if_neg hname
      rw [hnone, hnone']
      exact .none
  have hcounts : ¬(Term.tag "felis").CountsTags saved := by
    have hfield : ¬FieldTerm.IsAbout ⟨some "tag", .equal, "felis"⟩ .tags := by
      rintro ⟨raw, hraw, hkind⟩
      obtain rfl := Option.some.inj hraw
      rw [htag] at hkind
      contradiction
    refine Term.not_countsTags (List.forall_mem_singleton.2 hfield) fun name u hu => ?_
    have hmem := Table.mem_of_find?_eq_some hu
    obtain ⟨rfl, rfl⟩ := Prod.mk.inj (List.mem_singleton.1 hmem)
    exact List.forall_mem_singleton.2 hfield
  obtain ⟨hfiles, hnames, hqueries⟩ := search_ignores_renames hrules
  obtain ⟨s, hs, hs'⟩ := hnames saved _ _ hsame
  refine ⟨hrules, hsame, hsaved, hcounts, hqueries _ _ _ _ hsaved (.refl _), s, hs, hs', ?_⟩
  rw [hfiles saved _ s hcounts hs _ (.inl rfl)]
  have hsearch := c.search_tag hfelis (by decide) saved
  obtain rfl := Except.ok.inj (hsearch.symm.trans hs)
  have hholds : (Expr.conjunction [.tag (c.namesOf .equal "felis"),
      .negation (.tag c.hiddenTags)]).holdsOn ⟨"", ∅⟩ item = true := by decide
  exact congrArg Except.ok hholds

/-- Where a star is part of a name, a value with that name is a wildcard all the same: it asks for
other tags than the final name of it does. -/
theorem search_ne_of_wildcard :
    let rules : List TagRule := [⟨.singleton "a*", .definition, .singleton "b"⟩]
    let c : Catalog := ⟨.construct rules [], ∅, .default, ∅, .standard⟩
    Engine.ofRules rules [] = .ok c.engine ∧ isGlob "b" = false ∧
      c.engine.rename "b" = c.engine.rename "a*" ∧
      c.search ∅ (.tag "b") ≠ c.search ∅ (.tag "a*") := by
  intro rules c
  have htag : Field.ofName? (Text.lowercase (Text.trim "tag")) = some .tag := by decide
  have hruns : ∀ run ∈ ([['a'], []] : List (List Char)), '*' ∉ run := by decide
  have hnone : c.globTags "a*" = .ok [] := c.globTags_standard rfl hruns rfl (by decide)
  -- the wildcard is none of the known tags, unless it is refused
  have hwildcard : Compiler.Ensures (· = .disjunction []) (c.dialect.compile ∅ (.tag "a*")) := by
    rw [Term.tag, compile_field, c.field_eq_named htag]
    change Compiler.Ensures _ (c.related .tag .equal "a*")
    rw [related, if_pos (by decide), hnone]
    exact .pure rfl
  have hb : isGlob "b" = false := by decide
  have hname := c.search_tag hb (by decide) ∅
  have hwritten : ¬(Term.tag "a*").isEmpty = true := Bool.false_ne_true
  refine ⟨rfl, hb, by decide, fun heq => ?_⟩
  rw [hname, search, if_neg hwritten] at heq
  split at heq
  · cases heq
  · next e ctx hrun =>
    obtain rfl := hwildcard .start e (congrArg Prod.fst hrun)
    split at heq <;> simp at heq

end Catalog

end TagQuery
