import TagQuery.Proofs.Compile.Results
import TagQuery.Proofs.Expr.Stars
import TagQuery.Proofs.Search.Expansion
import TagQuery.Proofs.Search.Values
import TagQuery.Proofs.Search.Wanted

/-!
# What searches ask for

The leaves of the expression of a search: a text in a path, a set of tags with all their other
names, or what a field asks for that is not about tags. No relation between stars is left, and all
numbers come from the values of fields or from the bounds of stars.

## Main definitions

- `Search.Field.Asks`: what a field asks for that is not about tags.
- `FieldTerm.IsAbout`: a field term has a field of a kind.
- `Catalog.Asks`: what searches ask for.

## Main statements

- `Search.yields_leaf`: fields that are not about tags ask for what they may.
- `Catalog.asks_search`: all leaves of the expression of a search ask for what they may.
-/

namespace TagQuery

open Search (Field)

/-! ## Fields without tags -/

namespace Search

/-- What a field asks for that is not about tags. A relation between stars becomes one to bounds of
the table. -/
def Field.Asks (stars : StarTable) (kind : Field) : Expr → Prop
  | .rating c => c.value.isFinite = true ∨ c.value ∈ stars.bounds
  | .sample x => x.IsPortion
  | .details _ _ value => ∀ x, value = .real x → x.isFinite = true
  | .tagCount _ => kind = .tags
  | .stars _ | .text _ | .tag _ | .rejectedTag _ => False
  | .conjunction _ | .disjunction _ | .negation _ => False
  | _ => True

theorem asks_person (stars : StarTable) (kind : Field) (value : String) :
    ∀ l ∈ (person value).leaves, kind.Asks stars l := by
  unfold person
  split
  · split <;> exact List.forall_mem_singleton.2 trivial
  · exact List.forall_mem_singleton.2 trivial

theorem asks_mediaType (stars : StarTable) (kind : Field) (value : String) :
    ∀ l ∈ (mediaType value).leaves, kind.Asks stars l := by
  unfold mediaType
  dsimp only
  split
  · exact List.forall_mem_cons.2 ⟨trivial, List.forall_mem_singleton.2 trivial⟩
  · split <;> exact List.forall_mem_singleton.2 trivial

theorem asks_similar (stars : StarTable) (kind : Field) (mode : SimilarMode) (hash : UInt64) :
    ∀ l ∈ (similar mode hash).leaves, kind.Asks stars l := by
  refine Expr.forall_leaves_disjunction.2 (List.forall_mem_map.2 fun h _ => ?_)
  exact List.forall_mem_singleton.2 fun _ h => DetailValue.noConfusion h

theorem asks_resolve (stars : StarTable) (kind : Field) (c : Comparison UInt8) :
    ∀ l ∈ (stars.resolve c).leaves, kind.Asks stars l := by
  intro l hl
  obtain ⟨op, x, hx, rfl⟩ := Expr.onlyBounds_resolve stars c l hl
  exact .inr hx

theorem asks_real (stars : StarTable) (kind : Field) (op : CompareOp) (name : String) {x : Real64}
    (hx : x.isFinite = true) : kind.Asks stars (.details name op (.real x)) := by
  rintro _ ⟨⟩
  exact hx

/-- Fields that are not about tags ask for what they may, with values that they accept. -/
theorem yields_leaf (mode : SimilarMode) (stars : StarTable) (kind : Field) (op : CompareOp)
    (value : String) :
    Yields (fun e => ∀ l ∈ e.leaves, kind.Asks stars l) (leaf mode stars kind op value) := by
  unfold leaf
  refine .ite (fun _ => .throw _) fun _ => ?_
  cases kind with
  | person => exact .pure (asks_person stars _ value)
  | type => exact .pure (asks_mediaType stars _ value)
  | similar => exact .map (.anything _) fun hash _ => asks_similar stars _ mode hash
  | tags => exact .map (.anything _) fun _ _ => List.forall_mem_singleton.2 rfl
  | rating =>
    exact .map (.mapError (yields_readRating value)) fun _ hx =>
      List.forall_mem_singleton.2 (.inl hx)
  | stars => exact .map (.anything _) fun _ _ => asks_resolve stars _ _
  | width | height =>
    exact .map (.anything _) fun _ _ =>
      List.forall_mem_singleton.2 fun _ h => DetailValue.noConfusion h
  | duration | length | time =>
    exact .map (.mapError (yields_readDuration value)) fun _ hx =>
      List.forall_mem_singleton.2 (asks_real stars _ op _ hx)
  | percent =>
    exact .map (.mapError (yields_readPortion (by decide) (by decide) value)) fun _ hx =>
      List.forall_mem_singleton.2 hx
  | sample =>
    exact .map (.mapError (yields_readPortion Nat.one_pos (by decide) value)) fun _ hx =>
      List.forall_mem_singleton.2 hx
  | tag | rejected | undecided | suggested | missing | add | anyTag => exact .throw _
  | copies | people | ratings | size | hash =>
    exact .map (.anything _) fun _ _ => List.forall_mem_singleton.2 trivial

end Search

/-! ## Searches -/

/-- A field term has a field of a kind, however its name is written. -/
def FieldTerm.IsAbout (t : FieldTerm) (kind : Field) : Prop :=
  ∃ raw, t.field = some raw ∧ Field.ofName? (Text.lowercase (Text.trim raw)) = some kind

namespace Catalog

inductive Asks (c : Catalog) (kinds : Field → Prop) : Expr → Prop
  | text (text : String) : Asks c kinds (.text text)
  | held (value : String) (kinship : Kinship) :
      Asks c kinds (.tag (c.engine.withAliases (c.engine.related value kinship)))
  | rejected (value : String) (kinship : Kinship) :
      Asks c kinds (.rejectedTag (c.engine.withAliases (c.engine.related value kinship)))
  | properties {ps : List PropertyPredicate} {tags : TagSet} (h : c.engine.tagsWith ps = .ok tags) :
      Asks c kinds (.tag (c.engine.withAliases tags))
  | field {kind : Field} (hkind : kinds kind) {l : Expr} (h : kind.Asks c.stars l) :
      Asks c kinds l

section
variable {c : Catalog} {kinds : Field → Prop}

open Compiler (Ensures)

theorem ensures_held (kinds : Field → Prop) (op : CompareOp) (value : String) :
    Ensures (fun e => ∀ l ∈ e.leaves, c.Asks kinds l) (c.held op value) :=
  .bind (.anything _) fun _ _ => .pure (List.forall_mem_singleton.2 (.held value _))

theorem ensures_rejected (kinds : Field → Prop) (op : CompareOp) (value : String) :
    Ensures (fun e => ∀ l ∈ e.leaves, c.Asks kinds l) (c.rejected op value) :=
  .bind (.anything _) fun _ _ => .pure (List.forall_mem_singleton.2 (.rejected value _))

theorem asks_wanted (kind : RuleOperator) (op : CompareOp) (value : String) :
    ∀ l ∈ (c.wanted kind op value).leaves, c.Asks kinds l :=
  Expr.forall_leaves_disjunction.2 (List.forall_mem_map.2 fun target _ =>
    Engine.forall_leaves_wanted (fun t => .held t .selfOrDescendant)
      (fun t => .rejected t .selfOrAncestor) kind target)

theorem ensures_single {kind : Field} (hkind : kinds kind) (op : CompareOp) (value : String) :
    Ensures (fun e => ∀ l ∈ e.leaves, c.Asks kinds l) (c.single kind op value) := by
  unfold single
  refine .guarded ?_
  cases kind with
  | tag => exact ensures_held kinds op value
  | rejected => exact ensures_rejected kinds op value
  | undecided =>
    refine .bind (ensures_held kinds _ value) fun held hheld => ?_
    refine .bind (ensures_rejected kinds _ value) fun rejected hrejected => .pure ?_
    exact Expr.forall_leaves_conjunction.2
      (List.forall_mem_cons.2 ⟨hheld, List.forall_mem_singleton.2 hrejected⟩)
  | suggested | missing => exact .pure (asks_wanted _ op value)
  | add =>
    exact .pure (Expr.forall_leaves_disjunction.2 (List.forall_mem_cons.2
      ⟨asks_wanted _ op value, List.forall_mem_singleton.2 (asks_wanted _ op value)⟩))
  | anyTag =>
    refine .bind (ensures_held kinds _ value) fun held hheld => .pure ?_
    exact Expr.forall_leaves_disjunction.2 (List.forall_mem_cons.2
      ⟨hheld, List.forall_mem_cons.2 ⟨asks_wanted _ _ value,
        List.forall_mem_singleton.2 (asks_wanted _ _ value)⟩⟩)
  | _ => exact .liftM fun e he l hl => .field hkind (Search.yields_leaf _ _ _ _ _ e he l hl)

theorem ensures_related {kind : Field} (hkind : kinds kind) (op : CompareOp) (value : String) :
    Ensures (fun e => ∀ l ∈ e.leaves, c.Asks kinds l) (c.related kind op value) := by
  unfold related
  split
  · refine .bind (.anything _) fun tags _ => ?_
    refine .bind (.mapM fun t _ => ensures_single hkind op t) fun parts hparts => ?_
    exact .pure (Expr.forall_leaves_disjunction.2 hparts)
  · exact ensures_single hkind op value

theorem ensures_named {kind : Field} (hkind : kinds kind) (op : FieldOperator) (value : String) :
    Ensures (fun e => ∀ l ∈ e.leaves, c.Asks kinds l) (c.named kind op value) := by
  unfold named
  split
  · exact ensures_related hkind _ value
  · split
    · exact .throw _
    · exact .bind (ensures_related hkind .equal value) fun e he => .pure he

theorem ensures_field {t : FieldTerm} (ht : ∀ kind, t.IsAbout kind → kinds kind) :
    Ensures (fun e => ∀ l ∈ e.leaves, c.Asks kinds l) (c.field t) := by
  unfold field
  split
  · split
    · exact .pure (List.forall_mem_singleton.2 (.text _))
    · exact .throw _
  · next raw hraw =>
    split
    · exact .throw _
    · next kind hname => exact ensures_named (ht kind ⟨raw, hraw, hname⟩) _ _

theorem ensures_properties (ps : List PropertyPredicate) :
    Ensures (fun e => ∀ l ∈ e.leaves, c.Asks kinds l) (c.properties ps) :=
  .bind (.liftM fun _ htags => htags) fun _ htags =>
    .guarded (.pure (List.forall_mem_singleton.2 (.properties htags)))

/-- All parts of a search ask for what they may. -/
theorem maintains_dialect :
    c.dialect.Maintains (fun t => ∀ kind, t.IsAbout kind → kinds kind)
      (fun e => ∀ l ∈ e.leaves, c.Asks kinds l) where
  conjunction hparts := .pure (Expr.forall_leaves_conjunction.2 hparts)
  disjunction hparts := .pure (Expr.forall_leaves_disjunction.2 hparts)
  negation hpart := .pure hpart
  field {t} ht := ensures_field (c := c) (t := t) ht
  properties ps := ensures_properties (c := c) ps

/-- All leaves of the expression of a search ask for what the fields may that the search leads
to. -/
theorem asks_search {saved : Table Term} {t : Term}
    (hkinds : ∀ u, t.LeadsTo saved u → ∀ f ∈ u.fields, ∀ kind, f.IsAbout kind → kinds kind)
    {s : CompiledSearch} (hs : c.search saved t = .ok s) :
    ∀ l ∈ s.expression.leaves, c.Asks kinds l := by
  unfold search at hs
  split at hs
  · obtain rfl := Except.ok.inj hs
    exact Expr.forall_leaves_disjunction.2 (List.forall_mem_nil _)
  · split at hs
    · contradiction
    · next e ctx hrun =>
      have he : ∀ l ∈ e.leaves, c.Asks kinds l :=
        Dialect.compile_ensures c.ignoresPath_dialect.keepsPath maintains_dialect hkinds hrun
      split at hs
      · obtain rfl := Except.ok.inj hs
        exact he
      · obtain rfl := Except.ok.inj hs
        refine Expr.forall_leaves_conjunction.2 (List.forall_mem_cons.2 ⟨he, ?_⟩)
        -- the hidden tags are those below one tag
        exact List.forall_mem_singleton.2
          (List.forall_mem_singleton.2 (.held c.config.hiddenTag .selfOrDescendant))

end
end Catalog
end TagQuery
