import TagQuery.Proofs.Compile.Notes
import TagQuery.Proofs.Search.Hidden
import TagQuery.Proofs.Search.Kinship
import TagQuery.Proofs.Search.Leaves
import TagQuery.Proofs.Search.Wildcards

/-!
# Searches that mention hidden tags

A search shows hidden files when it mentions a hidden tag: as the value of a field for tags that are
held or rejected, or through conditions on properties that such a tag satisfies. A wildcard mentions
all tags that it stands for, as if each were written.

## Main definitions

- `Search.Field.mentions`: the fields whose values are mentioned.
- `Catalog.IsHidden`: a value names a hidden tag.
- `Catalog.StandsFor`: a value mentions a name.
- `Catalog.Mentions`, `Catalog.Selects`: what makes a search show hidden files.

## Main statements

- `Catalog.mentionsHidden_iff`: what the flag of a search says.
- `Catalog.exists_search_glob`: the search that a wildcard asks for.
- `Catalog.mentionsHidden_iff_glob`: where no hidden tag is named, wildcards alone decide.
-/

namespace TagQuery

open Search (Field isGlob)

/-- The fields whose values are mentioned: those that look at tags that are held or rejected. -/
def Search.Field.mentions : Field → Bool
  | .tag | .rejected | .undecided | .anyTag => true
  | _ => false

/-- In values that are mentioned, wildcards are taken for tags. -/
theorem Search.Field.takesGlob_of_mentions {kind : Field} (h : kind.mentions = true) :
    kind.takesGlob = true := by
  cases kind <;> first | rfl | contradiction

namespace Catalog

/-- A value names a hidden tag. -/
def IsHidden (c : Catalog) (value : String) : Prop :=
  c.engine.rename value ∈ c.hiddenCanonical

/-- A wildcard stands for the known tags that it matches, but for those with a star of their own,
and any other value for itself. -/
def StandsFor (c : Catalog) (value x : String) : Prop :=
  if isGlob value then
    (x ∈ c.engine.knownTags ∨ x ∈ c.tagsInUse) ∧ Search.IsSpelledBy value x ∧ isGlob x = false
  else x = value

/-- A field term mentions a hidden tag. -/
def Mentions (c : Catalog) (t : FieldTerm) : Prop :=
  (∃ kind, t.IsAbout kind ∧ kind.mentions = true) ∧ ∃ x, c.StandsFor t.value x ∧ c.IsHidden x

/-- Conditions on properties hold of a hidden tag. -/
def Selects (c : Catalog) (ps : List PropertyPredicate) : Prop :=
  ∃ tags, c.engine.tagsWith ps = .ok tags ∧ tags.isDisjoint c.hiddenCanonical = false

section
variable {c : Catalog}

open Compiler (Notes)

/-! ## What the parts of a search note -/

theorem notes_noteIfHidden (value : String) : Notes (c.IsHidden value) (c.noteIfHidden value) := by
  unfold noteIfHidden
  split
  · next h => exact Notes.noteHidden.congr (iff_of_true trivial h)
  · next h => exact (Notes.pure ()).congr (iff_of_false id h)

theorem notes_held (op : CompareOp) (value : String) :
    Notes (c.IsHidden value) (c.held op value) :=
  (notes_noteIfHidden value).bind_nothing fun _ => .pure _

theorem notes_rejected (op : CompareOp) (value : String) :
    Notes (c.IsHidden value) (c.rejected op value) :=
  (notes_noteIfHidden value).bind_nothing fun _ => .pure _

theorem notes_single (kind : Field) (op : CompareOp) (value : String) :
    Notes (kind.mentions = true ∧ c.IsHidden value) (c.single kind op value) := by
  unfold single
  refine .guarded ?_
  cases kind with
  | tag => exact (notes_held op value).congr (and_iff_right rfl).symm
  | rejected => exact (notes_rejected op value).congr (and_iff_right rfl).symm
  | undecided =>
    refine Notes.congr ?_ (and_iff_right rfl).symm
    refine ((notes_held _ value).bind fun _ => ?_).congr (or_self_iff)
    exact (notes_rejected _ value).bind_nothing fun _ => .pure _
  | anyTag =>
    refine Notes.congr ?_ (and_iff_right rfl).symm
    exact (notes_held _ value).bind_nothing fun _ => .pure _
  | suggested | missing | add =>
    exact (Notes.pure _).congr (iff_of_false id fun h => Bool.noConfusion h.1)
  | _ => exact (Notes.liftM _).congr (iff_of_false id fun h => Bool.noConfusion h.1)

/-- A wildcard mentions what each of the tags that it stands for would. -/
theorem notes_related (kind : Field) (op : CompareOp) (value : String) :
    Notes (kind.mentions = true ∧ ∃ x, c.StandsFor value x ∧ c.IsHidden x)
      (c.related kind op value) := by
  unfold related
  split
  · next h =>
    have hstands (x : String) : c.StandsFor value x ↔
        (x ∈ c.engine.knownTags ∨ x ∈ c.tagsInUse) ∧ Search.IsSpelledBy value x ∧
          isGlob x = false := by
      rw [StandsFor, if_pos (Bool.and_eq_true_iff.1 h).2]
    cases htags : c.globTags value with
    | error message => exact Notes.throw _
    | ok tags =>
      have hall : Notes (∃ x ∈ tags, kind.mentions = true ∧ c.IsHidden x)
          (tags.mapM (c.single kind op)) := .mapM fun x _ => notes_single kind op x
      refine Notes.congr (hall.bind_nothing fun _ => .pure _) ?_
      simp only [hstands, mem_globTags htags]
      constructor
      · rintro ⟨x, hx, hmentions, hhidden⟩
        exact ⟨hmentions, x, hx, hhidden⟩
      · rintro ⟨hmentions, x, hx, hhidden⟩
        exact ⟨x, hx, hmentions, hhidden⟩
  · next h =>
    refine (notes_single kind op value).congr (and_congr_right fun hmentions => ?_)
    have hglob : ¬isGlob value = true := fun hglob =>
      h (Bool.and_eq_true_iff.2 ⟨Field.takesGlob_of_mentions hmentions, hglob⟩)
    simp [StandsFor, hglob]

theorem notes_named (kind : Field) (op : FieldOperator) (value : String) :
    Notes (kind.mentions = true ∧ ∃ x, c.StandsFor value x ∧ c.IsHidden x)
      (c.named kind op value) := by
  unfold named
  split
  · exact notes_related kind _ value
  · split
    · exact .throw _
    · exact (notes_related kind .equal value).bind_nothing fun _ => .pure _

theorem notes_field (t : FieldTerm) : Notes (c.Mentions t) (c.field t) := by
  unfold field
  split
  · next hnone =>
    split
    · refine (Notes.pure _).congr (iff_of_false id ?_)
      rintro ⟨⟨kind, ⟨raw, hraw, -⟩, -⟩, -⟩
      rw [hnone] at hraw
      contradiction
    · exact .throw _
  · next raw hraw =>
    split
    · exact .throw _
    · next kind hkind =>
      refine (notes_named kind _ _).congr (and_congr_left' ?_)
      refine ⟨fun h => ⟨kind, ⟨raw, hraw, hkind⟩, h⟩, ?_⟩
      rintro ⟨kind', ⟨raw', hraw', hkind'⟩, h⟩
      obtain rfl := Option.some.inj (hraw.symm.trans hraw')
      obtain rfl := Option.some.inj (hkind.symm.trans hkind')
      exact h

theorem notes_properties (ps : List PropertyPredicate) :
    Notes (c.Selects ps) (c.properties ps) := by
  refine .liftM_bind fun tags => ?_
  split
  · next h => exact (Notes.noteHidden.bind_nothing fun _ => .pure _).congr (by simpa using h)
  · next h => exact (Notes.pure _).congr (by simpa using h)

/-- The parts of a search that note a hidden tag are those that mention one or select one. -/
theorem notesParts_dialect : c.dialect.NotesParts c.Mentions c.Selects where
  conjunction _ := .pure _
  disjunction _ := .pure _
  negation _ := .pure _
  field t := notes_field (c := c) t
  properties ps := notes_properties (c := c) ps

/-! ## The flag of a search -/

variable {saved : Table Term} {t : Term} {s : CompiledSearch}

/-- A search shows hidden files exactly if the query leads to a part that mentions a hidden tag or
selects one. -/
theorem mentionsHidden_iff (h : c.search saved t = .ok s) :
    s.mentionsHidden = true ↔
      ∃ u, t.LeadsTo saved u ∧ u.HasPart c.Mentions c.Selects := by
  unfold search at h
  split at h
  · next hempty =>
    obtain rfl := Except.ok.inj h
    refine iff_of_false Bool.false_ne_true ?_
    rw [Term.exists_leadsTo_iff, Term.references_of_isEmpty hempty]
    simpa using Term.not_hasPart_of_isEmpty hempty
  · split at h
    · contradiction
    · next e ctx hrun =>
      rw [← Dialect.compile_notes c.ignoresPath_dialect.keepsPath notesParts_dialect hrun]
      split at h
      · next hnoted =>
        obtain rfl := Except.ok.inj h
        exact iff_of_true rfl hnoted
      · next hnoted =>
        obtain rfl := Except.ok.inj h
        exact iff_of_false Bool.false_ne_true hnoted

/-- A search that does not show hidden files rejects every file with a hidden tag, whatever name the
tag goes by. -/
theorem rejects_of_search (h : c.search saved t = .ok s) (hhides : s.mentionsHidden = false)
    {scale : RatingScale} {p : Item → Bool} (hp : s.predicate scale = .ok p) {item : Item}
    {x : String} (hx : x ∈ item.tags) (hhidden : c.engine.renames.resolve x ∈ c.hiddenCanonical) :
    p item = false := by
  rw [predicate_of_search h] at hp
  obtain ⟨-, rfl⟩ := Expr.predicate_eq_ok.1 hp
  rw [← Bool.not_eq_true]
  intro hitem
  have hdisjoint := disjoint_of_search h hhides hitem
  exact TagSet.isDisjoint_iff.1 hdisjoint x hx (Engine.mem_withAliases_of_resolve hhidden)

end

/-! ## Searches for a wildcard -/

/-- One of some tags is held, by any of its names. -/
def anyHeld (c : Catalog) (values : List String) : Expr :=
  .disjunction (values.map fun value => .tag (c.namesOf .equal value))

theorem runFrom_mapM_held (c : Catalog) (op : CompareOp) (values : List String) (ctx : Context) :
    ((values.mapM (c.held op)).runFrom ctx).1 =
      .ok (values.map fun value => .tag (c.namesOf op value)) := by
  induction values generalizing ctx with
  | nil => rfl
  | cons value values ih =>
    rw [List.mapM_cons, Compiler.runFrom_bind_of_ok (Prod.ext (c.runFrom_held op value ctx) rfl),
      Compiler.runFrom_bind_of_ok (Prod.ext (ih _) rfl)]
    rfl

/-- A search for a wildcard asks for each of the tags that it stands for. -/
theorem exists_search_glob {c : Catalog} {value : String} (hglob : isGlob value = true)
    {tags : List String} (htags : c.globTags value = .ok tags) (saved : Table Term) :
    ∃ s, c.search saved (.tag value) = .ok s ∧ s.expression =
      if s.mentionsHidden then c.anyHeld tags
      else .conjunction [c.anyHeld tags, .negation (.tag c.hiddenTags)] := by
  have htag : Field.ofName? (Text.lowercase (Text.trim "tag")) = some .tag := by decide
  refine exists_search rfl ?_
  change ((c.field ⟨some "tag", .equal, value⟩).runFrom .start).1 = _
  rw [c.field_eq_named htag]
  change ((c.related .tag .equal value).runFrom .start).1 = _
  have htakes : (Field.tag.takesGlob && isGlob value) = true := hglob
  rw [related, if_pos htakes, htags]
  change ((tags.mapM (c.held .equal) >>= fun parts =>
    pure (Expr.disjunction parts)).runFrom .start).1 = _
  rw [Compiler.runFrom_bind_of_ok (Prod.ext (c.runFrom_mapM_held .equal _ _) rfl)]
  rfl

/-- A search for a wildcard has that wildcard as its only value. -/
theorem isGlob_of_leadsTo_tag {value : String} (hglob : isGlob value = true) {saved : Table Term}
    {u : Term} (hu : (Term.tag value).LeadsTo saved u) :
    u.conditions = [] ∧ ∀ f ∈ u.fields, isGlob f.value = true := by
  rcases hu.cases_head with rfl | ⟨_, ⟨name, hname, -⟩, -⟩
  · exact ⟨rfl, List.forall_mem_singleton.2 hglob⟩
  · contradiction

section
variable {c : Catalog} {saved : Table Term} {t : Term} {s : CompiledSearch}

/-- In a query without conditions on properties, whose values are wildcards or name no hidden tag
where tags that are held or rejected are looked at, only wildcards decide: if one of them matches a
known hidden tag, the search shows hidden files, and else it rejects them. -/
theorem mentionsHidden_iff_glob (h : c.search saved t = .ok s)
    (hconditions : ∀ u, t.LeadsTo saved u → u.conditions = [])
    (hvalues : ∀ u, t.LeadsTo saved u → ∀ f ∈ u.fields, ∀ kind, f.IsAbout kind →
      kind.mentions = true → isGlob f.value = true ∨ ¬c.IsHidden f.value) :
    (s.mentionsHidden = true ↔
      ∃ u, t.LeadsTo saved u ∧ ∃ f ∈ u.fields, (∃ kind, f.IsAbout kind ∧ kind.mentions = true) ∧
        isGlob f.value = true ∧ ∃ x, (x ∈ c.engine.knownTags ∨ x ∈ c.tagsInUse) ∧
          Search.IsSpelledBy f.value x ∧ isGlob x = false ∧ c.IsHidden x) ∧
    (s.mentionsHidden = false → ∀ scale p, s.predicate scale = .ok p → ∀ item, ∀ x ∈ item.tags,
      c.engine.renames.resolve x ∈ c.hiddenCanonical → p item = false) := by
  refine ⟨?_, fun hhides scale p hp item x hx hhidden => rejects_of_search h hhides hp hx hhidden⟩
  rw [mentionsHidden_iff h]
  refine exists_congr fun u => and_congr_right fun hu => ?_
  constructor
  · rintro (⟨f, hf, ⟨kind, hkind, hmentions⟩, x, hx, hhidden⟩ | ⟨ps, hps, -⟩)
    · by_cases hglob : isGlob f.value = true
      · rw [StandsFor, if_pos hglob] at hx
        obtain ⟨hknown, hmatches, hplain⟩ := hx
        exact ⟨f, hf, ⟨kind, hkind, hmentions⟩, hglob, x, hknown, hmatches, hplain, hhidden⟩
      · -- a value that is no wildcard mentions itself, and that is not hidden
        have hname := (hvalues u hu f hf kind hkind hmentions).resolve_left hglob
        rw [StandsFor, if_neg hglob] at hx
        rw [hx] at hhidden
        contradiction
    · rw [hconditions u hu] at hps
      contradiction
  · rintro ⟨f, hf, hkind, hglob, x, hknown, hmatches, hplain, hhidden⟩
    refine .inl ⟨f, hf, hkind, x, ?_, hhidden⟩
    rw [StandsFor, if_pos hglob]
    exact ⟨hknown, hmatches, hplain⟩

end

/-- Where none of the known tags is hidden, a wildcard for all tags shows no hidden files. -/
theorem mentionsHidden_iff_glob_cat :
    let c : Catalog :=
      ⟨.construct [⟨.singleton "cat", .specialization, .singleton "pet"⟩] [], ∅, .default, ∅,
        .standard⟩
    let item : Item := ⟨"", 0, "", [], .ofList ["cat", "hidden"], ∅, [], ∅, ∅⟩
    ∃ s, c.search ∅ (.tag "*") = .ok s ∧
      (∀ u, (Term.tag "*").LeadsTo ∅ u → u.conditions = [] ∧
        ∀ f ∈ u.fields, isGlob f.value = true) ∧
      s.mentionsHidden = false ∧ ∃ p, s.predicate ⟨"", ∅⟩ = .ok p ∧ p item = false := by
  intro c item
  have hglob : isGlob "*" = true := by decide
  have hruns : ∀ run ∈ ([[], []] : List (List Char)), '*' ∉ run := by decide
  have htags : c.globTags "*" = .ok ["cat", "pet"] :=
    c.globTags_standard rfl hruns rfl (by decide)
  obtain ⟨s, hs, hexpr⟩ := exists_search_glob hglob htags ∅
  have honly (u : Term) (hu : (Term.tag "*").LeadsTo ∅ u) : u.conditions = [] ∧
      ∀ f ∈ u.fields, isGlob f.value = true := isGlob_of_leadsTo_tag hglob hu
  obtain ⟨hiff, hrejects⟩ := mentionsHidden_iff_glob hs (fun u hu => (honly u hu).1)
    fun u hu f hf _ _ _ => .inl ((honly u hu).2 f hf)
  have hknown : ∀ x ∈ (c.engine.knownTags ∪ c.tagsInUse).toList,
      c.engine.rename x ∉ c.hiddenCanonical := by decide
  have hhides : s.mentionsHidden = false := by
    rw [← Bool.not_eq_true, hiff]
    rintro ⟨u, hu, f, hf, -, -, x, hx, -, -, hhidden⟩
    exact hknown x (TagSet.mem_toList.2 (TagSet.mem_union.2 hx)) hhidden
  obtain ⟨p, hp⟩ : ∃ p, s.predicate ⟨"", ∅⟩ = .ok p := by
    rw [predicate_of_search hs, hexpr, hhides]
    exact ⟨_, rfl⟩
  exact ⟨s, hs, honly, hhides, p, hp,
    hrejects hhides _ p hp item "hidden" (by decide) (by decide)⟩

/-- Where a kind of the hidden tag is known, a wildcard for all tags shows the files with it,
although the query does not name it. -/
theorem mentionsHidden_of_glob :
    let c : Catalog :=
      ⟨.construct [⟨.singleton "secret", .specialization, .singleton "hidden"⟩] [], ∅, .default, ∅,
        .standard⟩
    let item : Item := ⟨"", 0, "", [], .singleton "secret", ∅, [], ∅, ∅⟩
    ∃ s, c.search ∅ (.tag "*") = .ok s ∧
      (∀ u, (Term.tag "*").LeadsTo ∅ u → u.conditions = [] ∧
        ∀ f ∈ u.fields, isGlob f.value = true) ∧
      s.mentionsHidden = true ∧ ∃ p, s.predicate ⟨"", ∅⟩ = .ok p ∧ p item = true := by
  intro c item
  have hglob : isGlob "*" = true := by decide
  have htag : Field.ofName? (Text.lowercase (Text.trim "tag")) = some .tag := by decide
  have hruns : ∀ run ∈ ([[], []] : List (List Char)), '*' ∉ run := by decide
  have htags : c.globTags "*" = .ok ["hidden", "secret"] :=
    c.globTags_standard rfl hruns rfl (by decide)
  obtain ⟨s, hs, hexpr⟩ := exists_search_glob hglob htags ∅
  have hshows : s.mentionsHidden = true := by
    have hstands : c.StandsFor "*" "secret" := by
      rw [StandsFor, if_pos hglob, ← mem_globTags htags]
      decide
    have hhidden : c.engine.rename "secret" ∈ c.hiddenCanonical := by decide
    exact (mentionsHidden_iff hs).2 ⟨_, .refl, .inl ⟨_, List.mem_cons_self,
      ⟨.tag, ⟨_, rfl, htag⟩, rfl⟩, "secret", hstands, hhidden⟩⟩
  rw [hshows, if_pos rfl] at hexpr
  refine ⟨s, hs, fun u hu => isGlob_of_leadsTo_tag hglob hu, hshows, ?_⟩
  rw [predicate_of_search hs, hexpr]
  exact ⟨_, rfl, by decide⟩

end Catalog
end TagQuery
