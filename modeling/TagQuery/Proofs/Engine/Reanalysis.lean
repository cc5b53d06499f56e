import TagQuery.Proofs.Engine.Analysis
import TagQuery.Proofs.Engine.Specialization
import TagQuery.Rule.Text

/-!
# Analysis of its own result

The tags that an analysis calls for can be analysed together with those that it started from. A
missing set of several tags only names a choice, and so the second analysis may follow what the
first did not: the consequences of the tags of such a set. Everything else is settled by the first
one.

## Main definitions

- `Analysis.closure`: the effective tags and the tags of all missing sets.

## Main statements

- `Engine.close_ends`: what holds when the rounds end.
- `Engine.close_missing_eq_nil`: no set is missing exactly when every implication is fulfilled.
- `Engine.closure_missingSets_eq_nil`: what the second analysis finds missing.
-/

namespace TagQuery

/-- The effective tags and the tags of all missing sets. -/
def Analysis.closure (a : Analysis) : TagSet := a.effective ∪ a.missing

namespace Engine

/-! ## The last round -/

/-- An invariant of rounds holds when they end: no rule with one tag on the right side is left then,
and the sets that are still recorded are the choices. -/
theorem close_ends {e : Engine} (inv : TagSet × List TagSet → Prop)
    (hround : ∀ state, inv state → inv (e.round state)) (effective : TagSet)
    (missing : List TagSet) (hinv : inv (effective, missing)) :
    ∃ last, inv ((e.close effective missing).1, last) ∧
      e.singles (e.close effective missing).1 = [] ∧
      (e.close effective missing).2 = e.recorded ((e.close effective missing).1, last) := by
  by_cases hnil : e.singles effective = []
  · rw [close_of_singles_eq_nil hnil]
    exact ⟨missing, hinv, hnil, rfl⟩
  · obtain ⟨hclose, hlt⟩ := close_of_singles_ne_nil hnil missing
    rw [hclose]
    exact close_ends inv hround _ _ (hround (effective, missing) hinv)
termination_by (e.openRules effective).length

theorem mem_record {missing : List TagSet} {s tags : TagSet} :
    s ∈ record missing tags ↔ s ∈ missing ∨ s = tags := by
  unfold record
  split
  · next h => exact ⟨.inl, fun hs => hs.elim id fun heq => heq ▸ h⟩
  · rw [List.mem_append, List.mem_singleton]

theorem mem_foldl_record {sets missing : List TagSet} {s : TagSet} :
    s ∈ sets.foldl record missing ↔ s ∈ missing ∨ s ∈ sets := by
  induction sets generalizing missing with
  | nil => simp
  | cons tags sets ih => rw [List.foldl_cons, ih, mem_record, List.mem_cons, or_assoc]

theorem mem_recorded {e : Engine} {state : TagSet × List TagSet} {s : TagSet} :
    s ∈ e.recorded state ↔ s ∈ state.2 ∨ ∃ r ∈ e.rulesOf .implication,
      (∀ t ∈ r.left, t ∈ state.1) ∧ (¬∀ t ∈ r.right, t ∈ state.1) ∧ r.right = s := by
  simp only [recorded, mem_foldl_record, List.mem_map, List.mem_filter, applies,
    Bool.and_eq_true, Bool.not_eq_true', ← Bool.not_eq_true, TagSet.isSubset_iff, and_assoc]

/-! ## Missing sets -/

/-- What every application of a rule to a state keeps, every round keeps. -/
theorem round_invariant {e : Engine} {inv : TagSet × List TagSet → Prop}
    (hstep : ∀ state, inv state → ∀ r ∈ e.rulesOf .implication, inv (e.applySingle state r))
    (state : TagSet × List TagSet) (h : inv state) : inv (e.round state) :=
  List.foldlRecOn (e.singles state.1) e.applySingle h fun state' h' r hr =>
    hstep state' h' r (mem_singles.1 hr).1

/-- An implication whose left side is effective is fulfilled, or its right side is recorded. -/
theorem fulfilled_or_recorded {e : Engine} (effective : TagSet) (missing : List TagSet)
    {r : TagRule} (hr : r ∈ e.rulesOf .implication)
    (hleft : ∀ t ∈ r.left, t ∈ (e.close effective missing).1) :
    (∀ t ∈ r.right, t ∈ (e.close effective missing).1) ∨
      r.right ∈ (e.close effective missing).2 := by
  obtain ⟨last, -, -, hmissing⟩ :=
    close_ends (fun _ => True) (fun _ _ => trivial) effective missing trivial
  by_cases hright : ∀ t ∈ r.right, t ∈ (e.close effective missing).1
  · exact .inl hright
  · rw [hmissing]
    exact .inr (mem_recorded.2 (.inr ⟨r, hr, hleft, hright, rfl⟩))

/-- Every recorded set is the right side of an implication, and the tag of a set of one is
effective. -/
theorem mem_close_missing {e : Engine} {effective : TagSet} {s : TagSet}
    (hs : s ∈ (e.close effective []).2) :
    (∃ r ∈ e.rulesOf .implication, r.right = s) ∧
      ∀ t, s = .singleton t → t ∈ (e.close effective []).1 := by
  have hstep (state : TagSet × List TagSet)
      (h : ∀ s ∈ state.2, (∃ r ∈ e.rulesOf .implication, r.right = s) ∧
        ∀ t, s = .singleton t → t ∈ state.1)
      (r : TagRule) (hr : r ∈ e.rulesOf .implication) :
      ∀ s ∈ (e.applySingle state r).2, (∃ r ∈ e.rulesOf .implication, r.right = s) ∧
        ∀ t, s = .singleton t → t ∈ (e.applySingle state r).1 := by
    intro s hs
    have hright := right_subset_applySingle e state r
    have hmem : s ∈ state.2 ∨ s = r.right := by
      unfold applySingle at hs
      split at hs
      · exact .inl hs
      · exact mem_record.1 hs
    rcases hmem with hmem | rfl
    · exact ⟨(h s hmem).1, fun t ht => subset_applySingle e state r t ((h s hmem).2 t ht)⟩
    · exact ⟨⟨r, hr, rfl⟩, fun t ht => hright t (ht ▸ TagSet.mem_singleton.2 rfl)⟩
  obtain ⟨last, hlast, hdone, hmissing⟩ :=
    close_ends _ (round_invariant hstep) effective [] (by simp)
  rw [hmissing] at hs
  rcases mem_recorded.1 hs with hs | ⟨r, hr, hleft, hright, rfl⟩
  · exact hlast s hs
  · refine ⟨⟨r, hr, rfl⟩, fun t ht => ?_⟩
    by_contra hnot
    have hmem : r ∈ e.singles (e.close effective []).1 := mem_singles.2 ⟨hr, hleft, t, ht, hnot⟩
    rw [hdone] at hmem
    contradiction

/-- As long as no set is recorded, no tag is added. -/
theorem applySingle_missing_eq_nil {e : Engine} {state : TagSet × List TagSet} {r : TagRule}
    (h : (e.applySingle state r).2 = []) : e.applySingle state r = state := by
  have hnot : r.right ∉ (e.applySingle state r).2 := by
    rw [h]
    exact List.not_mem_nil
  unfold applySingle at hnot ⊢
  split
  · rfl
  · next hright =>
    rw [if_neg hright] at hnot
    exact absurd (mem_record.2 (.inr rfl)) hnot

/-- Where every implication is fulfilled, there is nothing to add and nothing to record. -/
theorem close_of_fulfilled {e : Engine} {tags : TagSet}
    (h : ∀ r ∈ e.rulesOf .implication, (∀ t ∈ r.left, t ∈ tags) → ∀ t ∈ r.right, t ∈ tags) :
    e.close tags [] = (tags, []) := by
  have hdone : e.singles tags = [] := by
    rw [List.eq_nil_iff_forall_not_mem]
    intro r hr
    obtain ⟨hmem, hleft, t, ht, hnot⟩ := mem_singles.1 hr
    exact hnot (h r hmem hleft t (ht ▸ TagSet.mem_singleton.2 rfl))
  have hrecorded : e.recorded (tags, []) = [] := by
    rw [List.eq_nil_iff_forall_not_mem]
    intro s hs
    rcases mem_recorded.1 hs with hs | ⟨r, hr, hleft, hright, -⟩
    · contradiction
    · exact hright (h r hr hleft)
  rw [close_of_singles_eq_nil hdone, hrecorded]

/-- No set is missing exactly when every implication whose left side is held is fulfilled. -/
theorem close_missing_eq_nil {e : Engine} {tags : TagSet} :
    (e.close tags []).2 = [] ↔
      ∀ r ∈ e.rulesOf .implication, (∀ t ∈ r.left, t ∈ tags) → ∀ t ∈ r.right, t ∈ tags := by
  constructor
  · intro hnil r hr hleft
    have hstep (state : TagSet × List TagSet) (h : state.2 = [] → state.1 = tags) (r : TagRule)
        (_ : r ∈ e.rulesOf .implication) :
        (e.applySingle state r).2 = [] → (e.applySingle state r).1 = tags := by
      intro hempty
      have hsame := applySingle_missing_eq_nil hempty
      rw [hsame] at hempty ⊢
      exact h hempty
    obtain ⟨last, hlast, -, hmissing⟩ :=
      close_ends _ (round_invariant hstep) tags [] fun _ => rfl
    have hlastNil : last = [] := by
      rw [List.eq_nil_iff_forall_not_mem]
      intro s hs
      have hrecorded : s ∈ (e.close tags []).2 := by
        rw [hmissing]
        exact mem_recorded.2 (.inl hs)
      rw [hnil] at hrecorded
      contradiction
    have htags : (e.close tags []).1 = tags := hlast hlastNil
    rcases fulfilled_or_recorded tags [] hr (by rwa [htags]) with hright | hright
    · rwa [htags] at hright
    · rw [hnil] at hright
      contradiction
  · exact fun h => congrArg Prod.snd (close_of_fulfilled h)

/-- The missing sets come from applying implications, also where there are no tags. -/
theorem analyze_missingSets {e : Engine} (he : e.Consistent) (raw : List String) :
    (e.analyze raw).missingSets = (e.close (e.startOf (e.normalize raw)) []).2 := by
  unfold analyze
  by_cases hempty : (e.normalize raw).isEmpty = true
  · have hnil : (e.close ∅ []).2 = [] := by
      refine close_missing_eq_nil.2 fun r hr hleft => ?_
      obtain ⟨t, ht⟩ := (he.sides r (List.mem_filter.1 hr).1).left
      exact absurd (hleft t ht) (TagSet.not_mem_empty t)
    rw [startOf_of_isEmpty hempty, hnil]
    exact congrArg Analysis.missingSets (if_pos hempty)
  · exact congrArg Analysis.missingSets (if_neg hempty)

end Engine

/-! ## Names -/

namespace TagRule

theorem ne_empty_of_mem_side {words : List String} {t : String} (h : t ∈ side words) : t ≠ "" := by
  rw [side, TagSet.mem_ofList, List.mem_filter] at h
  exact bne_iff_ne.1 h.2

/-- Every tag in a rule of a text has a name. -/
theorem ne_empty_of_parseLine {line : List Char} {r : TagRule} (h : parseLine line = .ok (some r))
    {t : String} (ht : t ∈ r.left ∨ t ∈ r.right) : t ≠ "" := by
  unfold parseLine at h
  dsimp only at h
  split at h
  · cases h
  · split at h
    · cases h
    · next left op right _ =>
      split at h
      · cases h
      · unfold ofWords at h
        dsimp only at h
        split at h
        · cases h
        · obtain rfl := Option.some.inj (Except.ok.inj h)
          exact ht.elim ne_empty_of_mem_side ne_empty_of_mem_side

theorem ne_empty_of_parseLines {lines : List (List Char)} {number : Nat} {rules : List TagRule}
    (h : parseLines number lines = .ok rules) :
    ∀ r ∈ rules, ∀ t, t ∈ r.left ∨ t ∈ r.right → t ≠ "" := by
  induction lines generalizing number rules with
  | nil =>
    obtain rfl := Except.ok.inj h
    simp
  | cons line lines ih =>
    rw [parseLines] at h
    cases hline : parseLine line with
    | error fault =>
      rw [hline] at h
      contradiction
    | ok rule =>
      cases hrest : parseLines (number + 1) lines with
      | error fault =>
        rw [hline, hrest] at h
        contradiction
      | ok rest =>
        rw [hline, hrest] at h
        obtain rfl := Except.ok.inj h
        intro r hr t ht
        rcases List.mem_append.1 hr with hr | hr
        · obtain rfl := Option.mem_toList.1 hr
          exact ne_empty_of_parseLine hline ht
        · exact ih hrest r hr t ht

theorem ne_empty_of_parseText {text : String} {rules : List TagRule}
    (h : parseText text = .ok rules) :
    ∀ r ∈ rules, ∀ t, t ∈ r.left ∨ t ∈ r.right → t ≠ "" :=
  ne_empty_of_parseLines h

end TagRule

namespace Engine

/-- A tag with a name that is final. -/
def IsFinalName (e : Engine) (t : String) : Prop := t ≠ "" ∧ e.renames.resolve t = t

section
variable {rules : List TagRule} (hrules : ∀ r ∈ rules, r.fault? = none)
  (hnames : ∀ r ∈ rules, ∀ t, t ∈ r.left ∨ t ∈ r.right → t ≠ "")
include hnames

/-- No name becomes empty by renames between names. -/
theorem isFinalName_resolve (properties : List (String × String)) {t : String} (ht : t ≠ "") :
    (construct rules properties).IsFinalName ((renamesOf rules).resolve t) := by
  refine ⟨?_, settled_renamesOf rules t⟩
  have hpairs : ∀ q ∈ pairsOf .definition rules, q.2 ≠ "" := fun q hq =>
    hnames _ (mem_pairsOf.1 hq) q.2 (.inr (TagSet.mem_singleton.2 rfl))
  exact Renames.resolve_foldl_insert (p := (· ≠ "")) hpairs Renames.settled_empty
    (fun _ hx => hx) ht

theorem isFinalName_of_mem_sides (properties : List (String × String)) {r : TagRule}
    (hr : r ∈ (construct rules properties).rules) {t : String} (ht : t ∈ r.left ∨ t ∈ r.right) :
    (construct rules properties).IsFinalName t := by
  obtain ⟨r', hr', x, hx, rfl⟩ := mem_sides_simplify hr ht
  exact isFinalName_resolve hnames properties (hnames r' hr' x hx)

include hrules

/-- Nothing but names that are final follows from such names. -/
theorem saturated_isFinalName (properties : List (String × String)) :
    (construct rules properties).Saturated {t | (construct rules properties).IsFinalName t} where
  ancestors x _ y hy := by
    obtain ⟨hne, hpath⟩ := (closes_construct hrules properties).mem_ancestors.1 hy
    rcases (Relation.ReflTransGen.cases_tail_iff _ _ _).1 hpath with rfl | ⟨b, -, hby⟩
    · contradiction
    · obtain ⟨-, x', y', hmem, -, rfl⟩ := hby
      exact isFinalName_resolve hnames properties
        (hnames _ hmem y' (.inr (TagSet.mem_singleton.2 rfl)))
  implied r hr t ht _ := by
    have hright : t ∈ r.right := by
      rw [TagSet.single?_eq_some.1 ht]
      exact TagSet.mem_singleton.2 rfl
    exact isFinalName_of_mem_sides hnames properties (List.mem_filter.1 hr).1 (.inr hright)

/-- All tags that an analysis calls for have final names. -/
theorem isFinalName_of_mem_closure {properties : List (String × String)} {e : Engine}
    (h : ofRules rules properties = .ok e) {raw : List String} {t : String}
    (ht : t ∈ (e.analyze raw).closure) : e.IsFinalName t := by
  have he := consistent_of_ofRules h
  obtain ⟨-, rfl⟩ := ofRules_eq_ok.1 h
  rcases TagSet.mem_union.1 ht with ht | ht
  · refine (isLeast_analyze_effective he raw).2
      ⟨?_, saturated_isFinalName hrules hnames properties⟩ ht
    intro x hx
    rw [analyze_normalized, normalize, TagSet.mem_ofList, List.mem_filter, List.mem_map] at hx
    obtain ⟨⟨word, -, rfl⟩, hne⟩ := hx
    exact ⟨bne_iff_ne.1 hne, settled_renamesOf rules _⟩
  · obtain ⟨s, hs, hts⟩ := TagSet.mem_unions.1 ht
    rw [analyze_missingSets he] at hs
    obtain ⟨⟨r, hr, rfl⟩, -⟩ := mem_close_missing hs
    exact isFinalName_of_mem_sides hnames properties (List.mem_filter.1 hr).1 (.inr hts)

end

/-! ## The second analysis -/

/-- Final names that are read as they stand are analysed as they stand. -/
theorem normalize_toList {e : Engine} {tags : TagSet} (hfinal : ∀ t ∈ tags, e.IsFinalName t)
    (hread : ∀ t ∈ tags, normalizeTag t = t) : e.normalize tags.toList = tags := by
  have hrename {t : String} (ht : t ∈ tags) : e.rename t = t := by
    rw [rename, hread t ht, (hfinal t ht).2]
  ext t
  rw [normalize, TagSet.mem_ofList, List.mem_filter, List.mem_map, bne_iff_ne]
  constructor
  · rintro ⟨⟨x, hx, rfl⟩, -⟩
    rwa [hrename hx]
  · exact fun ht => ⟨⟨t, ht, hrename ht⟩, (hfinal t ht).1⟩

theorem mem_startOf_closure {e : Engine} {raw : List String} {t : String}
    (ht : t ∈ (e.analyze raw).closure) : t ∈ e.startOf (e.analyze raw).closure :=
  TagSet.mem_union.2 (.inl ht)

/-- What the first analysis fulfils or records lies in what the second one starts from. -/
theorem right_mem_startOf_closure {e : Engine} (he : e.Consistent) {raw : List String} {r : TagRule}
    (hr : r ∈ e.rulesOf .implication) (hleft : ∀ t ∈ r.left, t ∈ (e.analyze raw).effective) :
    ∀ t ∈ r.right, t ∈ e.startOf (e.analyze raw).closure := by
  intro t ht
  refine mem_startOf_closure (TagSet.mem_union.2 ?_)
  rw [analyze_effective he] at hleft ⊢
  rcases fulfilled_or_recorded _ _ hr hleft with hright | hright
  · exact .inl (hright t ht)
  · rw [← analyze_missingSets he] at hright
    exact .inr (TagSet.mem_unions.2 ⟨r.right, hright, ht⟩)

/-- Where no set is a choice, the second analysis starts from what the first one ended with. -/
theorem startOf_closure_of_singletons {e : Engine} (he : e.Consistent) {raw : List String}
    (hsingle : ∀ s ∈ (e.analyze raw).missingSets, ∃ t, s = .singleton t) :
    e.startOf (e.analyze raw).closure = (e.analyze raw).effective := by
  obtain ⟨⟨-, hsaturated⟩, -⟩ := isLeast_analyze_effective he raw
  have hmem {t : String} (ht : t ∈ (e.analyze raw).closure) : t ∈ (e.analyze raw).effective := by
    rcases TagSet.mem_union.1 ht with ht | ht
    · exact ht
    · obtain ⟨s, hs, hts⟩ := TagSet.mem_unions.1 ht
      obtain ⟨u, rfl⟩ := hsingle s hs
      rw [analyze_missingSets he] at hs
      rw [TagSet.mem_singleton.1 hts, analyze_effective he]
      exact (mem_close_missing hs).2 u rfl
  ext t
  refine ⟨fun ht => ?_, fun ht => mem_startOf_closure (TagSet.mem_union.2 (.inl ht))⟩
  rcases TagSet.mem_union.1 ht with ht | ht
  · exact hmem ht
  · obtain ⟨x, hx, hxt⟩ := TagSet.mem_flatMap.1 ht
    exact hsaturated.ancestors x (hmem hx) t hxt

/-- What an analysis leaves to find missing, when it is made again for all the tags that it calls
for. An implication whose left side is effective is fulfilled by them; so no set is missing exactly
when the implications are fulfilled that apply to these tags and to what is above them, and that ask
for a tag that is not effective: one of a choice, or one above such a tag. Without choices nothing
is missing, and the same tags are effective. -/
theorem closure_missingSets_eq_nil {text : String} {rules : List TagRule}
    {properties : List (String × String)} {e : Engine} (htext : TagRule.parseText text = .ok rules)
    (h : ofRules rules properties = .ok e) {raw : List String}
    (hread : ∀ t ∈ (e.analyze raw).closure, normalizeTag t = t) :
    ((e.analyze (e.analyze raw).closure.toList).missingSets = [] ↔
      ∀ r ∈ e.rulesOf .implication,
        (∀ t ∈ r.left, t ∈ e.startOf (e.analyze raw).closure) →
        (∃ t ∈ r.left, t ∉ (e.analyze raw).effective) →
        ∀ t ∈ r.right, t ∈ e.startOf (e.analyze raw).closure) ∧
    ((∀ s ∈ (e.analyze raw).missingSets, ∃ t, s = .singleton t) →
      (e.analyze (e.analyze raw).closure.toList).missingSets = [] ∧
        (e.analyze (e.analyze raw).closure.toList).effective = (e.analyze raw).effective) := by
  have he := consistent_of_ofRules h
  have hnames := TagRule.ne_empty_of_parseText htext
  have hagain : e.normalize (e.analyze raw).closure.toList = (e.analyze raw).closure :=
    normalize_toList (fun _ => isFinalName_of_mem_closure (ofRules_eq_ok.1 h).1 hnames h) hread
  rw [analyze_missingSets he, analyze_effective he (e.analyze raw).closure.toList, hagain]
  refine ⟨?_, fun hsingle => ?_⟩
  · rw [close_missing_eq_nil]
    refine ⟨fun hall r hr hleft _ => hall r hr hleft, fun hopen r hr hleft => ?_⟩
    by_cases heffective : ∀ t ∈ r.left, t ∈ (e.analyze raw).effective
    · exact right_mem_startOf_closure he hr heffective
    · exact hopen r hr hleft (by simpa using heffective)
  · have hstart := startOf_closure_of_singletons he hsingle
    rw [close_of_fulfilled fun r hr hleft =>
      right_mem_startOf_closure he hr fun t ht => hstart ▸ hleft t ht]
    exact ⟨rfl, hstart⟩

/-- A tag of a choice has a consequence, which the second analysis finds missing; and a name that
begins with a hash mark is another name when it is read again, with consequences of its own. -/
theorem closure_missingSets_ne_nil :
    (∃ rules e, TagRule.parseText "person -> man woman\nman -> human" = .ok rules ∧
      ofRules rules [] = .ok e ∧
      (e.analyze (e.analyze ["person"]).closure.toList).missingSets = [.singleton "human"]) ∧
    ∃ rules e, TagRule.parseText "##a -> b\na -> c" = .ok rules ∧ ofRules rules [] = .ok e ∧
      (e.analyze (e.analyze ["##a"]).closure.toList).missingSets = [.singleton "c"] := by
  refine ⟨⟨[⟨.singleton "person", .implication, .ofList ["man", "woman"]⟩,
    ⟨.singleton "man", .implication, .singleton "human"⟩], _, ?_, rfl, ?_⟩,
    ⟨[⟨.singleton "#a", .implication, .singleton "b"⟩,
    ⟨.singleton "a", .implication, .singleton "c"⟩], _, ?_, rfl, ?_⟩⟩ <;> decide +kernel

/-- The consequence of a tag of a choice is there already, and so nothing is missing. -/
theorem closure_missingSets_eq_nil_person :
    let rules : List TagRule :=
      [⟨.singleton "person", .implication, .ofList ["man", "woman"]⟩,
        ⟨.singleton "man", .implication, .singleton "person"⟩]
    let e := construct rules []
    TagRule.parseText "person -> man woman\nman -> person" = .ok rules ∧ ofRules rules [] = .ok e ∧
      (∀ t ∈ (e.analyze ["person"]).closure, normalizeTag t = t) ∧
      (e.analyze (e.analyze ["person"]).closure.toList).missingSets = [] := by
  intro rules e
  have htext : TagRule.parseText "person -> man woman\nman -> person" = .ok rules := by
    decide +kernel
  have hrules : ofRules rules [] = .ok e := rfl
  have hclosure : (e.analyze ["person"]).closure = .ofList ["man", "person", "woman"] := by
    decide +kernel
  have hread : ∀ t ∈ (e.analyze ["person"]).closure, normalizeTag t = t := by
    rw [hclosure]
    decide +kernel
  refine ⟨htext, hrules, hread, (closure_missingSets_eq_nil htext hrules hread).1.2 ?_⟩
  rw [hclosure]
  decide +kernel

end Engine
end TagQuery
