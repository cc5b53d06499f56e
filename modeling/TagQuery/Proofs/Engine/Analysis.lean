import Mathlib.Order.Bounds.Basic
import TagQuery.Analysis
import TagQuery.Proofs.Engine.Hierarchy
import TagQuery.Proofs.Engine.Rules

/-!
# Inference reaches the least closed set

The effective tags are the least set that holds the given tags, all that is above a tag of the set,
and the right tag of every implication with one tag on its right side whose left side lies in the
set. Rounds only add what every such set holds, and the last round leaves nothing to add.

## Main definitions

- `Engine.Saturated`: a set of tags from which nothing more follows.
- `Engine.Consistent`: what every engine built from rules satisfies.
- `Engine.round`: one round of implications.

## Main statements

- `Engine.close_subset`: every saturated set that holds the given tags holds the result.
- `Engine.saturated_close`: nothing more follows from the result.
- `Engine.effective_isLeast`: the effective tags are the least saturated set above the given tags.
-/

namespace TagQuery.Engine

/-! ## Closed sets -/

/-- All that is above a tag of the set is in the set. -/
def AncestorClosed (e : Engine) (tags : Set String) : Prop :=
  ∀ x ∈ tags, ∀ y ∈ e.ancestors x, y ∈ tags

/-- A set of tags from which nothing more follows. -/
structure Saturated (e : Engine) (tags : Set String) : Prop where
  ancestors : e.AncestorClosed tags
  implied : ∀ r ∈ e.rulesOf .implication, ∀ t, r.right.single? = some t →
    (∀ x ∈ r.left, x ∈ tags) → t ∈ tags

/-- The hierarchy holds all paths along some relation, and both sides of every rule name tags. -/
structure Consistent (e : Engine) : Prop where
  closes : ∃ r, e.hierarchy.Closes r
  sides : ∀ r ∈ e.rules, r.HasSides

theorem consistent_of_ofRules {rules : List TagRule} {properties : List (String × String)}
    {e : Engine} (h : ofRules rules properties = .ok e) : e.Consistent := by
  obtain ⟨hrules, rfl⟩ := ofRules_eq_ok.1 h
  exact ⟨⟨_, Hierarchy.closes_foldl_insert Hierarchy.closes_empty _⟩,
    fun r hr => hasSides_of_mem_simplify hrules hr⟩

/-- Engines that differ in the order of their rules only. -/
theorem Consistent.perm {e : Engine} (he : e.Consistent) {rules : List TagRule}
    (hrules : rules.Perm e.rules) : Consistent { e with rules } :=
  ⟨he.closes, fun r hr => he.sides r (hrules.mem_iff.1 hr)⟩

theorem saturated_perm {e : Engine} {rules : List TagRule} (hrules : rules.Perm e.rules)
    {tags : Set String} : Saturated { e with rules } tags ↔ e.Saturated tags := by
  have hmem (r : TagRule) :
      r ∈ rulesOf { e with rules } .implication ↔ r ∈ e.rulesOf .implication := by
    simp only [rulesOf, List.mem_filter, hrules.mem_iff]
  constructor
  · exact fun h => ⟨h.ancestors, fun r hr => h.implied r ((hmem r).2 hr)⟩
  · exact fun h => ⟨h.ancestors, fun r hr => h.implied r ((hmem r).1 hr)⟩

/-- Tags together with all that is above them. -/
theorem ancestorClosed_union {e : Engine} (he : e.Consistent) (tags : TagSet) :
    e.AncestorClosed {t | t ∈ tags ∪ tags.flatMap e.ancestors} := by
  intro x hx y hy
  obtain ⟨r, hr⟩ := he.closes
  simp only [Set.mem_ofPred_eq, TagSet.mem_union, TagSet.mem_flatMap] at hx ⊢
  rcases hx with hx | ⟨z, hz, hxz⟩
  · exact .inr ⟨x, hx, hy⟩
  · rcases hr.ancestors_trans hxz hy with rfl | hyz
    · exact .inl hz
    · exact .inr ⟨z, hz, hyz⟩

theorem ancestorClosed_union_right {e : Engine} {s t : TagSet}
    (hs : e.AncestorClosed {x | x ∈ s}) (ht : e.AncestorClosed {x | x ∈ t}) :
    e.AncestorClosed {x | x ∈ s ∪ t} := by
  intro x hx y hy
  rcases TagSet.mem_union.1 hx with hx | hx
  · exact TagSet.mem_union.2 (.inl (hs x hx y hy))
  · exact TagSet.mem_union.2 (.inr (ht x hx y hy))

/-! ## Applying implications -/

/-- The implications with one tag on the right side that apply. -/
def singles (e : Engine) (effective : TagSet) : List TagRule :=
  ((e.rulesOf .implication).filter (applies effective)).filter (·.right.size == 1)

theorem mem_singles {e : Engine} {effective : TagSet} {r : TagRule} :
    r ∈ e.singles effective ↔ r ∈ e.rulesOf .implication ∧ (∀ x ∈ r.left, x ∈ effective) ∧
      ∃ t, r.right = .singleton t ∧ t ∉ effective := by
  simp only [singles, List.mem_filter, applies, Bool.and_eq_true, Bool.not_eq_true',
    ← Bool.not_eq_true, TagSet.isSubset_iff, TagSet.size_beq_one]
  constructor
  · rintro ⟨⟨hr, hleft, hright⟩, t, ht⟩
    exact ⟨hr, hleft, t, ht, by simpa [ht] using hright⟩
  · rintro ⟨hr, hleft, t, ht, hnot⟩
    exact ⟨⟨hr, hleft, by simpa [ht] using hnot⟩, t, ht⟩

/-- What a saturated set holds it also holds after a rule with one tag on the right side. -/
theorem applySingle_subset {e : Engine} {tags : Set String} (htags : e.Saturated tags)
    {state : TagSet × List TagSet} (hstate : ∀ x ∈ state.1, x ∈ tags) {r : TagRule}
    (hr : ∀ x ∈ r.right, x ∈ tags) : ∀ x ∈ (e.applySingle state r).1, x ∈ tags := by
  intro x hx
  unfold applySingle at hx
  split at hx
  · exact hstate x hx
  · simp only [TagSet.mem_union, TagSet.mem_flatMap] at hx
    rcases hx with hx | hx | ⟨t, ht, hxt⟩
    · exact hstate x hx
    · exact hr x hx
    · exact htags.ancestors t (hr t ht) x hxt

theorem foldl_applySingle_subset {e : Engine} {tags : Set String} (htags : e.Saturated tags)
    {rules : List TagRule} (hrules : ∀ r ∈ rules, ∀ x ∈ r.right, x ∈ tags)
    {state : TagSet × List TagSet} (hstate : ∀ x ∈ state.1, x ∈ tags) :
    ∀ x ∈ (rules.foldl e.applySingle state).1, x ∈ tags := by
  induction rules generalizing state with
  | nil => exact hstate
  | cons r rules ih =>
    obtain ⟨hr, hrest⟩ := List.forall_mem_cons.1 hrules
    exact ih hrest (applySingle_subset htags hstate hr)

/-- A round over a part of a saturated set stays within it. -/
theorem foldl_singles_subset {e : Engine} {tags : Set String} (htags : e.Saturated tags)
    {state : TagSet × List TagSet} (hstate : ∀ x ∈ state.1, x ∈ tags) :
    ∀ x ∈ ((e.singles state.1).foldl e.applySingle state).1, x ∈ tags := by
  refine foldl_applySingle_subset htags ?_ hstate
  intro r hr x hx
  obtain ⟨hmem, hleft, t, ht, -⟩ := mem_singles.1 hr
  rw [ht, TagSet.mem_singleton] at hx
  rw [hx]
  exact htags.implied r hmem t (TagSet.single?_eq_some.2 ht) fun y hy => hstate y (hleft y hy)

theorem ancestorClosed_applySingle {e : Engine} (he : e.Consistent)
    {state : TagSet × List TagSet} (hstate : e.AncestorClosed {x | x ∈ state.1}) (r : TagRule) :
    e.AncestorClosed {x | x ∈ (e.applySingle state r).1} := by
  unfold applySingle
  split
  · exact hstate
  · exact ancestorClosed_union_right hstate (ancestorClosed_union he r.right)

theorem ancestorClosed_foldl_applySingle {e : Engine} (he : e.Consistent) (rules : List TagRule)
    {state : TagSet × List TagSet} (hstate : e.AncestorClosed {x | x ∈ state.1}) :
    e.AncestorClosed {x | x ∈ (rules.foldl e.applySingle state).1} := by
  induction rules generalizing state with
  | nil => exact hstate
  | cons r rules ih => exact ih (ancestorClosed_applySingle he hstate r)

/-! ## Rounds -/

def round (e : Engine) (state : TagSet × List TagSet) : TagSet × List TagSet :=
  (e.singles state.1).foldl e.applySingle state

/-- The missing sets after the last round, in which only choices are left to record. -/
def recorded (e : Engine) (state : TagSet × List TagSet) : List TagSet :=
  (((e.rulesOf .implication).filter (applies state.1)).map (·.right)).foldl record state.2

/-- The tags are final when no rule with one tag on the right side is left. -/
theorem close_of_singles_eq_nil {e : Engine} {effective : TagSet}
    (h : e.singles effective = []) (missing : List TagSet) :
    e.close effective missing = (effective, e.recorded (effective, missing)) := by
  rw [close]
  split
  · rfl
  · next r rs hcons =>
    have heq : r :: rs = [] := hcons.symm.trans h
    contradiction

/-- As long as such a rule is left, there is one more round, after which fewer rules are open. -/
theorem close_of_singles_ne_nil {e : Engine} {effective : TagSet}
    (h : e.singles effective ≠ []) (missing : List TagSet) :
    e.close effective missing =
        e.close (e.round (effective, missing)).1 (e.round (effective, missing)).2 ∧
      (e.openRules (e.round (effective, missing)).1).length < (e.openRules effective).length := by
  obtain ⟨r, rs, hcons⟩ := List.exists_cons_of_ne_nil h
  have hround :
      e.round (effective, missing) = (r :: rs).foldl e.applySingle (effective, missing) := by
    rw [← hcons]
    rfl
  have hr : r ∈ (e.rulesOf .implication).filter (applies effective) :=
    (List.mem_filter.1 (hcons ▸ List.mem_cons_self : r ∈ e.singles effective)).1
  rw [hround]
  constructor
  · conv => lhs; rw [close]
    split
    · next hnil => exact absurd hnil h
    · next r' rs' hcons' =>
      have heq : r' :: rs' = r :: rs := hcons'.symm.trans hcons
      rw [heq]
  · refine openRules_lt e hr (subset_foldl_applySingle e (r :: rs) (effective, missing)) ?_
    intro x hx
    exact subset_foldl_applySingle e rs _ x (right_subset_applySingle e _ r x hx)

/-- An invariant of rounds that holds at the start holds at the end, where no rule with one tag on
the right side is left; there are at most as many rounds as rules that were open. -/
theorem close_invariant {e : Engine} (inv : TagSet → Prop)
    (hround : ∀ state, inv state.1 → inv (e.round state).1) {effective : TagSet}
    (hinv : inv effective) (missing : List TagSet) :
    inv (e.close effective missing).1 ∧ e.singles (e.close effective missing).1 = [] ∧
      ∃ n ≤ (e.openRules effective).length,
        (e.round^[n] (effective, missing)).1 = (e.close effective missing).1 := by
  by_cases hnil : e.singles effective = []
  · rw [close_of_singles_eq_nil hnil]
    exact ⟨hinv, hnil, 0, Nat.zero_le _, rfl⟩
  · obtain ⟨hclose, hlt⟩ := close_of_singles_ne_nil hnil missing
    obtain ⟨hfinal, hdone, n, hn, hiterate⟩ :=
      close_invariant inv hround (hround (effective, missing) hinv) (e.round (effective, missing)).2
    rw [hclose]
    exact ⟨hfinal, hdone, n + 1, by omega, by rw [Function.iterate_succ_apply]; exact hiterate⟩
termination_by (e.openRules effective).length

/-- The result lies in every saturated set that the start lies in. -/
theorem close_subset {e : Engine} {tags : Set String} (htags : e.Saturated tags)
    {effective : TagSet} (h : ∀ x ∈ effective, x ∈ tags) (missing : List TagSet) :
    ∀ x ∈ (e.close effective missing).1, x ∈ tags := by
  have hround (state : TagSet × List TagSet) (hstate : ∀ x ∈ state.1, x ∈ tags) :
      ∀ x ∈ (e.round state).1, x ∈ tags := foldl_singles_subset htags hstate
  exact (close_invariant (fun s => ∀ x ∈ s, x ∈ tags) hround h missing).1

theorem subset_close (e : Engine) (effective : TagSet) (missing : List TagSet) :
    ∀ x ∈ effective, x ∈ (e.close effective missing).1 := by
  have hround (state : TagSet × List TagSet) (hstate : ∀ x ∈ effective, x ∈ state.1) :
      ∀ x ∈ effective, x ∈ (e.round state).1 :=
    fun x hx => subset_foldl_applySingle e _ state x (hstate x hx)
  exact (close_invariant (fun s => ∀ x ∈ effective, x ∈ s) hround (fun _ => id) missing).1

/-- Nothing more follows from the result. -/
theorem saturated_close {e : Engine} (he : e.Consistent) {effective : TagSet}
    (h : e.AncestorClosed {x | x ∈ effective}) (missing : List TagSet) :
    e.Saturated {x | x ∈ (e.close effective missing).1} := by
  have hround (state : TagSet × List TagSet) (hstate : e.AncestorClosed {x | x ∈ state.1}) :
      e.AncestorClosed {x | x ∈ (e.round state).1} :=
    ancestorClosed_foldl_applySingle he _ hstate
  obtain ⟨hclosed, hdone, -⟩ :=
    close_invariant (fun s => e.AncestorClosed {x | x ∈ s}) hround h missing
  refine ⟨hclosed, fun r hr t ht hleft => ?_⟩
  by_contra hnot
  have hmem : r ∈ e.singles (e.close effective missing).1 :=
    mem_singles.2 ⟨hr, hleft, t, TagSet.single?_eq_some.1 ht, hnot⟩
  rw [hdone] at hmem
  contradiction

/-! ## Analysis -/

def startOf (e : Engine) (normalized : TagSet) : TagSet :=
  normalized ∪ normalized.flatMap e.ancestors

theorem mem_startOf {e : Engine} {tags : TagSet} {t : String} :
    t ∈ e.startOf tags ↔ ∃ x ∈ tags, t = x ∨ t ∈ e.ancestors x := by
  rw [startOf, TagSet.mem_union, TagSet.mem_flatMap]
  grind

/-- The final names of tags as written. -/
def normalize (e : Engine) (raw : List String) : TagSet :=
  TagSet.ofList ((raw.map e.rename).filter (· != ""))

@[simp] theorem analyze_normalized (e : Engine) (raw : List String) :
    (e.analyze raw).normalized = e.normalize raw := by
  unfold analyze
  dsimp only
  split
  · next h =>
    ext t
    have hnone : ¬∃ t, t ∈ e.normalize raw := by
      rw [← TagSet.isEmpty_eq_false, Bool.not_eq_false]
      exact h
    exact ⟨fun ht => absurd ht (TagSet.not_mem_empty t), fun ht => absurd ⟨t, ht⟩ hnone⟩
  · rfl

/-- From no tags nothing follows, since every rule asks for a tag. -/
theorem singles_of_isEmpty {e : Engine} (he : e.Consistent) {tags : TagSet}
    (h : tags.isEmpty = true) : e.singles tags = [] := by
  rw [List.eq_nil_iff_forall_not_mem]
  intro r hr
  obtain ⟨hmem, hleft, -⟩ := mem_singles.1 hr
  obtain ⟨x, hx⟩ := (he.sides r (List.mem_filter.1 hmem).1).left
  rw [TagSet.isEmpty_eq_false.2 ⟨x, hleft x hx⟩] at h
  contradiction

theorem startOf_of_isEmpty {e : Engine} {tags : TagSet} (h : tags.isEmpty = true) :
    e.startOf tags = ∅ := by
  have hnone (t : String) : t ∉ tags := by
    intro ht
    rw [TagSet.isEmpty_eq_false.2 ⟨t, ht⟩] at h
    contradiction
  ext t
  simp [startOf, hnone]

/-- The effective tags come from applying implications, also where there are no tags. -/
theorem analyze_effective {e : Engine} (he : e.Consistent) (raw : List String) :
    (e.analyze raw).effective = (e.close (e.startOf (e.normalize raw)) []).1 := by
  unfold analyze
  by_cases hempty : (e.normalize raw).isEmpty = true
  · have hsingles : e.singles ∅ = [] := singles_of_isEmpty he rfl
    rw [startOf_of_isEmpty hempty, close_of_singles_eq_nil hsingles]
    exact congrArg Analysis.effective (if_pos hempty)
  · exact congrArg Analysis.effective (if_neg hempty)

theorem isLeast_analyze_effective {e : Engine} (he : e.Consistent) (raw : List String) :
    IsLeast {tags | (∀ t ∈ (e.analyze raw).normalized, t ∈ tags) ∧ e.Saturated tags}
      {t | t ∈ (e.analyze raw).effective} := by
  rw [analyze_effective he, analyze_normalized]
  constructor
  · refine ⟨fun t ht => ?_, saturated_close he (ancestorClosed_union he _) []⟩
    exact subset_close e _ [] t (TagSet.mem_union.2 (.inl ht))
  · rintro tags ⟨hnormalized, htags⟩
    refine close_subset htags ?_ []
    intro x hx
    rcases TagSet.mem_union.1 hx with hx | hx
    · exact hnormalized x hx
    · obtain ⟨t, ht, hxt⟩ := TagSet.mem_flatMap.1 hx
      exact htags.ancestors t (hnormalized t ht) x hxt

/-- For an engine built from rules, the effective tags are the least set that holds the final names
of the given tags and from which nothing more follows. The rounds end, after at most as many as
there are implications. The order of the rules does not matter, and more tags have no fewer
consequences. -/
theorem effective_isLeast {rules : List TagRule} {properties : List (String × String)} {e : Engine}
    (h : ofRules rules properties = .ok e) (raw : List String) :
    (e.analyze raw).normalized = e.normalize raw ∧
      IsLeast {tags | (∀ t ∈ (e.analyze raw).normalized, t ∈ tags) ∧ e.Saturated tags}
        {t | t ∈ (e.analyze raw).effective} ∧
      (∃ n ≤ (e.rulesOf .implication).length,
        let last := (e.round^[n] (e.startOf (e.analyze raw).normalized, [])).1
        e.singles last = [] ∧ last = (e.analyze raw).effective) ∧
      (∀ rules' : List TagRule, rules'.Perm e.rules →
        (analyze { e with rules := rules' } raw).effective = (e.analyze raw).effective) ∧
      ∀ raw' : List String, (∀ t ∈ raw, t ∈ raw') →
        ∀ t ∈ (e.analyze raw).effective, t ∈ (e.analyze raw').effective := by
  have he := consistent_of_ofRules h
  have hleast := isLeast_analyze_effective he raw
  refine ⟨analyze_normalized e raw, hleast, ?_, ?_, ?_⟩
  · have htrivial (state : TagSet × List TagSet) (_ : True) : True := trivial
    obtain ⟨-, hdone, n, hn, hlast⟩ :=
      @close_invariant e (fun _ => True) htrivial (e.startOf (e.normalize raw)) trivial []
    rw [analyze_normalized, analyze_effective he]
    exact ⟨n, hn.trans (List.length_filter_le _ _), hlast ▸ hdone, hlast⟩
  · intro rules' hperm
    have hleast' := isLeast_analyze_effective (he.perm hperm) raw
    simp only [analyze_normalized, saturated_perm hperm] at hleast hleast'
    have hsets := hleast'.unique hleast
    ext t
    exact Set.ext_iff.1 hsets t
  · intro raw' hsub
    obtain ⟨⟨hnormalized, hsaturated⟩, -⟩ := isLeast_analyze_effective he raw'
    refine hleast.2 ⟨fun t ht => hnormalized t ?_, hsaturated⟩
    simp only [analyze_normalized, normalize, TagSet.mem_ofList, List.mem_filter, List.mem_map]
      at ht ⊢
    obtain ⟨⟨x, hx, rfl⟩, hne⟩ := ht
    exact ⟨⟨x, hsub x hx, rfl⟩, hne⟩

/-- An implication whose right side is a special case of a more general tag. -/
theorem effective_isLeast_kitten :
    let rules : List TagRule :=
      [⟨.singleton "kitten", .implication, .singleton "cat"⟩,
        ⟨.singleton "cat", .specialization, .singleton "animal"⟩]
    let e := construct rules []
    let a := e.analyze ["#kitten", "#"]
    ofRules rules [] = .ok e ∧ a.normalized = .singleton "kitten" ∧
      IsLeast {tags | (∀ t ∈ a.normalized, t ∈ tags) ∧ e.Saturated tags} {t | t ∈ a.effective} ∧
      a.effective = .ofList ["kitten", "cat", "animal"] := by
  intro rules e a
  have hrules : ofRules rules [] = .ok e := rfl
  obtain ⟨hnormalized, hleast, -⟩ := effective_isLeast hrules ["#kitten", "#"]
  have hkitten : e.normalize ["#kitten", "#"] = .singleton "kitten" := by decide +kernel
  exact ⟨hrules, hnormalized.trans hkitten, hleast, by decide +kernel⟩

end TagQuery.Engine
