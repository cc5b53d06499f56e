import TagQuery.Engine

/-!
# Inference over tags

What follows from a collection of tags: the tags they imply or are special cases of, the sets of
tags that are missing, and the tags worth suggesting.

## Main definitions

- `Analysis`: what follows from some tags.
- `Engine.close`: applies implications until none is left to apply.
- `Engine.analyze`: the analysis of tags as written.
-/

namespace TagQuery

/-- What follows from some tags. -/
structure Analysis where
  /-- The final names of the tags. -/
  normalized : TagSet
  /-- These tags and all that they imply or are special cases of. -/
  effective : TagSet
  /-- The right sides of the implications that applied, in the order of discovery. -/
  missingSets : List TagSet
  suggested : TagSet
  deriving DecidableEq

namespace Analysis

instance : EmptyCollection Analysis := ⟨⟨∅, ∅, [], ∅⟩⟩

def missing (a : Analysis) : TagSet := TagSet.unions a.missingSets

end Analysis

namespace Engine

/-! ## Applying implications -/

/-- Whether the left side of a rule is held and its right side is not. -/
def applies (effective : TagSet) (r : TagRule) : Bool :=
  r.left.isSubset effective && !r.right.isSubset effective

/-- Adds a set to the missing ones, unless it is among them. -/
def record (missing : List TagSet) (tags : TagSet) : List TagSet :=
  if tags ∈ missing then missing else missing ++ [tags]

/-- Applies a rule with one tag on its right side, unless that tag is held by now. -/
def applySingle (e : Engine) (state : TagSet × List TagSet) (r : TagRule) :
    TagSet × List TagSet :=
  if r.right.isSubset state.1 then state
  else (state.1 ∪ (r.right ∪ r.right.flatMap e.ancestors), record state.2 r.right)

/-- The implications whose right side is not held. -/
def openRules (e : Engine) (effective : TagSet) : List TagRule :=
  (e.rulesOf .implication).filter fun r => !r.right.isSubset effective

theorem subset_applySingle (e : Engine) (state : TagSet × List TagSet) (r : TagRule) :
    ∀ x ∈ state.1, x ∈ (e.applySingle state r).1 := by
  intro x hx
  unfold applySingle
  split
  · exact hx
  · simp [hx]

theorem subset_foldl_applySingle (e : Engine) (rules : List TagRule)
    (state : TagSet × List TagSet) :
    ∀ x ∈ state.1, x ∈ (rules.foldl e.applySingle state).1 := by
  induction rules generalizing state with
  | nil => exact fun _ hx => hx
  | cons r rs ih => exact fun x hx => ih _ x (subset_applySingle e state r x hx)

theorem right_subset_applySingle (e : Engine) (state : TagSet × List TagSet) (r : TagRule) :
    ∀ x ∈ r.right, x ∈ (e.applySingle state r).1 := by
  intro x hx
  unfold applySingle
  split
  · next h => exact TagSet.isSubset_iff.1 h x hx
  · simp [hx]

/-- A stricter condition that fails somewhere leaves fewer members. -/
theorem length_filter_lt {p q : α → Bool} {l : List α} (hpq : ∀ x ∈ l, p x = true → q x = true)
    {a : α} (ha : a ∈ l) (hq : q a = true) (hp : p a = false) :
    (l.filter p).length < (l.filter q).length := by
  induction l with
  | nil => simp at ha
  | cons b l ih =>
    have hle : (l.filter p).length ≤ (l.filter q).length := by
      rw [← List.countP_eq_length_filter, ← List.countP_eq_length_filter]
      exact List.countP_mono_left fun x hx h => hpq x (List.mem_cons_of_mem _ hx) h
    rcases List.mem_cons.1 ha with rfl | hmem
    · simp [hp, hq]
      omega
    · have := ih (fun x hx => hpq x (List.mem_cons_of_mem _ hx)) hmem
      by_cases hb : p b = true
      · simp [hb, hpq b List.mem_cons_self hb, this]
      · by_cases hqb : q b = true
        · simp [hb, hqb]
          omega
        · simp [hb, hqb, this]

/-- A rule that applied is open no longer, and no other rule is opened. -/
theorem openRules_lt (e : Engine) {effective after : TagSet} {r : TagRule}
    (hr : r ∈ (e.rulesOf .implication).filter (applies effective))
    (hsub : ∀ x ∈ effective, x ∈ after) (hright : ∀ x ∈ r.right, x ∈ after) :
    (e.openRules after).length < (e.openRules effective).length := by
  have ⟨hmem, happ⟩ := List.mem_filter.1 hr
  simp only [applies, Bool.and_eq_true, Bool.not_eq_true'] at happ
  refine length_filter_lt ?_ hmem ?_ ?_
  · intro s _ hs
    simp only [Bool.not_eq_true', ← Bool.not_eq_true, TagSet.isSubset_iff] at hs ⊢
    exact fun h => hs fun x hx => hsub x (h x hx)
  · simp [happ.2]
  · simpa using TagSet.isSubset_iff.2 hright

/-- Applies implications in rounds. Each round applies those with one tag on the right side; when
there is none left, the larger right sides are recorded, which name a choice and lead to nothing
more. -/
def close (e : Engine) (effective : TagSet) (missing : List TagSet) : TagSet × List TagSet :=
  let candidates := (e.rulesOf .implication).filter (applies effective)
  match _h : candidates.filter (·.right.size == 1) with
  | [] => (effective, (candidates.map (·.right)).foldl record missing)
  | r :: rs =>
    let next := (r :: rs).foldl e.applySingle (effective, missing)
    e.close next.1 next.2
termination_by (e.openRules effective).length
decreasing_by
  have hr : r ∈ candidates.filter (·.right.size == 1) := by simp [_h]
  refine openRules_lt e (List.mem_filter.1 hr).1 ?_ ?_
  · exact subset_foldl_applySingle e (r :: rs) (effective, missing)
  · intro x hx
    exact subset_foldl_applySingle e rs _ x (right_subset_applySingle e _ r x hx)

/-! ## Analysis -/

def suggestions (e : Engine) (effective : TagSet) : TagSet :=
  TagSet.unions (((e.rulesOf .suggestion).filter (applies effective)).map (·.right))

def analyzeNormalized (e : Engine) (normalized : TagSet) : Analysis :=
  let start := normalized ∪ normalized.flatMap e.ancestors
  let closed := e.close start []
  let effective := closed.1
  let missing := TagSet.unions closed.2
  let special := (effective ∪ missing).flatMap e.descendants
  { normalized
    effective
    missingSets := closed.2
    suggested := (e.suggestions effective ∪ missing ∪ special).diff effective }

/-- The analysis of tags as written; words that are only a hash mark name no tag. -/
def analyze (e : Engine) (raw : List String) : Analysis :=
  let normalized := TagSet.ofList ((raw.map e.rename).filter (· != ""))
  if normalized.isEmpty then ∅ else e.analyzeNormalized normalized

end Engine
end TagQuery
