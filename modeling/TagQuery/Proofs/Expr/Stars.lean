import TagQuery.Proofs.Optimizer.Soundness

/-!
# Leaves without stars

A relation between stars stands for relations between ratings and the bounds of a table. So a tree
in which stars are resolved has the leaves that it had, but for relations between ratings in place
of those between stars.

## Main definitions

- `StarTable.bounds`: the bounds of the buckets of a table.
- `StarTable.HasFiniteBounds`: all bounds of a table are finite.
- `Expr.OnlyBounds`: all leaves of a tree are relations of ratings to bounds of a table.
- `Expr.OnlyRatings`: all leaves of a tree are relations between ratings.

## Main statements

- `StarTable.hasFiniteBounds_ofRatings`: the deciles of ratings are finite.
- `Expr.onlyBounds_resolve`: a relation between stars is made of relations to bounds of the table.
- `Expr.forall_leaves_resolveStars`: what the leaves of a tree have in common stays so without
  stars.
-/

namespace TagQuery

/-! ## Bounds -/

namespace StarTable

def bounds (t : StarTable) : List Real64 :=
  t.buckets.flatMap fun b => b.low.toList ++ b.high.toList

/-- All bounds of a table are finite. A table without buckets has no bounds. -/
def HasFiniteBounds (t : StarTable) : Prop :=
  ∀ x ∈ t.bounds, x.isFinite = true

theorem mem_bounds_of_bucket? {t : StarTable} {star : UInt8} {b : StarBucket}
    (h : t.bucket? star = some b) {x : Real64} (hx : b.low = some x ∨ b.high = some x) :
    x ∈ t.bounds := by
  have hb : b ∈ t.buckets := by
    unfold bucket? at h
    split at h
    · contradiction
    · exact List.mem_of_getElem? h
  refine List.mem_flatMap.2 ⟨b, hb, List.mem_append.2 ?_⟩
  simpa using hx

theorem exists_decile_of_decileBucket {ratings : List Real64} {star : UInt8} {x : Real64}
    (hx : (decileBucket ratings star).low = some x ∨ (decileBucket ratings star).high = some x) :
    ∃ k, decile ratings k = some x := by
  unfold decileBucket at hx
  split at hx
  · next first last _ _ =>
    rcases hx with hlow | hhigh
    · exact ⟨first, (Option.ite_none_right_eq_some.1 hlow).2⟩
    · exact ⟨last + 1, (Option.ite_none_right_eq_some.1 hhigh).2⟩
  · rcases hx with hlow | hhigh <;> contradiction

/-- The deciles of ratings are finite, because only finite ratings count. -/
theorem hasFiniteBounds_ofRatings (ratings : List Real64) :
    (ofRatings ratings).HasFiniteBounds := by
  intro x h
  unfold ofRatings at h
  dsimp only at h
  split at h
  · contradiction
  · obtain ⟨b, hb, hx⟩ := List.mem_flatMap.1 h
    have hx : b.low = some x ∨ b.high = some x := by simpa using hx
    obtain ⟨i, -, rfl⟩ := List.mem_map.1 hb
    obtain ⟨k, hk⟩ := exists_decile_of_decileBucket hx
    have hmem := List.mem_mergeSort.1 (List.mem_of_getElem? hk)
    exact (List.mem_filter.1 hmem).2

end StarTable

namespace Expr

/-! ## Relations between ratings -/

def OnlyBounds (t : StarTable) (e : Expr) : Prop :=
  ∀ l ∈ e.leaves, ∃ op, ∃ x ∈ t.bounds, l = .rating ⟨op, x⟩

def OnlyRatings (e : Expr) : Prop :=
  ∀ x ∈ e.leaves, ∃ bound, x = .rating bound

section
variable (t : StarTable)

theorem onlyBounds_always : OnlyBounds t .always := fun _ h => absurd h List.not_mem_nil

theorem onlyBounds_never : OnlyBounds t .never := fun _ h => absurd h List.not_mem_nil

theorem onlyBounds_unmatched : OnlyBounds t t.unmatched := by
  unfold StarTable.unmatched
  split
  · exact onlyBounds_always t
  · exact onlyBounds_never t

variable {t} in
theorem onlyBounds_rating (op : CompareOp) {x : Real64} (hx : x ∈ t.bounds) :
    OnlyBounds t (.rating ⟨op, x⟩) :=
  fun _ h => ⟨op, x, hx, List.mem_singleton.1 h⟩

theorem onlyBounds_atLeast (star : UInt8) : OnlyBounds t (t.atLeast star) := by
  unfold StarTable.atLeast
  split
  · next hbucket => exact onlyBounds_rating _ (StarTable.mem_bounds_of_bucket? hbucket (.inl rfl))
  · exact onlyBounds_always t
  · exact onlyBounds_unmatched t

theorem onlyBounds_atMost (star : UInt8) : OnlyBounds t (t.atMost star) := by
  unfold StarTable.atMost
  split
  · exact onlyBounds_unmatched t
  · split
    · next hhigh =>
      obtain ⟨b, hbucket, hhigh⟩ := Option.bind_eq_some_iff.1 hhigh
      exact onlyBounds_rating _ (StarTable.mem_bounds_of_bucket? hbucket (.inr hhigh))
    · exact onlyBounds_always t

/-- A relation between stars is made of relations to bounds of the table. -/
theorem onlyBounds_resolve (c : Comparison UInt8) : OnlyBounds t (t.resolve c) := by
  unfold StarTable.resolve
  split
  · split
    · exact onlyBounds_unmatched t
    · exact onlyBounds_atMost t _
  · split
    · exact onlyBounds_atLeast t _
    · exact onlyBounds_unmatched t
  · split
    · exact onlyBounds_unmatched t
    · refine forall_leaves_conjunction.2 fun e he => ?_
      rcases List.mem_cons.1 (List.mem_filter.1 he).1 with rfl | he
      · exact onlyBounds_atLeast t _
      · obtain rfl := List.mem_singleton.1 he
        exact onlyBounds_atMost t _
  · exact onlyBounds_atLeast t _
  · exact onlyBounds_atMost t _

theorem onlyRatings_resolve (c : Comparison UInt8) : OnlyRatings (t.resolve c) := by
  intro l hl
  obtain ⟨op, x, -, rfl⟩ := onlyBounds_resolve t c l hl
  exact ⟨⟨op, x⟩, rfl⟩

/-! ## Trees without stars -/

/-- What holds of the leaves of a tree and of all ratings holds of its leaves without stars. -/
theorem forall_leaves_resolveStars {p : Expr → Prop} (hrating : ∀ bound, p (.rating bound))
    {e : Expr} (h : ∀ x ∈ e.leaves, p x) : ∀ x ∈ (e.resolveStars t).leaves, p x := by
  induction e using treeInduction with
  | leaf e he =>
    cases e with
    | conjunction _ | disjunction _ | negation _ => contradiction
    | stars c =>
      intro x hx
      obtain ⟨bound, rfl⟩ := onlyRatings_resolve t c x hx
      exact hrating bound
    | _ => exact h
  | conjunction parts ih =>
    rw [forall_leaves_conjunction] at h
    rw [resolveStars_conjunction, forall_leaves_conjunction, List.forall_mem_map]
    exact fun e he => ih e he (h e he)
  | disjunction parts ih =>
    rw [forall_leaves_disjunction] at h
    rw [resolveStars_disjunction, forall_leaves_disjunction, List.forall_mem_map]
    exact fun e he => ih e he (h e he)
  | negation e ih => exact ih h

/-- A tree without relations between stars is left as it is. -/
theorem resolveStars_of_forall_ne {e : Expr} (h : ∀ l ∈ e.leaves, ∀ c, l ≠ .stars c) :
    e.resolveStars t = e := by
  have hgroup {parts : List Expr}
      (ih : ∀ e ∈ parts, (∀ l ∈ e.leaves, ∀ c, l ≠ .stars c) → e.resolveStars t = e)
      (h : ∀ e ∈ parts, ∀ l ∈ e.leaves, ∀ c, l ≠ .stars c) : parts.map (resolveStars t) = parts :=
    (List.map_congr_left fun e he => ih e he (h e he)).trans (List.map_id' parts)
  induction e using treeInduction with
  | leaf e he =>
    cases e with
    | conjunction _ | disjunction _ | negation _ => contradiction
    | stars c => exact absurd rfl (h (.stars c) (List.mem_singleton_self _) c)
    | _ => rfl
  | conjunction parts ih =>
    rw [resolveStars_conjunction, hgroup ih (forall_leaves_conjunction.1 h)]
  | disjunction parts ih =>
    rw [resolveStars_disjunction, hgroup ih (forall_leaves_disjunction.1 h)]
  | negation e ih => rw [resolveStars_negation, ih h]

/-- What a relation between stars is resolved to is resolved. -/
theorem resolveStars_resolve (t' : StarTable) (c : Comparison UInt8) :
    (t.resolve c).resolveStars t' = t.resolve c := by
  refine resolveStars_of_forall_ne t' fun l hl _ hstars => ?_
  obtain ⟨bound, rfl⟩ := onlyRatings_resolve t c l hl
  contradiction

end

end Expr
end TagQuery
