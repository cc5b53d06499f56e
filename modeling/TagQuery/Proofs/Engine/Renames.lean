import TagQuery.Proofs.Table
import TagQuery.Engine

/-!
# Final names

Every name leads to a final name in one step, however the renames came in. A rename changes the
final name of the names that led to its source, and of no other name.

## Main definitions

- `Renames.Settled`: final names lead nowhere else.
- `Renames.Flat`: a name that others lead to leads nowhere itself.

## Main statements

- `Renames.resolve_insert`: the effect of one more rename on every name.
- `Renames.settled_foldl_insert`: final names lead nowhere else, after any renames.
- `Renames.foldl_insert_resolves`: final names and other names, after any renames and one more.
- `Engine.mem_withAliases`: the names of a set of final names are those that lead into it.
-/

namespace TagQuery

namespace Renames

/-! ## One more rename -/

/-- Final names lead nowhere else. -/
def Settled (m : Renames) : Prop :=
  ∀ x, m.resolve (m.resolve x) = m.resolve x

theorem resolve_of_get?_eq_none {m : Renames} {x : String} (h : m.target.get? x = none) :
    m.resolve x = x := by
  rw [resolve, h, Option.getD_none]

theorem resolve_of_get?_eq_some {m : Renames} {x final : String}
    (h : m.target.get? x = some final) : m.resolve x = final := by
  rw [resolve, h, Option.getD_some]

theorem settled_empty : Settled ∅ := fun _ => rfl

/-- A rename that is recorded leads its source, and all names that led there, to the final name of
its goal. -/
theorem get?_target_insert {m : Renames} {source goal : String} (h : m.resolve goal ≠ source)
    (x : String) :
    (m.insert source goal).target.get? x =
      if x = source ∨ m.target.get? x = some source then some (m.resolve goal)
      else m.target.get? x := by
  rw [insert, if_neg h]
  simp only [get?_leadAll, TagSet.mem_toList, mem_followers]

/-- A rename leads its source, and all names that led there, to the final name of its goal, also
where it is left out because that name is its source. -/
theorem resolve_insert {m : Renames} (hm : m.Settled) (source goal x : String) :
    (m.insert source goal).resolve x =
      if x = source ∨ m.resolve x = source then m.resolve goal else m.resolve x := by
  by_cases hdropped : m.resolve goal = source
  · have hsource : m.resolve source = source := hdropped ▸ hm goal
    rw [insert, if_pos hdropped]
    split
    · next h =>
      rcases h with rfl | h
      · rw [hsource, hdropped]
      · rw [h, hdropped]
    · rfl
  · conv => lhs; rw [resolve, get?_target_insert hdropped]
    cases hget : m.target.get? x with
    | none =>
      rw [resolve_of_get?_eq_none hget]
      grind
    | some final =>
      rw [resolve_of_get?_eq_some hget]
      grind

theorem Settled.insert {m : Renames} (hm : m.Settled) (source goal : String) :
    (m.insert source goal).Settled := by
  intro x
  have hgoal := hm goal
  have hx := hm x
  simp only [resolve_insert hm]
  grind

/-- Final names lead nowhere else, after any renames. -/
theorem settled_foldl_insert {m : Renames} (hm : m.Settled) (pairs : List (String × String)) :
    (pairs.foldl (fun m p => m.insert p.1 p.2) m).Settled := by
  induction pairs generalizing m with
  | nil => exact hm
  | cons p pairs ih => exact ih (hm.insert p.1 p.2)

/-- What holds of all goals holds of every final name other than the name itself. -/
theorem resolve_foldl_insert {p : String → Prop} {pairs : List (String × String)}
    (hpairs : ∀ q ∈ pairs, p q.2) {m : Renames} (hm : m.Settled) (h : ∀ x, p x → p (m.resolve x))
    {x : String} (hx : p x) : p ((pairs.foldl (fun m p => m.insert p.1 p.2) m).resolve x) := by
  induction pairs generalizing m with
  | nil => exact h x hx
  | cons q pairs ih =>
    obtain ⟨hq, hrest⟩ := List.forall_mem_cons.1 hpairs
    refine ih hrest (hm.insert q.1 q.2) fun y hy => ?_
    rw [resolve_insert hm]
    split
    · exact h q.2 hq
    · exact h y hy

/-! ## Flat renames -/

/-- A name that others lead to leads nowhere itself. -/
def Flat (m : Renames) : Prop :=
  ∀ x final, m.target.get? x = some final → m.target.get? final = none

theorem flat_empty : Flat ∅ := by
  intro x final h
  contradiction

/-- The final name of a name leads nowhere. -/
theorem Flat.get?_resolve {m : Renames} (hm : m.Flat) (x : String) :
    m.target.get? (m.resolve x) = none := by
  cases hx : m.target.get? x with
  | none => rwa [resolve_of_get?_eq_none hx]
  | some final =>
    rw [resolve_of_get?_eq_some hx]
    exact hm x final hx

theorem Flat.settled {m : Renames} (hm : m.Flat) : m.Settled :=
  fun x => resolve_of_get?_eq_none (hm.get?_resolve x)

/-- No name leads to itself. -/
theorem Flat.get?_ne_self {m : Renames} (hm : m.Flat) (x : String) :
    m.target.get? x ≠ some x := by
  intro h
  have hnone := hm x x h
  rw [h] at hnone
  contradiction

/-- One more rename leaves no way of two steps: neither from the source on, nor from the names that
led to it, nor to the new final name. -/
protected theorem Flat.insert {m : Renames} (hm : m.Flat) (source goal : String) :
    (m.insert source goal).Flat := by
  by_cases hdropped : m.resolve goal = source
  · rwa [insert, if_pos hdropped]
  · intro x final hx
    rw [get?_target_insert hdropped] at hx ⊢
    have hgoal : m.target.get? (m.resolve goal) = none := hm.get?_resolve goal
    split at hx
    · -- led to the final name of the goal, which led nowhere and is not the source
      obtain rfl := Option.some.inj hx
      grind
    · -- left as it was, with a final name other than the source
      have hfinal : m.target.get? final = none := hm x final hx
      grind

theorem flat_foldl_insert {m : Renames} (hm : m.Flat) (pairs : List (String × String)) :
    (pairs.foldl (fun m p => m.insert p.1 p.2) m).Flat := by
  induction pairs generalizing m with
  | nil => exact hm
  | cons p pairs ih => exact ih (hm.insert p.1 p.2)

/-! ## Other names -/

theorem mem_aliases {m : Renames} {name x : String} :
    x ∈ m.aliases name ↔ m.target.get? x = some name :=
  m.mem_sources

/-- The other names of a name are those with this final name. -/
theorem Flat.mem_aliases_iff {m : Renames} (hm : m.Flat) {name x : String} :
    x ∈ m.aliases name ↔ x ≠ name ∧ m.resolve x = name := by
  rw [mem_aliases]
  cases hx : m.target.get? x with
  | none =>
    rw [resolve_of_get?_eq_none hx]
    grind
  | some final =>
    have hself : final ≠ x := fun h => hm.get?_ne_self x (h ▸ hx)
    rw [resolve_of_get?_eq_some hx]
    grind

/-- After any renames, recorded or left out: no name that leads on is one that others lead to, so
names are final after one step and none leads to itself; the other names of a name are those with
this final name; and one more rename changes the final names of its source and of the names that led
there to that of its goal, and no others. -/
theorem foldl_insert_resolves (pairs : List (String × String)) :
    let m : Renames := pairs.foldl (fun m p => m.insert p.1 p.2) ∅
    (∀ x final, m.target.get? x = some final → m.target.get? final = none) ∧
      (∀ x, m.resolve (m.resolve x) = m.resolve x) ∧ (∀ x, m.target.get? x ≠ some x) ∧
      (∀ name x, x ∈ m.aliases name ↔ x ≠ name ∧ m.resolve x = name) ∧
      ∀ source goal x, (m.insert source goal).resolve x =
        if x = source ∨ m.resolve x = source then m.resolve goal else m.resolve x := by
  intro m
  have hm : m.Flat := flat_foldl_insert flat_empty pairs
  exact ⟨hm, hm.settled, hm.get?_ne_self, fun _ _ => hm.mem_aliases_iff,
    resolve_insert hm.settled⟩

end Renames

namespace Engine

/-- Every name that leads to a tag of a set is among the names of the set. -/
theorem mem_withAliases_of_resolve {e : Engine} {tags : TagSet} {x : String}
    (h : e.renames.resolve x ∈ tags) : x ∈ e.withAliases tags := by
  rw [withAliases, TagSet.mem_union, TagSet.mem_flatMap]
  cases hx : e.renames.target.get? x with
  | none =>
    rw [Renames.resolve_of_get?_eq_none hx] at h
    exact .inl h
  | some final =>
    rw [Renames.resolve_of_get?_eq_some hx] at h
    exact .inr ⟨final, h, Renames.mem_aliases.2 hx⟩

/-- The names of a set of final names are those that lead into it. -/
theorem mem_withAliases {e : Engine} {tags : TagSet}
    (htags : ∀ t ∈ tags, e.renames.resolve t = t) {x : String} :
    x ∈ e.withAliases tags ↔ e.renames.resolve x ∈ tags := by
  refine ⟨fun h => ?_, mem_withAliases_of_resolve⟩
  rw [withAliases, TagSet.mem_union, TagSet.mem_flatMap] at h
  rcases h with hx | ⟨t, ht, hx⟩
  · rwa [htags x hx]
  · rwa [Renames.resolve_of_get?_eq_some (Renames.mem_aliases.1 hx)]

theorem settled_renamesOf (rules : List TagRule) : (renamesOf rules).Settled :=
  Renames.settled_foldl_insert Renames.settled_empty _

end Engine
end TagQuery
