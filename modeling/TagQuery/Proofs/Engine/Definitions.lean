import Mathlib.Data.List.Induction
import TagQuery.Proofs.Engine.Hierarchy
import TagQuery.Proofs.Engine.Renames

/-!
# Definitions of names

Definitions lead from names to other names, and every name has its final name somewhere along them.
Where no name has two definitions and none leads back to itself, the final name is where they end,
and the order in which they came in leaves no trace. Where a name is defined again, its last
definition is followed as long as its goal keeps its final name.

## Main definitions

- `Renames.ofPairs`: the renames of a list of definitions.
- `Renames.Defines`: the definitions of a list as a relation.
- `Renames.Coherent`: no name has two definitions, and none leads back to itself.
- `Renames.LastDefines`: the last definitions of a list.
- `Renames.Keeps`: no definition takes a name away from its final name.

## Main statements

- `Renames.reflTransGen_resolve`: definitions lead from a name to its final name.
- `Renames.Coherent.resolve_eq`: the final name is where coherent definitions end.
- `Renames.Coherent.ofPairs_eq`: coherent definitions give the same renames in any order.
- `Renames.resolve_last_definition`: the last definition of a name is followed.
-/

namespace TagQuery.Renames

open Relation (ReflTransGen TransGen)

def ofPairs (pairs : List (String × String)) : Renames :=
  pairs.foldl (fun m p => m.insert p.1 p.2) ∅

variable {pairs pairs' : List (String × String)} {p : String × String} {x y : String}

theorem ofPairs_append_singleton (pairs : List (String × String)) (p : String × String) :
    ofPairs (pairs ++ [p]) = (ofPairs pairs).insert p.1 p.2 := by
  rw [ofPairs, List.foldl_append]
  rfl

theorem flat_ofPairs (pairs : List (String × String)) : (ofPairs pairs).Flat :=
  flat_foldl_insert flat_empty pairs

theorem settled_ofPairs (pairs : List (String × String)) : (ofPairs pairs).Settled :=
  (flat_ofPairs pairs).settled

/-! ## Paths along definitions -/

/-- One of the definitions gives a name another one; none leads from a name to itself. -/
def Defines (pairs : List (String × String)) (x y : String) : Prop :=
  x ≠ y ∧ (x, y) ∈ pairs

theorem Defines.append_singleton (h : Defines pairs x y) (p : String × String) :
    Defines (pairs ++ [p]) x y :=
  ⟨h.1, List.mem_append_left _ h.2⟩

theorem defines_last (hne : p.1 ≠ p.2) : Defines (pairs ++ [p]) p.1 p.2 :=
  ⟨hne, List.mem_append_right _ List.mem_cons_self⟩

/-- A definition that is not the last one is among those before. -/
theorem Defines.of_append_singleton (h : Defines (pairs ++ [p]) x y) (hne : (x, y) ≠ p) :
    Defines pairs x y := by
  refine ⟨h.1, ?_⟩
  rcases List.mem_append.1 h.2 with hmem | hmem
  · exact hmem
  · exact absurd (List.mem_singleton.1 hmem) hne

/-- Along the definitions every name leads to its final name, also where some were left out. -/
theorem reflTransGen_resolve (pairs : List (String × String)) (x : String) :
    ReflTransGen (Defines pairs) x ((ofPairs pairs).resolve x) := by
  induction pairs using List.reverseRecOn generalizing x with
  | nil => exact .refl
  | append_singleton pairs p ih =>
    have hbefore (y : String) :
        ReflTransGen (Defines (pairs ++ [p])) y ((ofPairs pairs).resolve y) :=
      ReflTransGen.mono (fun _ _ h => h.append_singleton p) _ _ (ih y)
    rw [ofPairs_append_singleton, resolve_insert (settled_ofPairs pairs)]
    split
    · next h =>
      -- on to the source, over the new definition, and on from its goal
      have hsource : ReflTransGen (Defines (pairs ++ [p])) x p.1 := by
        rcases h with rfl | h
        · exact .refl
        · exact h ▸ hbefore x
      by_cases hloop : p.1 = p.2
      · exact (hloop ▸ hsource).trans (hbefore p.2)
      · exact (hsource.tail (defines_last hloop)).trans (hbefore p.2)
    · exact hbefore x

/-! ## Coherent definitions -/

/-- No name has two definitions, and none leads back to itself. -/
structure Coherent (pairs : List (String × String)) : Prop where
  unique : Relator.RightUnique (Defines pairs)
  acyclic : ∀ x, ¬TransGen (Defines pairs) x x

namespace Coherent

theorem of_append_singleton (hc : Coherent (pairs ++ [p])) : Coherent pairs where
  unique _ _ _ h h' := hc.unique (h.append_singleton p) (h'.append_singleton p)
  acyclic x h := hc.acyclic x (TransGen.mono (fun _ _ h => h.append_singleton p) _ _ h)

theorem of_mem_iff (hc : Coherent pairs) (hsame : ∀ p, p ∈ pairs' ↔ p ∈ pairs) :
    Coherent pairs' := by
  have hdefines : Defines pairs' = Defines pairs := by
    funext x y
    rw [Defines, Defines, hsame]
  exact ⟨hdefines ▸ hc.unique, hdefines ▸ hc.acyclic⟩

/-- Every definition is recorded: it would be left out only in a circle. -/
theorem get?_ne_none (hc : Coherent pairs) (h : Defines pairs x y) :
    (ofPairs pairs).target.get? x ≠ none := by
  induction pairs using List.reverseRecOn with
  | nil => exact absurd h.2 List.not_mem_nil
  | append_singleton pairs p ih =>
    rw [ofPairs_append_singleton]
    by_cases hdropped : (ofPairs pairs).resolve p.2 = p.1
    · have hloop : p.1 = p.2 := by
        by_contra hne
        have hback : ReflTransGen (Defines (pairs ++ [p])) p.2 p.1 :=
          hdropped ▸ ReflTransGen.mono (fun _ _ h => h.append_singleton p) _ _
            (reflTransGen_resolve pairs p.2)
        exact hc.acyclic p.1 (TransGen.head' (defines_last hne) hback)
      have hne : (x, y) ≠ p := by
        rintro rfl
        exact h.1 hloop
      rw [insert, if_pos hdropped]
      exact ih hc.of_append_singleton (h.of_append_singleton hne)
    · rw [get?_target_insert hdropped]
      split
      · exact Option.some_ne_none _
      · next hother =>
        have hne : (x, y) ≠ p := by
          rintro rfl
          exact hother (.inl rfl)
        exact ih hc.of_append_singleton (h.of_append_singleton hne)

theorem not_defines_resolve (hc : Coherent pairs) (x y : String) :
    ¬Defines pairs ((ofPairs pairs).resolve x) y :=
  fun h => hc.get?_ne_none h ((flat_ofPairs pairs).get?_resolve x)

/-- The final name of a name is where its definitions end. -/
theorem resolve_eq (hc : Coherent pairs) (hpath : ReflTransGen (Defines pairs) x y)
    (hend : ∀ z, ¬Defines pairs y z) : (ofPairs pairs).resolve x = y := by
  rcases (reflTransGen_resolve pairs x).total_of_right_unique hc.unique hpath with h | h
  · rcases h.cases_head with heq | ⟨z, hz, -⟩
    · exact heq
    · exact absurd hz (hc.not_defines_resolve x z)
  · rcases h.cases_head with heq | ⟨z, hz, -⟩
    · exact heq.symm
    · exact absurd hz (hend z)

theorem resolve_eq_of_defines (hc : Coherent pairs) (h : Defines pairs x y) :
    (ofPairs pairs).resolve x = (ofPairs pairs).resolve y :=
  hc.resolve_eq (.head h (reflTransGen_resolve pairs y)) (hc.not_defines_resolve y)

/-! ## The order of definitions -/

/-- A definition of a name that is renamed already leads to the final name that it has. -/
theorem resolve_eq_of_get? (hc : Coherent (pairs ++ [p])) {final : String}
    (h : (ofPairs pairs).target.get? p.1 = some final) : (ofPairs pairs).resolve p.2 = final := by
  have hfinal : (ofPairs pairs).resolve p.1 = final := resolve_of_get?_eq_some h
  by_cases hloop : p.1 = p.2
  · rw [← hloop, hfinal]
  · have hne : final ≠ p.1 := fun heq => (flat_ofPairs pairs).get?_ne_self p.1 (heq ▸ h)
    have hpath := reflTransGen_resolve pairs p.1
    rw [hfinal] at hpath
    rcases hpath.cases_head with heq | ⟨y, hy, -⟩
    · exact absurd heq.symm hne
    · obtain rfl : y = p.2 := hc.unique (hy.append_singleton p) (defines_last hloop)
      rw [← hc.of_append_singleton.resolve_eq_of_defines hy, hfinal]

/-- No name is left with an empty set of other names: a name is taken from the others of its final
name only to come back to them. -/
theorem noneEmpty_sources (hc : Coherent pairs) :
    Hierarchy.NoneEmpty (ofPairs pairs).sources := by
  induction pairs using List.reverseRecOn with
  | nil => exact Hierarchy.noneEmpty_empty
  | append_singleton pairs p ih =>
    have hbefore := ih hc.of_append_singleton
    rw [ofPairs_append_singleton]
    by_cases hdropped : (ofPairs pairs).resolve p.2 = p.1
    · rwa [insert, if_pos hdropped]
    · rw [insert, if_neg hdropped]
      intro name tags hget
      dsimp only [handOver] at hget
      rw [Table.get?_insert] at hget
      split at hget
      · obtain rfl := Option.some.inj hget
        have hself : p.1 ∈ (ofPairs pairs).followers p.1 := mem_followers.2 (.inl rfl)
        exact ⟨p.1, TagSet.mem_union.2 (.inr hself)⟩
      · next hname =>
        rw [Table.get?_filterKeys] at hget
        split at hget
        · unfold withdraw at hget
          split at hget
          · exact hbefore name tags hget
          · next final hfinal =>
            have hother : name ≠ final := fun h =>
              hname (h.trans (hc.resolve_eq_of_get? hfinal).symm)
            rw [Table.get?_insert, if_neg hother] at hget
            exact hbefore name tags hget
        · contradiction

end Coherent

theorem Flat.get?_target {m : Renames} (hm : m.Flat) (x : String) :
    m.target.get? x = if m.resolve x = x then none else some (m.resolve x) := by
  cases hx : m.target.get? x with
  | none => rw [resolve_of_get?_eq_none hx, if_pos rfl]
  | some final =>
    have hne : final ≠ x := fun h => hm.get?_ne_self x (h ▸ hx)
    rw [resolve_of_get?_eq_some hx, if_neg hne]

/-- Renames without empty sets are determined by the final names. -/
theorem Flat.eq_of_resolve_eq {m n : Renames} (hm : m.Flat) (hn : n.Flat)
    (hmsources : Hierarchy.NoneEmpty m.sources) (hnsources : Hierarchy.NoneEmpty n.sources)
    (h : ∀ x, m.resolve x = n.resolve x) : m = n := by
  have htarget : m.target = n.target := Table.ext_get? fun x => by
    rw [hm.get?_target, hn.get?_target, h]
  have hsources : m.sources = n.sources := by
    refine Hierarchy.eq_of_setOf_eq hmsources hnsources fun name => TagSet.ext fun x => ?_
    rw [m.mem_sources, n.mem_sources, htarget]
  cases m
  cases n
  congr

/-- Coherent definitions give the same renames in any order and with any repeats. -/
theorem Coherent.ofPairs_eq (hc : Coherent pairs) (hsame : ∀ p, p ∈ pairs' ↔ p ∈ pairs) :
    ofPairs pairs' = ofPairs pairs := by
  have hc' : Coherent pairs' := hc.of_mem_iff hsame
  refine (flat_ofPairs pairs').eq_of_resolve_eq (flat_ofPairs pairs) hc'.noneEmpty_sources
    hc.noneEmpty_sources fun x => ?_
  have hdefines : Defines pairs' = Defines pairs := by
    funext x y
    rw [Defines, Defines, hsame]
  exact hc'.resolve_eq (hdefines ▸ reflTransGen_resolve pairs x)
    (hdefines ▸ hc.not_defines_resolve x)

/-! ## Names that are defined again -/

def LastDefines (pairs : List (String × String)) (x y : String) : Prop :=
  ∃ before after, pairs = before ++ (x, y) :: after ∧ ∀ q ∈ after, q.1 ≠ x

/-- No definition takes a name away from its final name: it finds the name not renamed, or gives it
the final name that it has. -/
def Keeps (m : Renames) (name : String) : List (String × String) → Prop
  | [] => True
  | p :: pairs =>
    (p.1 = name → m.resolve name = name ∨ m.resolve p.2 = m.resolve name) ∧
      (m.insert p.1 p.2).Keeps name pairs

/-- Names with the same final name keep it in common, unless one of them is taken away from it. -/
theorem resolve_insert_congr {m : Renames} (hm : m.Settled) {source goal : String}
    (hsame : m.resolve x = m.resolve y) (hx : source ≠ x)
    (hy : source = y → m.resolve y = y ∨ m.resolve goal = m.resolve y) :
    (m.insert source goal).resolve x = (m.insert source goal).resolve y := by
  rw [resolve_insert hm, resolve_insert hm, hsame]
  grind

theorem resolve_foldl_insert_congr {m : Renames} (hm : m.Settled)
    (hsame : m.resolve x = m.resolve y) (hx : ∀ q ∈ pairs, q.1 ≠ x) (hy : m.Keeps y pairs) :
    (pairs.foldl (fun m p => m.insert p.1 p.2) m).resolve x =
      (pairs.foldl (fun m p => m.insert p.1 p.2) m).resolve y := by
  induction pairs generalizing m with
  | nil => exact hsame
  | cons p pairs ih =>
    obtain ⟨hp, hrest⟩ := List.forall_mem_cons.1 hx
    exact ih (hm.insert p.1 p.2) (resolve_insert_congr hm hsame hp hy.1) hrest hy.2

/-- The last definition of a name is followed, as long as no later definition takes its goal away
from the final name that this has. -/
theorem resolve_last_definition {before after : List (String × String)}
    (hlast : ∀ q ∈ after, q.1 ≠ x) (hkept : (ofPairs (before ++ [(x, y)])).Keeps y after) :
    let m := ofPairs (before ++ (x, y) :: after)
    m.resolve x = m.resolve y := by
  have hsplit : ofPairs (before ++ (x, y) :: after) =
      after.foldl (fun m p => m.insert p.1 p.2) (ofPairs (before ++ [(x, y)])) := by
    rw [List.append_cons, ofPairs, ofPairs, List.foldl_append]
  have hdefined : (ofPairs (before ++ [(x, y)])).resolve x =
      (ofPairs (before ++ [(x, y)])).resolve y := by
    rw [ofPairs_append_singleton, resolve_insert (settled_ofPairs before),
      resolve_insert (settled_ofPairs before)]
    grind
  rw [hsplit]
  exact resolve_foldl_insert_congr (settled_ofPairs _) hdefined hlast hkept

/-- A goal that is renamed later takes the name along, also when it is then defined once more with
the same final name. -/
theorem resolve_last_definition_pet :
    let before := [("felis", "beast"), ("cat", "beast")]
    let after := [("beast", "pet"), ("cat", "pet")]
    let m := ofPairs (before ++ ("felis", "cat") :: after)
    (∀ q ∈ after, q.1 ≠ "felis") ∧ (ofPairs (before ++ [("felis", "cat")])).Keeps "cat" after ∧
      m.resolve "felis" = m.resolve "cat" ∧ m.resolve "felis" = "pet" := by
  intro before after m
  have hlast : ∀ q ∈ after, q.1 ≠ "felis" := by decide
  have hkept : (ofPairs (before ++ [("felis", "cat")])).Keeps "cat" after :=
    ⟨fun h => absurd h (by decide), fun _ => .inr (by decide), trivial⟩
  exact ⟨hlast, hkept, resolve_last_definition hlast hkept, by decide⟩

/-- The table of some definitions has the last one of every name. -/
theorem LastDefines.get?_ofList (h : LastDefines pairs x y) :
    (Table.ofList pairs).get? x = some y := by
  obtain ⟨before, after, rfl, hafter⟩ := h
  have hkeeps (m : Table String) (hm : m.get? x = some y) :
      (after.foldl (fun m e => m.insert e.1 e.2) m).get? x = some y := by
    induction after generalizing m with
    | nil => exact hm
    | cons e after ih =>
      obtain ⟨he, hrest⟩ := List.forall_mem_cons.1 hafter
      exact ih hrest _ (by rw [Table.get?_insert, if_neg (Ne.symm he), hm])
  rw [Table.ofList, List.foldl_append]
  exact hkeeps _ (by rw [Table.get?_insert, if_pos rfl])

/-- Where names lead on in the order of the alphabet only, none leads back to itself. -/
theorem not_transGen_of_lt {r : String → String → Prop} (h : ∀ x y, r x y → x < y) (x : String) :
    ¬TransGen r x x := by
  have hpath {y : String} (hy : TransGen r x y) : x < y := by
    induction hy with
    | single hstep => exact h x _ hstep
    | tail _ hstep ih => exact String.lt_trans ih (h _ _ hstep)
  exact fun hcycle => String.lt_irrefl x (hpath hcycle)

/-- A last definition is not followed where it was left out, because the name led back to itself at
that time, nor where its goal was renamed already and is then given another final name. -/
theorem resolve_ne_last_definition :
    let dropped := [("bee", "ant"), ("ant", "bee"), ("bee", "cat")]
    let taken := [("ant", "bee"), ("bee", "cat"), ("bee", "dog")]
    ∀ pairs ∈ [dropped, taken], (∀ x, ¬TransGen (LastDefines pairs) x x) ∧
      LastDefines pairs "ant" "bee" ∧
      (ofPairs pairs).resolve "ant" ≠ (ofPairs pairs).resolve "bee" := by
  intro dropped taken
  have hacyclic {pairs : List (String × String)}
      (h : ∀ q ∈ (Table.ofList pairs).entries, q.1 < q.2) (x : String) :
      ¬TransGen (LastDefines pairs) x x :=
    not_transGen_of_lt (fun y z hyz => h (y, z) (Table.get?_eq_some.1 hyz.get?_ofList)) x
  refine List.forall_mem_cons.2 ⟨⟨hacyclic (by decide), ?_, by decide⟩,
    List.forall_mem_singleton.2 ⟨hacyclic (by decide), ?_, by decide⟩⟩
  · exact ⟨[("bee", "ant")], [("bee", "cat")], rfl, by decide⟩
  · exact ⟨[], [("bee", "cat"), ("bee", "dog")], rfl, by decide⟩

end TagQuery.Renames
