import Mathlib.Logic.Relation
import TagQuery.Engine
import TagQuery.Proofs.Table

/-!
# The hierarchy is closed

The two tables of a hierarchy say which tags are reached from a tag, and which reach it, along the
edges inserted so far. A new edge connects all that reach its lower end with all that its upper end
reaches, and so one layer of updates is enough.

## Main definitions

- `Hierarchy.Closes`: a hierarchy holds exactly the paths along a relation.
- `Hierarchy.Compact`: only tags that have relatives have an entry.

## Main statements

- `Hierarchy.Closes.insert`: one more edge.
- `Hierarchy.closes_foldl_insert`: any number of edges.
- `Hierarchy.Compact.eq_of_closes`: a hierarchy is determined by its paths.
- `Hierarchy.foldl_insert_reaches`: what is above and below a tag, whatever the order of the edges.
- `Hierarchy.Closes.ancestors_trans`: what is above a tag above is above, or the tag itself.
-/

namespace TagQuery.Hierarchy

open Relation (ReflTransGen TransGen)

/-! ## Tables -/

/-- The tags go to the sets of the given keys, and to no other set. -/
theorem mem_setOf_addToAll {keys : List String} {tags : TagSet} {m : Table TagSet} {k x : String} :
    x ∈ setOf (addToAll keys tags m) k ↔ x ∈ setOf m k ∨ k ∈ keys ∧ x ∈ tags ∧ x ≠ k := by
  induction keys generalizing m with
  | nil => simp [addToAll]
  | cons key keys ih =>
    change x ∈ setOf (addToAll keys tags (m.insert key (setOf m key ∪ tags.erase key))) k ↔ _
    rw [ih, mem_setOf_insert, List.mem_cons]
    by_cases hk : k = key
    · subst hk
      simp only [if_pos, TagSet.mem_union, TagSet.mem_erase, true_or, true_and]
      grind
    · simp [hk]

/-! ## Paths -/

section
variable {r : String → String → Prop} {child parent : String}

/-- A path that may use one more edge. -/
theorem reflTransGen_or_iff {x y : String} :
    ReflTransGen (fun a b => r a b ∨ a = child ∧ b = parent) x y ↔
      ReflTransGen r x y ∨ ReflTransGen r x child ∧ ReflTransGen r parent y := by
  constructor
  · intro h
    induction h with
    | refl => exact .inl .refl
    | tail _ hstep ih =>
      rcases hstep with hr | ⟨rfl, rfl⟩
      · rcases ih with hxb | ⟨hxc, hpb⟩
        · exact .inl (hxb.tail hr)
        · exact .inr ⟨hxc, hpb.tail hr⟩
      · rcases ih with hxb | ⟨hxc, -⟩
        · exact .inr ⟨hxb, .refl⟩
        · exact .inr ⟨hxc, .refl⟩
  · have hmono {a b : String} (h : ReflTransGen r a b) :
        ReflTransGen (fun a b => r a b ∨ a = child ∧ b = parent) a b :=
      ReflTransGen.mono (fun _ _ hr => Or.inl hr) a b h
    rintro (h | ⟨hxc, hpy⟩)
    · exact hmono h
    · exact ((hmono hxc).tail (.inr ⟨rfl, rfl⟩)).trans (hmono hpy)

/-- A hierarchy holds exactly the paths along a relation, except that no tag is above itself. -/
structure Closes (h : Hierarchy) (r : String → String → Prop) : Prop where
  mem_ancestors : ∀ {x y}, y ∈ h.ancestors x ↔ y ≠ x ∧ ReflTransGen r x y
  mem_descendants : ∀ {x y}, x ∈ h.descendants y ↔ x ≠ y ∧ ReflTransGen r x y

theorem closes_empty : Closes ∅ fun _ _ => False where
  mem_ancestors {x y} := by
    refine ⟨fun h => absurd h (TagSet.not_mem_empty y), ?_⟩
    rintro ⟨hne, hpath⟩
    cases hpath with
    | refl => contradiction
    | tail _ hstep => contradiction
  mem_descendants {x y} := by
    refine ⟨fun h => absurd h (TagSet.not_mem_empty x), ?_⟩
    rintro ⟨hne, hpath⟩
    cases hpath with
    | refl => contradiction
    | tail _ hstep => contradiction

namespace Closes
variable {h : Hierarchy}

theorem mem_insert_ancestors (hc : Closes h r) {y : String} :
    y ∈ (h.ancestors parent).insert parent ↔ ReflTransGen r parent y := by
  rw [TagSet.mem_insert, hc.mem_ancestors]
  by_cases hy : y = parent
  · simp [hy, ReflTransGen.refl]
  · simp [hy]

theorem mem_insert_descendants (hc : Closes h r) {x : String} :
    x ∈ (h.descendants child).insert child ↔ ReflTransGen r x child := by
  rw [TagSet.mem_insert, hc.mem_descendants]
  by_cases hx : x = child
  · simp [hx, ReflTransGen.refl]
  · simp [hx]

/-- One more edge. -/
protected theorem insert (hc : Closes h r) (child parent : String) :
    Closes (h.insert child parent) fun a b => r a b ∨ a = child ∧ b = parent := by
  unfold Hierarchy.insert
  by_cases heq : child = parent
  · -- an edge from a tag to itself adds no path
    have hsame {x y : String} :
        ReflTransGen (fun a b => r a b ∨ a = child ∧ b = parent) x y ↔ ReflTransGen r x y := by
      rw [reflTransGen_or_iff, heq]
      exact ⟨fun hp => hp.elim id fun hp => hp.1.trans hp.2, .inl⟩
    rw [if_pos heq]
    constructor
    · intro x y
      rw [hsame, hc.mem_ancestors]
    · intro x y
      rw [hsame, hc.mem_descendants]
  · rw [if_neg heq]
    constructor
    · intro x y
      rw [ancestors, mem_setOf_addToAll, TagSet.mem_toList, hc.mem_insert_descendants,
        hc.mem_insert_ancestors, reflTransGen_or_iff]
      have hold : y ∈ setOf h.above x ↔ y ≠ x ∧ ReflTransGen r x y := hc.mem_ancestors
      rw [hold]
      grind
    · intro x y
      rw [descendants, mem_setOf_addToAll, TagSet.mem_toList, hc.mem_insert_descendants,
        hc.mem_insert_ancestors, reflTransGen_or_iff]
      have hold : x ∈ setOf h.below y ↔ x ≠ y ∧ ReflTransGen r x y := hc.mem_descendants
      rw [hold]
      grind

/-- What is above a tag that is above another is above that one too, or is that one. -/
theorem ancestors_trans (hc : Closes h r) {x y z : String} (hy : y ∈ h.ancestors x)
    (hz : z ∈ h.ancestors y) : z = x ∨ z ∈ h.ancestors x := by
  by_cases hzx : z = x
  · exact .inl hzx
  · exact .inr (hc.mem_ancestors.2
      ⟨hzx, (hc.mem_ancestors.1 hy).2.trans (hc.mem_ancestors.1 hz).2⟩)

end Closes

/-- Edges that are inserted one after another add all their paths. -/
theorem closes_foldl_insert {h : Hierarchy} (hc : Closes h r) (edges : List (String × String)) :
    Closes (edges.foldl (fun h p => h.insert p.1 p.2) h) fun a b => r a b ∨ (a, b) ∈ edges := by
  induction edges generalizing h r with
  | nil => simpa using hc
  | cons p edges ih =>
    have hrel : (fun a b => (r a b ∨ a = p.1 ∧ b = p.2) ∨ (a, b) ∈ edges) =
        fun a b => r a b ∨ (a, b) ∈ p :: edges := by
      funext a b
      simp only [List.mem_cons, Prod.ext_iff, or_assoc]
    rw [List.foldl_cons, ← hrel]
    exact ih (hc.insert p.1 p.2)

end

/-! ## The order of edges -/

def NoneEmpty (m : Table TagSet) : Prop :=
  ∀ tag tags, m.get? tag = some tags → ∃ x, x ∈ tags

theorem noneEmpty_empty : NoneEmpty ∅ := by
  intro tag tags h
  contradiction

theorem NoneEmpty.addToAll {m : Table TagSet} (hm : NoneEmpty m) {keys : List String}
    {tags : TagSet} (h : ∀ key ∈ keys, ∃ x ∈ tags, x ≠ key) :
    NoneEmpty (addToAll keys tags m) := by
  induction keys generalizing m with
  | nil => exact hm
  | cons key keys ih =>
    obtain ⟨⟨x, hx, hne⟩, hrest⟩ := List.forall_mem_cons.1 h
    refine ih (fun tag old hget => ?_) hrest
    rw [Table.get?_insert] at hget
    split at hget
    · obtain rfl := Option.some.inj hget
      exact ⟨x, TagSet.mem_union.2 (.inr (TagSet.mem_erase.2 ⟨hx, hne⟩))⟩
    · exact hm tag old hget

/-- Without empty entries, a table is determined by its sets. -/
theorem eq_of_setOf_eq {m n : Table TagSet} (hm : NoneEmpty m) (hn : NoneEmpty n)
    (h : ∀ tag, setOf m tag = setOf n tag) : m = n := by
  have hnone {m : Table TagSet} {tag : String} (hget : m.get? tag = none) (x : String) :
      x ∉ setOf m tag := by
    rw [setOf, hget]
    exact TagSet.not_mem_empty x
  have hsome {m : Table TagSet} {tag : String} {tags : TagSet} (hget : m.get? tag = some tags) :
      setOf m tag = tags := by rw [setOf, hget, Option.getD_some]
  refine Table.ext_get? fun tag => ?_
  have htag := h tag
  cases hmget : m.get? tag with
  | none =>
    cases hnget : n.get? tag with
    | none => rfl
    | some tags =>
      obtain ⟨x, hx⟩ := hn tag tags hnget
      rw [← hsome hnget, ← htag] at hx
      exact absurd hx (hnone hmget x)
  | some tags =>
    cases hnget : n.get? tag with
    | none =>
      obtain ⟨x, hx⟩ := hm tag tags hmget
      rw [← hsome hmget, htag] at hx
      exact absurd hx (hnone hnget x)
    | some tags' => rw [← hsome hmget, ← hsome hnget, htag]

structure Compact (h : Hierarchy) : Prop where
  above : NoneEmpty h.above
  below : NoneEmpty h.below

namespace Compact

variable {h : Hierarchy} {r : String → String → Prop}

/-- The ends of an edge differ, and so each tag that gets new relatives gets one other than itself:
where the upper end is already below the lower one, the lower end is above it. -/
protected theorem insert (hh : h.Compact) (hc : h.Closes r) (child parent : String) :
    (h.insert child parent).Compact := by
  unfold Hierarchy.insert
  by_cases heq : child = parent
  · rwa [if_pos heq]
  · rw [if_neg heq]
    constructor
    · refine hh.above.addToAll fun key hkey => ?_
      rw [TagSet.mem_toList, hc.mem_insert_descendants] at hkey
      by_cases hparent : key = parent
      · exact ⟨child, hc.mem_insert_ancestors.2 (hparent ▸ hkey), fun h => heq (h.trans hparent)⟩
      · exact ⟨parent, hc.mem_insert_ancestors.2 .refl, Ne.symm hparent⟩
    · refine hh.below.addToAll fun key hkey => ?_
      rw [TagSet.mem_toList, hc.mem_insert_ancestors] at hkey
      by_cases hchild : key = child
      · exact ⟨parent, hc.mem_insert_descendants.2 (hchild ▸ hkey),
          fun h => heq (hchild.symm.trans h.symm)⟩
      · exact ⟨child, hc.mem_insert_descendants.2 .refl, Ne.symm hchild⟩

/-- A hierarchy without empty entries is determined by the paths that it holds. -/
theorem eq_of_closes {h' : Hierarchy} (hh : h.Compact) (hh' : h'.Compact) (hc : h.Closes r)
    (hc' : h'.Closes r) : h = h' := by
  have habove : h.above = h'.above := by
    refine eq_of_setOf_eq hh.above hh'.above fun tag => TagSet.ext fun x => ?_
    exact hc.mem_ancestors.trans hc'.mem_ancestors.symm
  have hbelow : h.below = h'.below := by
    refine eq_of_setOf_eq hh.below hh'.below fun tag => TagSet.ext fun x => ?_
    exact hc.mem_descendants.trans hc'.mem_descendants.symm
  cases h
  cases h'
  congr

end Compact

theorem compact_foldl_insert {h : Hierarchy} {r : String → String → Prop} (hh : h.Compact)
    (hc : h.Closes r) (edges : List (String × String)) :
    (edges.foldl (fun h p => h.insert p.1 p.2) h).Compact := by
  induction edges generalizing h r with
  | nil => exact hh
  | cons p edges ih => exact ih (hh.insert hc p.1 p.2) (hc.insert p.1 p.2)

/-- After any edges, with cycles and repeats: above a tag are the other tags that one or more edges
lead to, below it the other tags from which they lead to it, the two directions agree, and the same
edges in another order, or with other repeats, give the same hierarchy. -/
theorem foldl_insert_reaches (edges : List (String × String)) :
    let h : Hierarchy := edges.foldl (fun h p => h.insert p.1 p.2) ∅
    (∀ x y, y ∈ h.ancestors x ↔ y ≠ x ∧ TransGen (fun a b => (a, b) ∈ edges) x y) ∧
      (∀ x y, y ∈ h.descendants x ↔ y ≠ x ∧ TransGen (fun a b => (a, b) ∈ edges) y x) ∧
      (∀ x y, y ∈ h.ancestors x ↔ x ∈ h.descendants y) ∧
      ∀ edges' : List (String × String), (∀ p, p ∈ edges' ↔ p ∈ edges) →
        edges'.foldl (fun h p => h.insert p.1 p.2) ∅ = h := by
  intro h
  have hcloses (edges : List (String × String)) :
      Closes (edges.foldl (fun h p => h.insert p.1 p.2) ∅) fun a b => (a, b) ∈ edges := by
    simpa only [false_or] using closes_foldl_insert closes_empty edges
  have hcompact (edges : List (String × String)) :
      Compact (edges.foldl (fun h p => h.insert p.1 p.2) ∅) :=
    compact_foldl_insert ⟨noneEmpty_empty, noneEmpty_empty⟩ closes_empty edges
  -- paths between two tags have an edge
  have hpath {x y : String} (hne : y ≠ x) :
      ReflTransGen (fun a b => (a, b) ∈ edges) x y ↔ TransGen (fun a b => (a, b) ∈ edges) x y := by
    rw [Relation.reflTransGen_iff_eq_or_transGen, or_iff_right hne]
  refine ⟨fun x y => ?_, fun x y => ?_, fun x y => ?_, fun edges' hedges => ?_⟩
  · rw [(hcloses edges).mem_ancestors]
    exact and_congr_right hpath
  · rw [(hcloses edges).mem_descendants]
    exact and_congr_right fun hne => hpath (Ne.symm hne)
  · rw [(hcloses edges).mem_ancestors, (hcloses edges).mem_descendants, ne_comm]
  · have hsame : (fun a b => (a, b) ∈ edges') = fun a b => (a, b) ∈ edges := by
      funext a b
      exact propext (hedges (a, b))
    exact (hcompact edges').eq_of_closes (hcompact edges) (hsame ▸ hcloses edges') (hcloses edges)

/-- A cycle, an edge from a tag to itself and an edge that is repeated, in two orders. -/
theorem foldl_insert_reaches_cycle :
    let edges := [("cat", "pet"), ("kitten", "cat"), ("pet", "cat"), ("cat", "cat")]
    let edges' := [("cat", "cat"), ("pet", "cat"), ("cat", "pet"), ("pet", "cat"), ("kitten", "cat")]
    let h : Hierarchy := edges.foldl (fun h p => h.insert p.1 p.2) ∅
    (∀ p, p ∈ edges' ↔ p ∈ edges) ∧ edges'.foldl (fun h p => h.insert p.1 p.2) ∅ = h ∧
      "pet" ∈ h.ancestors "kitten" ∧ "cat" ∉ h.ancestors "cat" := by
  intro edges edges' h
  have hedges (p : String × String) : p ∈ edges' ↔ p ∈ edges := by
    simp only [edges, edges', List.mem_cons, List.not_mem_nil, or_false]
    tauto
  obtain ⟨habove, -, -, horder⟩ := foldl_insert_reaches edges
  refine ⟨hedges, horder edges' hedges, ?_, fun hself => ((habove _ _).1 hself).1 rfl⟩
  exact (habove "kitten" "pet").2 ⟨by decide, .head (b := "cat") (by decide) (.single (by decide))⟩

end TagQuery.Hierarchy
