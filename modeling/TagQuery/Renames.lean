import TagQuery.Hierarchy

/-!
# Renamed tags

Every name leads straight to its final name, and every final name knows the names that lead to it. A
new rename also takes along the names that led to the one renamed, and a rename that would lead a
name back to itself is left out.

## Main definitions

- `Renames`: the names that have another name, in two tables that hold the same renames.
- `Renames.resolve`: the final name of a name.
- `Renames.insert`: one more rename.
- `Renames.aliases`: the names that lead to a name.

## Main statements

- `Renames.mem_handOver_followers`: one more rename keeps the two tables together.
-/

namespace TagQuery

/-- The final names of the names that have one, and the names that lead to each final name. -/
structure Renames where
  target : Table String
  /-- The names that lead to each name; where all of them were renamed again, an empty set stays. -/
  sources : Table TagSet
  /-- The two tables hold the same renames. -/
  mem_sources : ∀ {name x}, x ∈ Hierarchy.setOf sources name ↔ target.get? x = some name

namespace Renames

instance : EmptyCollection Renames where
  emptyCollection := ⟨∅, ∅, by simp [Hierarchy.setOf]⟩

instance : Inhabited Renames := ⟨∅⟩

/-- The final name of a name; a name that was never renamed is its own. -/
def resolve (m : Renames) (name : String) : String :=
  (m.target.get? name).getD name

def aliases (m : Renames) (name : String) : TagSet :=
  Hierarchy.setOf m.sources name

/-! ## One more rename -/

/-- The names that lead to each name once `name` leads nowhere. -/
def withdraw (m : Renames) (name : String) : Table TagSet :=
  match m.target.get? name with
  | none => m.sources
  | some old => m.sources.insert old ((m.aliases old).erase name)

def leadAll (names : List String) (final : String) (m : Table String) : Table String :=
  names.foldl (fun m name => m.insert name final) m

/-- Adds names to those of a final name, where no name leads to `source` any more. -/
def handOver (source final : String) (names : TagSet) (m : Table TagSet) : Table TagSet :=
  let rest := m.filterKeys (· != source)
  rest.insert final (Hierarchy.setOf rest final ∪ names)

theorem get?_leadAll (names : List String) (final : String) (m : Table String) (x : String) :
    (leadAll names final m).get? x = if x ∈ names then some final else m.get? x := by
  induction names generalizing m with
  | nil => rfl
  | cons name names ih =>
    change (leadAll names final (m.insert name final)).get? x = _
    rw [ih, Table.get?_insert]
    grind

/-- All names but the one that is withdrawn lead where they led. -/
theorem mem_withdraw {m : Renames} {source name x : String} :
    x ∈ Hierarchy.setOf (m.withdraw source) name ↔ m.target.get? x = some name ∧ x ≠ source := by
  unfold withdraw
  split
  · next hnone =>
    rw [m.mem_sources]
    grind
  · next old hold =>
    rw [Hierarchy.mem_setOf_insert, aliases, TagSet.mem_erase, m.mem_sources, m.mem_sources]
    grind

/-- Names that are handed over belong to the final name, and none belongs to the source. -/
theorem mem_handOver {source final name x : String} {names : TagSet} {m : Table TagSet} :
    x ∈ Hierarchy.setOf (handOver source final names m) name ↔
      name ≠ source ∧ x ∈ Hierarchy.setOf m name ∨ name = final ∧ x ∈ names := by
  have hrest : x ∈ Hierarchy.setOf (m.filterKeys (· != source)) name ↔
      name ≠ source ∧ x ∈ Hierarchy.setOf m name := by
    rw [Hierarchy.setOf, Table.get?_filterKeys]
    by_cases hname : name = source <;> simp [hname, Hierarchy.setOf]
  rw [handOver, Hierarchy.mem_setOf_insert]
  split
  · next heq => rw [← heq, TagSet.mem_union, hrest, and_iff_right rfl]
  · next hne => rw [hrest, or_iff_left fun h => hne h.1]

/-- A name and the names that lead to it. -/
def followers (m : Renames) (name : String) : TagSet :=
  (Hierarchy.setOf (m.withdraw name) name).insert name

theorem mem_followers {m : Renames} {name x : String} :
    x ∈ m.followers name ↔ x = name ∨ m.target.get? x = some name := by
  rw [followers, TagSet.mem_insert, mem_withdraw]
  grind

/-- Where `source` and the names that led to it are led to a final name, they are handed over to it
in the other table, and all other names stay where they are. -/
theorem mem_handOver_followers {m : Renames} {source final name x : String} :
    x ∈ Hierarchy.setOf (handOver source final (m.followers source) (m.withdraw source)) name ↔
      (leadAll (m.followers source).toList final m.target).get? x = some name := by
  simp only [mem_handOver, mem_withdraw, get?_leadAll, TagSet.mem_toList, mem_followers]
  grind

/-- Renames `source` to the final name of `goal`, together with the names that led to `source`. -/
def insert (m : Renames) (source goal : String) : Renames :=
  let final := m.resolve goal
  if final = source then m
  else
    ⟨leadAll (m.followers source).toList final m.target,
      handOver source final (m.followers source) (m.withdraw source), mem_handOver_followers⟩

/-! ## Sizes -/

def targets (m : Renames) : TagSet :=
  m.sources.keySet.filter fun name => !(m.aliases name).isEmpty

def size (m : Renames) : Nat := m.target.size

def isEmpty (m : Renames) : Bool := m.target.isEmpty

end Renames
end TagQuery
