import TagQuery.Table

/-!
# Special and general tags

The transitive closure of "is a kind of", kept in both directions. A new edge leads from everything
below its lower end to everything above its upper end; no tag is above itself, whatever the edges.

## Main definitions

- `Hierarchy`: the tags above and below each tag.
- `Hierarchy.insert`: one more edge.
-/

namespace TagQuery

/-- The tags above and below each tag that has any. -/
structure Hierarchy where
  above : Table TagSet
  below : Table TagSet

namespace Hierarchy

instance : EmptyCollection Hierarchy := ⟨⟨∅, ∅⟩⟩

instance : Inhabited Hierarchy := ⟨∅⟩

/-- The set of a tag in a table, empty where the tag has none. -/
def setOf (m : Table TagSet) (tag : String) : TagSet :=
  (m.get? tag).getD ∅

theorem mem_setOf_insert {m : Table TagSet} {key k x : String} {tags : TagSet} :
    x ∈ setOf (m.insert key tags) k ↔ if k = key then x ∈ tags else x ∈ setOf m k := by
  unfold setOf
  rw [Table.get?_insert]
  split <;> rfl

def ancestors (h : Hierarchy) (tag : String) : TagSet := setOf h.above tag

def descendants (h : Hierarchy) (tag : String) : TagSet := setOf h.below tag

/-- Adds tags to the sets of all the given keys, to each without the key itself. -/
def addToAll (keys : List String) (tags : TagSet) (m : Table TagSet) : Table TagSet :=
  keys.foldl (fun m key => m.insert key (setOf m key ∪ tags.erase key)) m

/-- Records that `child` is a kind of `parent`. -/
def insert (h : Hierarchy) (child parent : String) : Hierarchy :=
  if child = parent then h
  else
    let up := (h.ancestors parent).insert parent
    let down := (h.descendants child).insert child
    ⟨addToAll down.toList up h.above, addToAll up.toList down h.below⟩

def hasBelow (h : Hierarchy) (tag : String) : Bool :=
  !(h.descendants tag).isEmpty

end Hierarchy
end TagQuery
