import Mathlib.Data.List.Nodup
import TagQuery.Item
import TagQuery.Proofs.Sql.Semantics
import TagQuery.Proofs.Table

/-!
# Libraries in tables

How the files of a library are stored, row by row, and which rows of a table belong to a file.

## Main definitions

- `Sql.Library`: files with distinct hashes, in which a person's id stands for one person.
- `Sql.Library.Stores`: the tables of a database hold a library.

## Main statements

- `Sql.Library.filter_ofHash`: the rows that belong to a file.
-/

namespace TagQuery.Sql

/-! ## Columns -/

@[simp] theorem Row.get_cons_self (column : String) (v : Value) (row : Row) :
    Row.get ((column, v) :: row) column = v := by
  simp [Row.get]

@[simp] theorem Row.get_cons_of_ne {column name : String} (h : column ≠ name) (v : Value)
    (row : Row) : Row.get ((name, v) :: row) column = row.get column := by
  simp [Row.get, List.lookup_cons, beq_eq_false_iff_ne.2 h]

@[simp] theorem Row.get_nil (column : String) : Row.get [] column = .null := rfl

@[simp] theorem Scope.get_cons_self (name : String) (row : Row) (scope : Scope) (column : String) :
    Scope.get ((name, row) :: scope) name column = row.get column := by
  simp [Scope.get]

@[simp] theorem Scope.get_cons_of_ne {source name : String} (h : source ≠ name) (row : Row)
    (scope : Scope) (column : String) :
    Scope.get ((name, row) :: scope) source column = scope.get source column := by
  simp [Scope.get, List.lookup_cons, beq_eq_false_iff_ne.2 h]

/-! ## Rows -/

def storedDetail : DetailValue → Value
  | .integer i => .integer i
  | .real x => .ofReal x
  | .text s => .text s

def flag (b : Bool) : Value := .integer (if b then 1 else 0)

def infoRow (version : Item → Value) (item : Item) : Row :=
  [("Hash", .text item.hash), ("FileSize", .integer item.fileSize),
    ("FileType", .text item.fileType), ("Version", version item)]

def pathRow (hash path : String) : Row := [("Hash", .text hash), ("Path", .text path)]

def tagRow (id : Int) (name : String) : Row := [("TagId", .integer id), ("Name", .text name)]

def hashTagRow (hash : String) (isRejected : Bool) (id : Int) : Row :=
  [("Hash", .text hash), ("TagId", .integer id), ("Rejected", flag isRejected)]

def personRow (p : Person) : Row := [("PersonId", .integer p.id), ("Name", .text p.name)]

def aliasRow (p : Person) (name : String) : Row :=
  [("PersonId", .integer p.id), ("Alias", .text name)]

def hashPersonRow (hash : String) (p : Person) : Row :=
  [("Hash", .text hash), ("PersonId", .integer p.id)]

def detailRow (hash : String) (entry : String × DetailValue) : Row :=
  [("Hash", .text hash), ("Name", .text entry.1), ("Value", storedDetail entry.2)]

def ratingRow (hash : String) (entry : String × Rating) : Row :=
  [("Hash", .text hash), ("Category", .text entry.1), ("Value", .ofReal entry.2.value),
    ("Count", .integer entry.2.count)]

/-! ## Rows of files -/

def pathRows (item : Item) : List Row := item.paths.map (pathRow item.hash)

def hashTagRows (tagId : String → Int) (item : Item) : List Row :=
  item.tags.toList.map (fun t => hashTagRow item.hash false (tagId t)) ++
    item.rejectedTags.toList.map fun t => hashTagRow item.hash true (tagId t)

def hashPeopleRows (item : Item) : List Row := item.people.map (hashPersonRow item.hash)

def detailRows (item : Item) : List Row := item.details.entries.map (detailRow item.hash)

def ratingRows (item : Item) : List Row := item.ratings.entries.map (ratingRow item.hash)

def ShowsHash (rowsOf : Item → List Row) : Prop :=
  ∀ i, ∀ row ∈ rowsOf i, row.get "Hash" = .text i.hash

theorem showsHash_map {β : Type} (facts : Item → List β) {row : String → β → Row}
    (h : ∀ hash fact, (row hash fact).get "Hash" = .text hash) :
    ShowsHash fun i => (facts i).map (row i.hash) := by
  intro i r hr
  obtain ⟨fact, -, rfl⟩ := List.mem_map.1 hr
  exact h i.hash fact

theorem showsHash_pathRows : ShowsHash pathRows :=
  showsHash_map (·.paths) fun _ _ => Row.get_cons_self ..

theorem showsHash_hashTagRows (tagId : String → Int) : ShowsHash (hashTagRows tagId) := by
  intro i row hrow
  rcases List.mem_append.1 hrow with hrow | hrow <;> obtain ⟨t, -, rfl⟩ := List.mem_map.1 hrow <;>
    exact Row.get_cons_self ..

theorem showsHash_hashPeopleRows : ShowsHash hashPeopleRows :=
  showsHash_map (·.people) fun _ _ => Row.get_cons_self ..

theorem showsHash_detailRows : ShowsHash detailRows :=
  showsHash_map (·.details.entries) fun _ _ => Row.get_cons_self ..

theorem showsHash_ratingRows : ShowsHash ratingRows :=
  showsHash_map (·.ratings.entries) fun _ _ => Row.get_cons_self ..

/-! ## Libraries -/

def peopleOf (items : List Item) : List Person := items.flatMap (·.people)

def tagsOf (items : List Item) : List String :=
  items.flatMap fun i => i.tags.toList ++ i.rejectedTags.toList

/-- Files with distinct hashes. Tags have distinct ids, and the id of a person stands for the same
name and other names everywhere. -/
structure Library where
  items : List Item
  tagId : String → Int
  version : Item → Value
  nodup_hashes : (items.map (·.hash)).Nodup
  tagId_inj : ∀ s ∈ tagsOf items, ∀ t ∈ tagsOf items, tagId s = tagId t → s = t
  name_eq : ∀ p ∈ peopleOf items, ∀ q ∈ peopleOf items, p.id = q.id → p.name = q.name
  mem_aliases : ∀ p ∈ peopleOf items, ∀ q ∈ peopleOf items, p.id = q.id →
    ∀ a ∈ p.aliases, a ∈ q.aliases

namespace Library

/-- The tables of a database hold a library, one row for each of its facts. -/
structure Stores (l : Library) (db : Database) : Prop where
  info : (db "HashInfo").Perm (l.items.map (infoRow l.version))
  paths : (db "Paths").Perm (l.items.flatMap pathRows)
  hashTags : (db "HashTags").Perm (l.items.flatMap (hashTagRows l.tagId))
  hashPeople : (db "HashPeople").Perm (l.items.flatMap hashPeopleRows)
  details : (db "HashDetails").Perm (l.items.flatMap detailRows)
  ratings : (db "HashRatings").Perm (l.items.flatMap ratingRows)
  tags : ∀ row, row ∈ db "Tags" ↔ ∃ t ∈ tagsOf l.items, row = tagRow (l.tagId t) t
  persons : ∀ row, row ∈ db "Persons" ↔ ∃ p ∈ peopleOf l.items, row = personRow p
  aliases : ∀ row, row ∈ db "PersonAliases" ↔
    ∃ p ∈ peopleOf l.items, ∃ a ∈ p.aliases, row = aliasRow p a

variable {l : Library}

def hasHash (hash : String) (row : Row) : Bool :=
  row.get "Hash" == .text hash

/-- The rows of a table that belong to a file. -/
theorem filter_ofHash {table : List Row} {rowsOf : Item → List Row}
    (hrows : table.Perm (l.items.flatMap rowsOf)) (hhash : ShowsHash rowsOf) {item : Item}
    (hitem : item ∈ l.items) : (table.filter (hasHash item.hash)).Perm (rowsOf item) := by
  refine (hrows.filter _).trans (List.Perm.of_eq ?_)
  obtain ⟨before, after, hsplit⟩ := List.append_of_mem hitem
  have hnodup := l.nodup_hashes
  rw [hsplit, List.map_append, List.map_cons, List.nodup_middle, List.nodup_cons,
    ← List.map_append] at hnodup
  have hother {i : Item} (hi : i ∈ before ++ after) :
      (rowsOf i).filter (hasHash item.hash) = [] := by
    apply List.filter_eq_nil_iff.2
    intro row hrow
    have hne : i.hash ≠ item.hash := fun h => hnodup.1 (h ▸ List.mem_map_of_mem hi)
    simp [hasHash, hhash i row hrow, hne]
  have hself : (rowsOf item).filter (hasHash item.hash) = rowsOf item := by
    apply List.filter_eq_self.2
    intro row hrow
    simp [hasHash, hhash item row hrow]
  have hbefore : before.flatMap (fun i => (rowsOf i).filter (hasHash item.hash)) = [] :=
    List.flatMap_eq_nil_iff.2 fun i hi => hother (List.mem_append_left _ hi)
  have hafter : after.flatMap (fun i => (rowsOf i).filter (hasHash item.hash)) = [] :=
    List.flatMap_eq_nil_iff.2 fun i hi => hother (List.mem_append_right _ hi)
  rw [List.filter_flatMap, hsplit, List.flatMap_append, List.flatMap_cons, hbefore, hafter, hself,
    List.nil_append, List.append_nil]

/-- What some row of a file satisfies. -/
theorem any_ofHash {table : List Row} {rowsOf : Item → List Row}
    (hrows : table.Perm (l.items.flatMap rowsOf)) (hhash : ShowsHash rowsOf) {item : Item}
    (hitem : item ∈ l.items) (p : Row → Bool) :
    table.any (fun row => hasHash item.hash row && p row) = (rowsOf item).any p := by
  rw [← List.any_filter, (filter_ofHash hrows hhash hitem).any_eq]

end Library

end TagQuery.Sql
