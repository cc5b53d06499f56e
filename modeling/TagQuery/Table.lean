import TagQuery.TagSet

/-!
# Tables keyed by text

A finite map from texts to values, held as its entries in increasing order of the keys.

## Main definitions

- `Table`: a map from texts.
- `Table.get?`, `Table.insert`: look-up and update.
- `Table.ofList`: the table of a list of entries, where later entries replace earlier ones.

## Main statements

- `Table.get?_insert`: the effect of an update on every look-up.
- `Table.get?_filterKeys`: the effect of a restriction on every look-up.
-/

namespace TagQuery

/-- A finite map from texts. -/
structure Table (α : Type) where
  /-- The entries in increasing order of their keys. -/
  entries : List (String × α)
  sorted : entries.Pairwise (·.1 < ·.1)

namespace Table

instance : EmptyCollection (Table α) := ⟨⟨[], .nil⟩⟩

instance : Inhabited (Table α) := ⟨∅⟩

def find? (key : String) : List (String × α) → Option α
  | [] => none
  | e :: es => if key = e.1 then some e.2 else find? key es

def get? (m : Table α) (key : String) : Option α :=
  find? key m.entries

def keys (m : Table α) : List String :=
  m.entries.map Prod.fst

def size (m : Table α) : Nat := m.entries.length

def isEmpty (m : Table α) : Bool := m.entries.isEmpty

/-! ## Update -/

/-- Puts an entry at its place among increasing keys, in place of one with the same key. -/
def insertSorted (key : String) (value : α) : List (String × α) → List (String × α)
  | [] => [(key, value)]
  | e :: es =>
    if key < e.1 then (key, value) :: e :: es
    else if key = e.1 then (key, value) :: es
    else e :: insertSorted key value es

theorem mem_insertSorted {e : String × α} {key : String} {value : α} {es : List (String × α)}
    (h : e ∈ insertSorted key value es) : e.1 = key ∨ e ∈ es := by
  induction es with
  | nil => simp_all [insertSorted]
  | cons d ds ih =>
    simp only [insertSorted] at h
    split at h
    · rcases List.mem_cons.1 h with rfl | h
      · exact .inl rfl
      · exact .inr h
    · split at h
      · rcases List.mem_cons.1 h with rfl | h
        · exact .inl rfl
        · exact .inr (List.mem_cons_of_mem _ h)
      · rcases List.mem_cons.1 h with rfl | h
        · exact .inr (List.mem_cons_self)
        · exact (ih h).imp id (List.mem_cons_of_mem _)

theorem pairwise_insertSorted {key : String} {value : α} {es : List (String × α)}
    (h : es.Pairwise (·.1 < ·.1)) : (insertSorted key value es).Pairwise (·.1 < ·.1) := by
  induction es with
  | nil => simp [insertSorted]
  | cons d ds ih =>
    simp only [insertSorted]
    have hd := List.pairwise_cons.1 h
    split
    · next hlt =>
      refine List.pairwise_cons.2 ⟨?_, h⟩
      intro e he
      rcases List.mem_cons.1 he with rfl | he
      · exact hlt
      · exact String.lt_trans hlt (hd.1 e he)
    · next hlt =>
      split
      · next heq =>
        refine List.pairwise_cons.2 ⟨?_, hd.2⟩
        intro e he
        simpa [heq] using hd.1 e he
      · next hne =>
        refine List.pairwise_cons.2 ⟨?_, ih hd.2⟩
        intro e he
        rcases mem_insertSorted he with h1 | he
        · rw [h1]
          exact TagSet.lt_of_not_lt_of_ne hlt hne
        · exact hd.1 e he

def insert (m : Table α) (key : String) (value : α) : Table α :=
  ⟨insertSorted key value m.entries, pairwise_insertSorted m.sorted⟩

/-- The table of a list of entries, where later entries replace earlier ones. -/
def ofList (entries : List (String × α)) : Table α :=
  entries.foldl (fun m e => m.insert e.1 e.2) ∅

def mapValues (f : α → β) (m : Table α) : Table β :=
  ⟨m.entries.map fun e => (e.1, f e.2), List.pairwise_map.2 m.sorted⟩

def filterKeys (p : String → Bool) (m : Table α) : Table α :=
  ⟨m.entries.filter fun e => p e.1, m.sorted.filter _⟩

def keySet (m : Table α) : TagSet :=
  ⟨m.keys, List.pairwise_map.2 m.sorted⟩

/-! ## Look-up -/

@[simp]
theorem get?_empty (key : String) : (∅ : Table α).get? key = none := rfl

/-- The new value is found under its key, and under every other key what was found before. -/
theorem find?_insertSorted (key k : String) (value : α) (es : List (String × α)) :
    find? k (insertSorted key value es) = if k = key then some value else find? k es := by
  induction es with
  | nil => simp [insertSorted, find?]
  | cons e es ih =>
    simp only [insertSorted]
    split
    · simp [find?]
    · split
      · next h => by_cases hk : k = key <;> simp [find?, hk, ← h]
      · next h =>
        by_cases hk : k = key
        · subst hk
          simp [find?, h, ih]
        · simp [find?, ih, hk]

/-- After an update the key has the new value, and every other key the old one. -/
@[simp]
theorem get?_insert (m : Table α) (key k : String) (value : α) :
    (m.insert key value).get? k = if k = key then some value else m.get? k :=
  find?_insertSorted key k value m.entries

theorem find?_filter (p : String → Bool) (k : String) (es : List (String × α)) :
    find? k (es.filter fun e => p e.1) = if p k then find? k es else none := by
  induction es with
  | nil => simp [find?]
  | cons e es ih =>
    rw [List.filter_cons]
    by_cases hk : k = e.1
    · subst hk
      by_cases hp : p e.1 <;> simp [find?, ih, hp]
    · by_cases hp : p e.1 <;> simp [find?, ih, hk, hp]

/-- The keys that satisfy `p` keep their values. -/
@[simp]
theorem get?_filterKeys (p : String → Bool) (m : Table α) (k : String) :
    (m.filterKeys p).get? k = if p k then m.get? k else none :=
  find?_filter p k m.entries

end Table
end TagQuery
