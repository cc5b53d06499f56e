import Mathlib.Data.List.Sort
import TagQuery.Table

/-!
# Entries of tables

A look-up finds the value of the only entry with a key.

## Main statements

- `Table.get?_eq_some`: what look-up finds is what the entries say.
- `Table.ext_get?`: a table is determined by its look-ups.
- `Table.get?_mapValues`: look-up after a change of all values.
-/

namespace TagQuery.Table

theorem mem_of_find?_eq_some {key : String} {es : List (String × α)} {value : α}
    (h : find? key es = some value) : (key, value) ∈ es := by
  induction es with
  | nil => simp [find?] at h
  | cons e es ih =>
    by_cases hkey : key = e.1
    · rw [find?, if_pos hkey, Option.some.injEq] at h
      exact List.mem_cons.2 (.inl (Prod.ext hkey h.symm))
    · rw [find?, if_neg hkey] at h
      exact List.mem_cons_of_mem _ (ih h)

theorem find?_eq_some_of_mem {key : String} {es : List (String × α)} {value : α}
    (hsorted : es.Pairwise (·.1 < ·.1)) (h : (key, value) ∈ es) : find? key es = some value := by
  induction es with
  | nil => simp at h
  | cons e es ih =>
    obtain ⟨hlt, hrest⟩ := List.pairwise_cons.1 hsorted
    rcases List.mem_cons.1 h with rfl | hmem
    · rw [find?, if_pos rfl]
    · have hne : key ≠ e.1 := by
        rintro rfl
        exact String.lt_irrefl e.1 (hlt (e.1, value) hmem)
      rw [find?, if_neg hne]
      exact ih hrest hmem

/-- A look-up finds a value exactly when the key has an entry with this value. -/
theorem get?_eq_some {m : Table α} {key : String} {value : α} :
    m.get? key = some value ↔ (key, value) ∈ m.entries :=
  ⟨mem_of_find?_eq_some, find?_eq_some_of_mem m.sorted⟩

/-- Tables with the same look-ups are equal. -/
theorem ext_get? {m n : Table α} (h : ∀ key, m.get? key = n.get? key) : m = n := by
  have hmem (e : String × α) : e ∈ m.entries ↔ e ∈ n.entries := by
    obtain ⟨key, value⟩ := e
    rw [← get?_eq_some, ← get?_eq_some, h]
  have hirrefl : Std.Irrefl fun e d : String × α => e.1 < d.1 := ⟨fun e => String.lt_irrefl e.1⟩
  have hantisymm : Std.Antisymm fun e d : String × α => e.1 < d.1 :=
    ⟨fun e _ hlt hgt => absurd (String.lt_trans hlt hgt) (String.lt_irrefl e.1)⟩
  have hentries : m.entries = n.entries := m.sorted.eq_of_mem_iff n.sorted hmem
  cases m
  cases n
  congr

theorem filter_eq_find? {key : String} {es : List (String × α)}
    (hsorted : es.Pairwise (·.1 < ·.1)) :
    es.filter (·.1 == key) = ((find? key es).map fun value => (key, value)).toList := by
  induction es with
  | nil => rfl
  | cons e es ih =>
    obtain ⟨hlt, hrest⟩ := List.pairwise_cons.1 hsorted
    by_cases hkey : key = e.1
    · have hnone : es.filter (·.1 == key) = [] := by
        apply List.filter_eq_nil_iff.2
        intro d hd h
        have hlt := hlt d hd
        rw [beq_iff_eq.1 h, hkey] at hlt
        exact String.lt_irrefl _ hlt
      rw [find?, if_pos hkey, List.filter_cons_of_pos (by simp [hkey]), hnone, hkey]
      rfl
    · rw [find?, if_neg hkey, List.filter_cons_of_neg (by simpa using Ne.symm hkey), ih hrest]

/-- The entries with a key: the one that a look-up finds. -/
theorem filter_entries (m : Table α) (key : String) :
    m.entries.filter (·.1 == key) = ((m.get? key).map fun value => (key, value)).toList :=
  filter_eq_find? m.sorted

theorem find?_map (f : α → β) (key : String) (es : List (String × α)) :
    find? key (es.map fun e => (e.1, f e.2)) = (find? key es).map f := by
  induction es with
  | nil => rfl
  | cons e es ih =>
    rw [List.map_cons, find?, find?, ih]
    split <;> rfl

@[simp] theorem get?_mapValues (m : Table α) (f : α → β) (key : String) :
    (m.mapValues f).get? key = (m.get? key).map f :=
  find?_map f key m.entries

end TagQuery.Table
