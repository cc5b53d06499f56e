/-!
# Sets of tags

A finite set of tag names, held as the list of its members in increasing order of their code points.
Equal sets are equal values, and a set shows its members in one order only.

## Main definitions

- `TagSet`: a set of names.
- `TagSet.insert`, `TagSet.union`, `TagSet.diff`, `TagSet.map`: sets from sets.
- `TagSet.isSubset`, `TagSet.isDisjoint`: relations between sets.

## Main statements

- `TagSet.ext`: sets with the same members are equal.
-/

namespace TagQuery

/-- A set of tag names. -/
structure TagSet where
  /-- The members in increasing order. -/
  toList : List String
  sorted : toList.Pairwise (· < ·)
  deriving DecidableEq

namespace TagSet

instance : Membership String TagSet := ⟨fun s t => t ∈ s.toList⟩

instance (t : String) (s : TagSet) : Decidable (t ∈ s) :=
  inferInstanceAs (Decidable (t ∈ s.toList))

instance : EmptyCollection TagSet := ⟨⟨[], .nil⟩⟩

instance : Inhabited TagSet := ⟨∅⟩

instance : Repr TagSet := ⟨fun s n => reprPrec s.toList n⟩

/-! ## Insertion -/

def insertSorted (t : String) : List String → List String
  | [] => [t]
  | u :: us =>
    if t < u then t :: u :: us
    else if t = u then u :: us
    else u :: insertSorted t us

theorem mem_insertSorted {x t : String} {us : List String} :
    x ∈ insertSorted t us ↔ x = t ∨ x ∈ us := by
  induction us with
  | nil => simp [insertSorted]
  | cons u us ih =>
    simp only [insertSorted]
    split
    · simp
    · split
      · next h => subst h; simp
      · simp only [List.mem_cons, ih]
        constructor
        · rintro (h | h | h) <;> simp [h]
        · rintro (h | h | h) <;> simp [h]

theorem lt_of_not_lt_of_ne {t u : String} (h : ¬t < u) (hne : t ≠ u) : u < t := by
  rcases String.le_total t u with hle | hle
  · exact absurd (String.le_antisymm hle (String.not_lt.1 h)) hne
  · by_cases hu : u < t
    · exact hu
    · exact absurd (String.le_antisymm (String.not_lt.1 hu) hle) hne

theorem pairwise_insertSorted {t : String} {us : List String} (h : us.Pairwise (· < ·)) :
    (insertSorted t us).Pairwise (· < ·) := by
  induction us with
  | nil => simp [insertSorted]
  | cons u us ih =>
    simp only [insertSorted]
    have hu := List.pairwise_cons.1 h
    split
    · next htu =>
      refine List.pairwise_cons.2 ⟨?_, h⟩
      intro x hx
      rcases List.mem_cons.1 hx with rfl | hx
      · exact htu
      · exact String.lt_trans htu (hu.1 x hx)
    · next htu =>
      split
      · exact h
      · next hne =>
        refine List.pairwise_cons.2 ⟨?_, ih hu.2⟩
        intro x hx
        rcases mem_insertSorted.1 hx with rfl | hx
        · exact lt_of_not_lt_of_ne htu hne
        · exact hu.1 x hx

def insert (t : String) (s : TagSet) : TagSet :=
  ⟨insertSorted t s.toList, pairwise_insertSorted s.sorted⟩

def ofList (ts : List String) : TagSet :=
  ts.foldr insert ∅

def singleton (t : String) : TagSet :=
  ⟨[t], List.pairwise_singleton _ _⟩

/-- The only member of a set of one. -/
def single? (s : TagSet) : Option String :=
  match s.toList with
  | [t] => some t
  | _ => none

/-! ## Operations -/

def size (s : TagSet) : Nat := s.toList.length

def isEmpty (s : TagSet) : Bool := s.toList.isEmpty

def filter (p : String → Bool) (s : TagSet) : TagSet :=
  ⟨s.toList.filter p, s.sorted.filter _⟩

def union (s t : TagSet) : TagSet :=
  s.toList.foldr insert t

instance : Union TagSet := ⟨union⟩

def diff (s t : TagSet) : TagSet :=
  s.filter fun x => !decide (x ∈ t)

def erase (s : TagSet) (t : String) : TagSet :=
  s.filter (· != t)

def map (f : String → String) (s : TagSet) : TagSet :=
  ofList (s.toList.map f)

def flatMap (s : TagSet) (f : String → TagSet) : TagSet :=
  s.toList.foldr (fun t out => f t ∪ out) ∅

def unions (sets : List TagSet) : TagSet :=
  sets.foldr (· ∪ ·) ∅

def isSubset (s t : TagSet) : Bool :=
  s.toList.all fun x => decide (x ∈ t)

def isDisjoint (s t : TagSet) : Bool :=
  s.toList.all fun x => !decide (x ∈ t)

/-! ## Membership -/

theorem mem_toList {t : String} {s : TagSet} : t ∈ s.toList ↔ t ∈ s := Iff.rfl

@[simp]
theorem not_mem_empty (t : String) : t ∉ (∅ : TagSet) := by
  simp [← mem_toList, EmptyCollection.emptyCollection]

@[simp]
theorem mem_insert {x t : String} {s : TagSet} : x ∈ s.insert t ↔ x = t ∨ x ∈ s :=
  mem_insertSorted

@[simp]
theorem mem_ofList {x : String} {ts : List String} : x ∈ ofList ts ↔ x ∈ ts := by
  induction ts with
  | nil => simp [ofList]
  | cons t ts ih =>
    simp only [ofList, List.foldr_cons, mem_insert, List.mem_cons] at ih ⊢
    rw [ih]

@[simp]
theorem mem_singleton {x t : String} : x ∈ singleton t ↔ x = t := by
  simp [← mem_toList, singleton]

@[simp]
theorem mem_filter {x : String} {p : String → Bool} {s : TagSet} :
    x ∈ s.filter p ↔ x ∈ s ∧ p x = true := by
  simp [← mem_toList, filter]

@[simp]
theorem mem_union {x : String} {s t : TagSet} : x ∈ s ∪ t ↔ x ∈ s ∨ x ∈ t := by
  have h : ∀ us : List String, x ∈ us.foldr insert t ↔ x ∈ us ∨ x ∈ t := by
    intro us
    induction us with
    | nil => simp
    | cons u us ih => simp [ih, or_assoc]
  exact h s.toList

@[simp]
theorem mem_diff {x : String} {s t : TagSet} : x ∈ s.diff t ↔ x ∈ s ∧ x ∉ t := by
  simp [diff]

@[simp]
theorem mem_erase {x t : String} {s : TagSet} : x ∈ s.erase t ↔ x ∈ s ∧ x ≠ t := by
  simp [erase]

@[simp]
theorem mem_map {x : String} {f : String → String} {s : TagSet} :
    x ∈ s.map f ↔ ∃ t ∈ s, f t = x := by
  simp [map, mem_toList]

@[simp]
theorem mem_flatMap {x : String} {s : TagSet} {f : String → TagSet} :
    x ∈ s.flatMap f ↔ ∃ t ∈ s, x ∈ f t := by
  have h : ∀ us : List String,
      x ∈ us.foldr (fun t out => f t ∪ out) ∅ ↔ ∃ t ∈ us, x ∈ f t := by
    intro us
    induction us with
    | nil => simp
    | cons u us ih => simp [ih]
  exact h s.toList

@[simp]
theorem mem_unions {x : String} {sets : List TagSet} : x ∈ unions sets ↔ ∃ s ∈ sets, x ∈ s := by
  induction sets with
  | nil => simp [unions]
  | cons s sets ih =>
    simp only [unions, List.foldr_cons, mem_union, List.mem_cons] at ih ⊢
    rw [ih]
    simp

theorem isSubset_iff {s t : TagSet} : s.isSubset t = true ↔ ∀ x ∈ s, x ∈ t := by
  simp [isSubset, mem_toList]

theorem isDisjoint_iff {s t : TagSet} : s.isDisjoint t = true ↔ ∀ x ∈ s, x ∉ t := by
  simp [isDisjoint, mem_toList]

/-! ## Extensionality -/

/-- Increasing lists with the same members are equal. -/
theorem eq_of_sorted {us vs : List String} (hu : us.Pairwise (· < ·)) (hv : vs.Pairwise (· < ·))
    (h : ∀ x, x ∈ us ↔ x ∈ vs) : us = vs := by
  induction us generalizing vs with
  | nil =>
    cases vs with
    | nil => rfl
    | cons v vs => exact absurd ((h v).2 (by simp)) (by simp)
  | cons u us ih =>
    cases vs with
    | nil => exact absurd ((h u).1 (by simp)) (by simp)
    | cons v vs =>
      have hu' := List.pairwise_cons.1 hu
      have hv' := List.pairwise_cons.1 hv
      have huv : u = v := by
        rcases List.mem_cons.1 ((h u).1 (by simp)) with heq | hmem
        · exact heq
        · rcases List.mem_cons.1 ((h v).2 (by simp)) with heq | hmem'
          · exact heq.symm
          · exact absurd (String.lt_trans (hu'.1 v hmem') (hv'.1 u hmem)) (String.lt_irrefl u)
      subst huv
      congr 1
      refine ih hu'.2 hv'.2 fun x => ?_
      constructor
      · intro hx
        rcases List.mem_cons.1 ((h x).1 (by simp [hx])) with rfl | hx'
        · exact absurd (hu'.1 x hx) (String.lt_irrefl x)
        · exact hx'
      · intro hx
        rcases List.mem_cons.1 ((h x).2 (by simp [hx])) with rfl | hx'
        · exact absurd (hv'.1 x hx) (String.lt_irrefl x)
        · exact hx'

/-- Sets with the same members are equal. -/
@[ext]
theorem ext {s t : TagSet} (h : ∀ x, x ∈ s ↔ x ∈ t) : s = t := by
  cases s
  cases t
  congr
  exact eq_of_sorted ‹_› ‹_› h

end TagSet
end TagQuery
