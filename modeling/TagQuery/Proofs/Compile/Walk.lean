import TagQuery.Compile
import TagQuery.Proofs.Compile.References
import TagQuery.Proofs.Table

/-!
# The walk over a term

What a walk does follows from what the parts of its dialect do and from what the references of the
term do. So two walks that agree on these agree.

The walk looks saved searches up among those that are not being replaced. It makes no difference to
look them up among all of them: a reference to one that is being replaced is refused before. The
references inside one another are never more than there are saved searches.

## Main definitions

- `Compiler.Agrees`: two computations do the same, each under a path of its own.
- `Dialect.KeepsPath`, `Dialect.IgnoresPath`: what the parts of a dialect do with the path.
- `Dialect.referenceUpTo`: references looked up among all saved searches, down to some depth.

## Main statements

- `Dialect.walk_agrees`: walks agree when their references do.
- `Dialect.reference_of_not_mem`: the three things that a reference can do.
- `Dialect.walk_referenceUpTo`: the bound on the depth is never met.
-/

namespace TagQuery

namespace Compiler

variable {α β : Type}

/-! ## Running -/

theorem runFrom_get (ctx : Context) : (get : Compiler Context).runFrom ctx = (.ok ctx, ctx) := rfl

theorem runFrom_bind_of_ok {m : Compiler α} {f : α → Compiler β} {ctx after : Context} {a : α}
    (h : m.runFrom ctx = (.ok a, after)) : (m >>= f).runFrom ctx = (f a).runFrom after := by
  change ExceptT.bindCont f (m.runFrom ctx).1 (m.runFrom ctx).2 = _
  rw [h]
  rfl

theorem runFrom_bind_of_error {m : Compiler α} {f : α → Compiler β} {ctx after : Context}
    {e : SearchError} (h : m.runFrom ctx = (.error e, after)) :
    (m >>= f).runFrom ctx = (.error e, after) := by
  change ExceptT.bindCont f (m.runFrom ctx).1 (m.runFrom ctx).2 = _
  rw [h]
  rfl

/-- If the longer path is left as it is, the name that is taken off is the one that was put on. -/
theorem runFrom_whileExpanding {m : Compiler α} {name : String} {p : List String}
    {hidden after : Bool} {outcome : Except SearchError α}
    (h : m.runFrom ⟨p ++ [name], hidden⟩ = (outcome, ⟨p ++ [name], after⟩)) :
    (whileExpanding name m).runFrom ⟨p, hidden⟩ = (outcome, ⟨p, after⟩) := by
  change ((m.runFrom ⟨p ++ [name], hidden⟩).1,
    { (m.runFrom ⟨p ++ [name], hidden⟩).2 with
      expanding := (m.runFrom ⟨p ++ [name], hidden⟩).2.expanding.dropLast }) = _
  rw [h]
  dsimp only
  rw [List.dropLast_concat]

/-! ## Agreement -/

/-- Two computations do the same, each under a path of its own, and leave the path as it is. -/
def Agrees (p q : List String) (m m' : Compiler α) : Prop :=
  ∀ hidden, ∃ outcome after,
    m.runFrom ⟨p, hidden⟩ = (outcome, ⟨p, after⟩) ∧ m'.runFrom ⟨q, hidden⟩ = (outcome, ⟨q, after⟩)

namespace Agrees

variable {p q : List String}

theorem pure (a : α) : Agrees p q (Pure.pure a : Compiler α) (Pure.pure a) :=
  fun hidden => ⟨.ok a, hidden, rfl, rfl⟩

theorem throw (e : SearchError) : Agrees p q (throw e : Compiler α) (throw e) :=
  fun hidden => ⟨.error e, hidden, rfl, rfl⟩

theorem bind {m m' : Compiler α} {f f' : α → Compiler β} (h : Agrees p q m m')
    (hf : ∀ a, Agrees p q (f a) (f' a)) : Agrees p q (m >>= f) (m' >>= f') := by
  intro hidden
  obtain ⟨outcome, after, hm, hm'⟩ := h hidden
  cases outcome with
  | ok a =>
    rw [runFrom_bind_of_ok hm, runFrom_bind_of_ok hm']
    exact hf a after
  | error e => exact ⟨.error e, after, runFrom_bind_of_error hm, runFrom_bind_of_error hm'⟩

theorem mapM {ι : Type} {xs : List ι} {f f' : ι → Compiler α}
    (h : ∀ x ∈ xs, Agrees p q (f x) (f' x)) : Agrees p q (xs.mapM f) (xs.mapM f') := by
  induction xs with
  | nil => exact pure []
  | cons x xs ih =>
    rw [List.mapM_cons, List.mapM_cons]
    refine bind (h x List.mem_cons_self) fun a => ?_
    exact bind (ih fun y hy => h y (List.mem_cons_of_mem _ hy)) fun as => pure (a :: as)

/-- What is done while a name is replaced happens under a longer path. -/
theorem whileExpanding {m m' : Compiler α} {name : String}
    (h : Agrees (p ++ [name]) (q ++ [name]) m m') :
    Agrees p q (m.whileExpanding name) (m'.whileExpanding name) := by
  intro hidden
  obtain ⟨outcome, after, hm, hm'⟩ := h hidden
  exact ⟨outcome, after, runFrom_whileExpanding hm, runFrom_whileExpanding hm'⟩

theorem eq {m m' : Compiler α} (h : Agrees p p m m') (hidden : Bool) :
    m.runFrom ⟨p, hidden⟩ = m'.runFrom ⟨p, hidden⟩ := by
  obtain ⟨outcome, after, hm, hm'⟩ := h hidden
  rw [hm, hm']

end Agrees

end Compiler

/-! ## Walks -/

namespace Dialect

open Compiler (Agrees)

variable {α : Type} {d : Dialect α}

theorem walkAll_eq_mapM (d : Dialect α) (reference : String → Compiler α) (ts : List Term) :
    d.walkAll reference ts = ts.mapM (d.walk reference) := by
  induction ts with
  | nil => rfl
  | cons t ts ih => rw [walkAll, ih, List.mapM_cons]

/-- The parts of a dialect do the same under two paths, and leave them as they are. -/
structure AgreesOn (d : Dialect α) (p q : List String) : Prop where
  conjunction (parts : List α) : Agrees p q (d.conjunction parts) (d.conjunction parts)
  disjunction (parts : List α) : Agrees p q (d.disjunction parts) (d.disjunction parts)
  negation (part : α) : Agrees p q (d.negation part) (d.negation part)
  field (t : FieldTerm) : Agrees p q (d.field t) (d.field t)
  properties (ps : List PropertyPredicate) : Agrees p q (d.properties ps) (d.properties ps)

/-- The parts of a dialect leave the path as it is: they may look at it, but only the walk changes
it. -/
def KeepsPath (d : Dialect α) : Prop := ∀ p, d.AgreesOn p p

def IgnoresPath (d : Dialect α) : Prop := ∀ p q, d.AgreesOn p q

theorem IgnoresPath.keepsPath (h : d.IgnoresPath) : d.KeepsPath := fun p => h p p

/-- Walks agree when their references do. -/
theorem walk_agrees {p q : List String} (hd : d.AgreesOn p q) {ref ref' : String → Compiler α}
    {t : Term} (h : ∀ name ∈ t.references, Agrees p q (ref name) (ref' name)) :
    Agrees p q (d.walk ref t) (d.walk ref' t) := by
  have hgroup {terms : List Term}
      (ih : ∀ t ∈ terms, (∀ name ∈ t.references, Agrees p q (ref name) (ref' name)) →
        Agrees p q (d.walk ref t) (d.walk ref' t))
      (hterms : ∀ name ∈ terms.flatMap Term.references, Agrees p q (ref name) (ref' name)) :
      Agrees p q (d.walkAll ref terms) (d.walkAll ref' terms) := by
    rw [walkAll_eq_mapM, walkAll_eq_mapM]
    exact .mapM fun t ht => ih t ht fun name hname =>
      hterms name (List.mem_flatMap.2 ⟨t, ht, hname⟩)
  induction t using Term.treeInduction with
  | conjunction terms ih =>
    rw [Term.references_conjunction] at h
    exact .bind (hgroup ih h) hd.conjunction
  | disjunction terms ih =>
    rw [Term.references_disjunction] at h
    exact .bind (hgroup ih h) hd.disjunction
  | negation t ih => exact .bind (ih h) hd.negation
  | field f => exact hd.field f
  | properties ps => exact hd.properties ps
  | saved name => exact h name List.mem_cons_self

/-- To walk over a term with replaced references is to walk over what stands in their place. -/
theorem walk_replace (d : Dialect α) (ref : String → Compiler α) (σ : String → Term) (t : Term) :
    d.walk ref (t.replace σ) = d.walk (fun name => d.walk ref (σ name)) t := by
  have hgroup {terms : List Term}
      (ih : ∀ t ∈ terms, d.walk ref (t.replace σ) = d.walk (fun name => d.walk ref (σ name)) t) :
      d.walkAll ref (terms.map (Term.replace σ)) =
        d.walkAll (fun name => d.walk ref (σ name)) terms := by
    induction terms with
    | nil => rfl
    | cons t ts ihts =>
      rw [List.map_cons, walkAll, walkAll, ih t List.mem_cons_self,
        ihts fun x hx => ih x (List.mem_cons_of_mem _ hx)]
  induction t using Term.treeInduction with
  | conjunction terms ih => rw [Term.replace_conjunction, walk, walk, hgroup ih]
  | disjunction terms ih => rw [Term.replace_disjunction, walk, walk, hgroup ih]
  | negation t ih => rw [Term.replace_negation, walk, walk, ih]
  | field f => rfl
  | properties ps => rfl
  | saved name => rfl

/-! ## References -/

/-- The saved searches under other names than those of a path. -/
def others (saved : Table Term) (path : List String) : List (String × Term) :=
  saved.entries.filter fun e => decide (e.1 ∉ path)

theorem others_nil (saved : Table Term) : others saved [] = saved.entries := by
  simp [others]

theorem others_append (saved : Table Term) (path : List String) (name : String) :
    others saved (path ++ [name]) =
      (others saved path).filter fun e => decide (e.1 ≠ name) := by
  simp [others, List.filter_filter, Bool.and_comm]

theorem pairwise_others (saved : Table Term) (path : List String) :
    (others saved path).Pairwise (·.1 < ·.1) :=
  saved.sorted.filter _

/-- Outside of the path, saved searches are found among the others. -/
theorem find?_others {saved : Table Term} {path : List String} {name : String} (h : name ∉ path) :
    Table.find? name (others saved path) = saved.get? name := by
  unfold others Table.get?
  induction saved.entries with
  | nil => rfl
  | cons e es ih =>
    rw [List.filter_cons, Table.find?]
    by_cases hname : name = e.1
    · rw [← hname, if_pos (decide_eq_true h), Table.find?, if_pos hname, if_pos rfl]
    · rw [if_neg hname, ← ih]
      split
      · rw [Table.find?, if_neg hname]
      · rfl

/-- To take an entry is to look it up, and to leave the entries with other names. -/
theorem takeSaved_eq (name : String) {es : List (String × Term)}
    (hsorted : es.Pairwise (·.1 < ·.1)) :
    (takeSaved name es).map (fun entry => (entry.1, entry.2.1)) =
      (Table.find? name es).map fun t => (t, es.filter fun e => decide (e.1 ≠ name)) := by
  induction es with
  | nil => rfl
  | cons e es ih =>
    obtain ⟨hlt, hrest⟩ := List.pairwise_cons.1 hsorted
    by_cases hname : e.1 = name
    · have hkept : es.filter (fun e => decide (e.1 ≠ name)) = es := by
        refine List.filter_eq_self.2 fun x hx => decide_eq_true fun hx' => ?_
        have hlt := hlt x hx
        rw [hx', hname] at hlt
        exact String.lt_irrefl _ hlt
      rw [takeSaved, if_pos hname, Table.find?, if_pos hname.symm,
        List.filter_cons_of_neg (by simp [hname]), hkept]
      rfl
    · rw [takeSaved, if_neg hname, Table.find?, if_neg (Ne.symm hname),
        List.filter_cons_of_pos (by simp [hname])]
      have hcons := congrArg (Option.map fun entry => (entry.1, e :: entry.2)) (ih hrest)
      simpa only [Option.map_map, Function.comp_def] using hcons

section
variable (d : Dialect α)

/-- A reference to what is being replaced is a cycle. -/
theorem reference_of_mem {path : List String} {name : String} (h : name ∈ path)
    (es : List (String × Term)) (hidden : Bool) :
    (d.reference es name).runFrom ⟨path, hidden⟩ =
      (.error (.savedSearchCycle (path ++ [name])), ⟨path, hidden⟩) := by
  rw [reference, Compiler.runFrom_bind_of_ok (Compiler.runFrom_get _), if_pos h]
  rfl

/-- A reference to what is not being replaced is what is saved, or matches nothing. -/
theorem reference_of_not_mem {saved : Table Term} {path : List String} {name : String}
    (h : name ∉ path) (hidden : Bool) :
    (d.reference (others saved path) name).runFrom ⟨path, hidden⟩ =
      match saved.get? name with
      | none => (d.disjunction []).runFrom ⟨path, hidden⟩
      | some t => (Compiler.whileExpanding name
          (d.walk (d.reference (others saved (path ++ [name]))) t)).runFrom ⟨path, hidden⟩ := by
  have htake := takeSaved_eq name (pairwise_others saved path)
  rw [find?_others h] at htake
  rw [reference, Compiler.runFrom_bind_of_ok (Compiler.runFrom_get _), if_neg h]
  cases hentry : takeSaved name (others saved path) with
  | none =>
    rw [hentry, Option.map_none, eq_comm, Option.map_eq_none_iff] at htake
    rw [htake]
  | some entry =>
    obtain ⟨t, rest, _⟩ := entry
    rw [hentry, Option.map_some, eq_comm, Option.map_eq_some_iff] at htake
    obtain ⟨_, hget, heq⟩ := htake
    obtain ⟨rfl, rfl⟩ := Prod.mk.inj heq
    rw [hget, others_append]

end

/-! ## Depth -/

/-- References looked up among all saved searches: `depth` of them inside one another, and `stuck`
in place of one that is deeper. -/
def referenceUpTo (d : Dialect α) (saved : Table Term) (stuck : Compiler α) :
    Nat → String → Compiler α
  | 0, _ => stuck
  | depth + 1, name => do
    if name ∈ (← get).expanding then
      throw (.savedSearchCycle ((← get).expanding ++ [name]))
    else
      match saved.get? name with
      | none => d.disjunction []
      | some t => Compiler.whileExpanding name (d.walk (d.referenceUpTo saved stuck depth) t)

/-- To replace one more name leaves fewer others. -/
theorem length_others_lt {saved : Table Term} {path : List String} {name : String} {t : Term}
    (h : name ∉ path) (hget : saved.get? name = some t) :
    (others saved (path ++ [name])).length < (others saved path).length := by
  rw [others_append]
  refine List.length_filter_lt_length_iff_exists.2 ⟨(name, t), ?_, by simp⟩
  exact Table.mem_of_find?_eq_some ((find?_others h).trans hget)

/-- What is being replaced does not have to be left out of the saved searches: with the bound above
the number of the others, they are looked up among all of them alike. -/
theorem reference_agrees {d : Dialect α} (hd : d.KeepsPath) {saved : Table Term}
    (stuck : Compiler α) {depth : Nat} {path : List String} (name : String)
    (hdepth : (others saved path).length < depth) :
    Agrees path path (d.reference (others saved path) name)
      (d.referenceUpTo saved stuck depth name) := by
  induction depth generalizing path name with
  | zero => omega
  | succ depth ih =>
    intro hidden
    rw [referenceUpTo, Compiler.runFrom_bind_of_ok (Compiler.runFrom_get _)]
    by_cases hname : name ∈ path
    · rw [if_pos hname]
      exact ⟨_, hidden, reference_of_mem d hname _ hidden, rfl⟩
    · rw [if_neg hname, reference_of_not_mem d hname]
      cases hget : saved.get? name with
      | none => exact (hd path).disjunction [] hidden
      | some t =>
        -- one more name is replaced, and so the others stay below the bound
        have hdeeper : (others saved (path ++ [name])).length < depth := by
          have hlt := length_others_lt hname hget
          omega
        have hwalk : Agrees (path ++ [name]) (path ++ [name])
            (d.walk (d.reference (others saved (path ++ [name]))) t)
            (d.walk (d.referenceUpTo saved stuck depth) t) :=
          walk_agrees (hd _) fun b _ => ih b hdeeper
        exact hwalk.whileExpanding hidden

/-- A walk that looks saved searches up among all of them never meets the bound on the depth, if
that is above their number. -/
theorem walk_referenceUpTo {d : Dialect α} (hd : d.KeepsPath) {saved : Table Term}
    (stuck : Compiler α) {depth : Nat} (hdepth : saved.size < depth) (t : Term) :
    (d.walk (d.referenceUpTo saved stuck depth) t).runFrom .start =
      (d.compile saved t).runFrom .start := by
  have hothers : (others saved []).length < depth := by rwa [others_nil]
  have hwalk : Agrees [] [] (d.walk (d.reference (others saved [])) t)
      (d.walk (d.referenceUpTo saved stuck depth) t) :=
    walk_agrees (hd []) fun name _ => reference_agrees hd stuck name hothers
  rw [others_nil] at hwalk
  exact (hwalk.eq false).symm

end Dialect
end TagQuery
