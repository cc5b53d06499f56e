import TagQuery.Proofs.Expr.Stars
import TagQuery.Proofs.Sql.Leaves

/-!
# Statements and predicates agree

The statement that a search stores its rows with, run on the tables of a library, selects the files
that the predicate of the expression accepts, each once. Its condition is never unknown.

## Main definitions

- `Sql.Library.database`: the tables of a library.

## Main statements

- `Sql.Library.eval_formula`: the truth value of a formula is that of its expression.
- `Sql.Library.selection_agrees`: the rows that are selected are those of the files accepted.
-/

namespace TagQuery

namespace Sql

/-! ## Groups -/

theorem forall₂_of_mem {α β : Type} {r s : α → β → Prop} {as : List α} {bs : List β}
    (h : List.Forall₂ r as bs) (hs : ∀ a ∈ as, ∀ b ∈ bs, r a b → s a b) : List.Forall₂ s as bs := by
  rw [List.forall₂_iff_zip] at h ⊢
  refine ⟨h.1, fun hzip => ?_⟩
  obtain ⟨ha, hb⟩ := List.of_mem_zip hzip
  exact hs _ ha _ hb (h.2 hzip)

namespace Condition

theorem exists_ofExpr_of_mem {es : List Expr} {cs : List Condition}
    (h : List.Forall₂ (fun e c => ofExpr e = .ok c) es cs) {e : Expr} (he : e ∈ es) :
    ∃ c, ofExpr e = .ok c := by
  induction h with
  | nil => contradiction
  | cons hfirst _ ih =>
    rcases List.mem_cons.1 he with rfl | he
    · exact ⟨_, hfirst⟩
    · exact ih he

/-- An expression that has a condition can be evaluated. -/
theorem fault?_of_ofExpr {e : Expr} {c : Condition} (h : ofExpr e = .ok c) : e.fault? = none := by
  have hgroup {parts : List Expr} {cs : List Condition}
      (ih : ∀ e ∈ parts, ∀ {c}, ofExpr e = .ok c → e.fault? = none)
      (hparts : List.Forall₂ (fun e c => ofExpr e = .ok c) parts cs) :
      Expr.firstFault? parts = none := by
    refine Expr.firstFault?_eq_none.2 fun e he => ?_
    obtain ⟨d, hd⟩ := exists_ofExpr_of_mem hparts he
    exact ih e he hd
  induction e using Expr.treeInduction generalizing c with
  | leaf e he =>
    cases e with
    | conjunction _ | disjunction _ | negation _ => contradiction
    | rating bound => exact if_pos (ofExpr_rating h).1
    | sample p => exact if_pos (ofExpr_sample h).1
    | _ => rfl
  | conjunction parts ih =>
    rcases ofExpr_conjunction h with ⟨rfl, -⟩ | ⟨cs, -, hparts, -⟩
    · rfl
    · exact hgroup ih hparts
  | disjunction parts ih =>
    rcases ofExpr_disjunction h with ⟨rfl, -⟩ | ⟨cs, -, hparts, -⟩
    · rfl
    · exact hgroup ih hparts
  | negation e ih =>
    obtain ⟨d, hd, -⟩ := ofExpr_negation h
    exact ih hd

theorem anyNeeds_eq_any (join : Join) (cs : List Condition) :
    anyNeeds join cs = cs.any (needs join) := by
  induction cs with
  | nil => rfl
  | cons c cs ih => rw [anyNeeds, ih, List.any_cons]

variable {db : Database} {scope : Scope} {q : Expr → Bool}

theorem eval_conjunctionFormula {es : List Expr} {cs : List Condition} (hne : cs ≠ [])
    (h : List.Forall₂ (fun e c => c.formula.eval db scope = some (q e)) es cs) :
    (conjunctionFormula cs).eval db scope = some (es.all q) := by
  induction h with
  | nil => contradiction
  | @cons e c es cs hfirst hrest ih =>
    cases cs with
    | nil =>
      cases hrest
      rw [conjunctionFormula, hfirst, List.all_cons, List.all_nil, Bool.and_true]
    | cons d ds =>
      rw [conjunctionFormula, Formula.eval, hfirst, ih (List.cons_ne_nil d ds), Truth.and_some,
        List.all_cons]
      simp

theorem eval_disjunctionFormula {es : List Expr} {cs : List Condition} (hne : cs ≠ [])
    (h : List.Forall₂ (fun e c => c.formula.eval db scope = some (q e)) es cs) :
    (disjunctionFormula cs).eval db scope = some (es.any q) := by
  induction h with
  | nil => contradiction
  | @cons e c es cs hfirst hrest ih =>
    cases cs with
    | nil =>
      cases hrest
      rw [disjunctionFormula, hfirst, List.any_cons, List.any_nil, Bool.or_false]
    | cons d ds =>
      rw [disjunctionFormula, Formula.eval, hfirst, ih (List.cons_ne_nil d ds), Truth.or_some,
        List.any_cons]
      simp

end Condition

/-- The condition of a script is that of the expression in which stars are resolved. -/
theorem Script.exists_condition {scale : RatingScale} {e : Expr} {s : Script}
    (h : Script.ofExpr scale e = .ok s) :
    ∃ c, Condition.ofExpr (e.resolveStars scale.stars) = .ok c ∧ s.category = scale.category ∧
      s.condition = c := by
  unfold Script.ofExpr at h
  cases hc : Condition.ofExpr (e.resolveStars scale.stars) with
  | error _ => simp [hc, Except.map] at h
  | ok c =>
    rw [hc] at h
    obtain rfl := Except.ok.inj h
    exact ⟨c, rfl, rfl, rfl⟩

namespace Library

variable {l : Library} {db : Database} {category : String} {item : Item} {scope : Scope}

/-- Rows that show a file for a group show it for the parts of the group. -/
theorem ShowsItem.of_needs {c d : Condition} (h : l.ShowsItem category item c scope)
    (hneeds : ∀ join, d.needs join = true → c.needs join = true) :
    l.ShowsItem category item d scope :=
  ⟨h.info, fun join hjoin => h.joined join (hneeds join hjoin)⟩

/-- The truth value of a formula is that of its expression. -/
theorem eval_formula (hstores : l.Stores db) (hitem : item ∈ l.items) (hitemPlain : item.IsPlain)
    {e : Expr} {c : Condition} (hsample : e.hasSample = false) (hplain : ∀ x ∈ e.leaves, x.IsPlain)
    (hc : Condition.ofExpr e = .ok c) (h : l.ShowsItem category item c scope) :
    c.formula.eval db scope = some (e.holds category item) := by
  -- A part needs no join that its group does not need, so the same rows show the file for it.
  induction e using Expr.treeInduction generalizing c with
  | leaf e he =>
    have hleaf := hplain e (Expr.leaves_of_isLeaf he ▸ List.mem_singleton_self e)
    exact eval_formula_of_isLeaf hstores hitem he hsample hleaf hitemPlain hc h
  | conjunction parts ih =>
    rw [Expr.hasSample_conjunction, List.any_eq_false] at hsample
    rw [Expr.forall_leaves_conjunction] at hplain
    rcases Condition.ofExpr_conjunction hc with ⟨rfl, rfl⟩ | ⟨cs, hne, hparts, rfl⟩
    · rfl
    · rw [Expr.holds_conjunction]
      refine Condition.eval_conjunctionFormula hne (forall₂_of_mem hparts fun e he d hd hed => ?_)
      have hneeds (join : Join) (hjoin : d.needs join = true) :
          (Condition.all cs).needs join = true :=
        (Condition.anyNeeds_eq_any join cs).trans (List.any_eq_true.2 ⟨d, hd, hjoin⟩)
      exact ih e he (Bool.eq_false_iff.2 (hsample e he)) (hplain e he) hed (h.of_needs hneeds)
  | disjunction parts ih =>
    rw [Expr.hasSample_disjunction, List.any_eq_false] at hsample
    rw [Expr.forall_leaves_disjunction] at hplain
    rcases Condition.ofExpr_disjunction hc with ⟨rfl, rfl⟩ | ⟨cs, hne, hparts, rfl⟩
    · rfl
    · rw [Expr.holds_disjunction]
      refine Condition.eval_disjunctionFormula hne (forall₂_of_mem hparts fun e he d hd hed => ?_)
      have hneeds (join : Join) (hjoin : d.needs join = true) :
          (Condition.any cs).needs join = true :=
        (Condition.anyNeeds_eq_any join cs).trans (List.any_eq_true.2 ⟨d, hd, hjoin⟩)
      exact ih e he (Bool.eq_false_iff.2 (hsample e he)) (hplain e he) hed (h.of_needs hneeds)
  | negation e ih =>
    obtain ⟨d, hd, rfl⟩ := Condition.ofExpr_negation hc
    have hpart := ih hsample hplain hd (h.of_needs fun _ hjoin => hjoin)
    rw [Condition.formula_not, Formula.eval, hpart, Truth.not_some, Expr.holds_negation]

/-! ## Tables -/

def database (l : Library) : Database
  | "HashInfo" => l.items.map (infoRow l.version)
  | "Paths" => l.items.flatMap pathRows
  | "HashTags" => l.items.flatMap (hashTagRows l.tagId)
  | "HashPeople" => l.items.flatMap hashPeopleRows
  | "HashDetails" => l.items.flatMap detailRows
  | "HashRatings" => l.items.flatMap ratingRows
  | "Tags" => (tagsOf l.items).map fun t => tagRow (l.tagId t) t
  | "Persons" => (peopleOf l.items).map personRow
  | "PersonAliases" => (peopleOf l.items).flatMap fun p => p.aliases.map (aliasRow p)
  | _ => []

theorem stores_database (l : Library) : l.Stores l.database where
  info := .refl _
  paths := .refl _
  hashTags := .refl _
  hashPeople := .refl _
  details := .refl _
  ratings := .refl _
  tags row := by simp [database, eq_comm]
  persons row := by simp [database, eq_comm]
  aliases row := by simp [database, eq_comm]

/-! ## Rows in scope -/

theorem get_foldl_of_ne {joins : List Join} {rowOf : Join → Row} {scope : Scope}
    {name column : String} (h : ∀ join ∈ joins, join.name ≠ name) :
    Scope.get (joins.foldl (fun scope join => (join.name, rowOf join) :: scope) scope) name column =
      scope.get name column := by
  induction joins generalizing scope with
  | nil => rfl
  | cons join joins ih =>
    obtain ⟨hfirst, hrest⟩ := List.forall_mem_cons.1 h
    rw [List.foldl_cons, ih hrest, Scope.get_cons_of_ne hfirst.symm]

theorem name_inj {i j : Join} (h : i.name = j.name) : i = j := by
  cases i <;> cases j <;> first | rfl | exact absurd h (by decide)

theorem get_foldl_of_mem {joins : List Join} (hnodup : joins.Nodup) {rowOf : Join → Row}
    {scope : Scope} {join : Join} (hjoin : join ∈ joins) (column : String) :
    Scope.get (joins.foldl (fun scope join => (join.name, rowOf join) :: scope) scope)
      join.name column = (rowOf join).get column := by
  induction joins generalizing scope with
  | nil => contradiction
  | cons first joins ih =>
    obtain ⟨hfirst, hrest⟩ := List.nodup_cons.1 hnodup
    rcases List.mem_cons.1 hjoin with rfl | hjoin
    · -- No later join has the same name, so none hides the row.
      have hother : ∀ j ∈ joins, j.name ≠ join.name := fun j hj hname =>
        hfirst (name_inj hname ▸ hj)
      rw [List.foldl_cons, get_foldl_of_ne hother, Scope.get_cons_self]
    · rw [List.foldl_cons, ih hrest hjoin]

/-- The rows in scope for a file show the file. -/
theorem showsItem_itemScope (l : Library) (category : String) (c : Condition) (item : Item) :
    l.ShowsItem category item c (itemScope l.version category c.joins item) where
  info column := by
    rw [itemScope, get_foldl_of_ne fun join _ => name_ne_h join, Scope.get_cons_self]
  joined join hneeds column := by
    have hall : Join.all.Nodup := by decide
    have hjoin : join ∈ c.joins := by
      refine List.mem_filter.2 ⟨?_, hneeds⟩
      cases join <;> decide
    exact get_foldl_of_mem (hall.filter _) hjoin column

/-! ## Selected rows -/

def selectedRow (version : Item → Value) (item : Item) : List Value :=
  [.text item.hash, .integer item.fileSize, .text item.fileType, version item]

theorem columns_itemScope (l : Library) (category : String) (c : Condition) (item : Item) :
    ((selectionOf category c).columns.map fun (source, column) =>
      Scope.get (itemScope l.version category c.joins item) source column) =
      selectedRow l.version item := by
  have hinfo := (l.showsItem_itemScope category c item).info
  simp [selectionOf, hinfo, infoRow, selectedRow]

theorem nodup_selectedRow (l : Library) (p : Item → Bool) :
    ((l.items.filter p).map (selectedRow l.version)).Nodup := by
  have hhashes : ((l.items.filter p).map (·.hash)).Nodup :=
    l.nodup_hashes.sublist (List.filter_sublist.map _)
  refine List.Nodup.of_map (fun row => row.head?) ?_
  rw [List.map_map]
  have hhead : ((fun row : List Value => row.head?) ∘ selectedRow l.version) =
      (fun hash => some (.text hash)) ∘ (·.hash) := rfl
  rw [hhead, ← List.map_map]
  exact hhashes.map fun s t h => Value.text.inj (Option.some.inj h)

/-- The rows that are selected are those of the files with a true formula. -/
theorem rows_selectionOf (hdb : l.Stores db) {c : Condition} {p : Item → Bool}
    (hp : ∀ item ∈ l.items, c.formula.eval db (itemScope l.version category c.joins item) =
      some (p item)) :
    ((selectionOf category c).rows db).Perm
      ((l.items.filter p).map (selectedRow l.version)) := by
  have hscopes := scopes_selectionOf hdb category c
  have hkept := (hscopes.filter fun scope => c.formula.eval db scope == some true).map fun scope =>
    (selectionOf category c).columns.map fun (source, column) => scope.get source column
  refine hkept.trans (List.Perm.of_eq ?_)
  have hfilter : l.items.filter ((fun scope => c.formula.eval db scope == some true) ∘
      itemScope l.version category c.joins) = l.items.filter p :=
    List.filter_congr fun item hitem => by
      rw [Function.comp_apply, hp item hitem, Truth.some_beq_true]
  rw [List.filter_map, hfilter, List.map_map]
  exact List.map_congr_left fun item _ => columns_itemScope l category c item

/-- The statement of a search selects the rows of the files that the predicate accepts, each once,
and its condition is true or false for every row. -/
theorem selection_agrees {scale : RatingScale} {e : Expr} {s : Script}
    (hs : Script.ofExpr scale e = .ok s) (hsample : e.hasSample = false)
    (hplain : ∀ x ∈ e.leaves, x.IsPlain) (hitems : ∀ item ∈ l.items, item.IsPlain)
    (hdb : l.Stores db) :
    ∃ p sel, e.predicate scale = .ok p ∧ Selection.ofText? s.selection = some sel ∧
      (∀ scope ∈ sel.scopes db, sel.condition.eval db scope ≠ none) ∧
      (sel.rows db).Perm ((l.items.filter p).map (selectedRow l.version)) ∧
      (sel.rows db).Nodup := by
  obtain ⟨c, hc, hcategory, hcondition⟩ := Script.exists_condition hs
  have hplain' : ∀ x ∈ (e.resolveStars scale.stars).leaves, x.IsPlain :=
    Expr.forall_leaves_resolveStars _
      (fun _ => ⟨fun _ h => absurd h List.not_mem_nil, trivial⟩) hplain
  have hsample' : (e.resolveStars scale.stars).hasSample = false :=
    Expr.hasSample_eq_false.2
      (Expr.forall_leaves_resolveStars _ (fun _ => rfl) (Expr.hasSample_eq_false.1 hsample))
  have hreads := Condition.reads_ofExpr hsample' (fun x hx => (hplain' x hx).fits) hc
  have heval : ∀ item ∈ l.items,
      c.formula.eval db (itemScope l.version scale.category c.joins item) =
        some (e.holdsOn scale item) := by
    intro item hitem
    exact eval_formula hdb hitem (hitems item hitem) hsample' hplain' hc
      (showsItem_itemScope l scale.category c item)
  refine ⟨fun item => e.holdsOn scale item, selectionOf scale.category c, ?_, ?_, ?_, ?_, ?_⟩
  · exact Expr.predicate_eq_ok.2 ⟨Condition.fault?_of_ofExpr hc, rfl⟩
  · rw [Script.selection, hcategory, hcondition]
    exact ofText?_selectPieces scale.category hreads
  · intro scope hscope
    have hmem := (scopes_selectionOf hdb scale.category c).mem_iff.1 hscope
    obtain ⟨item, hitem, rfl⟩ := List.mem_map.1 hmem
    exact Option.ne_none_iff_exists'.2 ⟨_, heval item hitem⟩
  · exact rows_selectionOf hdb heval
  · exact (rows_selectionOf hdb heval).nodup_iff.2 (nodup_selectedRow l _)

/-! ## A file without ratings -/

def unrated : Library where
  items := [⟨"A1", 10, "image/png", ["Cat.png"], .singleton "cat", ∅, [⟨7, "Ann", ["Nan"]⟩],
    ⟨[("Width", .integer 640)], List.pairwise_singleton ..⟩, ∅⟩]
  tagId _ := 1
  version _ := .integer 0
  nodup_hashes := List.nodup_singleton _
  tagId_inj := by simp [tagsOf, TagSet.singleton, EmptyCollection.emptyCollection]
  name_eq := by simp [peopleOf]
  mem_aliases := by simp [peopleOf]

def unratedNan : Expr :=
  .conjunction [.personName "nan", .negation (.rating ⟨.greater, .zero false⟩)]

set_option maxRecDepth 2000 in
/-- The file is selected: a missing rating is not above zero, which leaves no condition unknown. -/
theorem selection_agrees_unrated :
    ∃ p sel, unratedNan.predicate ⟨"all", ∅⟩ = .ok p ∧
      Selection.ofText? (Script.selection
        ⟨"all", .all [.personName "nan", .not (.rated .greater (.zero false))],
          Digest.ofJson unratedNan.toJson⟩) = some sel ∧
      (∀ scope ∈ sel.scopes unrated.database, sel.condition.eval unrated.database scope ≠ none) ∧
      (sel.rows unrated.database).Perm
        ((unrated.items.filter p).map (selectedRow unrated.version)) ∧
      (sel.rows unrated.database).Nodup := by
  have hplain : ∀ x ∈ unratedNan.leaves, x.IsPlain := by
    have hleaves : unratedNan.leaves = [.personName "nan", .rating ⟨.greater, .zero false⟩] := rfl
    rw [hleaves, List.forall_mem_cons, List.forall_mem_singleton]
    exact ⟨⟨by decide, trivial⟩, ⟨by decide, trivial⟩⟩
  have hitems : ∀ item ∈ unrated.items, item.IsPlain := by
    refine List.forall_mem_singleton.2 ⟨?_, ?_⟩
    · decide
    · exact List.forall_mem_singleton.2 (show (640 : Int).natAbs ≤ 2 ^ 53 by decide)
  exact selection_agrees rfl rfl hplain hitems unrated.stores_database

end Library

end Sql
end TagQuery
