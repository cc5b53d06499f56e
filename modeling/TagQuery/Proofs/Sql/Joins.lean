import TagQuery.Proofs.Sql.Library
import TagQuery.Proofs.Sql.Statement

/-!
# Joined rows

Every file of a library is joined with exactly one row of each join: the one that counts its rows,
or holds its rating, or stands for a missing one.

## Main definitions

- `Sql.joinRow`: what a file is joined with.
- `Sql.itemScope`: the rows in scope for a file.

## Main statements

- `Sql.Library.extend_leftJoin`: a join adds one row to a file.
- `Sql.Library.scopes_selectionOf`: the joined rows of a statement are those of the files.
-/

namespace TagQuery.Sql

/-! ## Relations between values -/

theorem same_text (v : Value) (key : String) : v.same (.text key) = (v == .text key) := by
  rw [Bool.eq_iff_iff]
  cases v <;> simp [Value.same, Value.compare?, Value.compareText]

theorem relate_equal_text (v : Value) (key : String) :
    (relate .equal false v (.text key) == some true) = (v == .text key) := by
  rw [Bool.eq_iff_iff]
  cases v <;> simp [relate, Value.compare?, Value.compareText, CompareOp.holds]

theorem relate_equal_integer (i j : Int) :
    relate .equal false (.integer i) (.integer j) = some (i == j) := by
  simp only [relate, Value.compare?, CompareOp.holds, Option.map_some, Option.some.injEq]
  rw [Bool.eq_iff_iff]
  simp

/-! ## Groups -/

/-- Of the rows with a hash there is one leader, the first. -/
theorem filter_leaders (hash : String) {rows : List Row} (seen : List Value)
    (htext : ∀ row ∈ rows, ∃ s, row.get "Hash" = .text s) :
    (Subselect.leaders "Hash" seen rows).filter (Library.hasHash hash) =
      if .text hash ∈ seen then [] else (rows.filter (Library.hasHash hash)).head?.toList := by
  -- Over all values seen before: a row leads its group when its hash is not among them.
  induction rows generalizing seen with
  | nil => simp [Subselect.leaders]
  | cons row rows ih =>
    obtain ⟨⟨s, hs⟩, hrest⟩ := List.forall_mem_cons.1 htext
    have hseen : seen.any (·.same (row.get "Hash")) = true ↔ .text s ∈ seen := by
      simp [hs, same_text]
    rw [Subselect.leaders, List.filter_cons]
    by_cases hmem : .text s ∈ seen
    · rw [if_pos (hseen.2 hmem), ih seen hrest]
      by_cases hkey : s = hash
      · rw [if_pos (hkey ▸ hmem), if_pos (hkey ▸ hmem)]
      · simp [Library.hasHash, hs, hkey]
    · rw [if_neg (mt hseen.1 hmem), List.filter_cons, ih _ hrest]
      by_cases hkey : s = hash
      · subst hkey
        simp [Library.hasHash, hs, hmem]
      · have hother : Value.text hash ≠ .text s := fun h => hkey (Value.text.inj h).symm
        simp [Library.hasHash, hs, hkey, hother]

theorem mem_of_mem_leaders {column : String} {seen : List Value} {rows : List Row} {row : Row}
    (h : row ∈ Subselect.leaders column seen rows) : row ∈ rows := by
  induction rows generalizing seen with
  | nil => contradiction
  | cons first rows ih =>
    rw [Subselect.leaders] at h
    split at h
    · exact List.mem_cons_of_mem _ (ih h)
    · rcases List.mem_cons.1 h with rfl | h
      · exact List.mem_cons_self
      · exact List.mem_cons_of_mem _ (ih h)

/-- The row that counts the rows with a hash; there is none without rows. -/
def countRow (name hash : String) (n : Nat) : Row :=
  if n = 0 then [] else [("Hash", .text hash), (name, .integer n)]

/-- A row as the only one of a list, where the empty row stands for a missing one. -/
def present (row : Row) : List Row :=
  if row = [] then [] else [row]

def countSelect (name table : String) (condition : Option Formula) : Subselect :=
  ⟨[(.column "Hash", "Hash"), (.count, name)], table, condition, some "Hash"⟩

/-- The row of a group shows its hash and counts the rows with it. -/
theorem summarize_group (name : String) {kept : List Row} {leader : Row} {hash : String}
    (htext : ∀ row ∈ kept, ∃ s, row.get "Hash" = .text s) (hleader : leader ∈ kept)
    (hhash : leader.get "Hash" = .text hash) :
    Subselect.summarize [(.column "Hash", "Hash"), (.count, name)]
        (kept.filter fun row => (leader.get "Hash").same (row.get "Hash")) =
      [("Hash", .text hash), (name, .integer (kept.filter (Library.hasHash hash)).length)] := by
  have hgroup : (kept.filter fun row => (leader.get "Hash").same (row.get "Hash")) =
      kept.filter (Library.hasHash hash) := by
    apply List.filter_congr
    intro row hrow
    obtain ⟨s, hs⟩ := htext row hrow
    rw [hhash, hs, same_text, Library.hasHash, hs, Bool.beq_comm]
  rw [hgroup]
  have hmem : leader ∈ kept.filter (Library.hasHash hash) :=
    List.mem_filter.2 ⟨hleader, by simp [Library.hasHash, hhash]⟩
  obtain ⟨first, rest, hfirst⟩ := List.exists_cons_of_ne_nil (List.ne_nil_of_mem hmem)
  have hhead : Library.hasHash hash first = true :=
    (List.mem_filter.1 (hfirst ▸ List.mem_cons_self : first ∈ kept.filter _)).2
  rw [hfirst]
  simpa [Subselect.summarize, Library.hasHash] using hhead

theorem rows_countSelect {db : Database} {name table : String} {condition : Option Formula}
    (hash : String)
    (htext : ∀ row ∈ (countSelect name table condition).kept db, ∃ s, row.get "Hash" = .text s) :
    ((countSelect name table condition).rows db).filter (Library.hasHash hash) =
      present (countRow name hash
        (((countSelect name table condition).kept db).filter (Library.hasHash hash)).length) := by
  have hrows : (countSelect name table condition).rows db =
      (Subselect.leaders "Hash" [] ((countSelect name table condition).kept db)).map fun leader =>
        Subselect.summarize [(.column "Hash", "Hash"), (.count, name)]
          (((countSelect name table condition).kept db).filter fun row =>
            (leader.get "Hash").same (row.get "Hash")) := rfl
  rw [hrows]
  generalize (countSelect name table condition).kept db = kept at *
  have hleaders := filter_leaders hash [] htext
  rw [if_neg List.not_mem_nil] at hleaders
  have hfilter : (Subselect.leaders "Hash" [] kept).filter (Library.hasHash hash ∘ fun leader =>
      Subselect.summarize [(.column "Hash", "Hash"), (.count, name)]
        (kept.filter fun row => (leader.get "Hash").same (row.get "Hash"))) =
      (kept.filter (Library.hasHash hash)).head?.toList := by
    rw [← hleaders]
    apply List.filter_congr
    intro leader hleader
    obtain ⟨s, hs⟩ := htext leader (mem_of_mem_leaders hleader)
    have hgroup := summarize_group name htext (mem_of_mem_leaders hleader) hs
    rw [Function.comp_apply, hgroup, Library.hasHash, Library.hasHash, hs, Row.get_cons_self]
  rw [List.filter_map, hfilter]
  cases hkept : kept.filter (Library.hasHash hash) with
  | nil => simp [countRow, present]
  | cons leader rest =>
    obtain ⟨hmem, hhash⟩ := List.mem_filter.1 (hkept ▸ List.mem_cons_self : leader ∈ kept.filter _)
    have hgroup := summarize_group name htext hmem (by simpa [Library.hasHash] using hhash)
    simp [hgroup, hkept, countRow, present]

/-! ## Partners of files -/

/-- What a file is joined with. -/
def joinRow (category : String) (item : Item) : Join → Row
  | .copies => countRow "Copies" item.hash item.paths.length
  | .tagCount => countRow "TagCount" item.hash item.tags.size
  | .peopleCount => countRow "PeopleCount" item.hash item.people.length
  | .rating =>
    match item.ratings.get? category with
    | none => []
    | some r => [("Hash", .text item.hash), ("Value", .ofReal r.value), ("Count", .integer r.count)]

namespace Library

variable {l : Library} {db : Database} {item : Item}

def keeps (db : Database) (condition : Option Formula) (row : Row) : Bool :=
  condition.all fun f => f.eval db [("", row)] == some true

theorem rows_countSelect_ofHash (name : String) {table : String} (condition : Option Formula)
    {rowsOf : Item → List Row} (hrows : (db table).Perm (l.items.flatMap rowsOf))
    (hhash : ShowsHash rowsOf) (hitem : item ∈ l.items) :
    ((countSelect name table condition).rows db).filter (hasHash item.hash) =
      present (countRow name item.hash ((rowsOf item).filter (keeps db condition)).length) := by
  have hkept : (countSelect name table condition).kept db =
      (db table).filter (keeps db condition) := rfl
  have htext : ∀ row ∈ (countSelect name table condition).kept db,
      ∃ s, row.get "Hash" = .text s := by
    intro row hrow
    have hmem := hrows.mem_iff.1 (List.mem_filter.1 (hkept ▸ hrow)).1
    obtain ⟨i, -, hrow⟩ := List.mem_flatMap.1 hmem
    exact ⟨i.hash, hhash i row hrow⟩
  have hlength := ((filter_ofHash hrows hhash hitem).filter (keeps db condition)).length_eq
  rw [List.filter_filter] at hlength
  rw [rows_countSelect item.hash htext, hkept, List.filter_filter, ← hlength]
  simp only [Bool.and_comm]

def isHeld : Option Formula :=
  some (.compare .equal false (.column "" "Rejected") (.constant (.integer 0)))

theorem keeps_isHeld (hash : String) (isRejected : Bool) (id : Int) :
    keeps db isHeld (hashTagRow hash isRejected id) = !isRejected := by
  cases isRejected <;>
    simp [keeps, isHeld, Formula.eval, Scalar.eval, hashTagRow, flag, relate_equal_integer]

theorem length_filter_keeps_isHeld (tagId : String → Int) (item : Item) :
    ((hashTagRows tagId item).filter (keeps db isHeld)).length = item.tags.size := by
  have hheld : (item.tags.toList.map fun t => hashTagRow item.hash false (tagId t)).filter
      (keeps db isHeld) = item.tags.toList.map fun t => hashTagRow item.hash false (tagId t) := by
    apply List.filter_eq_self.2
    intro row hrow
    obtain ⟨t, -, rfl⟩ := List.mem_map.1 hrow
    exact keeps_isHeld item.hash false (tagId t)
  have hrejected : (item.rejectedTags.toList.map fun t =>
      hashTagRow item.hash true (tagId t)).filter (keeps db isHeld) = [] := by
    apply List.filter_eq_nil_iff.2
    intro row hrow
    obtain ⟨t, -, rfl⟩ := List.mem_map.1 hrow
    simp [keeps_isHeld]
  rw [hashTagRows, List.filter_append, hheld, hrejected, List.append_nil, List.length_map,
    TagSet.size]

theorem keeps_none (rows : List Row) : rows.filter (keeps db none) = rows :=
  List.filter_eq_self.2 fun _ _ => rfl

def isOfCategory (category : String) : Option Formula :=
  some (.compare .equal false (.column "" "Category") (textScalar category))

theorem keeps_isOfCategory (category hash : String) (entry : String × Rating) :
    keeps db (isOfCategory category) (ratingRow hash entry) = (entry.1 == category) := by
  simp [keeps, isOfCategory, Formula.eval, Scalar.eval, ratingRow, textScalar, relate_equal_text]

/-- A file has at most one rating of a category. -/
theorem filter_keeps_isOfCategory (category : String) (item : Item) :
    (ratingRows item).filter (keeps db (isOfCategory category)) =
      ((item.ratings.get? category).map fun r => ratingRow item.hash (category, r)).toList := by
  have hkeys :
      (keeps db (isOfCategory category) ∘ ratingRow item.hash) = fun e => e.1 == category :=
    funext (keeps_isOfCategory category item.hash)
  rw [ratingRows, List.filter_map, hkeys, Table.filter_entries]
  cases item.ratings.get? category <;> rfl

theorem filter_rows_select_rating (hrows : (db "HashRatings").Perm (l.items.flatMap ratingRows))
    (hitem : item ∈ l.items) (category : String) :
    ((Join.rating.select category).rows db).filter (hasHash item.hash) =
      present (joinRow category item .rating) := by
  have hrating := ((filter_ofHash hrows showsHash_ratingRows hitem).filter
    (keeps db (isOfCategory category)))
  rw [filter_keeps_isOfCategory, List.filter_filter] at hrating
  have hselect : (Join.rating.select category).rows db =
      ((db "HashRatings").filter (keeps db (isOfCategory category))).map fun row =>
        [("Hash", row.get "Hash"), ("Value", row.get "Value"), ("Count", row.get "Count")] := rfl
  have hhash : (hasHash item.hash ∘ fun row : Row =>
      [("Hash", row.get "Hash"), ("Value", row.get "Value"), ("Count", row.get "Count")]) =
      hasHash item.hash := by
    funext row
    simp [hasHash]
  rw [hselect, List.filter_map, hhash, List.filter_filter]
  simp only [Bool.and_comm] at hrating ⊢
  unfold joinRow
  cases hget : item.ratings.get? category with
  | none =>
    rw [hget] at hrating
    simp [List.perm_nil.1 hrating, present]
  | some r =>
    rw [hget] at hrating
    simp [List.perm_singleton.1 hrating, present, ratingRow]

/-- The rows that a join offers to a file. -/
theorem filter_rows_select (h : l.Stores db) (hitem : item ∈ l.items) (category : String)
    (join : Join) :
    ((join.select category).rows db).filter (hasHash item.hash) =
      present (joinRow category item join) := by
  cases join with
  | copies =>
    have hrows := rows_countSelect_ofHash "Copies" none h.paths
      showsHash_pathRows hitem
    rw [keeps_none, pathRows, List.length_map] at hrows
    exact hrows
  | tagCount =>
    have hrows := rows_countSelect_ofHash "TagCount" isHeld h.hashTags
      (showsHash_hashTagRows l.tagId) hitem
    rw [length_filter_keeps_isHeld] at hrows
    exact hrows
  | peopleCount =>
    have hrows := rows_countSelect_ofHash "PeopleCount" none h.hashPeople
      showsHash_hashPeopleRows hitem
    rw [keeps_none, hashPeopleRows, List.length_map] at hrows
    exact hrows
  | rating => exact filter_rows_select_rating h.ratings hitem category

theorem eval_ofFile {name hash : String} {scope : Scope} (hname : name ≠ "h") (row : Row)
    (hscope : scope.get "h" "Hash" = .text hash) :
    ((ofFile name).eval db ((name, row) :: scope) == some true) = hasHash hash row := by
  have heval : (ofFile name).eval db ((name, row) :: scope) =
      relate .equal false (row.get "Hash") (.text hash) := by
    simp only [ofFile, Formula.eval, Scalar.eval, Scope.get_cons_self,
      Scope.get_cons_of_ne hname.symm, hscope]
  rw [heval, relate_equal_text, hasHash]

theorem name_ne_h (join : Join) : join.name ≠ "h" := by
  cases join <;> decide

/-- A join adds one row to a file. -/
theorem extend_leftJoin (h : l.Stores db) (hitem : item ∈ l.items) (category : String) (join : Join)
    {scope : Scope} (hscope : scope.get "h" "Hash" = .text item.hash) :
    (join.leftJoin category).extend db scope =
      [(join.name, joinRow category item join) :: scope] := by
  have hpartners : (((join.leftJoin category).select.rows db).filter fun row =>
      (join.leftJoin category).condition.eval db (((join.leftJoin category).name, row) :: scope) ==
        some true) = present (joinRow category item join) := by
    rw [← filter_rows_select h hitem category join]
    exact List.filter_congr fun row _ => eval_ofFile (name_ne_h join) row hscope
  unfold LeftJoin.extend
  rw [hpartners]
  by_cases hrow : joinRow category item join = []
  · simp [present, hrow, Join.leftJoin]
  · simp [present, hrow, Join.leftJoin]

/-- The rows in scope for a file. -/
def itemScope (version : Item → Value) (category : String) (joins : List Join) (item : Item) :
    Scope :=
  joins.foldl (fun scope join => (join.name, joinRow category item join) :: scope)
    [("h", infoRow version item)]

theorem foldl_extend_perm (db : Database) (joins : List LeftJoin) {scopes scopes' : List Scope}
    (h : scopes.Perm scopes') :
    (joins.foldl (fun scopes j => scopes.flatMap (j.extend db)) scopes).Perm
      (joins.foldl (fun scopes j => scopes.flatMap (j.extend db)) scopes') := by
  induction joins generalizing scopes scopes' with
  | nil => exact h
  | cons j joins ih => exact ih (h.flatMap_right _)

theorem foldl_extend_leftJoin (h : l.Stores db) (category : String) (joins : List Join)
    (scopeOf : Item → Scope) (hscope : ∀ i, (scopeOf i).get "h" "Hash" = .text i.hash) :
    (joins.map (Join.leftJoin category)).foldl (fun scopes j => scopes.flatMap (j.extend db))
        (l.items.map scopeOf) =
      l.items.map fun i => joins.foldl
        (fun scope join => (join.name, joinRow category i join) :: scope) (scopeOf i) := by
  induction joins generalizing scopeOf with
  | nil => rfl
  | cons join joins ih =>
    have hstep : (l.items.map scopeOf).flatMap ((join.leftJoin category).extend db) =
        l.items.map fun i => (join.name, joinRow category i join) :: scopeOf i := by
      rw [List.flatMap_map, List.map_eq_flatMap]
      exact List.flatMap_congr fun i hi => extend_leftJoin h hi category join (hscope i)
    rw [List.map_cons, List.foldl_cons, hstep]
    apply ih _
    intro i
    rw [Scope.get_cons_of_ne (name_ne_h join).symm, hscope i]

/-- The joined rows of a statement are those of the files. -/
theorem scopes_selectionOf (h : l.Stores db) (category : String) (c : Condition) :
    ((selectionOf category c).scopes db).Perm
      (l.items.map (itemScope l.version category c.joins)) := by
  have hinfo := h.info.map fun row => [("h", row)]
  rw [List.map_map] at hinfo
  have hjoins := foldl_extend_leftJoin h category c.joins
    ((fun row => [("h", row)]) ∘ infoRow l.version) fun i => by simp [infoRow]
  refine (foldl_extend_perm db _ hinfo).trans (List.Perm.of_eq ?_)
  exact hjoins

end Library

end TagQuery.Sql
