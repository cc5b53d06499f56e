import Mathlib.Data.List.Infix
import TagQuery.Proofs.Sql.Evaluation

/-!
# Conditions on one file

For the rows of a file, the formula of every condition without parts has the truth value of the
expression that it stands for.

## Main definitions

- `Item.IsPlain`, `Expr.IsPlain`: ASCII texts and numbers that fit into columns.
- `Sql.Library.ShowsItem`: the rows in scope are those of a file.

## Main statements

- `Sql.Library.eval_formula_of_isLeaf`: a leaf has the truth value of its formula.
-/

namespace TagQuery

/-! ## Plain texts and numbers -/

def DetailValue.texts : DetailValue → List String
  | .text s => [s]
  | _ => []

def Item.texts (item : Item) : List String :=
  item.hash :: item.fileType :: item.paths ++ item.tags.toList ++ item.rejectedTags.toList ++
    item.people.flatMap (fun p => p.name :: p.aliases) ++
    item.details.entries.flatMap (fun entry => entry.1 :: entry.2.texts) ++ item.ratings.keys

def Expr.texts : Expr → List String
  | .typeEquals t | .typeStart t | .text t | .hash t | .personName t => [t]
  | .tag tags | .rejectedTag tags => tags.toList
  | .details field _ value => field :: value.texts
  | _ => []

/-- A file whose texts are ASCII and whose details are exact. -/
structure Item.IsPlain (item : Item) : Prop where
  ascii : ∀ t ∈ item.texts, Text.IsAscii t
  exact : ∀ entry ∈ item.details.entries, entry.2.IsExact

/-- A leaf whose texts are ASCII and whose numbers fit into columns. -/
structure Expr.IsPlain (e : Expr) : Prop where
  ascii : ∀ t ∈ e.texts, Text.IsAscii t
  fits : e.FitsColumns

theorem Item.IsPlain.path {item : Item} (h : item.IsPlain) {path : String}
    (hpath : path ∈ item.paths) : Text.IsAscii path :=
  h.ascii path (by simp [Item.texts, hpath])

theorem Item.IsPlain.person {item : Item} (h : item.IsPlain) {p : Person} (hp : p ∈ item.people)
    {name : String} (hname : name ∈ p.name :: p.aliases) : Text.IsAscii name := by
  have hmem : name ∈ item.people.flatMap fun p => p.name :: p.aliases :=
    List.mem_flatMap.2 ⟨p, hp, hname⟩
  exact h.ascii name (by simp only [Item.texts, List.mem_append, hmem, or_true, true_or])

namespace Sql

/-! ## Equality -/

theorem test_equal_text (a b : String) : CompareOp.equal.test a b = (a == b) := by
  rw [Bool.eq_iff_iff]
  simp [CompareOp.test, CompareOp.holds]

/-- Texts that are equal up to the case of ASCII letters have the same lowercase form. -/
theorem asciiLowercase_beq {s t : String} (hs : Text.IsAscii s) (ht : Text.IsAscii t) :
    (Text.asciiLowercase s == Text.asciiLowercase t) = (Text.lowercase s == Text.lowercase t) := by
  rw [Text.lowercase_eq hs, Text.lowercase_eq ht]

namespace Library

variable {l : Library} {db : Database} {category : String} {item : Item} {scope : Scope}

/-- The rows in scope show a file, as far as a condition looks at them. -/
structure ShowsItem (l : Library) (category : String) (item : Item) (c : Condition)
    (scope : Scope) : Prop where
  info : ∀ column, scope.get "h" column = (infoRow l.version item).get column
  joined : ∀ join, c.needs join = true → ∀ column,
    scope.get join.name column = (joinRow category item join).get column

theorem ShowsItem.hash {c : Condition} (h : l.ShowsItem category item c scope) :
    scope.get "h" "Hash" = .text item.hash := by
  rw [h.info, infoRow, Row.get_cons_self]

/-! ## The row of the file -/

theorem eval_constant (b : Bool) : (Condition.constant b).formula.eval db scope = some b := by
  cases b <;> rfl

theorem eval_typeEquals {t : String} (h : l.ShowsItem category item (.typeEquals t) scope) :
    (Condition.typeEquals t).formula.eval db scope = some (item.fileType == t) := by
  simp only [Condition.formula, Formula.eval, Scalar.eval, textScalar, h.info]
  rw [infoRow, Row.get_cons_of_ne (by decide), Row.get_cons_of_ne (by decide), Row.get_cons_self,
    relate_text, test_equal_text]

theorem eval_typeStart {t : String} (h : l.ShowsItem category item (.typeStart t) scope) :
    (Condition.typeStart t).formula.eval db scope =
      some (t.toList.isPrefixOf item.fileType.toList) := by
  have htype : scope.get "h" "FileType" = .text item.fileType := by
    rw [h.info]
    simp [infoRow]
  simp only [Condition.formula, Formula.eval, Scalar.eval, textScalar, htype]
  rw [relate_text, test_equal_text, Option.some.injEq, Bool.eq_iff_iff, beq_iff_eq,
    List.isPrefixOf_iff_prefix, List.prefix_iff_eq_take, ← String.toList_inj, String.toList_ofList]
  simp only [Nat.add_sub_cancel_left, Nat.sub_self, List.drop_zero]
  exact eq_comm

theorem eval_hashEquals {hash : String} (hash_ascii : Text.IsAscii hash)
    (h : l.ShowsItem category item (.hashEquals hash) scope) :
    (Condition.hashEquals hash).formula.eval db scope =
      some (Text.eqIgnoringAsciiCase item.hash (Text.lowercase hash)) := by
  have hlower : (Text.lowercase hash).toList.map Char.toLower = hash.toList.map Char.toLower := by
    rw [Text.lowercase_eq hash_ascii, Text.toList_asciiLowercase, List.map_map]
    exact List.map_congr_left fun c _ => Text.toLower_toLower c
  simp only [Condition.formula, Formula.eval, Scalar.eval, textScalar, h.hash]
  rw [relate_text_fold, Text.eqIgnoringAsciiCase, hlower, Option.some.injEq, Bool.eq_iff_iff,
    beq_iff_eq, beq_iff_eq, Text.asciiLowercase_eq_iff]

theorem eval_fileSize {op : CompareOp} {bound : Nat}
    (h : l.ShowsItem category item (.fileSize op bound) scope) :
    (Condition.fileSize op bound).formula.eval db scope = some (op.test item.fileSize bound) := by
  have hsize : scope.get "h" "FileSize" = .integer item.fileSize := by
    rw [h.info]
    simp [infoRow]
  simp only [Condition.formula, Formula.eval, Scalar.eval, hsize]
  exact relate_natural op false item.fileSize bound

/-! ## Joined rows -/

theorem get_countRow {name : String} (hname : name ≠ "Hash") (hash : String) (n : Nat) :
    (countRow name hash n).get name = if n = 0 then .null else .integer n := by
  unfold countRow
  split
  · rfl
  · rw [Row.get_cons_of_ne hname, Row.get_cons_self]

def countOf (category : String) (item : Item) : Join → Nat
  | .copies => item.paths.length
  | .tagCount => item.tags.size
  | .peopleCount => item.people.length
  | .rating => ((item.ratings.get? category).map (·.count)).getD 0

/-- A missing row counts as zero. -/
theorem get_joinRow_count (category : String) (item : Item) (join : Join) :
    (joinRow category item join).get (Condition.countNames join).2 =
        .integer (countOf category item join) ∨
      (joinRow category item join).get (Condition.countNames join).2 = .null ∧
        countOf category item join = 0 := by
  have hcount {name : String} (hname : name ≠ "Hash") (n : Nat) :
      (countRow name item.hash n).get name = .integer n ∨
        (countRow name item.hash n).get name = .null ∧ n = 0 := by
    rw [get_countRow hname]
    by_cases hn : n = 0
    · exact .inr ⟨if_pos hn, hn⟩
    · exact .inl (if_neg hn)
  cases join with
  | copies => exact hcount (by decide) _
  | tagCount => exact hcount (by decide) _
  | peopleCount => exact hcount (by decide) _
  | rating =>
    simp only [joinRow, countOf, Condition.countNames]
    cases item.ratings.get? category with
    | none => exact .inr ⟨rfl, rfl⟩
    | some r => exact .inl (by simp)

theorem eval_counted {join : Join} {op : CompareOp} {bound : Nat}
    (h : l.ShowsItem category item (.counted join op bound) scope) :
    (Condition.counted join op bound).formula.eval db scope =
      some (op.test (countOf category item join) bound) := by
  have hneeds : (Condition.counted join op bound).needs join = true := beq_self_eq_true join
  have hrow := h.joined join hneeds (Condition.countNames join).2
  have hvalue :
      (Condition.countScalar join).eval scope = .integer (countOf category item join) := by
    simp only [Condition.countScalar, Scalar.eval]
    rw [show (Condition.countNames join).1 = join.name from rfl, hrow]
    rcases get_joinRow_count category item join with hget | ⟨hget, hzero⟩
    · rw [hget]
    · rw [hget, hzero]
      rfl
  simp only [Condition.formula, Formula.eval, hvalue, Scalar.eval]
  exact relate_natural op false _ bound

theorem eval_rated {op : CompareOp} {bound : Real64} (hbound : bound.isFinite = true)
    (h : l.ShowsItem category item (.rated op bound) scope) :
    (Condition.rated op bound).formula.eval db scope =
      some ((item.ratings.get? category).any fun r => op.testReal r.value bound) := by
  have hneeds : (Condition.rated op bound).needs .rating = true := rfl
  have hrow : scope.get "r" "Value" = (joinRow category item .rating).get "Value" :=
    h.joined .rating hneeds "Value"
  simp only [Condition.formula, Formula.eval, Scalar.eval, hrow, joinRow]
  cases item.ratings.get? category with
  | none => rfl
  | some r =>
    rw [Row.get_cons_of_ne (by decide), Row.get_cons_self]
    exact notNull_and_relate op r.value hbound

/-! ## Rows of other tables -/

section
variable (hstores : l.Stores db) (hitem : item ∈ l.items)
include hstores hitem

theorem eval_pathContains {t : String} (hplain : item.IsPlain) (ht : Text.IsAscii t)
    (h : l.ShowsItem category item (.pathContains t) scope) :
    (Condition.pathContains t).formula.eval db scope =
      some (item.paths.any (occursIgnoringCase t)) := by
  rw [Condition.formula, eval_exists_ofFile (by decide) hstores.paths showsHash_pathRows hitem
    h.hash, pathRows, List.any_map, Option.some.injEq]
  apply any_congr
  intro path hpath
  have hlike : (Formula.like (.column "p" "Path") (textScalar ("%" ++ escapePattern t ++ "%"))
      (textScalar "\\")).eval db (("p", pathRow item.hash path) :: scope) =
      like (.text path) (.text ("%" ++ escapePattern t ++ "%")) (.text "\\") := by
    simp [Formula.eval, Scalar.eval, textScalar, pathRow]
  rw [Function.comp_apply, hlike, like_escapePattern, occursIgnoringCase, Text.lowercase_eq ht,
    Text.lowercase_eq (hplain.path hpath)]
  exact Truth.some_beq_true _

theorem eval_personId {id : Int} (h : l.ShowsItem category item (.personId id) scope) :
    (Condition.personId id).formula.eval db scope = some (item.people.any (·.id == id)) := by
  rw [Condition.formula, eval_exists_ofFile (by decide) hstores.hashPeople showsHash_hashPeopleRows
    hitem h.hash, hashPeopleRows, List.any_map]
  simp [Formula.eval, Scalar.eval, hashPersonRow, relate_equal_integer, Function.comp_def]

theorem eval_noPeople (h : l.ShowsItem category item .noPeople scope) :
    Condition.noPeople.formula.eval db scope = some item.people.isEmpty := by
  have hany := any_ofHash hstores.hashPeople showsHash_hashPeopleRows hitem fun _ => true
  simp only [Bool.and_true] at hany
  have hofFile (row : Row) :
      ((ofFile "hp").eval db (("hp", row) :: scope) == some true) = hasHash item.hash row :=
    eval_ofFile (by decide) row h.hash
  rw [Condition.formula, Formula.eval, eval_exists]
  simp only [hofFile, hany, hashPeopleRows, List.any_map, Truth.not_some]
  cases item.people <;> simp

omit hitem in
/-- A tag's row is the only one with its id. -/
theorem any_tags {t : String} (ht : t ∈ tagsOf l.items) {row : Row}
    (hrow : row.get "TagId" = .integer (l.tagId t)) (q : Row → Bool) :
    ((db "Tags").any fun r =>
      relate .equal false (r.get "TagId") (row.get "TagId") == some true && q r) =
      q (tagRow (l.tagId t) t) := by
  rw [hrow]
  refine any_and_of_unique q ((hstores.tags _).2 ⟨t, ht, rfl⟩) ?_ fun r hr hid => ?_
  · simp [tagRow, relate_equal_integer]
  · obtain ⟨u, hu, rfl⟩ := (hstores.tags r).1 hr
    have hid : l.tagId u = l.tagId t := by simpa [tagRow, relate_equal_integer] using hid
    rw [l.tagId_inj u hu t ht hid]

omit hitem in
/-- The row of a tag that a file holds or rejects, joined with the name of the tag. -/
theorem any_tags_named {t : String} (ht : t ∈ tagsOf l.items) (hash : String)
    (flagged isRejected : Bool) (tags : TagSet) :
    ((db "Tags").any fun r =>
      relate .equal false (r.get "TagId") ((hashTagRow hash flagged (l.tagId t)).get "TagId") ==
          some true &&
        (relate .equal false ((hashTagRow hash flagged (l.tagId t)).get "Rejected")
            (flag isRejected) == some true &&
          tags.toList.any fun u => r.get "Name" == .text u)) =
      (flagged == isRejected && decide (t ∈ tags)) := by
  have hrejected : relate .equal false ((hashTagRow hash flagged (l.tagId t)).get "Rejected")
      (flag isRejected) = some (flagged == isRejected) := by
    cases flagged <;> cases isRejected <;> rfl
  have hname : (tags.toList.any fun u => (tagRow (l.tagId t) t).get "Name" == .text u) =
      decide (t ∈ tags) := by
    rw [Bool.eq_iff_iff, List.any_eq_true, decide_eq_true_iff]
    constructor
    · rintro ⟨u, hu, heq⟩
      obtain rfl : t = u := by simpa [tagRow] using heq
      exact hu
    · intro hmem
      exact ⟨t, hmem, by simp [tagRow]⟩
  rw [any_tags hstores ht (by simp [hashTagRow]), hrejected, hname, Truth.some_beq_true]

theorem eval_tagged {isRejected : Bool} {tags : TagSet}
    (h : l.ShowsItem category item (.tagged isRejected tags) scope) :
    (Condition.tagged isRejected tags).formula.eval db scope =
      some (!(if isRejected then item.rejectedTags else item.tags).isDisjoint tags) := by
  have hid (row r : Row) :
      (Formula.compare .equal false (.column "t" "TagId") (.column "ht" "TagId")).eval db
          (("ht", row) :: ("t", r) :: scope) =
        relate .equal false (r.get "TagId") (row.get "TagId") := by
    simp [Formula.eval, Scalar.eval]
  have htest (row r : Row) :
      ((Formula.and (.compare .equal false (.column "ht" "Rejected")
            (.constant (.integer (if isRejected then 1 else 0))))
          (.isAmong (.column "t" "Name") (tags.toList.map .text))).eval db
          (("ht", row) :: ("t", r) :: scope) == some true) =
        (relate .equal false (row.get "Rejected") (flag isRejected) == some true &&
          tags.toList.any fun t => r.get "Name" == .text t) := by
    rw [Formula.eval, Truth.and_eq_true, eval_isAmong]
    simp [Formula.eval, Scalar.eval, flag]
  have hmem {t : String} (ht : t ∈ item.tags.toList ++ item.rejectedTags.toList) :
      t ∈ tagsOf l.items := List.mem_flatMap.2 ⟨item, hitem, ht⟩
  have hheld := any_congr fun t ht =>
    any_tags_named hstores (t := t) (hmem (List.mem_append_left _ ht)) item.hash false isRejected tags
  have hrejected := any_congr fun t ht =>
    any_tags_named hstores (t := t) (hmem (List.mem_append_right _ ht)) item.hash true isRejected tags
  rw [Condition.formula, eval_exists_two_ofFile (by decide) (by decide) hstores.hashTags
    (showsHash_hashTagRows l.tagId) hitem h.hash, Option.some.injEq]
  simp only [hid, htest, hashTagRows, List.any_append, List.any_map, Function.comp_def, hheld,
    hrejected]
  -- Rows of the other kind are out, whatever tag they show.
  cases isRejected <;> simp [TagSet.isDisjoint, List.not_all_eq_any_not]

omit hitem in
/-- All rows with the id of a person are the row of this person. -/
theorem any_persons {p : Person} (hp : p ∈ peopleOf l.items) {row : Row}
    (hrow : row.get "PersonId" = .integer p.id) (q : Row → Bool) :
    ((db "Persons").any fun r =>
      relate .equal false (r.get "PersonId") (row.get "PersonId") == some true && q r) =
      q (personRow p) := by
  rw [hrow]
  refine any_and_of_unique q ((hstores.persons _).2 ⟨p, hp, rfl⟩) ?_ fun r hr hid => ?_
  · simp [personRow, relate_equal_integer]
  · obtain ⟨u, hu, rfl⟩ := (hstores.persons r).1 hr
    have hid : u.id = p.id := by simpa [personRow, relate_equal_integer] using hid
    rw [personRow, personRow, hid, l.name_eq u hu p hp hid]

omit hitem in
/-- The rows of other names with the id of a person show the other names of this person. -/
theorem any_aliases {p : Person} (hp : p ∈ peopleOf l.items) (q : String → Bool) {test : Row → Bool}
    (htest : ∀ u a, test (aliasRow u a) = (decide (u.id = p.id) && q a)) :
    (db "PersonAliases").any test = p.aliases.any q := by
  rw [Bool.eq_iff_iff, List.any_eq_true, List.any_eq_true]
  constructor
  · rintro ⟨row, hrow, h⟩
    obtain ⟨u, hu, a, ha, rfl⟩ := (hstores.aliases row).1 hrow
    obtain ⟨hid, hq⟩ := Bool.and_eq_true_iff.1 (htest u a ▸ h)
    exact ⟨a, l.mem_aliases u hu p hp (of_decide_eq_true hid) a ha, hq⟩
  · rintro ⟨a, ha, hq⟩
    refine ⟨aliasRow p a, (hstores.aliases _).2 ⟨p, hp, a, ha, rfl⟩, ?_⟩
    rw [htest, hq, decide_eq_true rfl, Bool.and_self]

/-- The name of a person or one of the other names. -/
theorem eval_namedFormula {name : String} (hplain : item.IsPlain) (hname : Text.IsAscii name)
    {p : Person} (hp : p ∈ item.people) (row : Row) :
    (Condition.namedFormula name).eval db (("hp", row) :: ("pe", personRow p) :: scope) =
      some (p.isNamed name) := by
  have hpeople : p ∈ peopleOf l.items := List.mem_flatMap.2 ⟨item, hitem, hp⟩
  have hlower {n : String} (hn : n ∈ p.name :: p.aliases) :
      (Text.asciiLowercase n == Text.asciiLowercase name) =
        (Text.lowercase n == Text.lowercase name) :=
    asciiLowercase_beq (hplain.person hp hn) hname
  have hfirst : (Formula.compare .equal true (.column "pe" "Name") (textScalar name)).eval db
      (("hp", row) :: ("pe", personRow p) :: scope) =
        some (Text.lowercase p.name == Text.lowercase name) := by
    rw [← hlower List.mem_cons_self, ← relate_text_fold]
    simp [Formula.eval, Scalar.eval, textScalar, personRow]
  have hothers : (p.aliases.any fun a => Text.asciiLowercase a == Text.asciiLowercase name) =
      p.aliases.any fun a => Text.lowercase a == Text.lowercase name :=
    any_congr fun a ha => hlower (List.mem_cons_of_mem _ ha)
  rw [Condition.namedFormula, Formula.eval, hfirst, eval_exists, Truth.or_some, Person.isNamed,
    List.any_cons, ← hothers]
  congr 2
  apply any_aliases hstores hpeople _
  intro u a
  have hid : relate .equal false (.integer u.id) (.integer p.id) = some (decide (u.id = p.id)) := by
    rw [relate_equal_integer, Bool.beq_eq_decide_eq]
  simp [Formula.eval, Scalar.eval, textScalar, aliasRow, personRow, relate_text_fold, hid]

theorem eval_personName {name : String} (hplain : item.IsPlain) (hname : Text.IsAscii name)
    (h : l.ShowsItem category item (.personName name) scope) :
    (Condition.personName name).formula.eval db scope =
      some (item.people.any (·.isNamed name)) := by
  have hid (row r : Row) :
      (Formula.compare .equal false (.column "pe" "PersonId") (.column "hp" "PersonId")).eval db
          (("hp", row) :: ("pe", r) :: scope) =
        relate .equal false (r.get "PersonId") (row.get "PersonId") := by
    simp [Formula.eval, Scalar.eval]
  rw [Condition.formula, eval_exists_two_ofFile (by decide) (by decide) hstores.hashPeople
    showsHash_hashPeopleRows hitem h.hash, Option.some.injEq, hashPeopleRows, List.any_map]
  apply any_congr
  intro p hp
  simp only [Function.comp_apply, hid]
  rw [any_persons hstores (List.mem_flatMap.2 ⟨item, hitem, hp⟩) (by simp [hashPersonRow]),
    eval_namedFormula hstores hitem hplain hname hp, Truth.some_beq_true]

omit hstores hitem in
/-- Whether a stored detail is of the kind of a value. -/
theorem eval_kindFormula (value : DetailValue) (row : Row) :
    ((Condition.kindFormula value).eval db (("d", row) :: scope) == some true) =
      isOfKind value (row.get "Value") := by
  cases value with
  | text s =>
    simp only [Condition.kindFormula, Formula.eval, Scalar.eval, textScalar, Scope.get_cons_self]
    rw [relate_text, test_equal_text, Truth.some_beq_true, isOfKind]
  | integer _ | real _ =>
    rw [show Condition.kindFormula _ = Formula.isAmong (.kind (.column "d" "Value"))
      (["integer", "real"].map .text) from rfl, eval_isAmong]
    simp [Scalar.eval, isOfKind]

theorem eval_detail {name : String} {op : CompareOp} {value : DetailValue} (hplain : item.IsPlain)
    (hexact : value.IsExact) (h : l.ShowsItem category item (.detail name op value) scope) :
    (Condition.detail name op value).formula.eval db scope =
      some ((item.details.get? name).any fun v => v.compare op value) := by
  rw [Condition.formula, eval_exists_ofFile (by decide) hstores.details showsHash_detailRows hitem
    h.hash, Option.some.injEq, detailRows, List.any_map]
  have htest (entry : String × DetailValue) (hentry : entry ∈ item.details.entries) :
      ((Formula.and (.compare .equal false (.column "d" "Name") (textScalar name))
          (.and (Condition.kindFormula value)
            (.compare op false (.column "d" "Value")
              (.constant (Condition.detailValue value))))).eval db
        (("d", detailRow item.hash entry) :: scope) == some true) =
        (entry.1 == name && entry.2.compare op value) := by
    have hvalue : (detailRow item.hash entry).get "Value" = storedDetail entry.2 := by
      simp [detailRow]
    have hname : (detailRow item.hash entry).get "Name" = .text entry.1 := by
      simp [detailRow]
    simp only [Formula.eval, Truth.and_eq_true, eval_kindFormula, Scalar.eval, textScalar,
      Scope.get_cons_self, hvalue, hname, relate_equal_text, text_beq_text]
    rw [relate_storedDetail op (hplain.exact entry hentry) hexact]
  have hfind := congrArg (fun entries : List (String × DetailValue) =>
    entries.any fun entry => entry.2.compare op value) (item.details.filter_entries name)
  simp only [List.any_filter] at hfind
  refine (any_congr htest).trans (hfind.trans ?_)
  cases item.details.get? name <;> simp

theorem eval_ofTags {isRejected : Bool} {tags : TagSet}
    (h : l.ShowsItem category item (.ofTags isRejected tags) scope) :
    (Condition.ofTags isRejected tags).formula.eval db scope =
      some (!(if isRejected then item.rejectedTags else item.tags).isDisjoint tags) := by
  unfold Condition.ofTags at h ⊢
  by_cases hempty : tags.isEmpty = true
  · have hnil : tags.toList = [] := List.isEmpty_iff.1 hempty
    have hdisjoint (held : TagSet) : held.isDisjoint tags = true :=
      TagSet.isDisjoint_iff.2 fun t _ ht => List.not_mem_nil (hnil ▸ TagSet.mem_toList.2 ht)
    rw [if_pos hempty, eval_constant, hdisjoint, Bool.not_true]
  · rw [if_neg hempty] at h ⊢
    exact eval_tagged hstores hitem h

/-- A leaf has the truth value of its formula. -/
theorem eval_formula_of_isLeaf {e : Expr} {c : Condition} (he : e.isLeaf = true)
    (hsample : e.hasSample = false) (hplain : e.IsPlain) (hitemPlain : item.IsPlain)
    (hc : Condition.ofExpr e = .ok c) (h : l.ShowsItem category item c scope) :
    c.formula.eval db scope = some (e.holds category item) := by
  cases e with
  | conjunction _ | disjunction _ | negation _ => contradiction
  | sample _ => contradiction
  | typeEquals t =>
    obtain rfl := Except.ok.inj hc
    exact eval_typeEquals h
  | typeStart t =>
    obtain rfl := Except.ok.inj hc
    exact eval_typeStart h
  | text t =>
    obtain rfl := Except.ok.inj hc
    exact eval_pathContains hstores hitem hitemPlain (hplain.ascii t (List.mem_singleton_self t)) h
  | hash hash =>
    obtain rfl := Except.ok.inj hc
    exact eval_hashEquals (hplain.ascii hash (List.mem_singleton_self hash)) h
  | fileSize bound =>
    obtain rfl := Except.ok.inj hc
    exact eval_fileSize h
  | copies bound | tagCount bound | peopleCount bound | ratingsCount bound =>
    obtain rfl := Except.ok.inj hc
    exact eval_counted h
  | rating bound =>
    obtain ⟨hfinite, rfl⟩ := Condition.ofExpr_rating hc
    exact eval_rated hfinite h
  | stars _ =>
    obtain rfl := Except.ok.inj hc
    exact eval_constant true
  | personId id =>
    obtain rfl := Except.ok.inj hc
    exact eval_personId hstores hitem h
  | personName name =>
    obtain rfl := Except.ok.inj hc
    exact eval_personName hstores hitem hitemPlain
      (hplain.ascii name (List.mem_singleton_self name)) h
  | noPeople =>
    obtain rfl := Except.ok.inj hc
    exact eval_noPeople hstores hitem h
  | tag tags =>
    obtain rfl := Except.ok.inj hc
    exact eval_ofTags hstores hitem h
  | rejectedTag tags =>
    obtain rfl := Except.ok.inj hc
    exact eval_ofTags hstores hitem h
  | details name op value =>
    obtain ⟨-, rfl⟩ := Condition.ofExpr_details hc
    exact eval_detail hstores hitem hitemPlain hplain.fits h

end

end Library

end Sql
end TagQuery
