import TagQuery.Proofs.Sql.Condition

/-!
# What statements say

The statement that stores the rows of a search, read as a selection from the table of files.

## Main definitions

- `Sql.Join.leftJoin`: the join of a count or a rating with a file.
- `Sql.selectionOf`: the selection of a condition.

## Main statements

- `Sql.ofText?_selectPieces`: the text of a statement is read as its selection.
-/

namespace TagQuery.Sql

open Piece (code literal)

/-! ## Joins -/

namespace Join

def select (category : String) : Join → Subselect
  | .copies => ⟨[(.column "Hash", "Hash"), (.count, "Copies")], "Paths", none, some "Hash"⟩
  | .tagCount =>
    ⟨[(.column "Hash", "Hash"), (.count, "TagCount")], "HashTags",
      some (.compare .equal false (.column "" "Rejected") (.constant (.integer 0))), some "Hash"⟩
  | .peopleCount =>
    ⟨[(.column "Hash", "Hash"), (.count, "PeopleCount")], "HashPeople", none, some "Hash"⟩
  | .rating =>
    ⟨[(.column "Hash", "Hash"), (.column "Value", "Value"), (.column "Count", "Count")],
      "HashRatings", some (.compare .equal false (.column "" "Category") (textScalar category)),
      none⟩

def name (join : Join) : String := (Condition.countNames join).1

def leftJoin (category : String) (join : Join) : LeftJoin :=
  ⟨join.select category, join.name, ofFile join.name⟩

def selectTokens (category : String) : Join → List Token
  | .copies =>
    [.keyword .select, .name "Hash", .sign .comma, .keyword .count, .sign .opening, .sign .star,
      .sign .closing, .keyword .as, .name "Copies", .keyword .from, .name "Paths", .keyword .group,
      .keyword .by, .name "Hash"]
  | .tagCount =>
    [.keyword .select, .name "Hash", .sign .comma, .keyword .count, .sign .opening, .sign .star,
      .sign .closing, .keyword .as, .name "TagCount", .keyword .from, .name "HashTags",
      .keyword .where, .name "Rejected", .sign .equal, .number ['0'], .keyword .group, .keyword .by,
      .name "Hash"]
  | .peopleCount =>
    [.keyword .select, .name "Hash", .sign .comma, .keyword .count, .sign .opening, .sign .star,
      .sign .closing, .keyword .as, .name "PeopleCount", .keyword .from, .name "HashPeople",
      .keyword .group, .keyword .by, .name "Hash"]
  | .rating =>
    [.keyword .select, .name "Hash", .sign .comma, .name "Value", .sign .comma, .name "Count",
      .keyword .from, .name "HashRatings", .keyword .where, .name "Category", .sign .equal,
      .text category]

def tokens (category : String) (join : Join) : List Token :=
  [Token.keyword .left, .keyword .join, .sign .opening] ++ join.selectTokens category ++
    [Token.sign .closing, .name join.name, .keyword .on] ++ ofFileTokens join.name

theorem readSubselect_selectTokens (category : String) (join : Join) {n : Nat} (hn : 11 ≤ n)
    (rest : List Token) :
    readSubselect n (join.selectTokens category ++ Token.sign .closing :: rest) =
      some (join.select category, .sign .closing :: rest) := by
  cases join with
  | copies => rfl
  | peopleCount => rfl
  | tagCount =>
    have hzero : ScalarTokens [.number ['0']] (.constant (.integer 0)) := scalarTokens_number rfl
    have hread := (atom_compare .equal rfl (scalarTokens_name "Rejected") hzero).disjuncts n
      (.keyword .group :: .keyword .by :: .name "Hash" :: .sign .closing :: rest)
      (by simpa using hn) (by simp [EndsDisjuncts, EndsConjuncts, EndsOperand])
    simp only [List.cons_append, List.nil_append, signOf] at hread
    simp [selectTokens, readSubselect, expect, readOutputs, readWhere, hread, readGroupBy, select]
  | rating =>
    have hread := (atom_compare .equal rfl (scalarTokens_name "Category")
      (scalarTokens_text category)).disjuncts n (.sign .closing :: rest)
      (by simpa using hn) (endsDisjuncts_closing rest)
    simp only [List.cons_append, List.nil_append, signOf] at hread
    simp [selectTokens, readSubselect, expect, readOutputs, readWhere, hread, readGroupBy, select,
      textScalar]

theorem endsDisjuncts_tokens (category : String) (joins : List Join) (us : List Token) :
    EndsDisjuncts (joins.flatMap (tokens category) ++ Token.keyword .where :: us) := by
  cases joins <;> simp [tokens, EndsDisjuncts, EndsConjuncts, EndsOperand]

theorem readLeftJoins_tokens (category : String) (joins : List Join) {n : Nat}
    (hn : joins.length + 27 ≤ n) (us : List Token) :
    readLeftJoins n (joins.flatMap (tokens category) ++ Token.keyword .where :: us) =
      some (joins.map (leftJoin category), .keyword .where :: us) := by
  induction joins generalizing n with
  | nil => cases n <;> rfl
  | cons join joins ih =>
    rw [List.length_cons] at hn
    obtain ⟨m, rfl⟩ : ∃ m, n = m + 1 := ⟨n - 1, by omega⟩
    have hselect := join.readSubselect_selectTokens category (n := m) (by omega)
      (.name join.name :: .keyword .on :: (ofFileTokens join.name ++
        (joins.flatMap (tokens category) ++ Token.keyword .where :: us)))
    have hon := (atom_ofFile join.name).disjuncts m
      (joins.flatMap (tokens category) ++ Token.keyword .where :: us)
      (show 4 * 7 ≤ m + 1 by omega) (endsDisjuncts_tokens category joins us)
    have hrest := ih (n := m) (by omega)
    simp [tokens, readLeftJoins, hselect, hon, hrest, leftJoin]

-- the texts of the joins are compared character by character
set_option maxRecDepth 3000 in
theorem scansPieces_joinPieces (category : String) (join : Join) :
    ScansPieces (joinPieces category join) (join.tokens category) := by
  cases join with
  | copies | tagCount | peopleCount =>
    refine (scans_of_closed_space ?_).append_nil
    rw [Piece.write, String.toList_append, String.toList_ofList, String.toList_ofList]
    rfl
  | rating =>
    have hcode : Closed
        "LEFT JOIN (SELECT Hash, Value, Count FROM HashRatings WHERE Category = ".toList
        [.keyword .left, .keyword .join, .sign .opening, .keyword .select, .name "Hash",
          .sign .comma, .name "Value", .sign .comma, .name "Count", .keyword .from,
          .name "HashRatings", .keyword .where, .name "Category", .sign .equal] :=
      closed_ofList (by decide)
    have hend : Scans ") r ON r.Hash = h.Hash".toList
        (Token.sign .closing :: .name "r" :: .keyword .on :: ofFileTokens "r") := by
      refine scans_of_closed_space ?_
      rw [String.toList_ofList]
      decide
    have hstart : startsBoundary ") r ON r.Hash = h.Hash" = true := startsBoundary_ofList rfl
    have htail := exists_of_startsBoundary hstart []
    exact hcode.append ((scans_quote category).append hend.append_nil htail)

/-- The joins of a statement, one on a line. -/
theorem scansPieces_separate_joinPieces (category : String) (joins : List Join) {ps : List Piece}
    {ts : List Token} (hps : ScansPieces ps ts) :
    ScansPieces (separate "\n" (ps :: joins.map (joinPieces category)))
      (ts ++ joins.flatMap (tokens category)) := by
  induction joins generalizing ps ts with
  | nil => simpa [separate] using hps
  | cons join joins ih =>
    have hnewline : Closed "\n".toList [] :=
      closed_ofList (by decide)
    have hrest := ih (scansPieces_joinPieces category join)
    have hall := scansPieces_append hps hnewline (startsBoundary_ofList rfl) hrest
    exact hall

end Join

/-! ## Statements -/

def selectionOf (category : String) (c : Condition) : Selection :=
  ⟨[("h", "Hash"), ("h", "FileSize"), ("h", "FileType"), ("h", "Version")], ⟨"HashInfo", "h"⟩,
    c.joins.map (Join.leftJoin category), c.formula⟩

def headTokens : List Token :=
  [.keyword .create, .keyword .temp, .keyword .table, .name "SearchHashes", .keyword .as,
    .keyword .select] ++ columnTokens "h" "Hash" ++ Token.sign .comma ::
    columnTokens "h" "FileSize" ++ Token.sign .comma :: columnTokens "h" "FileType" ++
    Token.sign .comma :: columnTokens "h" "Version"

def statementTokens (category : String) (c : Condition) (ts : List Token) : List Token :=
  headTokens ++ ([Token.keyword .from, .name "HashInfo", .name "h"] ++
    (c.joins.flatMap (Join.tokens category) ++ Token.keyword .where ::
      (ts ++ [Token.sign .semicolon])))

theorem scansPieces_selectPieces (category : String) {c : Condition} {ts : List Token}
    (hc : ScansPieces c.pieces ts) :
    ScansPieces (selectPieces category c) (statementTokens category c ts) := by
  have hhead : Closed ("CREATE TEMP TABLE SearchHashes AS\n" ++
      "SELECT h.Hash, h.FileSize, h.FileType, h.Version\n").toList headTokens :=
    closed_append_ofList (by decide)
  have hfrom : ScansPieces [code "FROM HashInfo h"]
      [.keyword .from, .name "HashInfo", .name "h"] := by
    refine (scans_of_closed_space ?_).append_nil
    rw [Piece.write, String.toList_ofList]
    decide
  have hwhere : Closed "\nWHERE ".toList [.keyword .where] :=
    closed_ofList (by decide)
  have hend : Closed ";".toList [.sign .semicolon] :=
    closed_ofList (by decide)
  have hjoins := Join.scansPieces_separate_joinPieces category c.joins hfrom
  have hbody := scansPieces_append (scansPieces_code hhead hjoins) hwhere
    (startsBoundary_ofList rfl) hc
  have hall := scansPieces_append hbody hend (startsBoundary_ofList rfl) scansPieces_nil
  simp only [selectPieces, statementTokens, List.append_nil, List.append_assoc, List.cons_append,
    List.nil_append] at hall ⊢
  exact hall

theorem tokenize_of_scans {cs : List Char} {ts : List Token} (h : Scans cs ts) :
    tokenize cs = ts := by
  obtain ⟨done, p, hscan, -, rfl⟩ := h
  simp only [tokenize, hscan]

theorem readSelection_statementTokens (category : String) {c : Condition} {ts : List Token}
    (h : Disjuncts ts c.formula) {fuel : Nat} (hjoins : c.joins.length + 27 ≤ fuel)
    (hts : 4 * ts.length ≤ fuel) :
    readSelection fuel (statementTokens category c ts) = some (selectionOf category c) := by
  have hleft := Join.readLeftJoins_tokens category c.joins hjoins (ts ++ [.sign .semicolon])
  have hcondition := h fuel [.sign .semicolon] (by omega)
    (by simp [EndsDisjuncts, EndsConjuncts, EndsOperand])
  simp [statementTokens, headTokens, columnTokens, readSelection, readColumns, hleft, expect,
    hcondition, selectionOf]

theorem length_joins_le (c : Condition) : c.joins.length ≤ 4 :=
  List.length_filter_le _ Join.all

/-- The text of a statement is read as its selection. -/
theorem ofText?_selectPieces (category : String) {c : Condition} (h : Reads c.pieces c.formula) :
    Selection.ofText? (render (selectPieces category c)) = some (selectionOf category c) := by
  obtain ⟨ts, hscans, hatom⟩ := h
  have htokens := tokenize_of_scans (scansPieces_selectPieces category hscans)
  have hjoins := length_joins_le c
  have hlength : 26 + ts.length ≤ (statementTokens category c ts).length := by
    simp [statementTokens, headTokens, columnTokens]
    omega
  simp only [Selection.ofText?, render, String.toList_ofList, htokens]
  exact readSelection_statementTokens category hatom.disjuncts (by omega) (by omega)

end TagQuery.Sql
