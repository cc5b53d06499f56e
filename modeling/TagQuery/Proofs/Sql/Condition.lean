import Mathlib.Data.List.Forall2
import TagQuery.Proofs.Expr.Tree
import TagQuery.Proofs.Sql.Literal

/-!
# What conditions say

The formula of a condition, and that the text of a condition is read as its formula wherever a
condition may stand.

## Main definitions

- `Sql.Condition.formula`: the formula of a condition.
- `Sql.ScansPieces`: the tokens of pieces.
- `Sql.Reads`: pieces that are read as a formula.

## Main statements

- `Sql.Condition.reads_ofExpr`: the condition of an expression is read as its formula.
-/

namespace TagQuery

namespace Sql

open Piece (code literal)

/-! ## Formulas -/

def textScalar (s : String) : Scalar := .constant (.text s)

def ofFile (name : String) : Formula :=
  .compare .equal false (.column name "Hash") (.column "h" "Hash")

namespace Condition

def countNames : Join → String × String
  | .copies => ("cp", "Copies")
  | .tagCount => ("tc", "TagCount")
  | .peopleCount => ("pc", "PeopleCount")
  | .rating => ("r", "Count")

def countScalar (join : Join) : Scalar :=
  .coalesce (.column (countNames join).1 (countNames join).2) (.constant (.integer 0))

def namedFormula (name : String) : Formula :=
  .or (.compare .equal true (.column "pe" "Name") (textScalar name))
    (.exists [⟨"PersonAliases", "pa"⟩]
      (.and (.compare .equal false (.column "pa" "PersonId") (.column "pe" "PersonId"))
        (.compare .equal true (.column "pa" "Alias") (textScalar name))))

def kindFormula : DetailValue → Formula
  | .text _ => .compare .equal false (.kind (.column "d" "Value")) (textScalar "text")
  | _ => .isAmong (.kind (.column "d" "Value")) [.text "integer", .text "real"]

def detailValue : DetailValue → Value
  | .integer i => .integer i
  | .real x => .real x
  | .text s => .text s

mutual
/-- The formula of a condition. Draws and groups without parts have none of their own. -/
def formula : Condition → Formula
  | .constant b =>
    .compare .equal false (.constant (.integer 1)) (.constant (.integer (if b then 1 else 0)))
  | .all parts => conjunctionFormula parts
  | .any parts => disjunctionFormula parts
  | .not part => .not part.formula
  | .typeEquals t => .compare .equal false (.column "h" "FileType") (textScalar t)
  | .typeStart t =>
    .compare .equal false (.substring (.column "h" "FileType") 1 t.toList.length) (textScalar t)
  | .pathContains t =>
    .exists [⟨"Paths", "p"⟩] (.and (ofFile "p")
      (.like (.column "p" "Path") (textScalar ("%" ++ escapePattern t ++ "%")) (textScalar "\\")))
  | .hashEquals hash => .compare .equal true (.column "h" "Hash") (textScalar hash)
  | .fileSize op bound =>
    .compare op false (.column "h" "FileSize") (.constant (.integer bound))
  | .counted join op bound => .compare op false (countScalar join) (.constant (.integer bound))
  | .rated op bound =>
    .and (.isNotNull (.column "r" "Value"))
      (.compare op false (.column "r" "Value") (.constant (.real bound)))
  | .personId id =>
    .exists [⟨"HashPeople", "hp"⟩] (.and (ofFile "hp")
      (.compare .equal false (.column "hp" "PersonId") (.constant (.integer id))))
  | .personName name =>
    .exists [⟨"HashPeople", "hp"⟩, ⟨"Persons", "pe"⟩]
      (.and (.compare .equal false (.column "pe" "PersonId") (.column "hp" "PersonId"))
        (.and (ofFile "hp") (namedFormula name)))
  | .noPeople => .not (.exists [⟨"HashPeople", "hp"⟩] (ofFile "hp"))
  | .tagged isRejected tags =>
    .exists [⟨"HashTags", "ht"⟩, ⟨"Tags", "t"⟩]
      (.and (.compare .equal false (.column "t" "TagId") (.column "ht" "TagId"))
        (.and (ofFile "ht")
          (.and (.compare .equal false (.column "ht" "Rejected")
              (.constant (.integer (if isRejected then 1 else 0))))
            (.isAmong (.column "t" "Name") (tags.toList.map .text)))))
  | .detail name op value =>
    .exists [⟨"HashDetails", "d"⟩] (.and (ofFile "d")
      (.and (.compare .equal false (.column "d" "Name") (textScalar name))
        (.and (kindFormula value)
          (.compare op false (.column "d" "Value") (.constant (detailValue value))))))
  | .drawn _ => .isNotNull (.constant .null)
termination_by structural c => c

def conjunctionFormula : List Condition → Formula
  | [] => .isNotNull (.constant .null)
  | [c] => c.formula
  | c :: cs => .and c.formula (conjunctionFormula cs)
termination_by structural cs => cs

def disjunctionFormula : List Condition → Formula
  | [] => .isNotNull (.constant .null)
  | [c] => c.formula
  | c :: cs => .or c.formula (disjunctionFormula cs)
termination_by structural cs => cs
end

theorem formula_not (part : Condition) : (Condition.not part).formula = .not part.formula := by
  rw [formula]

end Condition

/-! ## Tokens of pieces -/

def ScansPieces (ps : List Piece) (ts : List Token) : Prop :=
  Scans (ps.flatMap Piece.write) ts

/-- A text before which every token but a literal ends. -/
def startsBoundary (text : String) : Bool :=
  text.toList.head?.any isBoundary

theorem startsBoundary_ofList {cs : List Char} (h : cs.head?.any isBoundary = true) :
    startsBoundary (String.ofList cs) = true := by
  rw [startsBoundary, String.toList_ofList, h]

theorem exists_of_startsBoundary {text : String} (h : startsBoundary text = true) (b : List Char) :
    ∃ c cs, text.toList ++ b = c :: cs ∧ isBoundary c = true := by
  unfold startsBoundary at h
  cases hcs : text.toList with
  | nil => simp [hcs] at h
  | cons c cs => exact ⟨c, cs ++ b, rfl, by simpa [hcs] using h⟩

theorem scans_nil : Scans [] [] :=
  ⟨[], .nothing, rfl, fun _ => Pending.noConfusion, rfl⟩

theorem Scans.append_nil {cs : List Char} {ts : List Token} (h : Scans cs ts) :
    Scans (cs ++ []) ts :=
  (List.append_nil cs).symm ▸ h

/-- Code that is closed, before other pieces. -/
theorem scansPieces_code {text : String} {ps : List Piece} {s t : List Token}
    (hcode : Closed text.toList s) (hps : ScansPieces ps t) :
    ScansPieces (code text :: ps) (s ++ t) :=
  hcode.append hps

/-- A literal before code that ends it. -/
theorem scansPieces_literal {text : String} {ps : List Piece} {s t : List Token} (content : String)
    (hcode : Closed text.toList s) (hstart : startsBoundary text = true) (hps : ScansPieces ps t) :
    ScansPieces (literal content :: code text :: ps) (Token.text content :: (s ++ t)) :=
  (scans_quote content).append (hcode.append hps) (exists_of_startsBoundary hstart _)

theorem scansPieces_literal_end (content : String) :
    ScansPieces [literal content] [.text content] :=
  (scans_quote content).append_nil

theorem scansPieces_nil : ScansPieces [] [] := scans_nil

theorem scansPieces_code_end {text : String} {s : List Token} (hcode : Closed text.toList s) :
    ScansPieces [code text] s :=
  hcode.scans.append_nil

/-! ## Tests -/

/-- Pieces that are read as a formula wherever a condition may stand. -/
def Reads (ps : List Piece) (f : Formula) : Prop :=
  ∃ ts, ScansPieces ps ts ∧ Atom ts f

def columnTokens (name column : String) : List Token :=
  [.name name, .sign .dot, .name column]

def ofFileTokens (name : String) : List Token :=
  columnTokens name "Hash" ++ Token.sign (signOf .equal) :: columnTokens "h" "Hash"

theorem atom_ofFile (name : String) : Atom (ofFileTokens name) (ofFile name) :=
  atom_compare .equal rfl (scalarTokens_column name "Hash") (scalarTokens_column "h" "Hash")

theorem closed_symbol (op : CompareOp) :
    Closed (op.symbol ++ " ").toList [.sign (signOf op)] := by
  rw [String.toList_append]
  cases op <;> rw [CompareOp.symbol, String.toList_ofList, String.toList_ofList] <;> decide

/-- A column and a sign before a value. -/
theorem scans_relation {before : String} {s t : List Token} {cs : List Char} (op : CompareOp)
    (hbefore : Closed before.toList s) (hvalue : Scans cs t) :
    Scans ((before ++ op.symbol ++ " ").toList ++ cs) (s ++ Token.sign (signOf op) :: t) := by
  have hcode :
      (before ++ op.symbol ++ " ").toList = before.toList ++ (op.symbol ++ " ").toList := by
    simp only [String.toList_append, List.append_assoc]
  rw [hcode, List.append_assoc]
  exact hbefore.append ((closed_symbol op).append hvalue)

/-- Code that ends the token before it. -/
theorem scans_append_code {cs : List Char} {text : String} {s t : List Token} (h : Scans cs s)
    (hstart : startsBoundary text = true) (hcode : Closed text.toList t) :
    Scans (cs ++ text.toList) (s ++ t) := by
  have htail := exists_of_startsBoundary hstart []
  rw [List.append_nil] at htail
  exact h.append hcode.scans htail

theorem startsBoundary_closing : startsBoundary ")" = true := startsBoundary_ofList rfl

theorem closed_comma : Closed ", ".toList [.sign .comma] :=
  closed_ofList (by decide)

theorem closed_closing : Closed ")".toList [.sign .closing] :=
  closed_ofList (by decide)

theorem scansPieces_constant (b : Bool) :
    ScansPieces (Condition.constant b).pieces
      [.number ['1'], .sign .equal, .number [if b then '1' else '0']] := by
  cases b with
  | true =>
    have hscans : Scans "1=1".toList [.number ['1'], .sign .equal, .number ['1']] :=
      ⟨[.number ['1'], .sign .equal], .number ['1'], by decide,
        fun _ => Pending.noConfusion, rfl⟩
    exact hscans.append_nil
  | false =>
    have hscans : Scans "1=0".toList [.number ['1'], .sign .equal, .number ['0']] :=
      ⟨[.number ['1'], .sign .equal], .number ['0'], by decide,
        fun _ => Pending.noConfusion, rfl⟩
    exact hscans.append_nil

theorem reads_constant (b : Bool) :
    Reads (Condition.constant b).pieces (Condition.constant b).formula := by
  have hone : ScalarTokens [.number ['1']] (.constant (.integer 1)) := scalarTokens_number rfl
  have hflag : ScalarTokens [.number [if b then '1' else '0']]
      (.constant (.integer (if b then 1 else 0))) := by
    cases b <;> exact scalarTokens_number rfl
  exact ⟨_, scansPieces_constant b, atom_compare .equal rfl hone hflag⟩

theorem scansPieces_typeEquals (t : String) :
    ScansPieces (Condition.typeEquals t).pieces
      (columnTokens "h" "FileType" ++ [Token.sign .equal, .text t]) := by
  have hcode : Closed "h.FileType = ".toList
      (columnTokens "h" "FileType" ++ [Token.sign .equal]) :=
    closed_ofList (by decide)
  have hall := scansPieces_code hcode (scansPieces_literal_end t)
  exact hall

theorem reads_typeEquals (t : String) :
    Reads (Condition.typeEquals t).pieces (Condition.typeEquals t).formula :=
  ⟨_, scansPieces_typeEquals t,
    atom_compare .equal rfl (scalarTokens_column "h" "FileType") (scalarTokens_text t)⟩

theorem scansPieces_hashEquals (hash : String) :
    ScansPieces (Condition.hashEquals hash).pieces
      (columnTokens "h" "Hash" ++ Token.sign .equal ::
        ([.text hash] ++ [Token.keyword .collate, .keyword .nocase])) := by
  have hcode : Closed "h.Hash = ".toList (columnTokens "h" "Hash" ++ [Token.sign .equal]) :=
    closed_ofList (by decide)
  have hcollation : Scans " COLLATE NOCASE".toList [.keyword .collate, .keyword .nocase] :=
    ⟨[.keyword .collate], .word "NOCASE".toList, by decide,
      fun _ => Pending.noConfusion, by decide⟩
  have hstart : startsBoundary " COLLATE NOCASE" = true := startsBoundary_ofList rfl
  have htail := exists_of_startsBoundary hstart []
  exact hcode.append ((scans_quote hash).append hcollation.append_nil htail)

theorem reads_hashEquals (hash : String) :
    Reads (Condition.hashEquals hash).pieces (Condition.hashEquals hash).formula :=
  ⟨_, scansPieces_hashEquals hash,
    atom_compare_fold .equal rfl (scalarTokens_column "h" "Hash") (scalarTokens_text hash)⟩

theorem scansPieces_pathContains (t : String) :
    ScansPieces (Condition.pathContains t).pieces
      (existsTokens ⟨"Paths", "p"⟩ ++ Token.keyword .where :: ((ofFileTokens "p" ++
        Token.keyword .and :: (columnTokens "p" "Path" ++ Token.keyword .like ::
          ([.text ("%" ++ escapePattern t ++ "%")] ++ Token.keyword .escape :: [.text "\\"]))) ++
        [Token.sign .closing])) := by
  have hcode : Closed
      "EXISTS (SELECT 1 FROM Paths p WHERE p.Hash = h.Hash AND p.Path LIKE ".toList
      (existsTokens ⟨"Paths", "p"⟩ ++ Token.keyword .where :: ofFileTokens "p" ++
        Token.keyword .and :: columnTokens "p" "Path" ++ [Token.keyword .like]) :=
    closed_ofList (by decide)
  have hescape : Closed " ESCAPE ".toList [.keyword .escape] :=
    closed_ofList (by decide)
  have hpattern := scansPieces_literal ("%" ++ escapePattern t ++ "%") hescape
    (startsBoundary_ofList rfl)
    (scansPieces_literal "\\" closed_closing startsBoundary_closing scansPieces_nil)
  have hall := scansPieces_code hcode hpattern
  exact hall

theorem reads_pathContains (t : String) :
    Reads (Condition.pathContains t).pieces (Condition.pathContains t).formula := by
  have hlike := atom_like rfl (scalarTokens_column "p" "Path")
    (scalarTokens_text ("%" ++ escapePattern t ++ "%")) (scalarTokens_text "\\")
  exact ⟨_, scansPieces_pathContains t,
    ((atom_ofFile "p").and hlike.conjuncts).disjuncts.exists ⟨"Paths", "p"⟩⟩

theorem scansPieces_noPeople :
    ScansPieces Condition.noPeople.pieces
      (Token.keyword .not :: (existsTokens ⟨"HashPeople", "hp"⟩ ++ Token.keyword .where ::
        (ofFileTokens "hp" ++ [Token.sign .closing]))) := by
  have hcode : Closed "NOT EXISTS (SELECT 1 FROM HashPeople hp WHERE hp.Hash = h.Hash)".toList
      (Token.keyword .not :: existsTokens ⟨"HashPeople", "hp"⟩ ++ Token.keyword .where ::
        ofFileTokens "hp" ++ [Token.sign .closing]) :=
    closed_ofList (by decide)
  exact scansPieces_code_end hcode

theorem reads_noPeople : Reads Condition.noPeople.pieces Condition.noPeople.formula :=
  ⟨_, scansPieces_noPeople, ((atom_ofFile "hp").disjuncts.exists ⟨"HashPeople", "hp"⟩).not⟩

theorem scansPieces_typeStart (t : String) :
    ScansPieces (Condition.typeStart t).pieces
      (Token.keyword .substr :: .sign .opening :: (columnTokens "h" "FileType" ++
        [Token.sign .comma, .number ['1'], .sign .comma,
          .number (Nat.toDigits 10 t.toList.length), .sign .closing]) ++
        [Token.sign .equal, .text t]) := by
  have hcode : Closed "substr(h.FileType, 1, ".toList
      (Token.keyword .substr :: .sign .opening :: columnTokens "h" "FileType" ++
        [Token.sign .comma, .number ['1'], .sign .comma]) :=
    closed_ofList (by decide)
  have hstart : startsBoundary ") = " = true := startsBoundary_ofList rfl
  have hend : Closed ") = ".toList [.sign .closing, .sign .equal] :=
    closed_ofList (by decide)
  have htext : (Condition.typeStart t).pieces.flatMap Piece.write =
      "substr(h.FileType, 1, ".toList ++ (Nat.toDigits 10 t.toList.length ++
        (") = ".toList ++ (quote t.toList ++ []))) := by
    simp only [Condition.pieces, List.flatMap_cons, List.flatMap_nil, Piece.write,
      String.toList_append, toList_toString, List.append_assoc]
  have htail := exists_of_startsBoundary hstart (quote t.toList ++ [])
  rw [ScansPieces, htext]
  exact hcode.append ((scans_toDigits _).append (hend.append (scansPieces_literal_end t)) htail)

theorem reads_typeStart (t : String) :
    Reads (Condition.typeStart t).pieces (Condition.typeStart t).formula :=
  ⟨_, scansPieces_typeStart t, atom_compare .equal rfl
    (scalarTokens_start "h" "FileType" t.toList.length) (scalarTokens_text t)⟩

theorem scansPieces_compareNumber {column : String} {ts : List Token} (op : CompareOp)
    (bound : Nat) (hcolumn : Closed (column ++ " ").toList ts) :
    ScansPieces (compareNumber column op bound)
      (ts ++ Token.sign (signOf op) :: [.number (Nat.toDigits 10 bound)]) := by
  have hdigits := scans_toDigits bound
  rw [← toList_toString] at hdigits
  have hrelation := (scans_relation op hcolumn hdigits).append_nil
  rw [← String.toList_append, toList_toString] at hrelation
  exact hrelation

/-- A relation of a column to a whole number of 64 bits. -/
theorem reads_compareNumber {column : String} {ts : List Token} {a : Scalar} (op : CompareOp)
    {bound : Nat} (hbound : bound < 2 ^ 63) (hcolumn : Closed (column ++ " ").toList ts)
    (hstart : startsTest ts = true) (ha : ScalarTokens ts a) :
    Reads (compareNumber column op bound) (.compare op false a (.constant (.integer bound))) :=
  ⟨_, scansPieces_compareNumber op bound hcolumn,
    atom_compare op hstart ha (scalarTokens_number (numeral_digits (.inl hbound)))⟩

theorem closed_fileSize : Closed ("h.FileSize" ++ " ").toList (columnTokens "h" "FileSize") :=
  closed_append_ofList (by decide)

theorem reads_fileSize (op : CompareOp) {bound : Nat} (h : bound < 2 ^ 63) :
    Reads (Condition.fileSize op bound).pieces (Condition.fileSize op bound).formula :=
  reads_compareNumber op h closed_fileSize rfl (scalarTokens_column "h" "FileSize")

def countTokens (join : Join) : List Token :=
  [.keyword .coalesce, .sign .opening] ++
    columnTokens (Condition.countNames join).1 (Condition.countNames join).2 ++
    [Token.sign .comma, .number ['0'], .sign .closing]

theorem closed_countColumn (join : Join) :
    Closed (countColumn join ++ " ").toList (countTokens join) := by
  rw [String.toList_append]
  cases join <;> rw [countColumn, String.toList_ofList, String.toList_ofList] <;> decide

theorem reads_counted (join : Join) (op : CompareOp) {bound : Nat} (h : bound < 2 ^ 63) :
    Reads (Condition.counted join op bound).pieces (Condition.counted join op bound).formula :=
  reads_compareNumber op h (closed_countColumn join) rfl (scalarTokens_coalesce _ _)

theorem scansPieces_rated (op : CompareOp) {bound : Real64} {us : List Token}
    (hbound : Scans (RealLayout.debug.render bound).toList us) :
    ScansPieces (Condition.rated op bound).pieces
      (Token.sign .opening :: (((columnTokens "r" "Value" ++
        [Token.keyword .is, .keyword .not, .keyword .null]) ++ Token.keyword .and ::
          (columnTokens "r" "Value" ++ Token.sign (signOf op) :: us)) ++
        [Token.sign .closing])) := by
  have hcode : Closed "(r.Value IS NOT NULL AND r.Value ".toList
      (Token.sign .opening :: columnTokens "r" "Value" ++
        [Token.keyword .is, .keyword .not, .keyword .null, .keyword .and] ++
        columnTokens "r" "Value") :=
    closed_ofList (by decide)
  have hrelation := scans_relation op hcode
    (scans_append_code hbound startsBoundary_closing closed_closing)
  have htext : (Condition.rated op bound).pieces.flatMap Piece.write =
      ("(r.Value IS NOT NULL AND r.Value " ++ op.symbol ++ " ").toList ++
        ((RealLayout.debug.render bound).toList ++ ")".toList) := by
    simp only [Condition.pieces, List.flatMap_cons, List.flatMap_nil, Piece.write,
      String.toList_append, List.append_assoc, List.append_nil]
  rw [ScansPieces, htext]
  exact hrelation

theorem reads_rated (op : CompareOp) {bound : Real64} (h : bound.isFinite = true) :
    Reads (Condition.rated op bound).pieces (Condition.rated op bound).formula := by
  obtain ⟨us, hscans, hvalue⟩ := denotes_real h
  have hnotNull := atom_isNotNull rfl (scalarTokens_column "r" "Value")
  have hcompare := atom_compare op rfl (scalarTokens_column "r" "Value") hvalue
  exact ⟨_, scansPieces_rated op hscans, (hnotNull.and hcompare.conjuncts).disjuncts.group⟩

theorem scansPieces_personId (id : Int) :
    ScansPieces (Condition.personId id).pieces
      (existsTokens ⟨"HashPeople", "hp"⟩ ++ Token.keyword .where :: ((ofFileTokens "hp" ++
        Token.keyword .and :: (columnTokens "hp" "PersonId" ++ Token.sign .equal ::
          numberTokens (decide (id < 0)) (Nat.toDigits 10 id.natAbs))) ++
        [Token.sign .closing])) := by
  have hcode : Closed
      "EXISTS (SELECT 1 FROM HashPeople hp WHERE hp.Hash = h.Hash AND hp.PersonId = ".toList
      (existsTokens ⟨"HashPeople", "hp"⟩ ++ Token.keyword .where :: ofFileTokens "hp" ++
        Token.keyword .and :: columnTokens "hp" "PersonId" ++ [Token.sign .equal]) :=
    closed_ofList (by decide)
  have htext : (Condition.personId id).pieces.flatMap Piece.write =
      "EXISTS (SELECT 1 FROM HashPeople hp WHERE hp.Hash = h.Hash AND hp.PersonId = ".toList ++
        ((toString id).toList ++ ")".toList) := by
    simp only [Condition.pieces, List.flatMap_cons, List.flatMap_nil, Piece.write,
      String.toList_append, List.append_assoc, List.append_nil]
  rw [ScansPieces, htext]
  exact hcode.append (scans_append_code (scans_integer id) startsBoundary_closing closed_closing)

theorem reads_personId {id : Int} (hlow : -2 ^ 63 ≤ id) (hhigh : id < 2 ^ 63) :
    Reads (Condition.personId id).pieces (Condition.personId id).formula := by
  have hcompare := atom_compare .equal rfl (scalarTokens_column "hp" "PersonId")
    (scalarTokens_integer hlow hhigh)
  exact ⟨_, scansPieces_personId id,
    ((atom_ofFile "hp").and hcompare.conjuncts).disjuncts.exists ⟨"HashPeople", "hp"⟩⟩

def nameTokens (source column name : String) : List Token :=
  columnTokens source column ++ Token.sign .equal ::
    ([.text name] ++ [Token.keyword .collate, .keyword .nocase])

def aliasTokens (name : String) : List Token :=
  existsTokens ⟨"PersonAliases", "pa"⟩ ++ Token.keyword .where ::
    (((columnTokens "pa" "PersonId" ++ Token.sign .equal :: columnTokens "pe" "PersonId") ++
      Token.keyword .and :: nameTokens "pa" "Alias" name) ++ [Token.sign .closing])

def personTokens (name : String) : List Token :=
  existsTokens ⟨"HashPeople", "hp"⟩ ++ Token.keyword .join :: .name "Persons" :: .name "pe" ::
    .keyword .on :: ((columnTokens "pe" "PersonId" ++ Token.sign .equal ::
      columnTokens "hp" "PersonId") ++ Token.keyword .where :: ((ofFileTokens "hp" ++
        Token.keyword .and :: Token.sign .opening :: ((nameTokens "pe" "Name" name ++
          Token.keyword .or :: aliasTokens name) ++ [Token.sign .closing])) ++
      [Token.sign .closing]))

theorem scansPieces_personName (name : String) :
    ScansPieces (Condition.personName name).pieces (personTokens name) := by
  have hcode : Closed ("EXISTS (SELECT 1 FROM HashPeople hp JOIN Persons pe " ++
      "ON pe.PersonId = hp.PersonId WHERE hp.Hash = h.Hash AND (pe.Name = ").toList
      (existsTokens ⟨"HashPeople", "hp"⟩ ++ [Token.keyword .join, .name "Persons", .name "pe",
        Token.keyword .on] ++ columnTokens "pe" "PersonId" ++ Token.sign .equal ::
        columnTokens "hp" "PersonId" ++ Token.keyword .where :: ofFileTokens "hp" ++
        [Token.keyword .and, .sign .opening] ++ columnTokens "pe" "Name" ++
        [Token.sign .equal]) :=
    closed_append_ofList (by decide)
  have halias : Closed (" COLLATE NOCASE OR EXISTS " ++
      "(SELECT 1 FROM PersonAliases pa WHERE pa.PersonId = pe.PersonId AND pa.Alias = ").toList
      ([.keyword .collate, .keyword .nocase, .keyword .or] ++
        existsTokens ⟨"PersonAliases", "pa"⟩ ++
        Token.keyword .where :: columnTokens "pa" "PersonId" ++ Token.sign .equal ::
        columnTokens "pe" "PersonId" ++ Token.keyword .and :: columnTokens "pa" "Alias" ++
        [Token.sign .equal]) :=
    closed_append_ofList (by decide)
  have hstart : startsBoundary (" COLLATE NOCASE OR EXISTS " ++
      "(SELECT 1 FROM PersonAliases pa WHERE pa.PersonId = pe.PersonId AND pa.Alias = ") =
      true := by
    rw [startsBoundary, String.toList_append, String.toList_ofList, String.toList_ofList]
    rfl
  have hend : Closed " COLLATE NOCASE)))".toList [.keyword .collate, .keyword .nocase,
      .sign .closing, .sign .closing, .sign .closing] :=
    closed_ofList (by decide)
  have hall := scansPieces_code hcode (scansPieces_literal name halias hstart
    (scansPieces_literal name hend (startsBoundary_ofList rfl) scansPieces_nil))
  exact hall

theorem reads_personName (name : String) :
    Reads (Condition.personName name).pieces (Condition.personName name).formula := by
  have hperson := atom_compare .equal rfl (scalarTokens_column "pe" "PersonId")
    (scalarTokens_column "hp" "PersonId")
  have hname := atom_compare_fold .equal rfl (scalarTokens_column "pe" "Name")
    (scalarTokens_text name)
  have hsame := atom_compare .equal rfl (scalarTokens_column "pa" "PersonId")
    (scalarTokens_column "pe" "PersonId")
  have hother := atom_compare_fold .equal rfl (scalarTokens_column "pa" "Alias")
    (scalarTokens_text name)
  have hnamed := (hname.conjuncts.or ((hsame.and hother.conjuncts).disjuncts.exists
    ⟨"PersonAliases", "pa"⟩).disjuncts).group
  exact ⟨_, scansPieces_personName name,
    hperson.disjuncts.existsJoin ((atom_ofFile "hp").and hnamed.conjuncts).disjuncts
      ⟨"HashPeople", "hp"⟩ ⟨"Persons", "pe"⟩⟩

/-- Literals with commas between them, before code that ends the last one. -/
theorem scansPieces_separate {ss : List String} (hne : ss ≠ []) {ps : List Piece} {text : String}
    {t u : List Token} (hcode : Closed text.toList t) (hstart : startsBoundary text = true)
    (hps : ScansPieces ps u) :
    ScansPieces (separate ", " (ss.map fun s => [literal s]) ++ code text :: ps)
      (textTokens ss ++ (t ++ u)) := by
  induction ss with
  | nil => exact absurd rfl hne
  | cons s ss ih =>
    cases ss with
    | nil =>
      have hlast := scansPieces_literal s hcode hstart hps
      exact hlast
    | cons s' ss =>
      have hrest := ih (List.cons_ne_nil s' ss)
      have hfirst := scansPieces_literal s closed_comma (startsBoundary_ofList rfl) hrest
      exact hfirst

def taggedTokens (isRejected : Bool) : List Token :=
  existsTokens ⟨"HashTags", "ht"⟩ ++ [Token.keyword .join, .name "Tags", .name "t",
    Token.keyword .on] ++ columnTokens "t" "TagId" ++ Token.sign .equal ::
    columnTokens "ht" "TagId" ++ Token.keyword .where :: ofFileTokens "ht" ++
    Token.keyword .and :: columnTokens "ht" "Rejected" ++
    [Token.sign .equal, .number [if isRejected then '1' else '0'], .keyword .and] ++
    columnTokens "t" "Name" ++ [Token.keyword .in, .sign .opening]

theorem scansPieces_tagged (isRejected : Bool) {tags : TagSet} (hne : tags.toList ≠ []) :
    ScansPieces (Condition.tagged isRejected tags).pieces
      (taggedTokens isRejected ++
        (textTokens tags.toList ++ [Token.sign .closing, .sign .closing])) := by
  have hcode : Closed ("EXISTS (SELECT 1 FROM HashTags ht JOIN Tags t ON t.TagId = ht.TagId " ++
      "WHERE ht.Hash = h.Hash AND ht.Rejected = " ++ (if isRejected then "1" else "0") ++
      " AND t.Name IN (").toList (taggedTokens isRejected) := by
    have hflag : (if isRejected then "1" else "0").toList = [if isRejected then '1' else '0'] := by
      cases isRejected <;> decide
    rw [String.toList_append, String.toList_append, String.toList_append, String.toList_ofList,
      String.toList_ofList, hflag, String.toList_ofList]
    cases isRejected <;> decide
  have hend : Closed "))".toList [.sign .closing, .sign .closing] :=
    closed_ofList (by decide)
  exact scansPieces_code hcode
    (scansPieces_separate hne hend (startsBoundary_ofList rfl) scansPieces_nil)

theorem reads_tagged (isRejected : Bool) {tags : TagSet} (hne : tags.toList ≠ []) :
    Reads (Condition.tagged isRejected tags).pieces (Condition.tagged isRejected tags).formula := by
  have hflag : numeral false [if isRejected then '1' else '0'] =
      some (.integer (if isRejected then 1 else 0)) := by
    cases isRejected <;> rfl
  have hid := atom_compare .equal rfl (scalarTokens_column "t" "TagId")
    (scalarTokens_column "ht" "TagId")
  have hrejected := atom_compare .equal rfl (scalarTokens_column "ht" "Rejected")
    (scalarTokens_number hflag)
  have hname := atom_isAmong rfl (scalarTokens_column "t" "Name") hne
  have hscans := scansPieces_tagged isRejected hne
  have hassoc : textTokens tags.toList ++ [Token.sign .closing, .sign .closing] =
      (textTokens tags.toList ++ [Token.sign .closing]) ++ [Token.sign .closing] := by
    simp only [List.append_assoc, List.singleton_append]
  refine ⟨_, ?_, hid.disjuncts.existsJoin
    ((atom_ofFile "ht").and (hrejected.and hname.conjuncts)).disjuncts
    ⟨"HashTags", "ht"⟩ ⟨"Tags", "t"⟩⟩
  rw [hassoc] at hscans
  exact hscans

def kindTokens : DetailValue → List Token
  | .text _ =>
    Token.keyword .typeof :: .sign .opening :: columnTokens "d" "Value" ++
      [Token.sign .closing, .sign .equal, .text "text"]
  | _ =>
    Token.keyword .typeof :: .sign .opening :: columnTokens "d" "Value" ++
      [Token.sign .closing, .keyword .in, .sign .opening] ++
      (textTokens ["integer", "real"] ++ [Token.sign .closing])

theorem scans_kindPieces (v : DetailValue) {cs : List Char} {ts : List Token} (h : Scans cs ts)
    (hcs : ∃ c ds, cs = c :: ds ∧ isBoundary c = true) :
    Scans ((kindPieces v).flatMap Piece.write ++ cs) (kindTokens v ++ ts) := by
  cases v with
  | text s =>
    have hcode : Closed "typeof(d.Value) = ".toList
        ([Token.keyword .typeof, .sign .opening, .name "d", .sign .dot, .name "Value",
          .sign .closing, .sign .equal]) :=
      closed_ofList (by decide)
    have htext : (kindPieces (.text s)).flatMap Piece.write ++ cs =
        "typeof(d.Value) = ".toList ++ (quote "text".toList ++ cs) := by
      simp only [kindPieces, List.flatMap_cons, List.flatMap_nil, Piece.write, List.append_assoc,
        List.nil_append]
    rw [htext]
    exact hcode.append ((scans_quote "text").append h hcs)
  | integer _ | real _ =>
    have hcode : Closed "typeof(d.Value) IN (".toList
        ([Token.keyword .typeof, .sign .opening, .name "d", .sign .dot, .name "Value",
          .sign .closing, .keyword .in, .sign .opening]) :=
      closed_ofList (by decide)
    have htext : (kindPieces (.integer 0)).flatMap Piece.write ++ cs =
        "typeof(d.Value) IN (".toList ++ (quote "integer".toList ++ (", ".toList ++
          (quote "real".toList ++ (")".toList ++ cs)))) := by
      simp only [kindPieces, List.flatMap_cons, List.flatMap_nil, Piece.write, List.append_assoc,
        List.nil_append]
    have hreal := (scans_quote "real").append (closed_closing.append h)
      (exists_of_startsBoundary startsBoundary_closing cs)
    have hinteger := (scans_quote "integer").append (closed_comma.append hreal)
      (exists_of_startsBoundary (startsBoundary_ofList rfl) _)
    exact htext ▸ hcode.append hinteger

theorem atom_kindFormula (v : DetailValue) : Atom (kindTokens v) (Condition.kindFormula v) := by
  have hkind := scalarTokens_kind "d" "Value"
  cases v with
  | text _ => exact atom_compare .equal rfl hkind (scalarTokens_text "text")
  | integer _ | real _ =>
    have hne : ["integer", "real"] ≠ [] := by simp
    exact atom_isAmong rfl hkind hne

/-- The values that can be written: integers of 64 bits, finite numbers, and texts. -/
def IsWritable : DetailValue → Prop
  | .integer i => -2 ^ 63 ≤ i ∧ i < 2 ^ 63
  | .real x => x.isFinite = true
  | .text _ => True

theorem denotes_valuePieces {v : DetailValue} (h : IsWritable v) :
    Denotes ((valuePieces v).flatMap Piece.write) (Condition.detailValue v) := by
  cases v with
  | integer i =>
    obtain ⟨ts, hscans, hvalue⟩ := denotes_integer h.1 h.2
    exact ⟨ts, hscans.append_nil, hvalue⟩
  | real x =>
    obtain ⟨ts, hscans, hvalue⟩ := denotes_real h
    exact ⟨ts, hscans.append_nil, hvalue⟩
  | text s =>
    obtain ⟨ts, hscans, hvalue⟩ := denotes_quote s
    exact ⟨ts, hscans.append_nil, hvalue⟩

def detailTokens (name : String) (op : CompareOp) (v : DetailValue) (us : List Token) :
    List Token :=
  existsTokens ⟨"HashDetails", "d"⟩ ++ Token.keyword .where :: ((ofFileTokens "d" ++
    Token.keyword .and :: ((columnTokens "d" "Name" ++ Token.sign .equal :: [.text name]) ++
      Token.keyword .and :: (kindTokens v ++ Token.keyword .and ::
        (columnTokens "d" "Value" ++ Token.sign (signOf op) :: us)))) ++ [Token.sign .closing])

theorem scansPieces_detail (name : String) (op : CompareOp) {v : DetailValue} {us : List Token}
    (hvalue : Scans ((valuePieces v).flatMap Piece.write) us) :
    ScansPieces (Condition.detail name op v).pieces (detailTokens name op v us) := by
  have hcode : Closed
      "EXISTS (SELECT 1 FROM HashDetails d WHERE d.Hash = h.Hash AND d.Name = ".toList
      (existsTokens ⟨"HashDetails", "d"⟩ ++ Token.keyword .where :: ofFileTokens "d" ++
        Token.keyword .and :: columnTokens "d" "Name" ++ [Token.sign .equal]) :=
    closed_ofList (by decide)
  have hand : Closed " AND ".toList [.keyword .and] :=
    closed_ofList (by decide)
  have hvalueCode : Closed " AND d.Value ".toList (.keyword .and :: columnTokens "d" "Value") :=
    closed_ofList (by decide)
  have hrelation := scans_relation op hvalueCode
    (scans_append_code hvalue startsBoundary_closing closed_closing)
  have htext : (Condition.detail name op v).pieces.flatMap Piece.write =
      "EXISTS (SELECT 1 FROM HashDetails d WHERE d.Hash = h.Hash AND d.Name = ".toList ++
        (quote name.toList ++ (" AND ".toList ++ ((kindPieces v).flatMap Piece.write ++
          ((" AND d.Value " ++ op.symbol ++ " ").toList ++
            ((valuePieces v).flatMap Piece.write ++ ")".toList))))) := by
    simp only [Condition.pieces, detailPieces, List.flatMap_append, List.flatMap_cons,
      List.flatMap_nil, Piece.write, List.append_assoc, List.append_nil]
  rw [ScansPieces, htext]
  have hboundary : ∃ c ds, (" AND d.Value " ++ op.symbol ++ " ").toList ++
      ((valuePieces v).flatMap Piece.write ++ ")".toList) = c :: ds ∧ isBoundary c = true := by
    have hstart : startsBoundary " AND d.Value " = true := startsBoundary_ofList rfl
    rw [String.toList_append, String.toList_append, List.append_assoc, List.append_assoc]
    exact exists_of_startsBoundary hstart _
  have hkind := hand.append (scans_kindPieces v hrelation hboundary)
  have hstart : startsBoundary " AND " = true := startsBoundary_ofList rfl
  have hliteral := (scans_quote name).append hkind (exists_of_startsBoundary hstart _)
  have hall := hcode.append hliteral
  simp only [detailTokens, List.append_assoc, List.cons_append, List.nil_append] at hall ⊢
  exact hall

theorem reads_detail (name : String) (op : CompareOp) {v : DetailValue} (h : IsWritable v) :
    Reads (Condition.detail name op v).pieces (Condition.detail name op v).formula := by
  obtain ⟨us, hscans, hvalue⟩ := denotes_valuePieces h
  have hname := atom_compare .equal rfl (scalarTokens_column "d" "Name") (scalarTokens_text name)
  have hcompare := atom_compare op rfl (scalarTokens_column "d" "Value") hvalue
  exact ⟨_, scansPieces_detail name op hscans, ((atom_ofFile "d").and (hname.and
    ((atom_kindFormula v).and hcompare.conjuncts))).disjuncts.exists ⟨"HashDetails", "d"⟩⟩

/-! ## Groups -/

theorem scansPieces_append {ps qs : List Piece} {text : String} {s t u : List Token}
    (hps : ScansPieces ps s) (hcode : Closed text.toList t) (hstart : startsBoundary text = true)
    (hqs : ScansPieces qs u) : ScansPieces (ps ++ [code text] ++ qs) (s ++ (t ++ u)) := by
  have htext : (ps ++ [code text] ++ qs).flatMap Piece.write =
      ps.flatMap Piece.write ++ (text.toList ++ qs.flatMap Piece.write) := by
    simp only [List.flatMap_append, List.flatMap_cons, List.flatMap_nil, Piece.write,
      List.append_nil, List.append_assoc]
  rw [ScansPieces, htext]
  exact hps.append (hcode.append hqs) (exists_of_startsBoundary hstart _)

theorem exists_conjuncts {cs : List Condition} (hne : cs ≠ [])
    (h : ∀ c ∈ cs, Reads c.pieces c.formula) :
    ∃ ts, ScansPieces (separate " AND " (Condition.piecesAll cs)) ts ∧
      Conjuncts ts (Condition.conjunctionFormula cs) := by
  have hand : Closed " AND ".toList [.keyword .and] :=
    closed_ofList (by decide)
  induction cs with
  | nil => exact absurd rfl hne
  | cons c cs ih =>
    obtain ⟨hc, hcs⟩ := List.forall_mem_cons.1 h
    obtain ⟨ts, hscans, hatom⟩ := hc
    cases cs with
    | nil => exact ⟨ts, hscans, hatom.conjuncts⟩
    | cons d ds =>
      obtain ⟨us, hscans', hrest⟩ := ih (List.cons_ne_nil d ds) hcs
      exact ⟨_, scansPieces_append hscans hand (startsBoundary_ofList rfl) hscans',
        hatom.and hrest⟩

theorem exists_disjuncts {cs : List Condition} (hne : cs ≠ [])
    (h : ∀ c ∈ cs, Reads c.pieces c.formula) :
    ∃ ts, ScansPieces (separate " OR " (Condition.piecesAll cs)) ts ∧
      Disjuncts ts (Condition.disjunctionFormula cs) := by
  have hor : Closed " OR ".toList [.keyword .or] :=
    closed_ofList (by decide)
  induction cs with
  | nil => exact absurd rfl hne
  | cons c cs ih =>
    obtain ⟨hc, hcs⟩ := List.forall_mem_cons.1 h
    obtain ⟨ts, hscans, hatom⟩ := hc
    cases cs with
    | nil => exact ⟨ts, hscans, hatom.disjuncts⟩
    | cons d ds =>
      obtain ⟨us, hscans', hrest⟩ := ih (List.cons_ne_nil d ds) hcs
      exact ⟨_, scansPieces_append hscans hor (startsBoundary_ofList rfl) hscans',
        hatom.conjuncts.or hrest⟩

theorem closed_opening : Closed "(".toList [.sign .opening] :=
  closed_ofList (by decide)

/-- Code that encloses pieces in parentheses. -/
theorem scansPieces_group {ps : List Piece} {text : String} {s t : List Token}
    (hcode : Closed text.toList s) (hps : ScansPieces ps t) :
    ScansPieces ([code text] ++ ps ++ [code ")"]) (s ++ (t ++ [.sign .closing])) := by
  have htext : ([code text] ++ ps ++ [code ")"]).flatMap Piece.write =
      text.toList ++ (ps.flatMap Piece.write ++ ")".toList) := by
    simp only [List.flatMap_append, List.flatMap_cons, List.flatMap_nil, Piece.write,
      List.append_nil, List.append_assoc]
  rw [ScansPieces, htext]
  exact hcode.append (scans_append_code hps startsBoundary_closing closed_closing)

theorem reads_all {cs : List Condition} (hne : cs ≠ []) (h : ∀ c ∈ cs, Reads c.pieces c.formula) :
    Reads (Condition.all cs).pieces (Condition.all cs).formula := by
  obtain ⟨ts, hscans, hread⟩ := exists_conjuncts hne h
  exact ⟨_, scansPieces_group closed_opening hscans, hread.disjuncts.group⟩

theorem reads_any {cs : List Condition} (hne : cs ≠ []) (h : ∀ c ∈ cs, Reads c.pieces c.formula) :
    Reads (Condition.any cs).pieces (Condition.any cs).formula := by
  obtain ⟨ts, hscans, hread⟩ := exists_disjuncts hne h
  exact ⟨_, scansPieces_group closed_opening hscans, hread.group⟩

theorem reads_not {c : Condition} (h : Reads c.pieces c.formula) :
    Reads (Condition.not c).pieces (Condition.not c).formula := by
  have hcode : Closed "NOT (".toList [.keyword .not, .sign .opening] :=
    closed_ofList (by decide)
  obtain ⟨ts, hscans, hatom⟩ := h
  exact ⟨_, scansPieces_group hcode hscans, hatom.disjuncts.group.not⟩

end Sql

/-! ## Conditions of expressions -/

/-- An integer that is a binary64 number, or any other value. -/
def DetailValue.IsExact : DetailValue → Prop
  | .integer i => i.natAbs ≤ 2 ^ 53
  | _ => True

/-- The numbers of a leaf fit into the columns that they are compared with. -/
def Expr.FitsColumns : Expr → Prop
  | .fileSize bound | .copies bound | .tagCount bound | .peopleCount bound | .ratingsCount bound =>
    bound.value < 2 ^ 63
  | .personId id => -2 ^ 63 ≤ id ∧ id < 2 ^ 63
  | .details _ _ value => value.IsExact
  | _ => True

namespace Sql.Condition

theorem forall₂_of_ofExprs {es : List Expr} {cs : List Condition} (h : ofExprs es = .ok cs) :
    List.Forall₂ (fun e c => ofExpr e = .ok c) es cs := by
  induction es generalizing cs with
  | nil =>
    obtain rfl : [] = cs := Except.ok.inj h
    exact .nil
  | cons e es ih =>
    cases he : ofExpr e with
    | error _ => simp [ofExprs, he, bind, Except.bind] at h
    | ok c =>
      cases hes : ofExprs es with
      | error _ => simp [ofExprs, he, hes, bind, Except.bind] at h
      | ok ds =>
        obtain rfl : c :: ds = cs := by
          simpa [ofExprs, he, hes, bind, Except.bind, pure, Except.pure] using h
        exact .cons he (ih hes)

/-- The condition of a group with parts is made of the conditions of the parts. -/
theorem ofExpr_group {f : List Condition → Condition} {e : Expr} {es : List Expr} {c : Condition}
    (h : (do return f ((← ofExpr e) :: (← ofExprs es)) : Except BackendFault Condition) = .ok c) :
    ∃ cs, cs ≠ [] ∧ List.Forall₂ (fun e c => ofExpr e = .ok c) (e :: es) cs ∧ c = f cs := by
  cases he : ofExpr e with
  | error _ => simp [he, bind, Except.bind] at h
  | ok d =>
    cases hes : ofExprs es with
    | error _ => simp [he, hes, bind, Except.bind] at h
    | ok ds =>
      refine ⟨d :: ds, List.cons_ne_nil d ds, .cons he (forall₂_of_ofExprs hes), ?_⟩
      simpa [he, hes, bind, Except.bind, pure, Except.pure] using h.symm

/-- The condition of a conjunction. -/
theorem ofExpr_conjunction {parts : List Expr} {c : Condition}
    (h : ofExpr (.conjunction parts) = .ok c) :
    parts = [] ∧ c = .constant true ∨
      ∃ cs, cs ≠ [] ∧ List.Forall₂ (fun e c => ofExpr e = .ok c) parts cs ∧ c = .all cs := by
  cases parts with
  | nil => exact .inl ⟨rfl, (Except.ok.inj h).symm⟩
  | cons e es => exact .inr (ofExpr_group h)

/-- The condition of a disjunction. -/
theorem ofExpr_disjunction {parts : List Expr} {c : Condition}
    (h : ofExpr (.disjunction parts) = .ok c) :
    parts = [] ∧ c = .constant false ∨
      ∃ cs, cs ≠ [] ∧ List.Forall₂ (fun e c => ofExpr e = .ok c) parts cs ∧ c = .any cs := by
  cases parts with
  | nil => exact .inl ⟨rfl, (Except.ok.inj h).symm⟩
  | cons e es => exact .inr (ofExpr_group h)

/-- The conditions of parts are the conditions of the list of them. -/
theorem ofExprs_of_forall₂ {es : List Expr} {cs : List Condition}
    (h : List.Forall₂ (fun e c => ofExpr e = .ok c) es cs) : ofExprs es = .ok cs := by
  induction h with
  | nil => rfl
  | cons he _ ih => rw [ofExprs, he, ih]; rfl

/-- A conjunction has a condition if its parts have. -/
theorem ofExpr_conjunction_of_forall₂ {parts : List Expr} {cs : List Condition}
    (h : List.Forall₂ (fun e c => ofExpr e = .ok c) parts cs) :
    ofExpr (.conjunction parts) = .ok (if cs = [] then .constant true else .all cs) := by
  cases h with
  | nil => rfl
  | cons he hes => rw [ofExpr, he, ofExprs_of_forall₂ hes]; rfl

/-- A disjunction has a condition if its parts have. -/
theorem ofExpr_disjunction_of_forall₂ {parts : List Expr} {cs : List Condition}
    (h : List.Forall₂ (fun e c => ofExpr e = .ok c) parts cs) :
    ofExpr (.disjunction parts) = .ok (if cs = [] then .constant false else .any cs) := by
  cases h with
  | nil => rfl
  | cons he hes => rw [ofExpr, he, ofExprs_of_forall₂ hes]; rfl

/-- Part by part, what holds of the conditions of parts holds of the conditions of a group. -/
theorem forall_of_forall₂ {es : List Expr} {cs : List Condition} {p : Condition → Prop}
    (h : List.Forall₂ (fun e c => ofExpr e = .ok c) es cs)
    (hp : ∀ e ∈ es, ∀ c, ofExpr e = .ok c → p c) : ∀ c ∈ cs, p c := by
  induction h with
  | nil => simp
  | cons he _ ih =>
    obtain ⟨hfirst, hrest⟩ := List.forall_mem_cons.1 hp
    exact List.forall_mem_cons.2 ⟨hfirst _ he, ih hrest⟩

/-- The condition of a relation between ratings. -/
theorem ofExpr_rating {bound : Comparison Real64} {c : Condition}
    (h : ofExpr (.rating bound) = .ok c) :
    bound.value.isFinite = true ∧ c = .rated bound.op bound.value := by
  by_cases hfinite : bound.value.isFinite = true
  · exact ⟨hfinite, by simpa [ofExpr, checkLiteral, hfinite, Except.map] using h.symm⟩
  · simp [ofExpr, checkLiteral, hfinite, Except.map] at h

/-- The condition of a relation between details. -/
theorem ofExpr_details {name : String} {op : CompareOp} {value : DetailValue} {c : Condition}
    (h : ofExpr (.details name op value) = .ok c) :
    (∀ x, value = .real x → x.isFinite = true) ∧ c = .detail name op value := by
  cases value with
  | integer i => exact ⟨fun _ => DetailValue.noConfusion, (Except.ok.inj h).symm⟩
  | text s => exact ⟨fun _ => DetailValue.noConfusion, (Except.ok.inj h).symm⟩
  | real x =>
    by_cases hfinite : x.isFinite = true
    · refine ⟨?_, by simpa [ofExpr, checkDetail, checkLiteral, hfinite, Except.map] using h.symm⟩
      rintro y ⟨⟩
      exact hfinite
    · simp [ofExpr, checkDetail, checkLiteral, hfinite, Except.map] at h

theorem ofExpr_rating_of_isFinite {bound : Comparison Real64}
    (h : bound.value.isFinite = true) :
    ofExpr (.rating bound) = .ok (.rated bound.op bound.value) := by
  simp [ofExpr, checkLiteral, h, Except.map]

theorem ofExpr_details_of_isFinite (name : String) (op : CompareOp) {value : DetailValue}
    (h : ∀ x, value = .real x → x.isFinite = true) :
    ofExpr (.details name op value) = .ok (.detail name op value) := by
  cases value with
  | real x => simp [ofExpr, checkDetail, checkLiteral, h x rfl, Except.map]
  | integer _ | text _ => rfl

/-- The condition of a sample. -/
theorem ofExpr_sample {p : Real64} {c : Condition} (h : ofExpr (.sample p) = .ok c) :
    p.isFinite = true ∧ c = .drawn (threshold p) := by
  by_cases hfinite : p.isFinite = true
  · exact ⟨hfinite, by simpa [ofExpr, hfinite] using h.symm⟩
  · simp [ofExpr, hfinite] at h

/-- Exact details that are finite can be written. -/
theorem isWritable_of_isExact {value : DetailValue} (hexact : value.IsExact)
    (hfinite : ∀ x, value = .real x → x.isFinite = true) : IsWritable value := by
  cases value with
  | integer i =>
    have hexact : i.natAbs ≤ 2 ^ 53 := hexact
    exact ⟨by omega, by omega⟩
  | real x => exact hfinite x rfl
  | text s => exact trivial

theorem reads_ofTags (isRejected : Bool) (tags : TagSet) :
    Reads (ofTags isRejected tags).pieces (ofTags isRejected tags).formula := by
  unfold ofTags
  by_cases h : tags.isEmpty
  · rw [if_pos h]
    exact reads_constant false
  · rw [if_neg h]
    exact reads_tagged isRejected (by simpa [TagSet.isEmpty] using h)

theorem reads_of_isLeaf {e : Expr} {c : Condition} (he : e.isLeaf = true)
    (hsample : e.hasSample = false) (hfits : e.FitsColumns) (h : ofExpr e = .ok c) :
    Reads c.pieces c.formula := by
  cases e with
  | conjunction _ | disjunction _ | negation _ => contradiction
  | sample _ => contradiction
  | typeEquals t => exact Except.ok.inj h ▸ reads_typeEquals t
  | typeStart t => exact Except.ok.inj h ▸ reads_typeStart t
  | text t => exact Except.ok.inj h ▸ reads_pathContains t
  | hash hash => exact Except.ok.inj h ▸ reads_hashEquals hash
  | fileSize bound => exact Except.ok.inj h ▸ reads_fileSize bound.op hfits
  | copies bound => exact Except.ok.inj h ▸ reads_counted .copies bound.op hfits
  | tagCount bound => exact Except.ok.inj h ▸ reads_counted .tagCount bound.op hfits
  | peopleCount bound => exact Except.ok.inj h ▸ reads_counted .peopleCount bound.op hfits
  | ratingsCount bound => exact Except.ok.inj h ▸ reads_counted .rating bound.op hfits
  | rating bound =>
    obtain ⟨hfinite, rfl⟩ := ofExpr_rating h
    exact reads_rated bound.op hfinite
  | stars _ => exact Except.ok.inj h ▸ reads_constant true
  | personId id => exact Except.ok.inj h ▸ reads_personId hfits.1 hfits.2
  | personName name => exact Except.ok.inj h ▸ reads_personName name
  | noPeople => exact Except.ok.inj h ▸ reads_noPeople
  | tag tags => exact Except.ok.inj h ▸ reads_ofTags false tags
  | rejectedTag tags => exact Except.ok.inj h ▸ reads_ofTags true tags
  | details name op value =>
    obtain ⟨hfinite, rfl⟩ := ofExpr_details h
    exact reads_detail name op (isWritable_of_isExact hfits hfinite)

/-- The condition of an expression is read as its formula. -/
theorem reads_ofExpr {e : Expr} {c : Condition} (hsample : e.hasSample = false)
    (hfits : ∀ x ∈ e.leaves, x.FitsColumns) (h : ofExpr e = .ok c) : Reads c.pieces c.formula := by
  induction e using Expr.treeInduction generalizing c with
  | leaf e he =>
    rw [Expr.leaves_of_isLeaf he] at hfits
    exact reads_of_isLeaf he hsample (hfits e (List.mem_singleton_self e)) h
  | conjunction parts ih =>
    rw [Expr.hasSample_conjunction, List.any_eq_false] at hsample
    rcases ofExpr_conjunction h with ⟨-, rfl⟩ | ⟨cs, hne, hparts, rfl⟩
    · exact reads_constant true
    · refine reads_all hne (forall_of_forall₂ hparts fun e he d hd => ih e he ?_ ?_ hd)
      · exact Bool.eq_false_iff.2 (hsample e he)
      · exact Expr.forall_leaves_conjunction.1 hfits e he
  | disjunction parts ih =>
    rw [Expr.hasSample_disjunction, List.any_eq_false] at hsample
    rcases ofExpr_disjunction h with ⟨-, rfl⟩ | ⟨cs, hne, hparts, rfl⟩
    · exact reads_constant false
    · refine reads_any hne (forall_of_forall₂ hparts fun e he d hd => ih e he ?_ ?_ hd)
      · exact Bool.eq_false_iff.2 (hsample e he)
      · exact Expr.forall_leaves_disjunction.1 hfits e he
  | negation e ih =>
    obtain ⟨d, hd, rfl⟩ := ofExpr_negation h
    exact reads_not (ih hsample hfits hd)

end Sql.Condition
end TagQuery
