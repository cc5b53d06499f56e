import TagQuery.Digest
import TagQuery.Expr.Json
import TagQuery.Sql.Condition
import TagQuery.Sql.Piece

/-!
# Search scripts

The script that finds the files of an expression: it stores the matching rows of the table of files,
and then reads them and their rows in the other tables, always in the same order.

The tables are `HashInfo (Hash, FileSize, FileType, Version)`, `Paths (Hash, Path)`, `Tags (TagId,
Name)`, `HashTags (Hash, TagId, Rejected)`, `Persons (PersonId, Name)`, `PersonAliases (PersonId,
Alias)`, `HashPeople (Hash, PersonId)`, `HashDetails (Hash, Name, Value)` and `HashRatings (Hash,
Category, Value, Count)`.

## Main definitions

- `Sql.Condition.pieces`: a condition as SQL.
- `Sql.Script`: the statements of a search.
- `Sql.Script.ofExpr`: the script of an expression.
-/

namespace TagQuery.Sql

open Piece (code literal)

/-! ## Conditions -/

def separate (separator : String) : List (List Piece) → List Piece
  | [] => []
  | [item] => item
  | item :: items => item ++ [code separator] ++ separate separator items

/-- A text in which the wildcards of patterns stand for themselves. -/
def escapePattern (text : String) : String :=
  String.ofList (text.toList.flatMap fun c =>
    if c = '%' ∨ c = '_' ∨ c = '\\' then ['\\', c] else [c])

def compareNumber (column : String) (op : CompareOp) (bound : Nat) : List Piece :=
  [code (column ++ " " ++ op.symbol ++ " " ++ toString bound)]

/-- The column of a count; a file without rows to count has none, which counts as zero. -/
def countColumn : Join → String
  | .copies => "COALESCE(cp.Copies, 0)"
  | .tagCount => "COALESCE(tc.TagCount, 0)"
  | .peopleCount => "COALESCE(pc.PeopleCount, 0)"
  | .rating => "COALESCE(r.Count, 0)"

def taggedPieces (isRejected : Bool) (tags : TagSet) : List Piece :=
  [code ("EXISTS (SELECT 1 FROM HashTags ht JOIN Tags t ON t.TagId = ht.TagId " ++
      "WHERE ht.Hash = h.Hash AND ht.Rejected = " ++ (if isRejected then "1" else "0") ++
      " AND t.Name IN (")] ++
    separate ", " (tags.toList.map fun t => [literal t]) ++ [code "))"]

def personNamePieces (name : String) : List Piece :=
  [code ("EXISTS (SELECT 1 FROM HashPeople hp JOIN Persons pe ON pe.PersonId = hp.PersonId " ++
      "WHERE hp.Hash = h.Hash AND (pe.Name = "),
    literal name,
    code (" COLLATE NOCASE OR EXISTS " ++
      "(SELECT 1 FROM PersonAliases pa WHERE pa.PersonId = pe.PersonId AND pa.Alias = "),
    literal name,
    code " COLLATE NOCASE)))"]

def kindPieces : DetailValue → List Piece
  | .text _ => [code "typeof(d.Value) = ", literal "text"]
  | _ => [code "typeof(d.Value) IN (", literal "integer", code ", ", literal "real", code ")"]

def valuePieces : DetailValue → List Piece
  | .integer i => [code (toString i)]
  | .real x => [code (RealLayout.debug.render x)]
  | .text s => [literal s]

def detailPieces (name : String) (op : CompareOp) (value : DetailValue) : List Piece :=
  [code "EXISTS (SELECT 1 FROM HashDetails d WHERE d.Hash = h.Hash AND d.Name = ", literal name,
    code " AND "] ++
    kindPieces value ++ [code (" AND d.Value " ++ op.symbol ++ " ")] ++ valuePieces value ++ [code ")"]

mutual
def Condition.pieces : Condition → List Piece
  | .constant true => [code "1=1"]
  | .constant false => [code "1=0"]
  | .all parts => [code "("] ++ separate " AND " (piecesAll parts) ++ [code ")"]
  | .any parts => [code "("] ++ separate " OR " (piecesAll parts) ++ [code ")"]
  | .not part => [code "NOT ("] ++ part.pieces ++ [code ")"]
  | .typeEquals t => [code "h.FileType = ", literal t]
  | .typeStart t =>
    [code ("substr(h.FileType, 1, " ++ toString t.toList.length ++ ") = "), literal t]
  | .pathContains t =>
    [code "EXISTS (SELECT 1 FROM Paths p WHERE p.Hash = h.Hash AND p.Path LIKE ",
      literal ("%" ++ escapePattern t ++ "%"), code " ESCAPE ", literal "\\", code ")"]
  | .hashEquals hash => [code "h.Hash = ", literal hash, code " COLLATE NOCASE"]
  | .fileSize op bound => compareNumber "h.FileSize" op bound
  | .counted join op bound => compareNumber (countColumn join) op bound
  | .rated op bound =>
    [code ("(r.Value IS NOT NULL AND r.Value " ++ op.symbol ++ " " ++
      RealLayout.debug.render bound ++ ")")]
  | .personId id =>
    [code ("EXISTS (SELECT 1 FROM HashPeople hp WHERE hp.Hash = h.Hash AND hp.PersonId = " ++
      toString id ++ ")")]
  | .personName name => personNamePieces name
  | .noPeople => [code "NOT EXISTS (SELECT 1 FROM HashPeople hp WHERE hp.Hash = h.Hash)"]
  | .tagged isRejected tags => taggedPieces isRejected tags
  | .detail name op value => detailPieces name op value
  | .drawn threshold => [code ("(ABS(RANDOM()) % 1000000) < " ++ toString threshold)]
termination_by structural c => c

def Condition.piecesAll : List Condition → List (List Piece)
  | [] => []
  | c :: cs => c.pieces :: piecesAll cs
termination_by structural cs => cs
end

/-! ## Statements -/

/-- A join with the table of files, where ratings are those of a category. -/
def joinPieces (category : String) : Join → List Piece
  | .copies =>
    [code ("LEFT JOIN (SELECT Hash, COUNT(*) AS Copies FROM Paths GROUP BY Hash) cp " ++
      "ON cp.Hash = h.Hash")]
  | .tagCount =>
    [code ("LEFT JOIN (SELECT Hash, COUNT(*) AS TagCount FROM HashTags WHERE Rejected = 0 " ++
      "GROUP BY Hash) tc ON tc.Hash = h.Hash")]
  | .peopleCount =>
    [code ("LEFT JOIN (SELECT Hash, COUNT(*) AS PeopleCount FROM HashPeople GROUP BY Hash) pc " ++
      "ON pc.Hash = h.Hash")]
  | .rating =>
    [code "LEFT JOIN (SELECT Hash, Value, Count FROM HashRatings WHERE Category = ",
      literal category, code ") r ON r.Hash = h.Hash"]

/-- The statement that stores the rows that satisfy a condition. -/
def selectPieces (category : String) (c : Condition) : List Piece :=
  [code ("CREATE TEMP TABLE SearchHashes AS\n" ++
      "SELECT h.Hash, h.FileSize, h.FileType, h.Version\n")] ++
    separate "\n" ([code "FROM HashInfo h"] :: c.joins.map (joinPieces category)) ++
    [code "\nWHERE "] ++ c.pieces ++ [code ";"]

/-- What is read of the files that were found. -/
inductive ResultSet where
  | hashes
  | tags
  | rejectedTags
  | paths
  | people
  | details
  | ratings
  deriving DecidableEq, Repr

namespace ResultSet

/-- All result sets, in the order in which they are read. -/
def all : List ResultSet := [.hashes, .tags, .rejectedTags, .paths, .people, .details, .ratings]

def name : ResultSet → String
  | .hashes => "Hashes"
  | .tags => "Tags"
  | .rejectedTags => "RejectedTags"
  | .paths => "Paths"
  | .people => "People"
  | .details => "Details"
  | .ratings => "Ratings"

def tagQuery (isRejected : String) : String :=
  "SELECT ht.Hash, t.Name FROM HashTags ht JOIN temp.SearchHashes s ON s.Hash = ht.Hash " ++
    "JOIN Tags t ON t.TagId = ht.TagId WHERE ht.Rejected = " ++ isRejected ++ ";"

def query : ResultSet → String
  | .hashes => "SELECT Hash, FileSize, FileType, Version FROM temp.SearchHashes ORDER BY Hash;"
  | .tags => tagQuery "0"
  | .rejectedTags => tagQuery "1"
  | .paths =>
    "SELECT p.Hash, p.Path FROM Paths p JOIN temp.SearchHashes s ON s.Hash = p.Hash;"
  | .people =>
    "SELECT hp.Hash, pe.PersonId, pe.Name, pa.Alias FROM HashPeople hp " ++
      "JOIN temp.SearchHashes s ON s.Hash = hp.Hash " ++
      "JOIN Persons pe ON pe.PersonId = hp.PersonId " ++
      "LEFT JOIN PersonAliases pa ON pa.PersonId = pe.PersonId;"
  | .details =>
    "SELECT d.Hash, d.Name, d.Value FROM HashDetails d " ++
      "JOIN temp.SearchHashes s ON s.Hash = d.Hash;"
  | .ratings =>
    "SELECT r.Hash, r.Category, r.Value, r.Count FROM HashRatings r " ++
      "JOIN temp.SearchHashes s ON s.Hash = r.Hash;"

end ResultSet

/-! ## Scripts -/

/-- The statements of a search. -/
structure Script where
  category : String
  condition : Condition
  /-- The digest of the expression that the script was made from. -/
  fingerprint : Digest

namespace Script

def ofExpr (scale : RatingScale) (e : Expr) : Except BackendFault Script :=
  (Condition.ofExpr (e.resolveStars scale.stars)).map fun c =>
    ⟨scale.category, c, Digest.ofJson e.toJson⟩

def selection (s : Script) : String :=
  render (selectPieces s.category s.condition)

def statements (s : Script) : List String :=
  ["DROP TABLE IF EXISTS temp.SearchHashes;", s.selection] ++ ResultSet.all.map ResultSet.query

def text (s : Script) : String :=
  "\n".intercalate s.statements

end Script
end TagQuery.Sql
