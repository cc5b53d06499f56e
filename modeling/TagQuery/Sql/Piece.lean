import TagQuery.Text.Cut

/-!
# Pieces of SQL

SQL text as a list of pieces, each of which is code or a text literal. Code holds no quotes, and a
literal is written between quotes with its own quotes doubled, so that no text can end its literal.

## Main definitions

- `Sql.Piece`: code, or the content of a literal.
- `Sql.render`: the text of pieces.
-/

namespace TagQuery.Sql

inductive Piece where
  | code (text : String)
  | literal (content : String)
  deriving DecidableEq, Repr

def quote (content : List Char) : List Char :=
  ['\''] ++ Text.replaceChar '\'' ['\'', '\''] content ++ ['\'']

def Piece.write : Piece → List Char
  | .code text => text.toList
  | .literal content => quote content.toList

def render (pieces : List Piece) : String :=
  String.ofList (pieces.flatMap Piece.write)

end TagQuery.Sql
