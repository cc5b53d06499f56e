import TagQuery.Proofs.Sql.Literal

/-!
# Literals in statements

Where the literals of a statement are, by the quote rule alone: a literal starts with a quote, and
ends with the first quote that is not doubled. Pieces are written such that this rule finds them
again, as long as no code has a quote and code stands between two literals.

## Main definitions

- `Sql.Outline`: the literals of a text, and the code around them.
- `Sql.outline?`: the outline of a text by the quote rule.
- `Sql.Framed`: pieces that can stand next to others, and in which literals are kept apart.

## Main statements

- `Sql.outline?_write`: the outline of the text of pieces is that of the pieces.
-/

namespace TagQuery.Sql

open Piece (code literal)

/-! ## The quote rule -/

/-- The literals of a text with their quotes undoubled, and the code before, between and behind
them. -/
structure Outline where
  literals : List (List Char)
  codes : List (List Char)
  deriving DecidableEq

namespace Outline

def addCode (text : List Char) (o : Outline) : Outline :=
  { o with codes := o.codes.modifyHead (text ++ ·) }

def addText (text : List Char) (o : Outline) : Outline :=
  { o with literals := o.literals.modifyHead (text ++ ·) }

end Outline

mutual
/-- The outline of a text that begins outside of literals: the first quote starts one. -/
def outline? : List Char → Option Outline
  | [] => some ⟨[], [[]]⟩
  | c :: cs =>
    if c = '\'' then (literalOutline? cs).map fun o => ⟨o.literals, [] :: o.codes⟩
    else (outline? cs).map (.addCode [c])
termination_by structural cs => cs

/-- The outline of a text that begins inside of a literal, which is the first one: a quote ends it
unless it is doubled. A literal without an end has no outline. -/
def literalOutline? : List Char → Option Outline
  | [] => none
  | '\'' :: '\'' :: cs => (literalOutline? cs).map (.addText ['\''])
  | '\'' :: cs => (outline? cs).map fun o => ⟨[] :: o.literals, o.codes⟩
  | c :: cs => (literalOutline? cs).map (.addText [c])
termination_by structural cs => cs
end

@[simp] theorem Outline.addCode_nil (o : Outline) : o.addCode [] = o := by
  cases o with
  | mk literals codes => cases codes <;> rfl

@[simp] theorem Outline.addCode_addCode (a b : List Char) (o : Outline) :
    (o.addCode b).addCode a = o.addCode (a ++ b) := by
  cases o with
  | mk literals codes => cases codes <;> simp [addCode]

/-- Code without quotes stays in front. -/
theorem outline?_append {text : List Char} (h : '\'' ∉ text) (cs : List Char) :
    outline? (text ++ cs) = (outline? cs).map (.addCode text) := by
  induction text with
  | nil => cases hcs : outline? cs <;> simp [hcs]
  | cons c text ih =>
    rw [List.mem_cons, not_or] at h
    rw [List.cons_append, outline?, if_neg (Ne.symm h.1), ih h.2, Option.map_map]
    congr 1
    funext o
    exact o.addCode_addCode [c] text

theorem literalOutline?_end {cs : List Char} (h : cs.head? ≠ some '\'') :
    literalOutline? ('\'' :: cs) = (outline? cs).map fun o => ⟨[] :: o.literals, o.codes⟩ := by
  cases cs with
  | nil => rfl
  | cons c cs =>
    rw [literalOutline?]
    intro ds hds
    rw [(List.cons.inj hds).1] at h
    exact h rfl

/-- A quoted text ends where the next character is not a quote, and is read as itself. -/
theorem outline?_quote (content : List Char) {cs : List Char} (h : cs.head? ≠ some '\'') :
    outline? (quote content ++ cs) =
      (outline? cs).map fun o => ⟨content :: o.literals, [] :: o.codes⟩ := by
  have hliteral : literalOutline? (Text.replaceChar '\'' ['\'', '\''] content ++ '\'' :: cs) =
      (outline? cs).map fun o => ⟨content :: o.literals, o.codes⟩ := by
    induction content with
    | nil => exact literalOutline?_end h
    | cons c content ih =>
      have hstep : literalOutline?
          (Text.replaceChar '\'' ['\'', '\''] (c :: content) ++ '\'' :: cs) =
            (literalOutline? (Text.replaceChar '\'' ['\'', '\''] content ++ '\'' :: cs)).map
              (.addText [c]) := by
        by_cases hc : c = '\''
        · subst hc
          rfl
        · rw [Text.replaceChar_cons, if_neg hc, List.singleton_append, List.cons_append,
            literalOutline?]
          · exact fun ds hds _ => hc hds
          · exact hc
      rw [hstep, ih, Option.map_map]
      rfl
  rw [quote, List.append_assoc, List.append_assoc, List.singleton_append, List.singleton_append,
    outline?, if_pos rfl, hliteral, Option.map_map]
  rfl

/-! ## Outlines of pieces -/

def Piece.content? : Piece → Option String
  | .code _ => none
  | .literal content => some content

def Piece.code? : Piece → Option String
  | .code text => some text
  | .literal _ => none

/-- The code before, between and behind literals. -/
def codesOf : List (Option String) → List (List Char)
  | [] => [[]]
  | some text :: rest => (codesOf rest).modifyHead (text.toList ++ ·)
  | none :: rest => [] :: codesOf rest

def Outline.ofPieces (ps : List Piece) : Outline :=
  ⟨(ps.filterMap Piece.content?).map String.toList, codesOf (ps.map Piece.code?)⟩

/-- A piece of code has characters, and none of them is a quote. -/
def IsCode (text : String) : Prop := text.toList ≠ [] ∧ '\'' ∉ text.toList

/-- In no code is there a quote, and no literal has one behind it. -/
def KeepsApart : List Piece → Prop
  | [] => True
  | .code text :: ps => '\'' ∉ text.toList ∧ KeepsApart ps
  | .literal _ :: ps => (ps.flatMap Piece.write).head? ≠ some '\'' ∧ KeepsApart ps

/-- Pieces in which literals are kept apart and which do not begin with one. -/
structure Framed (ps : List Piece) : Prop where
  keepsApart : KeepsApart ps
  head_ne : (ps.flatMap Piece.write).head? ≠ some '\''

/-- The outline of the text of pieces is that of the pieces. -/
theorem outline?_write {ps : List Piece} (h : KeepsApart ps) :
    outline? (ps.flatMap Piece.write) = some (.ofPieces ps) := by
  induction ps with
  | nil => rfl
  | cons p ps ih =>
    cases p with
    | code text =>
      rw [List.flatMap_cons, Piece.write, outline?_append h.1, ih h.2]
      rfl
    | literal content =>
      rw [List.flatMap_cons, Piece.write, outline?_quote _ h.1, ih h.2]
      rfl

/-! ## Framed pieces -/

theorem isCode_ofList {cs : List Char} (h : cs ≠ [] ∧ '\'' ∉ cs) : IsCode (String.ofList cs) := by
  rwa [IsCode, String.toList_ofList]

theorem IsCode.append {a b : String} (ha : IsCode a) (hb : '\'' ∉ b.toList) : IsCode (a ++ b) := by
  rw [IsCode, String.toList_append, List.mem_append, not_or]
  exact ⟨List.append_ne_nil_of_left_ne_nil ha.1 _, ha.2, hb⟩

theorem isCode_append_ofList {cs ds : List Char} (h : cs ≠ [] ∧ '\'' ∉ cs ∧ '\'' ∉ ds) :
    IsCode (String.ofList cs ++ String.ofList ds) := by
  refine (isCode_ofList ⟨h.1, h.2.1⟩).append ?_
  rw [String.toList_ofList]
  exact h.2.2

theorem framed_nil : Framed [] := ⟨trivial, nofun⟩

/-- Code may stand in front of literals. -/
theorem framed_code {text : String} (htext : IsCode text) {ps : List Piece} (h : KeepsApart ps) :
    Framed (code text :: ps) where
  keepsApart := ⟨htext.2, h⟩
  head_ne := by
    obtain ⟨c, cs, hcs⟩ := List.exists_cons_of_ne_nil htext.1
    rw [List.flatMap_cons, Piece.write, hcs, List.cons_append, List.head?_cons, ne_eq,
      Option.some.injEq]
    rintro rfl
    exact htext.2 (hcs ▸ List.mem_cons_self)

theorem keepsApart_literal (content : String) {ps : List Piece} (h : Framed ps) :
    KeepsApart (literal content :: ps) :=
  ⟨h.head_ne, h.keepsApart⟩

theorem head?_append_ne {a b : List Char} (ha : a.head? ≠ some '\'') (hb : b.head? ≠ some '\'') :
    (a ++ b).head? ≠ some '\'' := by
  cases a with
  | nil => exact hb
  | cons c a => exact ha

theorem KeepsApart.append {ps qs : List Piece} (hps : KeepsApart ps) (hqs : Framed qs) :
    KeepsApart (ps ++ qs) := by
  induction ps with
  | nil => exact hqs.keepsApart
  | cons p ps ih =>
    rw [List.cons_append]
    cases p with
    | code text => exact ⟨hps.1, ih hps.2⟩
    | literal content =>
      refine ⟨?_, ih hps.2⟩
      rw [List.flatMap_append]
      exact head?_append_ne hps.1 hqs.head_ne

theorem Framed.append {ps qs : List Piece} (hps : Framed ps) (hqs : Framed qs) :
    Framed (ps ++ qs) where
  keepsApart := hps.keepsApart.append hqs
  head_ne := by
    rw [List.flatMap_append]
    exact head?_append_ne hps.head_ne hqs.head_ne

end TagQuery.Sql
