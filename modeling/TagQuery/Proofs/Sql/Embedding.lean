import TagQuery.Proofs.Sql.Clauses
import TagQuery.Proofs.Sql.Outline

/-!
# Texts in statements

No text of an expression can change the code of the statement that is made from it. By the quote
rule the literals of the statement are the texts that it is meant to have, in order, and its code is
that of every other expression of the same form, whatever the texts in it and the category of
ratings.

## Main definitions

- `Embedded`: a text in a statement, of its own or given by an expression.
- `Expr.embeddedOn`: the texts that the statement of an expression has.
- `Expr.SameForm`: expressions that differ in texts only.

## Main statements

- `Sql.Condition.framed_ofExpr`, `Sql.Condition.contents_ofExpr`, `Sql.Condition.exists_sameCode`:
  the literals of a condition are kept apart, they are the texts of its expression, and its code
  does not depend on them.
- `Sql.Script.selection_outline`: the same of the whole statement.
-/

namespace TagQuery

open Number
open Sql (escapePattern)

/-! ## Texts of expressions -/

/-- A text in a statement: one that is there in any case, or one that an expression gives. -/
inductive Embedded where
  | own (text : String)
  | given (text : String)
  deriving DecidableEq, Repr

def Embedded.text : Embedded → String
  | .own text => text
  | .given text => text

def DetailValue.embedded : DetailValue → List Embedded
  | .text s => [.own "text", .given s]
  | _ => [.own "integer", .own "real"]

namespace Expr

/-- The texts of a leaf, in their order. A text in paths is a pattern with its escape character, and
a person's name is looked for twice. -/
def embedded : Expr → List Embedded
  | .typeEquals t => [.given t]
  | .typeStart t => [.given t]
  | .text t => [.given ("%" ++ escapePattern t ++ "%"), .own "\\"]
  | .hash h => [.given h]
  | .personName name => [.given name, .given name]
  | .tag tags => tags.toList.map .given
  | .rejectedTag tags => tags.toList.map .given
  | .details name _ value => .given name :: value.embedded
  | _ => []

def looksAtRatings : Expr → Bool
  | .rating _ | .ratingsCount _ => true
  | _ => false

/-- The texts of an expression on a scale of ratings: the category, if ratings are looked at, and
the texts of the leaves. -/
def embeddedOn (scale : RatingScale) (e : Expr) : List Embedded :=
  let leaves := (e.resolveStars scale.stars).leaves
  (if leaves.any looksAtRatings then [.given scale.category] else []) ++ leaves.flatMap embedded

/-- Expressions that differ in texts only, where the start of a type keeps its length and a set of
tags its size. -/
inductive SameForm : Expr → Expr → Prop
  | refl (e : Expr) : SameForm e e
  | typeEquals (t t' : String) : SameForm (.typeEquals t) (.typeEquals t')
  | typeStart {t t' : String} (h : t.toList.length = t'.toList.length) :
      SameForm (.typeStart t) (.typeStart t')
  | text (t t' : String) : SameForm (.text t) (.text t')
  | hash (h h' : String) : SameForm (.hash h) (.hash h')
  | personName (name name' : String) : SameForm (.personName name) (.personName name')
  | tag {tags tags' : TagSet} (h : tags.toList.length = tags'.toList.length) :
      SameForm (.tag tags) (.tag tags')
  | rejectedTag {tags tags' : TagSet} (h : tags.toList.length = tags'.toList.length) :
      SameForm (.rejectedTag tags) (.rejectedTag tags')
  | details (name name' : String) (op : CompareOp) (value : DetailValue) :
      SameForm (.details name op value) (.details name' op value)
  | textDetails (name name' : String) (op : CompareOp) (s s' : String) :
      SameForm (.details name op (.text s)) (.details name' op (.text s'))
  | conjunction {es es' : List Expr} (h : List.Forall₂ SameForm es es') :
      SameForm (.conjunction es) (.conjunction es')
  | disjunction {es es' : List Expr} (h : List.Forall₂ SameForm es es') :
      SameForm (.disjunction es) (.disjunction es')
  | negation {e e' : Expr} (h : SameForm e e') : SameForm (.negation e) (.negation e')

theorem SameForm.resolveStars_of_isLeaf (t : StarTable) {e e' : Expr} (he : e.isLeaf = true)
    (h : SameForm e e') : SameForm (e.resolveStars t) (e'.resolveStars t) := by
  cases h with
  | refl => exact .refl _
  | conjunction _ | disjunction _ | negation _ => contradiction
  | typeEquals t t' => exact .typeEquals t t'
  | typeStart hlength => exact .typeStart hlength
  | text t t' => exact .text t t'
  | hash x x' => exact .hash x x'
  | personName name name' => exact .personName name name'
  | tag hsize => exact .tag hsize
  | rejectedTag hsize => exact .rejectedTag hsize
  | details name name' op value => exact .details name name' op value
  | textDetails name name' op s s' => exact .textDetails name name' op s s'

/-- Without stars, expressions of the same form have the same form. -/
theorem SameForm.resolveStars (t : StarTable) {e e' : Expr} (h : SameForm e e') :
    SameForm (e.resolveStars t) (e'.resolveStars t) := by
  have hgroup {es es' : List Expr} (hparts : List.Forall₂ SameForm es es')
      (ih : ∀ e ∈ es, ∀ e', SameForm e e' → SameForm (e.resolveStars t) (e'.resolveStars t)) :
      List.Forall₂ SameForm (es.map (Expr.resolveStars t)) (es'.map (Expr.resolveStars t)) := by
    rw [List.forall₂_map_left_iff, List.forall₂_map_right_iff]
    exact Sql.forall₂_of_mem hparts fun e he e' _ => ih e he e'
  induction e using treeInduction generalizing e' with
  | leaf e he => exact resolveStars_of_isLeaf t he h
  | conjunction parts ih =>
    cases h with
    | refl => exact .refl _
    | conjunction hparts =>
      rw [resolveStars_conjunction, resolveStars_conjunction]
      exact .conjunction (hgroup hparts fun e he e' => ih e he)
  | disjunction parts ih =>
    cases h with
    | refl => exact .refl _
    | disjunction hparts =>
      rw [resolveStars_disjunction, resolveStars_disjunction]
      exact .disjunction (hgroup hparts fun e he e' => ih e he)
  | negation e ih =>
    cases h with
    | refl => exact .refl _
    | negation he => exact .negation (ih he)

end Expr

namespace Sql

open Piece (code literal)

/-! ## Numbers and relations -/

theorem quote_ne_digit {c : Char} (h : Number.isDigit c = true) : c ≠ '\'' := by
  rintro rfl
  contradiction

theorem quote_not_mem_toDigits (n : Nat) : '\'' ∉ Nat.toDigits 10 n :=
  fun h => quote_ne_digit (isDigit_of_mem_toDigits h) rfl

theorem quote_not_mem_natural (n : Nat) : '\'' ∉ (toString n).toList := by
  rw [toList_toString]
  exact quote_not_mem_toDigits n

theorem quote_not_mem_integer (i : Int) : '\'' ∉ (toString i).toList := by
  cases i with
  | ofNat n => exact quote_not_mem_natural n
  | negSucc n =>
    have hsign : '\'' ∉ "-".toList := by decide
    rw [Int.toString_eq_repr, Int.repr, String.toList_append, Nat.toList_repr, List.mem_append]
    exact fun h => h.elim hsign (quote_not_mem_toDigits _)

theorem quote_not_mem_written (w : Number.WrittenDecimal) : '\'' ∉ w.text := by
  have hfraction : '\'' ∉ w.fractionText := by
    unfold Number.WrittenDecimal.fractionText
    split
    · exact List.not_mem_nil
    · rw [List.mem_cons, not_or]
      exact ⟨by decide, fun h => quote_ne_digit (w.isDigit_fraction _ h) rfl⟩
  have hexponent : '\'' ∉ w.exponentText := by
    have hdigits := w.isDigit_exponent
    unfold Number.WrittenDecimal.exponentText
    split
    · exact List.not_mem_nil
    · next negative digits heq =>
      have hdigit : '\'' ∉ digits := fun h => quote_ne_digit (hdigits _ heq _ h) rfl
      cases negative <;> simp [hdigit]
  rw [Number.WrittenDecimal.text, List.mem_append, List.mem_append, not_or, not_or]
  exact ⟨fun h => quote_ne_digit (w.isDigit_whole _ h) rfl, hfraction, hexponent⟩

theorem quote_not_mem_real {x : Real64} (h : x.isFinite = true) :
    '\'' ∉ (RealLayout.debug.render x).toList := by
  cases x with
  | nan | infinity _ => contradiction
  | finite negative steps hfits =>
    obtain ⟨w, htext, -⟩ := RealLayout.render_debug negative hfits
    rw [htext, List.mem_append]
    cases negative <;> simp [quote_not_mem_written w]

theorem quote_not_mem_symbol (op : CompareOp) : '\'' ∉ op.symbol.toList := by
  cases op <;> decide

/-! ## Conditions -/

theorem isCode_compareNumber {column : String} (h : IsCode column) (op : CompareOp) (bound : Nat) :
    IsCode (column ++ " " ++ op.symbol ++ " " ++ toString bound) := by
  have hspace : '\'' ∉ " ".toList := by decide
  exact (((h.append hspace).append (quote_not_mem_symbol op)).append hspace).append
    (quote_not_mem_natural bound)

/-- Framed pieces stay so with code between them. -/
theorem framed_separate {separator : String} (hseparator : IsCode separator)
    {items : List (List Piece)} (h : ∀ item ∈ items, Framed item) :
    Framed (separate separator items) := by
  induction items with
  | nil => exact framed_nil
  | cons item items ih =>
    obtain ⟨hitem, hitems⟩ := List.forall_mem_cons.1 h
    cases items with
    | nil => exact hitem
    | cons next items =>
      have hcode : Framed [code separator] := framed_code hseparator trivial
      exact (hitem.append hcode).append (ih hitems)

/-- Literals are kept apart by code between them. -/
theorem keepsApart_separate_literals {separator : String} (hseparator : IsCode separator)
    (texts : List String) {ps : List Piece} (h : Framed ps) :
    KeepsApart (separate separator (texts.map fun t => [literal t]) ++ ps) := by
  induction texts with
  | nil => exact h.keepsApart
  | cons t texts ih =>
    cases texts with
    | nil => exact keepsApart_literal t h
    | cons u texts => exact keepsApart_literal t (framed_code hseparator ih)

theorem isCode_closing : IsCode ")" := isCode_ofList (by decide)

theorem framed_closing : Framed [code ")"] := framed_code isCode_closing trivial

theorem framed_taggedPieces (isRejected : Bool) (tags : TagSet) :
    Framed (taggedPieces isRejected tags) := by
  have hopen : IsCode ("EXISTS (SELECT 1 FROM HashTags ht JOIN Tags t ON t.TagId = ht.TagId " ++
      "WHERE ht.Hash = h.Hash AND ht.Rejected = " ++ (if isRejected then "1" else "0") ++
      " AND t.Name IN (") := by
    refine IsCode.append (.append (isCode_append_ofList (by decide)) ?_) ?_
    · cases isRejected <;> decide
    · exact (isCode_ofList (by decide)).2
  have hclose : Framed [code "))"] := framed_code (isCode_ofList (by decide)) trivial
  rw [taggedPieces, List.append_assoc]
  exact framed_code hopen (keepsApart_separate_literals (isCode_ofList (by decide)) _ hclose)

theorem framed_kindPieces (value : DetailValue) : Framed (kindPieces value) := by
  cases value with
  | text s => exact framed_code (isCode_ofList (by decide)) (keepsApart_literal _ framed_nil)
  | integer _ | real _ =>
    refine framed_code (isCode_ofList (by decide)) (keepsApart_literal _ ?_)
    exact framed_code (isCode_ofList (by decide)) (keepsApart_literal _ framed_closing)

/-- The value of a detail stands between code. -/
theorem keepsApart_valuePieces {value : DetailValue}
    (h : ∀ x, value = .real x → x.isFinite = true) {ps : List Piece} (hps : Framed ps) :
    KeepsApart (valuePieces value ++ ps) := by
  cases value with
  | integer i => exact ⟨quote_not_mem_integer i, hps.keepsApart⟩
  | real x => exact ⟨quote_not_mem_real (h x rfl), hps.keepsApart⟩
  | text s => exact keepsApart_literal s hps

theorem framed_detailPieces (name : String) (op : CompareOp) {value : DetailValue}
    (h : ∀ x, value = .real x → x.isFinite = true) : Framed (detailPieces name op value) := by
  have hand : Framed [code " AND "] := framed_code (isCode_ofList (by decide)) trivial
  have hrelation : IsCode (" AND d.Value " ++ op.symbol ++ " ") :=
    ((isCode_ofList (by decide)).append (quote_not_mem_symbol op)).append
      (isCode_ofList (by decide)).2
  have hvalue := framed_code hrelation (keepsApart_valuePieces h framed_closing)
  have hname {text : String} (htext : IsCode text) :
      Framed [code text, literal name, code " AND "] :=
    framed_code htext (keepsApart_literal name hand)
  rw [detailPieces, List.append_assoc, List.append_assoc]
  exact ((hname (isCode_ofList (by decide))).append (framed_kindPieces value)).append hvalue

theorem framed_personNamePieces (name : String) : Framed (personNamePieces name) := by
  refine framed_code (isCode_append_ofList (by decide)) (keepsApart_literal name ?_)
  refine framed_code (isCode_append_ofList (by decide)) (keepsApart_literal name ?_)
  exact framed_code (isCode_ofList (by decide)) trivial

namespace Condition

theorem framed_constant (b : Bool) : Framed (constant b).pieces := by
  cases b <;> exact framed_code (isCode_ofList (by decide)) trivial

theorem framed_ofTags (isRejected : Bool) (tags : TagSet) :
    Framed (ofTags isRejected tags).pieces := by
  unfold ofTags
  split
  · exact framed_constant false
  · exact framed_taggedPieces isRejected tags

theorem framed_compareNumber {column : String} (h : IsCode column) (op : CompareOp) (bound : Nat) :
    Framed (compareNumber column op bound) :=
  framed_code (isCode_compareNumber h op bound) trivial

theorem isCode_countColumn (join : Join) : IsCode (countColumn join) := by
  cases join <;> exact isCode_ofList (by decide)

theorem framed_of_isLeaf {e : Expr} {c : Condition} (he : e.isLeaf = true)
    (h : ofExpr e = .ok c) : Framed c.pieces := by
  cases e with
  | conjunction _ | disjunction _ | negation _ => contradiction
  | typeEquals t =>
    obtain rfl := Except.ok.inj h
    exact framed_code (isCode_ofList (by decide)) (keepsApart_literal t framed_nil)
  | typeStart t =>
    obtain rfl := Except.ok.inj h
    have hcode : IsCode ("substr(h.FileType, 1, " ++ toString t.toList.length ++ ") = ") :=
      ((isCode_ofList (by decide)).append (quote_not_mem_natural _)).append
        (isCode_ofList (by decide)).2
    exact framed_code hcode (keepsApart_literal t framed_nil)
  | text t =>
    obtain rfl := Except.ok.inj h
    refine framed_code (isCode_ofList (by decide)) (keepsApart_literal _ ?_)
    exact framed_code (isCode_ofList (by decide)) (keepsApart_literal _ framed_closing)
  | hash x =>
    obtain rfl := Except.ok.inj h
    refine framed_code (isCode_ofList (by decide)) (keepsApart_literal x ?_)
    exact framed_code (isCode_ofList (by decide)) trivial
  | fileSize bound =>
    obtain rfl := Except.ok.inj h
    exact framed_compareNumber (isCode_ofList (by decide)) bound.op bound.value
  | copies bound | tagCount bound | peopleCount bound | ratingsCount bound =>
    obtain rfl := Except.ok.inj h
    exact framed_compareNumber (isCode_countColumn _) bound.op bound.value
  | rating bound =>
    obtain ⟨hfinite, rfl⟩ := ofExpr_rating h
    refine framed_code (.append (.append (.append (.append ?_ ?_) ?_) ?_) ?_) trivial
    · exact isCode_ofList (by decide)
    · exact quote_not_mem_symbol bound.op
    · exact (isCode_ofList (by decide)).2
    · exact quote_not_mem_real hfinite
    · exact (isCode_ofList (by decide)).2
  | stars bound =>
    obtain rfl := Except.ok.inj h
    exact framed_constant true
  | personId id =>
    obtain rfl := Except.ok.inj h
    refine framed_code (.append (.append ?_ ?_) ?_) trivial
    · exact isCode_ofList (by decide)
    · exact quote_not_mem_integer id
    · exact (isCode_ofList (by decide)).2
  | personName name =>
    obtain rfl := Except.ok.inj h
    exact framed_personNamePieces name
  | noPeople =>
    obtain rfl := Except.ok.inj h
    exact framed_code (isCode_ofList (by decide)) trivial
  | tag tags =>
    obtain rfl := Except.ok.inj h
    exact framed_ofTags false tags
  | rejectedTag tags =>
    obtain rfl := Except.ok.inj h
    exact framed_ofTags true tags
  | details name op value =>
    obtain ⟨hfinite, rfl⟩ := ofExpr_details h
    exact framed_detailPieces name op hfinite
  | sample p =>
    obtain ⟨-, rfl⟩ := ofExpr_sample h
    refine framed_code (.append ?_ ?_) trivial
    · exact isCode_ofList (by decide)
    · exact quote_not_mem_natural _

theorem piecesAll_eq_map (cs : List Condition) : piecesAll cs = cs.map pieces := by
  induction cs with
  | nil => rfl
  | cons c cs ih => rw [piecesAll, ih, List.map_cons]

/-- Code around framed pieces. -/
theorem framed_enclosed {text : String} (h : IsCode text) {ps : List Piece} (hps : Framed ps) :
    Framed ([code text] ++ ps ++ [code ")"]) :=
  (framed_code h hps.keepsApart).append framed_closing

/-- The pieces of a condition begin with code and keep its literals apart. -/
theorem framed_ofExpr {e : Expr} {c : Condition} (h : ofExpr e = .ok c) : Framed c.pieces := by
  have hgroup {separator : String} (hseparator : IsCode separator) {es : List Expr}
      {cs : List Condition} (hparts : List.Forall₂ (fun e c => ofExpr e = .ok c) es cs)
      (ih : ∀ e ∈ es, ∀ c, ofExpr e = .ok c → Framed c.pieces) :
      Framed ([code "("] ++ separate separator (piecesAll cs) ++ [code ")"]) := by
    refine framed_enclosed (isCode_ofList (by decide)) (framed_separate hseparator ?_)
    rw [piecesAll_eq_map, List.forall_mem_map]
    exact forall_of_forall₂ hparts ih
  induction e using Expr.treeInduction generalizing c with
  | leaf e he => exact framed_of_isLeaf he h
  | conjunction parts ih =>
    rcases ofExpr_conjunction h with ⟨-, rfl⟩ | ⟨cs, -, hparts, rfl⟩
    · exact framed_constant true
    · exact hgroup (isCode_ofList (by decide)) hparts fun e he c => ih e he
  | disjunction parts ih =>
    rcases ofExpr_disjunction h with ⟨-, rfl⟩ | ⟨cs, -, hparts, rfl⟩
    · exact framed_constant false
    · exact hgroup (isCode_ofList (by decide)) hparts fun e he c => ih e he
  | negation e ih =>
    obtain ⟨d, hd, rfl⟩ := ofExpr_negation h
    exact framed_enclosed (isCode_ofList (by decide)) (ih hd)

end Condition

/-! ## Literals of conditions -/

def contents (ps : List Piece) : List String :=
  ps.filterMap Piece.content?

@[simp] theorem contents_append (ps qs : List Piece) :
    contents (ps ++ qs) = contents ps ++ contents qs :=
  List.filterMap_append

@[simp] theorem contents_code (text : String) (ps : List Piece) :
    contents (code text :: ps) = contents ps := rfl

@[simp] theorem contents_literal (content : String) (ps : List Piece) :
    contents (literal content :: ps) = content :: contents ps := rfl

@[simp] theorem contents_nil : contents [] = [] := rfl

@[simp] theorem contents_separate (separator : String) (items : List (List Piece)) :
    contents (separate separator items) = items.flatMap contents := by
  induction items with
  | nil => rfl
  | cons item items ih =>
    cases items with
    | nil => simp [separate]
    | cons next items => simp [separate, ih]

namespace Condition

theorem contents_constant (b : Bool) : contents (constant b).pieces = [] := by
  cases b <;> rfl

theorem contents_ofTags (isRejected : Bool) (tags : TagSet) :
    contents (ofTags isRejected tags).pieces = tags.toList := by
  unfold ofTags
  split
  · next h =>
    rw [contents_constant]
    exact (List.isEmpty_iff.1 h).symm
  · have hliterals : (tags.toList.map fun t => [literal t]).flatMap contents = tags.toList := by
      simp [List.flatMap_map]
    change contents (taggedPieces isRejected tags) = tags.toList
    simp [taggedPieces, hliterals]

theorem contents_detailPieces (name : String) (op : CompareOp) (value : DetailValue) :
    contents (detailPieces name op value) =
      (Embedded.given name :: value.embedded).map Embedded.text := by
  cases value <;> rfl

theorem contents_of_isLeaf {e : Expr} {c : Condition} (he : e.isLeaf = true)
    (h : ofExpr e = .ok c) : contents c.pieces = e.embedded.map Embedded.text := by
  cases e with
  | conjunction _ | disjunction _ | negation _ => contradiction
  | rating bound =>
    obtain ⟨-, rfl⟩ := ofExpr_rating h
    rfl
  | details name op value =>
    obtain ⟨-, rfl⟩ := ofExpr_details h
    exact contents_detailPieces name op value
  | sample p =>
    obtain ⟨-, rfl⟩ := ofExpr_sample h
    rfl
  | tag tags | rejectedTag tags =>
    obtain rfl := Except.ok.inj h
    rw [contents_ofTags, Expr.embedded, List.map_map]
    exact (List.map_id _).symm
  | stars bound =>
    obtain rfl := Except.ok.inj h
    exact contents_constant true
  | _ =>
    obtain rfl := Except.ok.inj h
    rfl

/-- The literals of a condition are the texts of the leaves of its expression. -/
theorem contents_ofExpr {e : Expr} {c : Condition} (h : ofExpr e = .ok c) :
    contents c.pieces = (e.leaves.flatMap Expr.embedded).map Embedded.text := by
  have hgroup {es : List Expr} {cs : List Condition}
      (hparts : List.Forall₂ (fun e c => ofExpr e = .ok c) es cs)
      (ih : ∀ e ∈ es, ∀ c, ofExpr e = .ok c →
        contents c.pieces = (e.leaves.flatMap Expr.embedded).map Embedded.text) :
      (cs.map pieces).flatMap contents =
        ((es.flatMap Expr.leaves).flatMap Expr.embedded).map Embedded.text := by
    induction hparts with
    | nil => rfl
    | cons he _ ihes =>
      obtain ⟨hfirst, hrest⟩ := List.forall_mem_cons.1 ih
      simp only [List.map_cons, List.flatMap_cons, List.flatMap_append, List.map_append,
        hfirst _ he, ihes hrest]
  induction e using Expr.treeInduction generalizing c with
  | leaf e he =>
    rw [Expr.leaves_of_isLeaf he, List.flatMap_singleton]
    exact contents_of_isLeaf he h
  | conjunction parts ih =>
    rcases ofExpr_conjunction h with ⟨rfl, rfl⟩ | ⟨cs, -, hparts, rfl⟩
    · rfl
    · have hcontents := hgroup hparts fun e he c => ih e he
      simp [pieces, piecesAll_eq_map, hcontents]
  | disjunction parts ih =>
    rcases ofExpr_disjunction h with ⟨rfl, rfl⟩ | ⟨cs, -, hparts, rfl⟩
    · rfl
    · have hcontents := hgroup hparts fun e he c => ih e he
      simp [pieces, piecesAll_eq_map, hcontents]
  | negation e ih =>
    obtain ⟨d, hd, rfl⟩ := ofExpr_negation h
    simp [pieces, ih hd]

end Condition

/-! ## Code of conditions -/

/-- With the same code between them, items of the same code have the same code. -/
theorem map_code?_separate (separator : String) {items items' : List (List Piece)}
    (h : List.Forall₂ (fun ps qs => ps.map Piece.code? = qs.map Piece.code?) items items') :
    (separate separator items).map Piece.code? = (separate separator items').map Piece.code? := by
  induction h with
  | nil => rfl
  | cons hitem hitems ih =>
    cases hitems with
    | nil => exact hitem
    | cons hnext hrest =>
      simp only [separate, List.map_append] at ih ⊢
      rw [hitem, ih]

theorem map_code?_separate_literals (separator : String) {texts texts' : List String}
    (h : texts.length = texts'.length) :
    (separate separator (texts.map fun t => [literal t])).map Piece.code? =
      (separate separator (texts'.map fun t => [literal t])).map Piece.code? := by
  refine map_code?_separate separator (List.forall₂_iff_get.2 ⟨by simp [h], fun i hi hi' => ?_⟩)
  simp [Piece.code?]

/-- Conditions with the same code that look at the same joins. -/
structure Condition.SameCode (c c' : Condition) : Prop where
  pieces_eq : c.pieces.map Piece.code? = c'.pieces.map Piece.code?
  needs_eq : ∀ join, c.needs join = c'.needs join

namespace Condition

theorem SameCode.refl (c : Condition) : SameCode c c := ⟨rfl, fun _ => rfl⟩

theorem sameCode_ofTags (isRejected : Bool) {tags tags' : TagSet}
    (h : tags.toList.length = tags'.toList.length) :
    SameCode (ofTags isRejected tags) (ofTags isRejected tags') := by
  have hempty : tags.isEmpty = tags'.isEmpty := by
    rw [Bool.eq_iff_iff, TagSet.isEmpty, TagSet.isEmpty, List.isEmpty_iff_length_eq_zero,
      List.isEmpty_iff_length_eq_zero, h]
  unfold ofTags
  rw [hempty]
  split
  · exact .refl _
  · refine ⟨?_, fun _ => rfl⟩
    change (taggedPieces isRejected tags).map Piece.code? =
      (taggedPieces isRejected tags').map Piece.code?
    simp only [taggedPieces, List.map_append, map_code?_separate_literals ", " h]

/-- Groups of conditions of the same code have the same code. -/
theorem sameCode_group {cs cs' : List Condition} (h : List.Forall₂ SameCode cs cs') :
    SameCode (all cs) (all cs') ∧ SameCode (any cs) (any cs') := by
  have hneeds (join : Join) : cs.any (needs join) = cs'.any (needs join) := by
    induction h with
    | nil => rfl
    | cons hc _ ih => rw [List.any_cons, List.any_cons, hc.needs_eq, ih]
  have hpieces : List.Forall₂ (fun ps qs => ps.map Piece.code? = qs.map Piece.code?)
      (cs.map pieces) (cs'.map pieces) := by
    rw [List.forall₂_map_left_iff, List.forall₂_map_right_iff]
    exact h.imp fun _ _ hcode => hcode.pieces_eq
  constructor
  · refine ⟨?_, fun join => ?_⟩
    · simp only [pieces, piecesAll_eq_map, List.map_append, map_code?_separate " AND " hpieces]
    · rw [needs, needs, anyNeeds_eq_any, anyNeeds_eq_any, hneeds]
  · refine ⟨?_, fun join => ?_⟩
    · simp only [pieces, piecesAll_eq_map, List.map_append, map_code?_separate " OR " hpieces]
    · rw [needs, needs, anyNeeds_eq_any, anyNeeds_eq_any, hneeds]

theorem exists_sameCode_details {name : String} {op : CompareOp} {value : DetailValue}
    {c : Condition} (h : ofExpr (.details name op value) = .ok c) (name' : String) :
    ofExpr (.details name' op value) = .ok (.detail name' op value) ∧
      SameCode c (.detail name' op value) := by
  obtain ⟨hfinite, rfl⟩ := ofExpr_details h
  refine ⟨ofExpr_details_of_isFinite name' op hfinite, ?_, fun _ => rfl⟩
  simp [pieces, detailPieces, Piece.code?]

theorem exists_sameCode_of_isLeaf {e e' : Expr} (he : e.isLeaf = true) (h : e.SameForm e')
    {c : Condition} (hc : ofExpr e = .ok c) : ∃ c', ofExpr e' = .ok c' ∧ SameCode c c' := by
  cases h with
  | refl => exact ⟨c, hc, .refl c⟩
  | conjunction _ | disjunction _ | negation _ => contradiction
  | typeEquals t t' | text t t' | hash t t' | personName t t' =>
    obtain rfl := Except.ok.inj hc
    exact ⟨_, rfl, rfl, fun _ => rfl⟩
  | typeStart hlength =>
    obtain rfl := Except.ok.inj hc
    refine ⟨_, rfl, ?_, fun _ => rfl⟩
    rw [pieces, pieces, hlength]
    rfl
  | tag hsize =>
    obtain rfl := Except.ok.inj hc
    exact ⟨_, rfl, sameCode_ofTags false hsize⟩
  | rejectedTag hsize =>
    obtain rfl := Except.ok.inj hc
    exact ⟨_, rfl, sameCode_ofTags true hsize⟩
  | details name name' op value => exact ⟨_, exists_sameCode_details hc name'⟩
  | textDetails name name' op s s' =>
    obtain rfl := Except.ok.inj hc
    exact ⟨_, rfl, rfl, fun _ => rfl⟩

/-- Parts of the same form have conditions of the same code, if each part has one. -/
theorem exists_sameCode_forall₂ {es es' : List Expr} {cs : List Condition}
    (hforms : List.Forall₂ Expr.SameForm es es')
    (hparts : List.Forall₂ (fun e c => ofExpr e = .ok c) es cs)
    (ih : ∀ e ∈ es, ∀ e', e.SameForm e' → ∀ c, ofExpr e = .ok c →
      ∃ c', ofExpr e' = .ok c' ∧ SameCode c c') :
    ∃ cs', List.Forall₂ (fun e c => ofExpr e = .ok c) es' cs' ∧ List.Forall₂ SameCode cs cs' := by
  induction hforms generalizing cs with
  | nil =>
    cases hparts
    exact ⟨[], .nil, .nil⟩
  | cons hform _ ihes =>
    cases hparts with
    | cons hhead hrest =>
      obtain ⟨ihhead, ihrest⟩ := List.forall_mem_cons.1 ih
      obtain ⟨c', hc', hcode⟩ := ihhead _ hform _ hhead
      obtain ⟨cs', hcs', hcodes⟩ := ihes hrest ihrest
      exact ⟨c' :: cs', .cons hc' hcs', .cons hcode hcodes⟩

theorem ne_nil_of_sameCode {cs cs' : List Condition} (hne : cs ≠ [])
    (h : List.Forall₂ SameCode cs cs') : cs' ≠ [] := by
  rintro rfl
  cases h
  contradiction

/-- Expressions of the same form have conditions of the same code. -/
theorem exists_sameCode {e e' : Expr} (h : e.SameForm e') {c : Condition} (hc : ofExpr e = .ok c) :
    ∃ c', ofExpr e' = .ok c' ∧ SameCode c c' := by
  induction e using Expr.treeInduction generalizing e' c with
  | leaf e he => exact exists_sameCode_of_isLeaf he h hc
  | conjunction parts ih =>
    cases h with
    | refl => exact ⟨c, hc, .refl c⟩
    | conjunction hforms =>
      rcases ofExpr_conjunction hc with ⟨rfl, rfl⟩ | ⟨cs, hne, hparts, rfl⟩
      · cases hforms
        exact ⟨_, rfl, .refl _⟩
      · obtain ⟨cs', hparts', hcodes⟩ :=
          exists_sameCode_forall₂ hforms hparts fun e he e' hform c => ih e he hform
        refine ⟨.all cs', ?_, (sameCode_group hcodes).1⟩
        rw [ofExpr_conjunction_of_forall₂ hparts', if_neg (ne_nil_of_sameCode hne hcodes)]
  | disjunction parts ih =>
    cases h with
    | refl => exact ⟨c, hc, .refl c⟩
    | disjunction hforms =>
      rcases ofExpr_disjunction hc with ⟨rfl, rfl⟩ | ⟨cs, hne, hparts, rfl⟩
      · cases hforms
        exact ⟨_, rfl, .refl _⟩
      · obtain ⟨cs', hparts', hcodes⟩ :=
          exists_sameCode_forall₂ hforms hparts fun e he e' hform c => ih e he hform
        refine ⟨.any cs', ?_, (sameCode_group hcodes).2⟩
        rw [ofExpr_disjunction_of_forall₂ hparts', if_neg (ne_nil_of_sameCode hne hcodes)]
  | negation e ih =>
    cases h with
    | refl => exact ⟨c, hc, .refl c⟩
    | negation hform =>
      obtain ⟨d, hd, rfl⟩ := ofExpr_negation hc
      obtain ⟨d', hd', hcode⟩ := ih hform hd
      refine ⟨.not d', by rw [ofExpr, hd']; rfl, ?_, hcode.needs_eq⟩
      simp only [pieces, List.map_append, hcode.pieces_eq]

end Condition

/-! ## Joins -/

theorem framed_joinPieces (category : String) (join : Join) :
    Framed (joinPieces category join) := by
  cases join with
  | copies | tagCount | peopleCount =>
    exact framed_code (isCode_append_ofList (by decide)) trivial
  | rating =>
    refine framed_code (isCode_ofList (by decide)) (keepsApart_literal category ?_)
    exact framed_code (isCode_ofList (by decide)) trivial

theorem contents_joinPieces (category : String) (join : Join) :
    contents (joinPieces category join) = if join = .rating then [category] else [] := by
  cases join <;> rfl

theorem map_code?_joinPieces (category category' : String) (join : Join) :
    (joinPieces category join).map Piece.code? = (joinPieces category' join).map Piece.code? := by
  cases join <;> rfl

/-- Ratings are joined when a leaf looks at them. -/
theorem Condition.needs_rating {e : Expr} {c : Condition} (h : ofExpr e = .ok c) :
    c.needs .rating = e.leaves.any Expr.looksAtRatings := by
  have hlooks : Expr.looksAt .rating = Expr.looksAtRatings := by
    funext e
    cases e <;> rfl
  rw [needs_eq_any h, hlooks]

/-- The only text that joins have is the category of ratings. -/
theorem contents_joins (category : String) (c : Condition) :
    c.joins.flatMap (fun join => contents (joinPieces category join)) =
      if c.needs .rating then [category] else [] := by
  simp only [contents_joinPieces, Condition.joins, Join.all, List.filter_cons, List.filter_nil]
  grind

/-! ## Statements -/

theorem framed_selectPieces (category : String) {c : Condition} (h : Framed c.pieces) :
    Framed (selectPieces category c) := by
  have hhead : Framed [code ("CREATE TEMP TABLE SearchHashes AS\n" ++
      "SELECT h.Hash, h.FileSize, h.FileType, h.Version\n")] :=
    framed_code (isCode_append_ofList (by decide)) trivial
  have hfrom : Framed
      (separate "\n" ([code "FROM HashInfo h"] :: c.joins.map (joinPieces category))) := by
    refine framed_separate (isCode_ofList (by decide)) (List.forall_mem_cons.2 ⟨?_, ?_⟩)
    · exact framed_code (isCode_ofList (by decide)) trivial
    · exact List.forall_mem_map.2 fun join _ => framed_joinPieces category join
  have hwhere : Framed [code "\nWHERE "] := framed_code (isCode_ofList (by decide)) trivial
  have hend : Framed [code ";"] := framed_code (isCode_ofList (by decide)) trivial
  exact (((hhead.append hfrom).append hwhere).append h).append hend

theorem contents_selectPieces (category : String) (c : Condition) :
    contents (selectPieces category c) =
      (if c.needs .rating then [category] else []) ++ contents c.pieces := by
  have hjoins := contents_joins category c
  simp [selectPieces, List.flatMap_map, hjoins]

theorem map_code?_selectPieces (category category' : String) {c c' : Condition}
    (h : c.SameCode c') :
    (selectPieces category c).map Piece.code? = (selectPieces category' c').map Piece.code? := by
  have hjoins : c.joins = c'.joins := List.filter_congr fun join _ => h.needs_eq join
  have hfrom : (separate "\n" ([code "FROM HashInfo h"] :: c.joins.map (joinPieces category))).map
      Piece.code? = (separate "\n" ([code "FROM HashInfo h"] ::
        c'.joins.map (joinPieces category'))).map Piece.code? := by
    refine map_code?_separate "\n" (.cons rfl ?_)
    rw [hjoins, List.forall₂_map_left_iff, List.forall₂_map_right_iff]
    exact List.forall₂_same.2 fun join _ => map_code?_joinPieces category category' join
  simp only [selectPieces, List.map_append, hfrom, h.pieces_eq]

/-- The outline of a selection is that of its pieces. -/
theorem Script.outline?_selection {scale : RatingScale} {e : Expr} {s : Script}
    (h : Script.ofExpr scale e = .ok s) :
    ∃ c, Condition.ofExpr (e.resolveStars scale.stars) = .ok c ∧
      outline? s.selection.toList = some (.ofPieces (selectPieces scale.category c)) := by
  obtain ⟨c, hc, hcategory, hcondition⟩ := Script.exists_condition h
  refine ⟨c, hc, ?_⟩
  rw [Script.selection, render, String.toList_ofList, hcategory, hcondition]
  exact outline?_write (framed_selectPieces scale.category (Condition.framed_ofExpr hc)).keepsApart

/-- By the quote rule, the second statement of a script has the texts of its expression as literals,
in order. The code around them is that of the statement of every expression of the same form, which
has one, whatever the category of ratings. -/
theorem Script.selection_outline {scale : RatingScale} {e : Expr} {s : Script}
    (h : Script.ofExpr scale e = .ok s) :
    ∃ statement outline, s.statements[1]? = some statement ∧
      outline? statement.toList = some outline ∧
      outline.literals = (e.embeddedOn scale).map (·.text.toList) ∧
      ∀ category e', e.SameForm e' → ∃ s' statement' outline',
        Script.ofExpr ⟨category, scale.stars⟩ e' = .ok s' ∧ s'.statements[1]? = some statement' ∧
        outline? statement'.toList = some outline' ∧ outline'.codes = outline.codes := by
  obtain ⟨c, hc, houtline⟩ := Script.outline?_selection h
  refine ⟨s.selection, _, rfl, houtline, ?_, fun category e' hform => ?_⟩
  · have hcontents := contents_selectPieces scale.category c
    rw [Condition.contents_ofExpr hc, Condition.needs_rating hc] at hcontents
    change (contents (selectPieces scale.category c)).map String.toList = _
    rw [hcontents, Expr.embeddedOn, List.map_append, List.map_append, List.map_map]
    split <;> rfl
  · obtain ⟨c', hc', hcode⟩ := Condition.exists_sameCode (hform.resolveStars scale.stars) hc
    have hs' : Script.ofExpr ⟨category, scale.stars⟩ e' =
        .ok ⟨category, c', Digest.ofJson e'.toJson⟩ := by
      rw [Script.ofExpr, hc']
      rfl
    obtain ⟨d, hd, houtline'⟩ := Script.outline?_selection hs'
    obtain rfl := Except.ok.inj (hc'.symm.trans hd)
    refine ⟨_, _, _, hs', rfl, houtline', ?_⟩
    exact congrArg codesOf (map_code?_selectPieces scale.category category hcode).symm

/-- Quotes, wildcards and comments in texts stay texts and end no literal, and the code around them
is that around harmless texts. -/
theorem Script.selection_outline_quotes :
    let e : Expr := .conjunction
      [.negation (.text "it's 100%'; --"), .tag (.ofList ["o'neil", "''"]), .typeStart "'\n",
        .ratingsCount ⟨.greater, 0⟩, .details "'" .equal (.text "' OR '1'='1")]
    let e' : Expr := .conjunction
      [.negation (.text "cat"), .tag (.ofList ["dog", "pet"]), .typeStart "im",
        .ratingsCount ⟨.greater, 0⟩, .details "Width" .equal (.text "")]
    let s : Script := ⟨"all'", .all
      [.not (.pathContains "it's 100%'; --"), .tagged false (.ofList ["o'neil", "''"]),
        .typeStart "'\n", .counted .rating .greater 0, .detail "'" .equal (.text "' OR '1'='1")],
      Digest.ofJson e.toJson⟩
    Script.ofExpr ⟨"all'", ∅⟩ e = .ok s ∧ e.SameForm e' ∧
      ∃ statement outline, s.statements[1]? = some statement ∧
        outline? statement.toList = some outline ∧
        outline.literals = ["all'", "%it's 100\\%'; --%", "\\", "''", "o'neil", "'\n", "'", "text",
          "' OR '1'='1"].map String.toList ∧
        ∃ s' statement' outline', Script.ofExpr ⟨"all", ∅⟩ e' = .ok s' ∧
          s'.statements[1]? = some statement' ∧ outline? statement'.toList = some outline' ∧
          outline'.codes = outline.codes := by
  intro e e' s
  have hs : Script.ofExpr ⟨"all'", ∅⟩ e = .ok s := rfl
  have hform : e.SameForm e' :=
    .conjunction (.cons (.negation (.text _ _)) (.cons (.tag (by decide)) (.cons
      (.typeStart (by decide)) (.cons (.refl _) (.cons (.textDetails _ _ _ _ _) .nil)))))
  have htexts : (e.embeddedOn ⟨"all'", ∅⟩).map Embedded.text =
      ["all'", "%it's 100\\%'; --%", "\\", "''", "o'neil", "'\n", "'", "text", "' OR '1'='1"] := by
    decide
  obtain ⟨statement, outline, hstatement, houtline, hliterals, hcodes⟩ :=
    Script.selection_outline hs
  refine ⟨hs, hform, statement, outline, hstatement, houtline, ?_, hcodes "all" e' hform⟩
  rw [hliterals, ← htexts, List.map_map]
  rfl

end Sql
end TagQuery
