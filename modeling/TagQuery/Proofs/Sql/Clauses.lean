import TagQuery.Proofs.Sql.Agreement

/-!
# Clauses of statements

A statement names its rows in its FROM clause, and its condition uses these names, and those that
its subselects introduce, before the columns it looks at. A condition uses the name of a join
exactly when a leaf of its expression looks at the join, and such a leaf is what the statement has
the join for. So the clauses of a statement go together, whatever the condition: samples and numbers
of any size, which have no formula, included.

## Main definitions

- `Sql.Clauses`: the sources of a statement, and the tokens of its condition.
- `Sql.sources`, `Sql.introduced`: the names that tokens use, and those that their subselects
  introduce.
- `Sql.Accounted`: pieces that use the names of some joins.
- `Expr.looksAt`: a leaf looks at a join.

## Main statements

- `Sql.Condition.accounted_ofExpr`: a condition uses the names of the joins that it needs.
- `Sql.Condition.needs_eq_any`: a condition needs the joins that the leaves of its expression look
  at.
- `Sql.Script.joins_exactly_needed`: a script has the joins that its condition uses, and no others.
-/

namespace TagQuery

namespace Sql

open Piece (code literal)

/-! ## Reading the clauses -/

/-- The clauses of a statement: the table, what its rows are joined with, and the tokens of the
condition. -/
structure Clauses where
  source : Source
  joins : List LeftJoin
  condition : List Token

def readClauses (fuel : Nat) : List Token → Option Clauses
  | .keyword .create :: .keyword .temp :: .keyword .table :: .name _ :: .keyword .as ::
      .keyword .select :: ts => do
    let (_, ts) ← readColumns ts
    match ts with
    | .keyword .from :: .name table :: .name name :: ts => do
      let (joins, ts) ← readLeftJoins fuel ts
      let ts ← expect (.keyword .where) ts
      return ⟨⟨table, name⟩, joins, ts⟩
    | _ => none
  | _ => none

namespace Clauses

def ofText? (text : String) : Option Clauses :=
  let tokens := tokenize text.toList
  readClauses (4 * tokens.length) tokens

def names (c : Clauses) : List String :=
  c.source.name :: c.joins.map (·.name)

end Clauses

theorem readClauses_statementTokens (category : String) {c : Condition} (ts : List Token)
    {fuel : Nat} (hjoins : c.joins.length + 27 ≤ fuel) :
    readClauses fuel (statementTokens category c ts) =
      some ⟨⟨"HashInfo", "h"⟩, c.joins.map (Join.leftJoin category), ts ++ [.sign .semicolon]⟩ := by
  have hleft := Join.readLeftJoins_tokens category c.joins hjoins (ts ++ [.sign .semicolon])
  simp [statementTokens, headTokens, columnTokens, readClauses, readColumns, hleft, expect]

/-- The clauses of a text are read, whatever its condition. -/
theorem Clauses.ofText?_selectPieces (category : String) {c : Condition} {ts : List Token}
    (h : ScansPieces c.pieces ts) :
    ofText? (render (selectPieces category c)) =
      some ⟨⟨"HashInfo", "h"⟩, c.joins.map (Join.leftJoin category), ts ++ [.sign .semicolon]⟩ := by
  have htokens := tokenize_of_scans (scansPieces_selectPieces category h)
  have hjoins := length_joins_le c
  have hlength : 26 ≤ (statementTokens category c ts).length := by
    simp [statementTokens, headTokens, columnTokens]
    omega
  simp only [ofText?, render, String.toList_ofList, htokens]
  exact readClauses_statementTokens category ts (by omega)

/-! ## Names in tokens -/

def collect (f : Token → List Token → List String) : List Token → List String
  | [] => []
  | t :: ts => f t ts ++ collect f ts

/-- The name of a source, if a token is one before the dot of a column. -/
def sourceAt : Token → List Token → List String
  | .name s, ts => if ts.head? = some (.sign .dot) then [s] else []
  | _, _ => []

def nameOfTable : List Token → List String
  | .name _ :: .name s :: _ => [s]
  | _ => []

def introducedAt (t : Token) (ts : List Token) : List String :=
  if t = .keyword .from ∨ t = .keyword .join then nameOfTable ts else []

/-- The names of the sources whose columns are used. -/
def sources : List Token → List String := collect sourceAt

/-- The names that subselects introduce. -/
def introduced : List Token → List String := collect introducedAt

/-- Whether a token belongs neither to a column nor to a source. -/
def separates : Token → Bool
  | .name _ | .sign .dot => false
  | _ => true

theorem collect_append {f : Token → List Token → List String} {t : Token}
    (hf : ∀ x ts us, f x (ts ++ t :: us) = f x ts) (ts us : List Token) :
    collect f (ts ++ t :: us) = collect f ts ++ collect f (t :: us) := by
  induction ts with
  | nil => rfl
  | cons x ts ih => rw [List.cons_append, collect, ih, hf, ← List.append_assoc, ← collect]

theorem collect_eq_nil {f : Token → List Token → List String} {ts : List Token}
    (h : ∀ t ∈ ts, ∀ us, f t us = []) : collect f ts = [] := by
  induction ts with
  | nil => rfl
  | cons t ts ih =>
    obtain ⟨ht, hts⟩ := List.forall_mem_cons.1 h
    rw [collect, ht, ih hts, List.append_nil]

section
variable {t : Token} (ht : separates t = true)
include ht

theorem sources_append (ts us : List Token) :
    sources (ts ++ t :: us) = sources ts ++ sources (t :: us) := by
  have hdot : t ≠ .sign .dot := by
    rintro rfl
    contradiction
  have hhead (ts us : List Token) :
      (ts ++ t :: us).head? = some (.sign .dot) ↔ ts.head? = some (.sign .dot) := by
    cases ts <;> simp [hdot]
  refine collect_append (fun x ts us => ?_) ts us
  cases x <;> simp only [sourceAt, hhead]

theorem introduced_append (ts us : List Token) :
    introduced (ts ++ t :: us) = introduced ts ++ introduced (t :: us) := by
  have hname (s : String) : t ≠ .name s := by
    rintro rfl
    contradiction
  have htable (ts us : List Token) : nameOfTable (ts ++ t :: us) = nameOfTable ts := by
    match ts with
    | [] => cases t <;> first | rfl | exact absurd rfl (hname _)
    | [y] =>
      cases y <;> cases t <;> first | rfl | exact absurd rfl (hname _)
    | y :: z :: ts => cases y <;> cases z <;> rfl
  exact collect_append (fun x ts us => by rw [introducedAt, htable, ← introducedAt]) ts us

theorem sources_concat (ts : List Token) : sources (ts ++ [t]) = sources ts := by
  have hend : sources [t] = [] := by cases t <;> rfl
  rw [sources_append ht, hend, List.append_nil]

theorem introduced_concat (ts : List Token) : introduced (ts ++ [t]) = introduced ts := by
  have hend : introduced [t] = [] := by
    simp only [introduced, collect, introducedAt, nameOfTable, ite_self, List.append_nil]
  rw [introduced_append ht, hend, List.append_nil]

end

theorem mem_textTokens {ss : List String} {t : Token} (h : t ∈ textTokens ss) :
    (∃ s, t = .text s) ∨ t = .sign .comma := by
  induction ss with
  | nil => exact absurd h List.not_mem_nil
  | cons s ss ih =>
    cases ss with
    | nil => exact .inl ⟨s, List.mem_singleton.1 h⟩
    | cons s' ss =>
      rcases List.mem_cons.1 h with rfl | h
      · exact .inl ⟨s, rfl⟩
      · exact (List.mem_cons.1 h).elim .inr ih

/-- Literals have no names, and neither have the commas between them. -/
theorem names_textTokens (ss : List String) :
    sources (textTokens ss) = [] ∧ introduced (textTokens ss) = [] := by
  refine ⟨collect_eq_nil fun t ht us => ?_, collect_eq_nil fun t ht us => ?_⟩
  · rcases mem_textTokens ht with ⟨s, rfl⟩ | rfl <;> rfl
  · rcases mem_textTokens ht with ⟨s, rfl⟩ | rfl <;> rfl

/-! ## Joins of conditions -/

def boundNames : List String := "h" :: Join.all.map Join.name

/-- Among the names in use are those of the joins that `p` tells, every other one belongs to the
file or is introduced, and no introduced name hides the file or a join. -/
def Accounts (p : Join → Bool) (used introduced : List String) : Prop :=
  (∀ join ∈ Join.all, join.name ∈ used ↔ p join = true) ∧
    (∀ s ∈ used, s ∈ boundNames ∨ s ∈ introduced) ∧ ∀ s ∈ introduced, s ∉ boundNames

instance (p : Join → Bool) (used introduced : List String) :
    Decidable (Accounts p used introduced) :=
  inferInstanceAs (Decidable (_ ∧ _ ∧ _))

theorem Accounts.append {p q : Join → Bool} {us vs is js : List String} (h : Accounts p us is)
    (h' : Accounts q vs js) : Accounts (fun join => p join || q join) (us ++ vs) (is ++ js) := by
  obtain ⟨hjoins, hused, hapart⟩ := h
  obtain ⟨hjoins', hused', hapart'⟩ := h'
  refine ⟨fun join hjoin => ?_, fun s hs => ?_, fun s hs => ?_⟩
  · rw [List.mem_append, hjoins join hjoin, hjoins' join hjoin, Bool.or_eq_true]
  · rw [List.mem_append]
    rcases List.mem_append.1 hs with hs | hs
    · exact (hused s hs).imp_right .inl
    · exact (hused' s hs).imp_right .inr
  · exact (List.mem_append.1 hs).elim (hapart s) (hapart' s)

def Accounted (ps : List Piece) (p : Join → Bool) : Prop :=
  ∃ ts, ScansPieces ps ts ∧ Accounts p (sources ts) (introduced ts)

/-! ### Leaves -/

def IsValue (ts : List Token) : Prop :=
  (∃ s, ts = [.text s]) ∨ ∃ negative cs, ts = numberTokens negative cs

theorem exists_isValue_real {x : Real64} (h : x.isFinite = true) :
    ∃ ts, Scans (RealLayout.debug.render x).toList ts ∧ IsValue ts := by
  obtain ⟨negative, cs, hscans, -⟩ := scans_real h
  exact ⟨_, hscans, .inr ⟨negative, cs, rfl⟩⟩

theorem exists_isValue_valuePieces {v : DetailValue} (h : ∀ x, v = .real x → x.isFinite = true) :
    ∃ ts, Scans ((valuePieces v).flatMap Piece.write) ts ∧ IsValue ts := by
  cases v with
  | integer i => exact ⟨_, (scans_integer i).append_nil, .inr ⟨_, _, rfl⟩⟩
  | text s => exact ⟨_, (scans_quote s).append_nil, .inl ⟨s, rfl⟩⟩
  | real x =>
    obtain ⟨ts, hscans, hvalue⟩ := exists_isValue_real (h x rfl)
    exact ⟨ts, hscans.append_nil, hvalue⟩

namespace Condition

theorem accounted_constant (b : Bool) : Accounted (constant b).pieces fun _ => false := by
  have hnone : Accounts (fun _ => false) [] [] := by decide
  exact ⟨_, scansPieces_constant b, hnone⟩

theorem accounted_compareNumber {column : String} {ts : List Token} {p : Join → Bool}
    (op : CompareOp) (bound : Nat) (hcolumn : Closed (column ++ " ").toList ts)
    (h : Accounts p (sources ts) (introduced ts)) :
    Accounted (compareNumber column op bound) p := by
  refine ⟨_, scansPieces_compareNumber op bound hcolumn, ?_⟩
  have hsign : separates (.sign (signOf op)) = true := by cases op <;> rfl
  have hsources : sources [.sign (signOf op), .number (Nat.toDigits 10 bound)] = [] := rfl
  have hintroduced : introduced [.sign (signOf op), .number (Nat.toDigits 10 bound)] = [] := by
    cases op <;> rfl
  rw [sources_append hsign, introduced_append hsign, hsources, hintroduced, List.append_nil,
    List.append_nil]
  exact h

theorem accounted_counted (join : Join) (op : CompareOp) (bound : Nat) :
    Accounted (counted join op bound).pieces fun j => (counted join op bound).needs j := by
  have hcount : Accounts (fun j => join == j) [join.name] [] := by
    cases join <;> decide
  exact accounted_compareNumber op bound (closed_countColumn join) hcount

theorem accounted_rated (op : CompareOp) {bound : Real64} (h : bound.isFinite = true) :
    Accounted (rated op bound).pieces fun join => (rated op bound).needs join := by
  have hrating : Accounts (fun join => join == .rating) ["r", "r"] [] := by decide
  obtain ⟨us, hscans, hvalue⟩ := exists_isValue_real h
  refine ⟨_, scansPieces_rated op hscans, ?_⟩
  rcases hvalue with ⟨s, rfl⟩ | ⟨negative, cs, rfl⟩
  · cases op <;> exact hrating
  · cases op <;> cases negative <;> exact hrating

theorem accounted_personId (id : Int) : Accounted (personId id).pieces fun _ => false := by
  have hperson : Accounts (fun _ => false) ["hp", "h", "hp"] ["hp"] := by decide
  refine ⟨_, scansPieces_personId id, ?_⟩
  generalize decide (id < 0) = negative
  cases negative <;> exact hperson

theorem accounted_personName (name : String) :
    Accounted (personName name).pieces fun _ => false := by
  have hperson : Accounts (fun _ => false) ["pe", "hp", "hp", "h", "pe", "pa", "pe", "pa"]
      ["hp", "pe", "pa"] := by decide
  exact ⟨_, scansPieces_personName name, hperson⟩

theorem accounted_tagged (isRejected : Bool) {tags : TagSet} (hne : tags.toList ≠ []) :
    Accounted (tagged isRejected tags).pieces fun _ => false := by
  have htagged : Accounts (fun _ => false) ["t", "ht", "ht", "h", "ht", "t"] ["ht", "t"] := by
    decide
  obtain ⟨s, ss, hss⟩ := List.exists_cons_of_ne_nil hne
  obtain ⟨us, hus⟩ : ∃ us, textTokens tags.toList = .text s :: us := by
    rw [hss]
    cases ss <;> exact ⟨_, rfl⟩
  obtain ⟨hsources, hintroduced⟩ := names_textTokens tags.toList
  have hclosing : separates (.sign .closing) = true := rfl
  have htext : separates (.text s) = true := rfl
  refine ⟨_, scansPieces_tagged isRejected hne, ?_⟩
  -- The tags are set apart by the first text and the parenthesis behind them.
  rw [hus, List.cons_append, sources_append htext, introduced_append htext, ← List.cons_append,
    ← hus, sources_append hclosing, introduced_append hclosing, hsources, hintroduced]
  cases isRejected <;> exact htagged

theorem accounted_detail (name : String) (op : CompareOp) {v : DetailValue}
    (h : ∀ x, v = .real x → x.isFinite = true) :
    Accounted (detail name op v).pieces fun _ => false := by
  have hdetail : Accounts (fun _ => false) ["d", "h", "d", "d", "d"] ["d"] := by decide
  obtain ⟨us, hscans, hvalue⟩ := exists_isValue_valuePieces h
  refine ⟨_, scansPieces_detail name op hscans, ?_⟩
  rcases hvalue with ⟨s, rfl⟩ | ⟨negative, cs, rfl⟩
  · cases v <;> cases op <;> exact hdetail
  · cases v <;> cases op <;> cases negative <;> exact hdetail

theorem accounted_drawn (threshold : Nat) : Accounted (drawn threshold).pieces fun _ => false := by
  have hnone : Accounts (fun _ => false) [] [] := by decide
  have hcode : Closed "(ABS(RANDOM()) % 1000000) < ".toList
      [.sign .opening, .name "ABS", .sign .opening, .name "RANDOM", .sign .opening, .sign .closing,
        .sign .closing, .stray '%', .number "1000000".toList, .sign .closing, .sign .less] :=
    closed_ofList (by decide)
  have htext : (drawn threshold).pieces.flatMap Piece.write =
      "(ABS(RANDOM()) % 1000000) < ".toList ++ Nat.toDigits 10 threshold := by
    simp only [pieces, List.flatMap_cons, List.flatMap_nil, Piece.write, String.toList_append,
      toList_toString, List.append_nil]
  have hscans : ScansPieces (drawn threshold).pieces _ :=
    htext ▸ hcode.append (scans_toDigits threshold)
  exact ⟨_, hscans, hnone⟩

theorem accounted_ofTags (isRejected : Bool) (tags : TagSet) :
    Accounted (ofTags isRejected tags).pieces fun join => (ofTags isRejected tags).needs join := by
  unfold ofTags
  by_cases h : tags.isEmpty
  · rw [if_pos h]
    exact accounted_constant false
  · rw [if_neg h]
    exact accounted_tagged isRejected (by simpa [TagSet.isEmpty] using h)

theorem accounted_of_isLeaf {e : Expr} {c : Condition} (he : e.isLeaf = true)
    (h : ofExpr e = .ok c) : Accounted c.pieces fun join => c.needs join := by
  have hfile : Accounts (fun _ => false) ["h"] [] := by decide
  cases e with
  | conjunction _ | disjunction _ | negation _ => contradiction
  | typeEquals t => exact Except.ok.inj h ▸ ⟨_, scansPieces_typeEquals t, hfile⟩
  | typeStart t => exact Except.ok.inj h ▸ ⟨_, scansPieces_typeStart t, hfile⟩
  | text t =>
    have hpath : Accounts (fun _ => false) ["p", "h", "p"] ["p"] := by decide
    exact Except.ok.inj h ▸ ⟨_, scansPieces_pathContains t, hpath⟩
  | hash hash => exact Except.ok.inj h ▸ ⟨_, scansPieces_hashEquals hash, hfile⟩
  | fileSize bound =>
    exact Except.ok.inj h ▸ accounted_compareNumber bound.op bound.value closed_fileSize hfile
  | copies bound => exact Except.ok.inj h ▸ accounted_counted .copies bound.op bound.value
  | tagCount bound => exact Except.ok.inj h ▸ accounted_counted .tagCount bound.op bound.value
  | peopleCount bound =>
    exact Except.ok.inj h ▸ accounted_counted .peopleCount bound.op bound.value
  | ratingsCount bound => exact Except.ok.inj h ▸ accounted_counted .rating bound.op bound.value
  | rating bound =>
    obtain ⟨hfinite, rfl⟩ := ofExpr_rating h
    exact accounted_rated bound.op hfinite
  | stars _ => exact Except.ok.inj h ▸ accounted_constant true
  | personId id => exact Except.ok.inj h ▸ accounted_personId id
  | personName name => exact Except.ok.inj h ▸ accounted_personName name
  | noPeople =>
    have hperson : Accounts (fun _ => false) ["hp", "h"] ["hp"] := by decide
    exact Except.ok.inj h ▸ ⟨_, scansPieces_noPeople, hperson⟩
  | tag tags => exact Except.ok.inj h ▸ accounted_ofTags false tags
  | rejectedTag tags => exact Except.ok.inj h ▸ accounted_ofTags true tags
  | details name op value =>
    obtain ⟨hfinite, rfl⟩ := ofExpr_details h
    exact accounted_detail name op hfinite
  | sample p =>
    obtain ⟨-, rfl⟩ := ofExpr_sample h
    exact accounted_drawn _

/-! ### Groups -/

/-- Conditions with a keyword between them use the names of the joins that any of them needs. -/
theorem accounted_separate {separator : String} {k : Keyword} {cs : List Condition}
    (hcode : Closed separator.toList [.keyword k]) (hstart : startsBoundary separator = true)
    (hk : k ≠ .from ∧ k ≠ .join) (hne : cs ≠ [])
    (h : ∀ c ∈ cs, Accounted c.pieces fun join => c.needs join) :
    Accounted (separate separator (piecesAll cs)) fun join => cs.any (needs join) := by
  induction cs with
  | nil => exact absurd rfl hne
  | cons c cs ih =>
    obtain ⟨hc, hcs⟩ := List.forall_mem_cons.1 h
    cases cs with
    | nil => simpa [piecesAll, separate] using hc
    | cons d ds =>
      obtain ⟨ts, hscans, hfirst⟩ := hc
      obtain ⟨us, hscans', hrest⟩ := ih (List.cons_ne_nil d ds) hcs
      refine ⟨_, scansPieces_append hscans hcode hstart hscans', ?_⟩
      -- No column and no source reaches across the keyword.
      have hkeyword : separates (.keyword k) = true := rfl
      have hsources : sources (.keyword k :: us) = sources us := rfl
      have hintroduced : introduced (.keyword k :: us) = introduced us := by
        simp [introduced, collect, introducedAt, hk]
      rw [List.singleton_append, sources_append hkeyword, introduced_append hkeyword, hsources,
        hintroduced]
      exact hfirst.append hrest

/-- Parentheses, and what stands before them, use no names. -/
theorem accounted_group {ps : List Piece} {p : Join → Bool} {text : String} {s : List Token}
    (hcode : Closed text.toList s) (hs : s = [.sign .opening] ∨ s = [.keyword .not, .sign .opening])
    (h : Accounted ps p) : Accounted ([code text] ++ ps ++ [code ")"]) p := by
  obtain ⟨ts, hscans, haccounts⟩ := h
  refine ⟨_, scansPieces_group hcode hscans, ?_⟩
  have hclosing : separates (.sign .closing) = true := rfl
  have hsources : sources (s ++ (ts ++ [.sign .closing])) = sources ts := by
    rcases hs with rfl | rfl <;> exact sources_concat hclosing ts
  have hintroduced : introduced (s ++ (ts ++ [.sign .closing])) = introduced ts := by
    rcases hs with rfl | rfl <;> exact introduced_concat hclosing ts
  rw [hsources, hintroduced]
  exact haccounts

/-- A condition uses the names of the joins that it needs. -/
theorem accounted_ofExpr {e : Expr} {c : Condition} (h : ofExpr e = .ok c) :
    Accounted c.pieces fun join => c.needs join := by
  induction e using Expr.treeInduction generalizing c with
  | leaf e he => exact accounted_of_isLeaf he h
  | conjunction parts ih =>
    rcases ofExpr_conjunction h with ⟨-, rfl⟩ | ⟨cs, hne, hparts, rfl⟩
    · exact accounted_constant true
    · have hand : Closed " AND ".toList [.keyword .and] := closed_ofList (by decide)
      have hcs := forall_of_forall₂ hparts fun e he d hd => ih e he hd
      simp only [needs, anyNeeds_eq_any]
      exact accounted_group closed_opening (.inl rfl)
        (accounted_separate hand (startsBoundary_ofList rfl) (by decide) hne hcs)
  | disjunction parts ih =>
    rcases ofExpr_disjunction h with ⟨-, rfl⟩ | ⟨cs, hne, hparts, rfl⟩
    · exact accounted_constant false
    · have hor : Closed " OR ".toList [.keyword .or] := closed_ofList (by decide)
      have hcs := forall_of_forall₂ hparts fun e he d hd => ih e he hd
      simp only [needs, anyNeeds_eq_any]
      exact accounted_group closed_opening (.inl rfl)
        (accounted_separate hor (startsBoundary_ofList rfl) (by decide) hne hcs)
  | negation e ih =>
    obtain ⟨d, hd, rfl⟩ := ofExpr_negation h
    have hnot : Closed "NOT (".toList [.keyword .not, .sign .opening] := closed_ofList (by decide)
    exact accounted_group hnot (.inr rfl) (ih hd)

end Condition

end Sql

/-! ## Joins of expressions -/

def Expr.looksAt (join : Sql.Join) : Expr → Bool
  | .copies _ => join == .copies
  | .tagCount _ => join == .tagCount
  | .peopleCount _ => join == .peopleCount
  | .rating _ | .ratingsCount _ => join == .rating
  | _ => false

namespace Sql

/-- The leaves that look at a join. -/
theorem Join.any_looksAt (join : Join) (es : List Expr) :
    es.any (Expr.looksAt join) = true ↔ match join with
      | .copies => ∃ bound, .copies bound ∈ es
      | .tagCount => ∃ bound, .tagCount bound ∈ es
      | .peopleCount => ∃ bound, .peopleCount bound ∈ es
      | .rating => (∃ bound, .rating bound ∈ es) ∨ ∃ bound, .ratingsCount bound ∈ es := by
  rw [List.any_eq_true]
  constructor
  · rintro ⟨e, he, hlooks⟩
    cases e <;> cases join <;> first
      | contradiction
      | exact ⟨_, he⟩
      | exact .inl ⟨_, he⟩
      | exact .inr ⟨_, he⟩
  · cases join with
    | copies | tagCount | peopleCount =>
      rintro ⟨bound, he⟩
      exact ⟨_, he, rfl⟩
    | rating =>
      rintro (⟨bound, he⟩ | ⟨bound, he⟩) <;> exact ⟨_, he, rfl⟩

namespace Condition

theorem needs_of_isLeaf {e : Expr} {c : Condition} (he : e.isLeaf = true) (h : ofExpr e = .ok c)
    (join : Join) : c.needs join = e.looksAt join := by
  cases e with
  | conjunction _ | disjunction _ | negation _ => contradiction
  | rating bound =>
    obtain ⟨-, rfl⟩ := ofExpr_rating h
    rfl
  | details name op value =>
    obtain ⟨-, rfl⟩ := ofExpr_details h
    rfl
  | sample p =>
    obtain ⟨-, rfl⟩ := ofExpr_sample h
    rfl
  | tag tags | rejectedTag tags =>
    obtain rfl := Except.ok.inj h
    unfold ofTags
    split <;> rfl
  | _ =>
    obtain rfl := Except.ok.inj h
    cases join <;> rfl

/-- A condition needs the joins that the leaves of its expression look at. -/
theorem needs_eq_any {e : Expr} {c : Condition} (h : ofExpr e = .ok c) (join : Join) :
    c.needs join = e.leaves.any (Expr.looksAt join) := by
  have hgroup {es : List Expr} {cs : List Condition}
      (hparts : List.Forall₂ (fun e c => ofExpr e = .ok c) es cs)
      (ih : ∀ e ∈ es, ∀ c, ofExpr e = .ok c →
        c.needs join = e.leaves.any (Expr.looksAt join)) :
      cs.any (needs join) = (es.flatMap Expr.leaves).any (Expr.looksAt join) := by
    induction hparts with
    | nil => rfl
    | cons he _ ihes =>
      obtain ⟨hfirst, hrest⟩ := List.forall_mem_cons.1 ih
      rw [List.any_cons, List.flatMap_cons, List.any_append, hfirst _ he, ihes hrest]
  induction e using Expr.treeInduction generalizing c with
  | leaf e he =>
    rw [Expr.leaves_of_isLeaf he, List.any_cons, List.any_nil, Bool.or_false]
    exact needs_of_isLeaf he h join
  | conjunction parts ih =>
    rw [Expr.leaves_conjunction]
    rcases ofExpr_conjunction h with ⟨rfl, rfl⟩ | ⟨cs, -, hparts, rfl⟩
    · rfl
    · rw [needs, anyNeeds_eq_any, hgroup hparts fun e he c => ih e he]
  | disjunction parts ih =>
    rw [Expr.leaves_disjunction]
    rcases ofExpr_disjunction h with ⟨rfl, rfl⟩ | ⟨cs, -, hparts, rfl⟩
    · rfl
    · rw [needs, anyNeeds_eq_any, hgroup hparts fun e he c => ih e he]
  | negation e ih =>
    obtain ⟨d, hd, rfl⟩ := ofExpr_negation h
    rw [needs, ih hd, Expr.leaves_negation]

end Condition

/-! ## Joins of statements -/

/-- The names that the statement of a condition binds: the file, and the joins it needs. -/
def namesOf (c : Condition) : List String :=
  "h" :: c.joins.map Join.name

theorem Clauses.names_of_leftJoins (category : String) (c : Condition) (ts : List Token) :
    names ⟨⟨"HashInfo", "h"⟩, c.joins.map (Join.leftJoin category), ts⟩ = namesOf c := by
  rw [names, namesOf, List.map_map]
  rfl

/-- Every name is bound in its place, and so only once. -/
theorem namesOf_sublist (c : Condition) : (namesOf c).Sublist boundNames :=
  (List.filter_sublist.map Join.name).cons_cons "h"

theorem nodup_namesOf (c : Condition) : (namesOf c).Nodup :=
  List.Nodup.sublist (namesOf_sublist c) (by decide)

theorem Join.mem_all (join : Join) : join ∈ Join.all := by
  cases join <;> decide

theorem name_mem_namesOf {c : Condition} {join : Join} :
    join.name ∈ namesOf c ↔ c.needs join = true := by
  have hfile : join.name ≠ "h" := by cases join <;> decide
  have hinjective : Function.Injective Join.name := by
    intro a b
    cases a <;> cases b <;> decide
  rw [namesOf, List.mem_cons, or_iff_right hfile, List.mem_map_of_injective hinjective,
    Condition.joins, List.mem_filter]
  exact and_iff_right join.mem_all

/-- What a script's FROM clause binds is what the leaves of its expression look at, and what its
condition uses. Each name is bound once, and the names that are introduced in the condition are
others. -/
theorem Script.joins_exactly_needed {scale : RatingScale} {e : Expr} {s : Script}
    (h : Script.ofExpr scale e = .ok s) :
    ∃ statement clauses, s.statements[1]? = some statement ∧
      Clauses.ofText? statement = some clauses ∧ clauses.source = ⟨"HashInfo", "h"⟩ ∧
      (∀ name ∈ clauses.names, name ∈ ["h", "cp", "tc", "pc", "r"]) ∧ clauses.names.Nodup ∧
      (let leaves := (e.resolveStars scale.stars).leaves
      ("cp" ∈ clauses.names ↔ ∃ bound, .copies bound ∈ leaves) ∧
      ("tc" ∈ clauses.names ↔ ∃ bound, .tagCount bound ∈ leaves) ∧
      ("pc" ∈ clauses.names ↔ ∃ bound, .peopleCount bound ∈ leaves) ∧
      ("r" ∈ clauses.names ↔
        (∃ bound, .rating bound ∈ leaves) ∨ ∃ bound, .ratingsCount bound ∈ leaves)) ∧
      (∀ name ∈ ["cp", "tc", "pc", "r"],
        name ∈ clauses.names ↔ name ∈ sources clauses.condition) ∧
      (∀ name ∈ sources clauses.condition,
        name ∈ clauses.names ∨ name ∈ introduced clauses.condition) ∧
      ∀ name ∈ introduced clauses.condition, name ∉ ["h", "cp", "tc", "pc", "r"] := by
  obtain ⟨c, hc, hcategory, hcondition⟩ := Script.exists_condition h
  obtain ⟨ts, hscans, hjoins, hused, hapart⟩ := Condition.accounted_ofExpr hc
  have hread := Clauses.ofText?_selectPieces scale.category hscans
  have hselection : s.selection = render (selectPieces scale.category c) := by
    rw [Script.selection, hcategory, hcondition]
  have hsemicolon : separates (.sign .semicolon) = true := rfl
  have hleaves (join : Join) : join.name ∈ namesOf c ↔
      (e.resolveStars scale.stars).leaves.any (Expr.looksAt join) = true := by
    rw [name_mem_namesOf, Condition.needs_eq_any hc]
  have hjoin (join : Join) : join.name ∈ namesOf c ↔ join.name ∈ sources ts :=
    name_mem_namesOf.trans (hjoins join join.mem_all).symm
  have hlisted : ∀ name ∈ Join.all.map Join.name, name ∈ namesOf c ↔ name ∈ sources ts :=
    List.forall_mem_map.2 fun join _ => hjoin join
  -- The text of a condition ends at the semicolon, which adds no name to it.
  refine ⟨s.selection, _, rfl, hselection ▸ hread, rfl, ?_⟩
  simp only [Clauses.names_of_leftJoins, sources_concat hsemicolon, introduced_concat hsemicolon]
  refine ⟨(namesOf_sublist c).subset, nodup_namesOf c,
    ⟨(hleaves .copies).trans (Join.any_looksAt .copies _),
      (hleaves .tagCount).trans (Join.any_looksAt .tagCount _),
      (hleaves .peopleCount).trans (Join.any_looksAt .peopleCount _),
      (hleaves .rating).trans (Join.any_looksAt .rating _)⟩,
    hlisted, fun name hname => ?_, hapart⟩
  rcases hused name hname with hmem | hmem
  · rcases List.mem_cons.1 hmem with rfl | hmem
    · exact .inl List.mem_cons_self
    · obtain ⟨join, -, rfl⟩ := List.mem_map.1 hmem
      exact .inl ((hjoin join).2 hname)
  · exact .inr hmem

/-- Stars of a table are ratings, also in a negation, and a count in a group needs its join as well;
the tags of a file are looked at without one. -/
theorem Script.joins_exactly_needed_stars :
    let scale : RatingScale :=
      ⟨"fun", ⟨[⟨none, some (.zero false)⟩, ⟨some (.zero false), none⟩]⟩⟩
    let e : Expr := .negation (.conjunction [.stars ⟨.greaterOrEqual, 2⟩,
      .disjunction [.copies ⟨.greater, 1⟩, .negation (.tag (.ofList ["cat"]))]])
    let s : Script := ⟨"fun", .not (.all [.rated .greaterOrEqual (.zero false),
      .any [.counted .copies .greater 1, .not (.tagged false (.ofList ["cat"]))]]),
      Digest.ofJson e.toJson⟩
    Script.ofExpr scale e = .ok s ∧ ∃ statement clauses, s.statements[1]? = some statement ∧
      Clauses.ofText? statement = some clauses ∧
      "cp" ∈ clauses.names ∧ "r" ∈ clauses.names ∧ "tc" ∉ clauses.names ∧ "pc" ∉ clauses.names ∧
      "cp" ∈ sources clauses.condition ∧ "r" ∈ sources clauses.condition := by
  intro scale e s
  have hs : Script.ofExpr scale e = .ok s := rfl
  have hleaves : (e.resolveStars scale.stars).leaves =
      [.rating ⟨.greaterOrEqual, .zero false⟩, .copies ⟨.greater, 1⟩, .tag (.ofList ["cat"])] := rfl
  obtain ⟨statement, clauses, hstatement, hread, -, -, -, ⟨hcopies, htags, hpeople, hrating⟩, hused,
    -, -⟩ := Script.joins_exactly_needed hs
  rw [hleaves] at hcopies htags hpeople hrating
  have hcp : "cp" ∈ clauses.names := hcopies.2 ⟨⟨.greater, 1⟩, by simp⟩
  have hr : "r" ∈ clauses.names := hrating.2 (.inl ⟨⟨.greaterOrEqual, .zero false⟩, by simp⟩)
  exact ⟨hs, statement, clauses, hstatement, hread, hcp, hr, mt htags.1 (by simp),
    mt hpeople.1 (by simp), (hused "cp" (by simp)).1 hcp, (hused "r" (by simp)).1 hr⟩

end Sql
end TagQuery
