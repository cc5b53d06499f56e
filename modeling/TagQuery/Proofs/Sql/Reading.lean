import TagQuery.Proofs.Number.Written
import TagQuery.Proofs.Sql.Parser

/-!
# Tokens that stand for conditions

What the reader makes of tokens that follow the grammar. A condition is an atom, atoms with AND
between them, or such groups with OR between them, and fuel in proportion to the number of tokens is
enough for each.

## Main definitions

- `Sql.ScalarTokens`: tokens that are read as an expression that has a value.
- `Sql.Atom`, `Sql.Conjuncts`, `Sql.Disjuncts`: tokens that are read as a condition on each of the
  three levels of precedence.

## Main statements

- `Sql.Disjuncts.group`, `Sql.Atom.not`, `Sql.Disjuncts.exists`: atoms from conditions.
- `Sql.Atom.and`, `Sql.Conjuncts.or`: AND and OR between conditions.
-/

namespace TagQuery.Sql

/-! ## Ends -/

/-- Tokens before which an operand ends. -/
def EndsOperand (rest : List Token) : Prop :=
  rest.head? ≠ some (.sign .dot) ∧ rest.head? ≠ some (.keyword .collate)

def EndsConjuncts (rest : List Token) : Prop :=
  EndsOperand rest ∧ rest.head? ≠ some (.keyword .and)

def EndsDisjuncts (rest : List Token) : Prop :=
  EndsConjuncts rest ∧ rest.head? ≠ some (.keyword .or)

theorem endsDisjuncts_closing (rest : List Token) : EndsDisjuncts (.sign .closing :: rest) := by
  simp [EndsDisjuncts, EndsConjuncts, EndsOperand]

/-! ## Values -/

def ScalarTokens (ts : List Token) (a : Scalar) : Prop :=
  ∀ rest, rest.head? ≠ some (Token.sign .dot) → readScalar (ts ++ rest) = some (a, rest)

def startsTest : List Token → Bool
  | .name _ :: _ | .number _ :: _ => true
  | .keyword k :: _ => k == .coalesce || k == .typeof || k == .substr
  | _ => false

theorem scalarTokens_text (s : String) : ScalarTokens [.text s] (.constant (.text s)) :=
  fun _ _ => rfl

theorem scalarTokens_number {cs : List Char} {v : Value} (h : numeral false cs = some v) :
    ScalarTokens [.number cs] (.constant v) := by
  intro rest _
  simp [readScalar, readOperand, h]

theorem scalarTokens_minus {cs : List Char} {v : Value} (h : numeral true cs = some v) :
    ScalarTokens [.sign .minus, .number cs] (.constant v) := by
  intro rest _
  simp [readScalar, readOperand, h]

theorem scalarTokens_column (source column : String) :
    ScalarTokens [.name source, .sign .dot, .name column] (.column source column) :=
  fun _ _ => rfl

theorem scalarTokens_name (column : String) : ScalarTokens [.name column] (.column "" column) := by
  intro rest hrest
  match rest with
  | [] => rfl
  | .sign s :: us =>
    have hdot : s ≠ .dot := fun h => hrest (by simp [h])
    cases s <;> first | rfl | exact absurd rfl hdot
  | .keyword _ :: us | .name _ :: us | .number _ :: us | .text _ :: us | .stray _ :: us => rfl

/-- A zero where a count is missing. -/
theorem scalarTokens_coalesce (source column : String) :
    ScalarTokens ([.keyword .coalesce, .sign .opening, .name source, .sign .dot, .name column,
      .sign .comma, .number ['0'], .sign .closing])
      (.coalesce (.column source column) (.constant (.integer 0))) :=
  fun _ _ => rfl

theorem scalarTokens_kind (source column : String) :
    ScalarTokens ([.keyword .typeof, .sign .opening, .name source, .sign .dot, .name column,
      .sign .closing]) (.kind (.column source column)) :=
  fun _ _ => rfl

theorem scalarTokens_start (source column : String) (length : Nat) :
    ScalarTokens ([.keyword .substr, .sign .opening, .name source, .sign .dot, .name column,
      .sign .comma, .number ['1'], .sign .comma, .number (Nat.toDigits 10 length), .sign .closing])
      (.substring (.column source column) 1 length) := by
  intro rest _
  have hlength : readCount (.number (Nat.toDigits 10 length) :: .sign .closing :: rest) =
      some (length, .sign .closing :: rest) := by
    have hall : (Nat.toDigits 10 length).all Number.isDigit = true :=
      List.all_eq_true.2 fun _ => Number.isDigit_of_mem_toDigits
    rw [readCount, if_pos hall, Number.ofDigits_toDigits]
  have hstart (ts : List Token) : readCount (.number ['1'] :: ts) = some (1, ts) := rfl
  simp [readScalar, readOperand, expect, hlength, hstart]

/-! ## Tests -/

def signOf : CompareOp → Sign
  | .equal => .equal
  | .less => .less
  | .lessOrEqual => .lessOrEqual
  | .greater => .greater
  | .greaterOrEqual => .greaterOrEqual

@[simp] theorem relationOf_signOf (op : CompareOp) : relationOf (signOf op) = some op := by
  cases op <;> rfl

theorem head?_signOf_ne_dot (op : CompareOp) (ts : List Token) :
    (Token.sign (signOf op) :: ts).head? ≠ some (.sign .dot) := by
  cases op <;> simp [signOf]

/-- Tokens that are read as a condition without AND and OR outside of parentheses. -/
def Atom (ts : List Token) (f : Formula) : Prop :=
  ∀ n rest, 4 * ts.length ≤ n + 3 → EndsOperand rest → readNot n (ts ++ rest) = some (f, rest)

/-- Tokens that are read as a condition without OR outside of parentheses. -/
def Conjuncts (ts : List Token) (f : Formula) : Prop :=
  ∀ n rest, 4 * ts.length ≤ n + 2 → EndsConjuncts rest → readAnd n (ts ++ rest) = some (f, rest)

def Disjuncts (ts : List Token) (f : Formula) : Prop :=
  ∀ n rest, 4 * ts.length ≤ n + 1 → EndsDisjuncts rest → readOr n (ts ++ rest) = some (f, rest)

theorem readNot_of_startsTest {ts : List Token} (h : startsTest ts = true) (n : Nat) :
    readNot (n + 1) ts = readTest ts := by
  match ts with
  | .name _ :: _ | .number _ :: _ => simp only [readNot]
  | .keyword k :: us => cases k <;> first | rfl | simp [startsTest] at h

theorem startsTest_append {ts : List Token} (h : startsTest ts = true) (us : List Token) :
    startsTest (ts ++ us) = true := by
  match ts with
  | .name _ :: _ | .number _ :: _ => rfl
  | .keyword _ :: _ => exact h

/-- Tokens that are read as a test are an atom. -/
theorem atom_of_readTest {ts : List Token} {f : Formula} (hstart : startsTest ts = true)
    (h : ∀ rest, EndsOperand rest → readTest (ts ++ rest) = some (f, rest)) : Atom ts f := by
  intro n rest hn hrest
  have hlength : 0 < ts.length := by
    cases ts with
    | nil => contradiction
    | cons => exact Nat.succ_pos _
  obtain ⟨m, rfl⟩ : ∃ m, n = m + 1 := ⟨n - 1, by omega⟩
  rw [readNot_of_startsTest (startsTest_append hstart rest), h rest hrest]

theorem atom_compare {ss ts : List Token} {a b : Scalar} (op : CompareOp)
    (hstart : startsTest ss = true) (ha : ScalarTokens ss a) (hb : ScalarTokens ts b) :
    Atom (ss ++ Token.sign (signOf op) :: ts) (.compare op false a b) := by
  apply atom_of_readTest (startsTest_append hstart _)
  intro rest hrest
  have hcollation : readCollation rest = (false, rest) := by
    unfold readCollation
    split
    · exact absurd rfl hrest.2
    · rfl
  rw [List.append_assoc, List.cons_append, readTest, ha _ (head?_signOf_ne_dot op _)]
  simp [readTestOf, hb rest hrest.1, hcollation]

theorem atom_compare_fold {ss ts : List Token} {a b : Scalar} (op : CompareOp)
    (hstart : startsTest ss = true) (ha : ScalarTokens ss a) (hb : ScalarTokens ts b) :
    Atom (ss ++ Token.sign (signOf op) :: (ts ++ [Token.keyword .collate, .keyword .nocase]))
      (.compare op true a b) := by
  apply atom_of_readTest (startsTest_append hstart _)
  intro rest _
  rw [List.append_assoc, List.cons_append, readTest, ha _ (head?_signOf_ne_dot op _)]
  simp [readTestOf, hb (.keyword .collate :: .keyword .nocase :: rest) (by simp), readCollation]

theorem atom_isNotNull {ss : List Token} {a : Scalar} (hstart : startsTest ss = true)
    (ha : ScalarTokens ss a) :
    Atom (ss ++ [Token.keyword .is, .keyword .not, .keyword .null]) (.isNotNull a) := by
  apply atom_of_readTest (startsTest_append hstart _)
  intro rest _
  rw [List.append_assoc, readTest, ha _ (by simp)]
  simp [readTestOf]

theorem atom_like {ss ts us : List Token} {a p e : Scalar} (hstart : startsTest ss = true)
    (ha : ScalarTokens ss a) (hp : ScalarTokens ts p) (he : ScalarTokens us e) :
    Atom (ss ++ Token.keyword .like :: (ts ++ Token.keyword .escape :: us)) (.like a p e) := by
  apply atom_of_readTest (startsTest_append hstart _)
  intro rest hrest
  rw [List.append_assoc, readTest, ha _ (by simp)]
  simp [readTestOf, hp (Token.keyword .escape :: (us ++ rest)) (by simp), expect, he rest hrest.1]

def textTokens : List String → List Token
  | [] => []
  | [s] => [.text s]
  | s :: ss => .text s :: .sign .comma :: textTokens ss

theorem readTexts_textTokens {ss : List String} (hne : ss ≠ []) (rest : List Token) :
    readTexts (textTokens ss ++ Token.sign .closing :: rest) = some (ss.map .text, rest) := by
  induction ss with
  | nil => exact absurd rfl hne
  | cons s ss ih =>
    cases ss with
    | nil => rfl
    | cons s' ss =>
      have ih := ih (List.cons_ne_nil s' ss)
      simp [textTokens, readTexts, ih]

theorem atom_isAmong {ts : List Token} {a : Scalar} (hstart : startsTest ts = true)
    (ha : ScalarTokens ts a) {ss : List String} (hne : ss ≠ []) :
    Atom (ts ++ Token.keyword .in :: .sign .opening :: (textTokens ss ++ [Token.sign .closing]))
      (.isAmong a (ss.map .text)) := by
  apply atom_of_readTest (startsTest_append hstart _)
  intro rest _
  rw [List.append_assoc, readTest, ha _ (by simp)]
  simp [readTestOf, readTexts_textTokens hne]

/-! ## Connectives -/

theorem Atom.ne_nil {ts : List Token} {f : Formula} (h : Atom ts f) : ts ≠ [] := by
  rintro rfl
  have hread := h 0 [] (by simp) (by simp [EndsOperand])
  simp [readNot_zero] at hread

theorem Atom.conjuncts {ts : List Token} {f : Formula} (h : Atom ts f) : Conjuncts ts f := by
  intro n rest hn hrest
  have hlength := List.length_pos_of_ne_nil h.ne_nil
  obtain ⟨m, rfl⟩ : ∃ m, n = m + 1 := ⟨n - 1, by omega⟩
  exact readAnd_of_readNot (h m rest (by omega) hrest.1) hrest.2

theorem Conjuncts.ne_nil {ts : List Token} {f : Formula} (h : Conjuncts ts f) : ts ≠ [] := by
  rintro rfl
  have hread := h 0 [] (by simp) (by simp [EndsConjuncts, EndsOperand])
  simp [readAnd] at hread

theorem Conjuncts.disjuncts {ts : List Token} {f : Formula} (h : Conjuncts ts f) :
    Disjuncts ts f := by
  intro n rest hn hrest
  have hlength := List.length_pos_of_ne_nil h.ne_nil
  obtain ⟨m, rfl⟩ : ∃ m, n = m + 1 := ⟨n - 1, by omega⟩
  exact readOr_of_readAnd (h m rest (by omega) hrest.1) hrest.2

theorem Atom.disjuncts {ts : List Token} {f : Formula} (h : Atom ts f) : Disjuncts ts f :=
  h.conjuncts.disjuncts

theorem Atom.and {ss ts : List Token} {f g : Formula} (hf : Atom ss f) (hg : Conjuncts ts g) :
    Conjuncts (ss ++ Token.keyword .and :: ts) (.and f g) := by
  intro n rest hn hrest
  simp only [List.length_append, List.length_cons] at hn
  obtain ⟨m, rfl⟩ : ∃ m, n = m + 1 := ⟨n - 1, by omega⟩
  have hfirst := hf m (Token.keyword .and :: (ts ++ rest)) (by omega) (by simp [EndsOperand])
  have hsecond := hg m rest (by omega) hrest
  simp [readAnd, hfirst, hsecond]

theorem Conjuncts.or {ss ts : List Token} {f g : Formula} (hf : Conjuncts ss f)
    (hg : Disjuncts ts g) : Disjuncts (ss ++ Token.keyword .or :: ts) (.or f g) := by
  intro n rest hn hrest
  simp only [List.length_append, List.length_cons] at hn
  obtain ⟨m, rfl⟩ : ∃ m, n = m + 1 := ⟨n - 1, by omega⟩
  have hfirst := hf m (Token.keyword .or :: (ts ++ rest)) (by omega)
    (by simp [EndsConjuncts, EndsOperand])
  have hsecond := hg m rest (by omega) hrest
  simp [readOr, hfirst, hsecond]

/-! ## Parentheses -/

theorem Disjuncts.group {ts : List Token} {f : Formula} (h : Disjuncts ts f) :
    Atom (Token.sign .opening :: (ts ++ [Token.sign .closing])) f := by
  intro n rest hn _
  simp only [List.length_append, List.length_cons, List.length_nil] at hn
  obtain ⟨m, rfl⟩ : ∃ m, n = m + 1 := ⟨n - 1, by omega⟩
  have hread := h m (.sign .closing :: rest) (by omega) (endsDisjuncts_closing rest)
  simp [readNot, hread, expect]

theorem Atom.not {ts : List Token} {f : Formula} (h : Atom ts f) :
    Atom (.keyword .not :: ts) (.not f) := by
  intro n rest hn hrest
  simp only [List.length_cons] at hn
  obtain ⟨m, rfl⟩ : ∃ m, n = m + 1 := ⟨n - 1, by omega⟩
  simp [readNot, h m rest (by omega) hrest]

def existsTokens (s : Source) : List Token :=
  [.keyword .exists, .sign .opening, .keyword .select, .number ['1'], .keyword .from,
    .name s.table, .name s.name]

theorem readJoins_where (n : Nat) (ts : List Token) :
    readJoins (n + 1) (.keyword .where :: ts) = some ([], [], .keyword .where :: ts) := rfl

theorem Disjuncts.exists {ts : List Token} {f : Formula} (h : Disjuncts ts f) (s : Source) :
    Atom (existsTokens s ++ Token.keyword .where :: (ts ++ [Token.sign .closing]))
      (.exists [s] f) := by
  intro n rest hn _
  simp only [existsTokens, List.length_append, List.length_cons, List.length_nil] at hn
  obtain ⟨m, rfl⟩ : ∃ m, n = m + 1 + 1 := ⟨n - 2, by omega⟩
  have hread := h (m + 1) (.sign .closing :: rest) (by omega) (endsDisjuncts_closing rest)
  simp [existsTokens, readNot, readJoins_where, hread, expect]

/-- A subselect from two sources with a condition between them. -/
theorem Disjuncts.existsJoin {ss ts : List Token} {f g : Formula} (hf : Disjuncts ss f)
    (hg : Disjuncts ts g) (s t : Source) :
    Atom (existsTokens s ++ Token.keyword .join :: .name t.table :: .name t.name :: .keyword .on ::
      (ss ++ Token.keyword .where :: (ts ++ [Token.sign .closing])))
      (.exists [s, t] (.and f g)) := by
  intro n rest hn _
  simp only [existsTokens, List.length_append, List.length_cons, List.length_nil] at hn
  obtain ⟨m, rfl⟩ : ∃ m, n = m + 1 + 1 + 1 := ⟨n - 3, by omega⟩
  have hon := hf (m + 1) (Token.keyword .where :: (ts ++ Token.sign .closing :: rest)) (by omega)
    (by simp [EndsDisjuncts, EndsConjuncts, EndsOperand])
  have hread := hg (m + 1 + 1) (.sign .closing :: rest) (by omega) (endsDisjuncts_closing rest)
  simp [existsTokens, readNot, readJoins, hon, hread, expect]

end TagQuery.Sql
