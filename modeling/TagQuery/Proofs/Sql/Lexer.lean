import TagQuery.Number.Integer
import TagQuery.Sql.Piece

/-!
# The words of statements

The text of a statement is cut into tokens from left to right. A character either continues the
token that has been started, or ends it and starts another. A literal ends at the first quote that
is not followed by another one.

## Main definitions

- `Sql.Token`: a word, a number, a literal or a symbol.
- `Sql.scan`: the tokens of a text, and the token that is still open at its end.
- `Sql.tokenize`: the tokens of a whole text.

## Main statements

- `Sql.Scans.append`: texts that are cut one after the other.
- `Sql.scans_quote`: a literal is one token, whatever its content.
-/

namespace TagQuery.Sql

/-! ## Tokens -/

inductive Keyword where
  | create | temp | table | as | select | from | left | join | on | where | group | by
  | and | or | not | exists | is | null | in | like | escape | collate | nocase
  | coalesce | typeof | substr | count
  deriving DecidableEq, Repr

def keywords : List (String × Keyword) :=
  [("CREATE", .create), ("TEMP", .temp), ("TABLE", .table), ("AS", .as), ("SELECT", .select),
    ("FROM", .from), ("LEFT", .left), ("JOIN", .join), ("ON", .on), ("WHERE", .where),
    ("GROUP", .group), ("BY", .by), ("AND", .and), ("OR", .or), ("NOT", .not), ("EXISTS", .exists),
    ("IS", .is), ("NULL", .null), ("IN", .in), ("LIKE", .like), ("ESCAPE", .escape),
    ("COLLATE", .collate), ("NOCASE", .nocase), ("COALESCE", .coalesce), ("typeof", .typeof),
    ("substr", .substr), ("COUNT", .count)]

inductive Sign where
  | opening | closing | comma | dot | star | semicolon | minus
  | equal | less | lessOrEqual | greater | greaterOrEqual
  deriving DecidableEq, Repr

/-- A unit of the text of a statement. -/
inductive Token where
  | keyword (k : Keyword)
  | name (s : String)
  | number (cs : List Char)
  | text (s : String)
  | sign (s : Sign)
  /-- A character that does not belong to any token. -/
  | stray (c : Char)
  deriving DecidableEq, Repr

def Token.ofWord (cs : List Char) : Token :=
  match keywords.lookup (String.ofList cs) with
  | some k => .keyword k
  | none => .name (String.ofList cs)

/-! ## Cutting -/

/-- A token that has been started. -/
inductive Pending where
  | nothing
  | word (cs : List Char)
  | number (cs : List Char)
  /-- A sign that another one may follow. -/
  | less
  | greater
  | literal (cs : List Char)
  /-- A literal after a quote that either ends it or is the first of two. -/
  | quoted (cs : List Char)
  deriving DecidableEq, Repr

def Pending.finish : Pending → List Token
  | .nothing => []
  | .word cs => [.ofWord cs]
  | .number cs => [.number cs]
  | .less => [.sign .less]
  | .greater => [.sign .greater]
  | .literal _ => [.stray '\'']
  | .quoted cs => [.text (String.ofList cs)]

def isWordChar (c : Char) : Bool := c.isAlphanum || c == '_'

/-- Whether a character belongs to a number after what is read of it: a sign does after the `e` of
an exponent only. -/
def continuesNumber (cs : List Char) (c : Char) : Bool :=
  c.isAlphanum || c == '.' ||
    (c == '+' || c == '-') && (cs.getLast? == some 'e' || cs.getLast? == some 'E')

def start (c : Char) : List Token × Pending :=
  if c = ' ' ∨ c = '\n' then ([], .nothing)
  else if c = '\'' then ([], .literal [])
  else if c.isDigit then ([], .number [c])
  else if isWordChar c then ([], .word [c])
  else if c = '<' then ([], .less)
  else if c = '>' then ([], .greater)
  else
    match [('(', Sign.opening), (')', .closing), (',', .comma), ('.', .dot), ('*', .star),
      (';', .semicolon), ('-', .minus), ('=', .equal)].lookup c with
    | some s => ([.sign s], .nothing)
    | none => ([.stray c], .nothing)

/-- Completes the token that has been started, and starts another. -/
def Pending.restart (p : Pending) (c : Char) : List Token × Pending :=
  (p.finish ++ (start c).1, (start c).2)

def Pending.step (p : Pending) (c : Char) : List Token × Pending :=
  match p with
  | .nothing => start c
  | .word cs => if isWordChar c then ([], .word (cs ++ [c])) else p.restart c
  | .number cs => if continuesNumber cs c then ([], .number (cs ++ [c])) else p.restart c
  | .less => if c = '=' then ([.sign .lessOrEqual], .nothing) else p.restart c
  | .greater => if c = '=' then ([.sign .greaterOrEqual], .nothing) else p.restart c
  | .literal cs => if c = '\'' then ([], .quoted cs) else ([], .literal (cs ++ [c]))
  | .quoted cs => if c = '\'' then ([], .literal (cs ++ ['\''])) else p.restart c

/-- The tokens of a text, and what is still open at its end. -/
def scan (p : Pending) : List Char → List Token × Pending
  | [] => ([], p)
  | c :: cs =>
    let (tokens, next) := p.step c
    let (rest, last) := scan next cs
    (tokens ++ rest, last)

def tokenize (cs : List Char) : List Token :=
  let (tokens, last) := scan .nothing cs
  tokens ++ last.finish

/-! ## Texts one after the other -/

theorem scan_append (p : Pending) (a b : List Char) :
    scan p (a ++ b) =
      ((scan p a).1 ++ (scan (scan p a).2 b).1, (scan (scan p a).2 b).2) := by
  induction a generalizing p with
  | nil => rfl
  | cons c cs ih => simp only [List.cons_append, scan, ih, List.append_assoc]

/-- A text that starts and ends between tokens. -/
def Closed (cs : List Char) (tokens : List Token) : Prop :=
  scan .nothing cs = (tokens, .nothing)

instance (cs : List Char) (tokens : List Token) : Decidable (Closed cs tokens) :=
  inferInstanceAs (Decidable (_ = _))

/-- The tokens of code that is given by its characters. -/
theorem closed_ofList {cs : List Char} {tokens : List Token} (h : Closed cs tokens) :
    Closed (String.ofList cs).toList tokens := by
  rwa [String.toList_ofList]

theorem closed_append_ofList {cs ds : List Char} {tokens : List Token}
    (h : Closed (cs ++ ds) tokens) :
    Closed (String.ofList cs ++ String.ofList ds).toList tokens := by
  rwa [String.toList_append, String.toList_ofList, String.toList_ofList]

/-- A text that starts between tokens, and whose last token may be open but is no literal. -/
def Scans (cs : List Char) (tokens : List Token) : Prop :=
  ∃ done p, scan .nothing cs = (done, p) ∧ (∀ content, p ≠ .literal content) ∧
    done ++ p.finish = tokens

/-- Whether a character ends every token but a literal. -/
def isBoundary (c : Char) : Bool :=
  c == ' ' || c == '\n' || c == ')' || c == ',' || c == ';'

theorem step_of_isBoundary {p : Pending} (hp : ∀ content, p ≠ .literal content) {c : Char}
    (h : isBoundary c = true) : p.step c = (p.finish ++ (start c).1, (start c).2) := by
  have hword : isWordChar c = false := by
    simp only [isBoundary, Bool.or_eq_true, beq_iff_eq] at h
    rcases h with (((rfl | rfl) | rfl) | rfl) | rfl <;> decide
  have hnumber (cs : List Char) : continuesNumber cs c = false := by
    simp only [isBoundary, Bool.or_eq_true, beq_iff_eq] at h
    rcases h with (((rfl | rfl) | rfl) | rfl) | rfl <;> rfl
  have hequal : c ≠ '=' := by
    rintro rfl
    contradiction
  have hquote : c ≠ '\'' := by
    rintro rfl
    contradiction
  cases p with
  | nothing => rfl
  | word cs => simp [Pending.step, hword, Pending.restart]
  | number cs => simp [Pending.step, hnumber cs, Pending.restart]
  | less => simp [Pending.step, hequal, Pending.restart]
  | greater => simp [Pending.step, hequal, Pending.restart]
  | literal cs => exact absurd rfl (hp cs)
  | quoted cs => simp [Pending.step, hquote, Pending.restart]

theorem Closed.scans {cs : List Char} {tokens : List Token} (h : Closed cs tokens) :
    Scans cs tokens :=
  ⟨tokens, .nothing, h, fun _ => Pending.noConfusion, List.append_nil tokens⟩

/-- What a space completes may be left open. -/
theorem scans_of_closed_space {cs : List Char} {tokens : List Token}
    (h : Closed (cs ++ [' ']) tokens) : Scans cs tokens := by
  rw [Closed, scan_append] at h
  obtain ⟨htokens, hnothing⟩ := Prod.mk.inj h
  have hliteral (content : List Char) : (scan .nothing cs).2 ≠ .literal content := by
    intro hp
    rw [hp] at hnothing
    contradiction
  have hstep : (scan (scan .nothing cs).2 [' ']).1 = (scan .nothing cs).2.finish := by
    simp only [scan, step_of_isBoundary hliteral (c := ' ') rfl]
    simp [start]
  exact ⟨_, _, rfl, hliteral, hstep ▸ htokens⟩

theorem Closed.append {a b : List Char} {s t : List Token} (ha : Closed a s) (hb : Scans b t) :
    Scans (a ++ b) (s ++ t) := by
  obtain ⟨done, p, hscan, hp, rfl⟩ := hb
  refine ⟨s ++ done, p, ?_, hp, List.append_assoc ..⟩
  rw [scan_append, ha, hscan]

/-- A text that starts with a boundary may follow any text. -/
theorem Scans.append {a b : List Char} {s t : List Token} (ha : Scans a s) (hb : Scans b t)
    (h : ∃ c cs, b = c :: cs ∧ isBoundary c = true) : Scans (a ++ b) (s ++ t) := by
  obtain ⟨done, p, hscan, hp, rfl⟩ := ha
  obtain ⟨done', p', hscan', hp', rfl⟩ := hb
  obtain ⟨c, cs, rfl, hc⟩ := h
  refine ⟨done ++ (p.finish ++ done'), p', ?_, hp', by simp only [List.append_assoc]⟩
  rw [scan_append, hscan]
  simp only [scan, step_of_isBoundary hp hc] at hscan' ⊢
  have hstart : Pending.nothing.step c = start c := rfl
  rw [hstart] at hscan'
  obtain ⟨rfl, rfl⟩ := Prod.mk.inj hscan'
  simp only [List.append_assoc]

/-! ## Literals and numbers -/

theorem scan_literal (before content : List Char) :
    scan (.literal before) (Text.replaceChar '\'' ['\'', '\''] content) =
      ([], .literal (before ++ content)) := by
  induction content generalizing before with
  | nil => simp [Text.replaceChar, scan]
  | cons c cs ih =>
    rw [Text.replaceChar_cons, scan_append]
    by_cases hc : c = '\''
    · simp [hc, scan, Pending.step, ih]
    · simp [hc, scan, Pending.step, ih]

/-- A literal is one token, whatever its content. -/
theorem scans_quote (content : String) : Scans (quote content.toList) [.text content] := by
  refine ⟨[], .quoted content.toList, ?_, fun _ => Pending.noConfusion, by simp [Pending.finish]⟩
  rw [quote, scan_append, scan_append]
  have hopen : scan .nothing ['\''] = ([], .literal []) := by decide
  rw [hopen, scan_literal]
  simp [scan, Pending.step]

/-- Whether a character belongs to a number, wherever it stands. -/
def isNumberChar (c : Char) : Bool := c.isAlphanum || c == '.'

theorem scan_number {before cs : List Char} (h : ∀ c ∈ cs, isNumberChar c = true) :
    scan (.number before) cs = ([], .number (before ++ cs)) := by
  induction cs generalizing before with
  | nil => simp [scan]
  | cons c cs ih =>
    obtain ⟨hc, hcs⟩ := List.forall_mem_cons.1 h
    have hstep : continuesNumber before c = true := by
      have hchar : (c.isAlphanum || c == '.') = true := hc
      simp [continuesNumber, hchar]
    simp [scan, Pending.step, hstep, ih hcs]

theorem isNumberChar_of_isDigit {c : Char} (h : Number.isDigit c = true) :
    isNumberChar c = true := by
  have hdigit : c.isDigit = true := by
    simp only [Number.isDigit, Char.isDigit, Bool.and_eq_true, decide_eq_true_eq] at h ⊢
    exact h
  simp [isNumberChar, Char.isAlphanum, hdigit]

theorem start_of_isDigit {c : Char} (h : Number.isDigit c = true) :
    start c = ([], .number [c]) := by
  have hdigit : c.isDigit = true := by
    simp only [Number.isDigit, Char.isDigit, Bool.and_eq_true, decide_eq_true_eq] at h ⊢
    exact h
  have hblank : ¬(c = ' ' ∨ c = '\n') := by
    rintro (rfl | rfl) <;> contradiction
  have hquote : c ≠ '\'' := by
    rintro rfl
    contradiction
  simp [start, hblank, hquote, hdigit]

/-- A run of number characters that starts with a digit is one token. -/
theorem scan_number_start {c : Char} {cs : List Char} (hc : Number.isDigit c = true)
    (hcs : ∀ d ∈ cs, isNumberChar d = true) :
    scan .nothing (c :: cs) = ([], .number (c :: cs)) := by
  have hstep : Pending.nothing.step c = ([], .number [c]) := start_of_isDigit hc
  simp [scan, hstep, scan_number hcs]

theorem scans_digits {cs : List Char} (hne : cs ≠ []) (h : ∀ c ∈ cs, Number.isDigit c = true) :
    Scans cs [.number cs] := by
  obtain ⟨c, cs, rfl⟩ := List.exists_cons_of_ne_nil hne
  obtain ⟨hc, hcs⟩ := List.forall_mem_cons.1 h
  exact ⟨[], .number (c :: cs), scan_number_start hc fun d hd => isNumberChar_of_isDigit (hcs d hd),
    fun _ => Pending.noConfusion, rfl⟩

end TagQuery.Sql
