import TagQuery.Number.Integer

/-!
# JSON tokens

The tokens of a JSON text. Scanning is one pass over the characters with a small state: between
tokens, inside a word, or inside a string.

## Main definitions

- `Json.Token`: a punctuation mark, a bare word or a string.
- `Json.scan?`: the tokens of a text.
-/

namespace TagQuery.Json

/-- A token: a mark, a bare word such as a number or `true`, or the content of a string, which is
`none` if half of a surrogate pair stands alone in it. -/
inductive Token where
  | mark (c : Char)
  | word (chars : List Char)
  | text (chars : Option (List Char))
  deriving DecidableEq, Repr

/-- Where the scanner stands. Characters read so far are kept in reverse order; `high` is the first
half of a surrogate pair that still lacks its second. -/
inductive ScanState where
  | between
  | word (read : List Char)
  | text (read : Option (List Char))
  | escape (read : Option (List Char))
  | code (read : Option (List Char)) (high : Option Nat) (digits : List Char)
  | pair (read : List Char) (high : Nat)
  | pairEscape (read : List Char) (high : Nat)

def isSpace (c : Char) : Bool :=
  c == ' ' || c == '\t' || c == '\n' || c == '\r'

def isMark (c : Char) : Bool :=
  c == '[' || c == ']' || c == ',' || c == ':' || c == '\x7b' || c == '\x7d'

def escaped? : Char → Option Char
  | '"' => some '"'
  | '\\' => some '\\'
  | '/' => some '/'
  | 'b' => some '\x08'
  | 'f' => some '\x0c'
  | 'n' => some '\n'
  | 'r' => some '\r'
  | 't' => some '\t'
  | _ => none

/-! ## Strings -/

/-- What a 16-bit code inside a string leads to: a character, or half of a pair. -/
def afterCode (read : Option (List Char)) (high : Option Nat) (code : Nat) : ScanState :=
  let isHigh := 0xD800 ≤ code && code < 0xDC00
  let isLow := 0xDC00 ≤ code && code < 0xE000
  match read, high with
  | none, _ => .text none
  | some read, some h =>
    if isLow then
      .text (some (Char.ofNat (0x10000 + (h - 0xD800) * 0x400 + (code - 0xDC00)) :: read))
    else .text none
  | some read, none =>
    if isHigh then .pair read code
    else if isLow then .text none
    else .text (some (Char.ofNat code :: read))

def stepText? (read : Option (List Char)) (c : Char) : Option (ScanState × List Token) :=
  if c == '"' then some (.between, [.text (read.map List.reverse)])
  else if c == '\\' then some (.escape read, [])
  else if c.toNat < 0x20 then none
  else some (.text (read.map (c :: ·)), [])

def stepEscape? (read : Option (List Char)) (c : Char) : Option (ScanState × List Token) :=
  if c == 'u' then some (.code read none [], [])
  else (escaped? c).map fun d => (.text (read.map (d :: ·)), [])

def stepCode? (read : Option (List Char)) (high : Option Nat) (digits : List Char) (c : Char) :
    Option (ScanState × List Token) :=
  match Number.digitOf? 16 c with
  | none => none
  | some _ =>
    let digits := digits ++ [c]
    if digits.length < 4 then some (.code read high digits, [])
    else
      let code := digits.foldl (fun n d => n * 16 + (Number.digitValue d).getD 0) 0
      some (afterCode read high code, [])

/-! ## All tokens -/

def stepBetween? (c : Char) : Option (ScanState × List Token) :=
  if isSpace c then some (.between, [])
  else if isMark c then some (.between, [.mark c])
  else if c == '"' then some (.text (some []), [])
  else some (.word [c], [])

/-- One step of the scanner: the next state and the tokens that the character completes. -/
def step? (state : ScanState) (c : Char) : Option (ScanState × List Token) :=
  match state with
  | .between => stepBetween? c
  | .word read =>
    if isSpace c || isMark c || c == '"' then
      (stepBetween? c).map fun (s, ts) => (s, .word read.reverse :: ts)
    else some (.word (c :: read), [])
  | .text read => stepText? read c
  | .escape read => stepEscape? read c
  | .code read high digits => stepCode? read high digits c
  | .pair read high => if c == '\\' then some (.pairEscape read high, []) else stepText? none c
  | .pairEscape read high =>
    if c == 'u' then some (.code (some read) (some high) [], []) else stepEscape? none c

/-- Scans characters from a state on; the tokens found before are kept in reverse order. -/
def scanFrom? (found : List Token) (state : ScanState) : List Char → Option (List Token)
  | [] =>
    match state with
    | .between => some found.reverse
    | .word read => some (.word read.reverse :: found).reverse
    | _ => none
  | c :: cs =>
    match step? state c with
    | none => none
    | some (next, tokens) => scanFrom? (tokens.reverse ++ found) next cs

def scan? (cs : List Char) : Option (List Token) :=
  scanFrom? [] .between cs

end TagQuery.Json
