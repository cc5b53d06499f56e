import TagQuery.Json

/-!
# Writing JSON

A value as one line without spaces, or as an indented text.

## Main definitions

- `Json.compact`: the value on one line.
- `Json.pretty`: the value with one item a line, each level indented by two spaces.
-/

namespace TagQuery.Json

/-! ## Strings -/

/-- The two lowercase hexadecimal digits of a number below 256. -/
def hexPair (n : Nat) : List Char :=
  [Nat.digitChar (n / 16), Nat.digitChar (n % 16)]

/-- The characters that stand for `c` in a string: quotes, backslashes and control characters below
the space are escaped. -/
def escapeChar (c : Char) : List Char :=
  match c with
  | '"' => ['\\', '"']
  | '\\' => ['\\', '\\']
  | '\x08' => ['\\', 'b']
  | '\t' => ['\\', 't']
  | '\n' => ['\\', 'n']
  | '\x0c' => ['\\', 'f']
  | '\r' => ['\\', 'r']
  | _ => if c.toNat < 0x20 then ['\\', 'u', '0', '0'] ++ hexPair c.toNat else [c]

def quote (s : String) : String :=
  String.ofList (['"'] ++ s.toList.flatMap escapeChar ++ ['"'])

/-! ## One line -/

mutual
def compact : Json → String
  | .null | .unreadable => "null"
  | .bool true => "true"
  | .bool false => "false"
  | .number literal => literal
  | .string s => quote s
  | .array items => "[" ++ ",".intercalate (compactAll items) ++ "]"
  | .object entries => "\x7b" ++ ",".intercalate (compactEntries entries) ++ "\x7d"
termination_by structural j => j

def compactAll : List Json → List String
  | [] => []
  | j :: js => j.compact :: compactAll js
termination_by structural js => js

def compactEntries : List (String × Json) → List String
  | [] => []
  | (k, v) :: es => (quote k ++ ":" ++ v.compact) :: compactEntries es
termination_by structural es => es
end

/-! ## Indented -/

/-- The start of a line `depth` levels deep. -/
def indent (depth : Nat) : String :=
  "\n" ++ String.ofList (List.replicate (2 * depth) ' ')

/-- Items between brackets, one a line; brackets without items stay together. -/
def bracket (opening closing : String) (depth : Nat) (items : List String) : String :=
  if items.isEmpty then opening ++ closing
  else
    opening ++ ",".intercalate (items.map (indent (depth + 1) ++ ·)) ++ indent depth ++ closing

mutual
/-- The value as an indented text inside `depth` levels. -/
def prettyAt (depth : Nat) : Json → String
  | .array items => bracket "[" "]" depth (prettyAll (depth + 1) items)
  | .object entries => bracket "\x7b" "\x7d" depth (prettyEntries (depth + 1) entries)
  | .null | .unreadable => "null"
  | .bool true => "true"
  | .bool false => "false"
  | .number literal => literal
  | .string s => quote s
termination_by structural j => j

def prettyAll (depth : Nat) : List Json → List String
  | [] => []
  | j :: js => j.prettyAt depth :: prettyAll depth js
termination_by structural js => js

def prettyEntries (depth : Nat) : List (String × Json) → List String
  | [] => []
  | (k, v) :: es => (quote k ++ ": " ++ v.prettyAt depth) :: prettyEntries depth es
termination_by structural es => es
end

def pretty (j : Json) : String :=
  j.prettyAt 0

end TagQuery.Json
