import TagQuery.Json
import TagQuery.Json.Token

/-!
# Reading JSON

A value is built from tokens with a stack of the arrays and objects that are still open. One that
lies inside 127 others has no value that could be read.

## Main definitions

- `Json.read?`: the value of a text that holds one value and nothing else.
-/

namespace TagQuery.Json

/-- An array or object that is still open; its items are kept in reverse order. A key is `none` if
it is no text. -/
inductive Frame where
  | array (items : List Json)
  | object (entries : List (Option String × Json)) (key : Option String)

/-- What the next token may be. -/
inductive Expected where
  | value
  | valueOrClose
  | keyOrClose (entries : List (Option String × Json))
  | key (entries : List (Option String × Json))
  | colon (entries : List (Option String × Json)) (key : Option String)
  | commaOrClose
  | nothing (result : Json)

/-- The state of the reader: the open arrays and objects, innermost first. -/
structure ReadState where
  frames : List Frame
  expected : Expected

def maxDepth : Nat := 127

def ofWord? (cs : List Char) : Option Json :=
  if cs = "null".toList then some .null
  else if cs = "true".toList then some (.bool true)
  else if cs = "false".toList then some (.bool false)
  else (NumberParts.ofChars? cs).map fun _ => .number (String.ofList cs)

/-- The object of entries in reverse order. -/
def ofEntries (entries : List (Option String × Json)) : Json :=
  match entries.reverse.mapM fun (k, v) => k.map (·, v) with
  | some entries => .object entries
  | none => .unreadable

/-- Puts a finished value where it belongs. -/
def ReadState.finish (frames : List Frame) (value : Json) : ReadState :=
  match frames with
  | [] => ⟨[], .nothing value⟩
  | .array items :: rest => ⟨.array (value :: items) :: rest, .commaOrClose⟩
  | .object entries key :: rest => ⟨.object ((key, value) :: entries) none :: rest, .commaOrClose⟩

/-- Puts an array or object that was closed where it belongs, unless too many others are open. -/
def ReadState.close (frames : List Frame) (value : Json) : ReadState :=
  finish frames (if (frames[maxDepth - 1]?).isSome then .unreadable else value)

def ReadState.value? (frames : List Frame) : Token → Option ReadState
  | .text (some cs) => some (finish frames (.string (String.ofList cs)))
  | .text none => some (finish frames .unreadable)
  | .word cs => (ofWord? cs).map (finish frames)
  | .mark '[' => some ⟨.array [] :: frames, .valueOrClose⟩
  | .mark '\x7b' => some ⟨frames, .keyOrClose []⟩
  | .mark _ => none

/-- Takes one token. An object joins the stack when its first key is known. -/
def ReadState.step? (s : ReadState) (t : Token) : Option ReadState :=
  match s.expected with
  | .value => value? s.frames t
  | .valueOrClose =>
    match t, s.frames with
    | .mark ']', .array items :: rest => some (close rest (.array items.reverse))
    | _, _ => value? s.frames t
  | .keyOrClose entries =>
    match t with
    | .mark '\x7d' => some (close s.frames (ofEntries entries))
    | .text cs => some ⟨s.frames, .colon entries (cs.map String.ofList)⟩
    | _ => none
  | .key entries =>
    match t with
    | .text cs => some ⟨s.frames, .colon entries (cs.map String.ofList)⟩
    | _ => none
  | .colon entries key =>
    match t with
    | .mark ':' => some ⟨.object entries key :: s.frames, .value⟩
    | _ => none
  | .commaOrClose =>
    match t, s.frames with
    | .mark ',', .array _ :: _ => some ⟨s.frames, .value⟩
    | .mark ',', .object entries _ :: rest => some ⟨rest, .key entries⟩
    | .mark ']', .array items :: rest => some (close rest (.array items.reverse))
    | .mark '\x7d', .object entries _ :: rest => some (close rest (ofEntries entries))
    | _, _ => none
  | .nothing _ => none

/-- The value of a text that holds one value and nothing else. -/
def read? (s : String) : Option Json :=
  match (scan? s.toList).bind (·.foldlM ReadState.step? ⟨[], .value⟩) with
  | some ⟨_, .nothing result⟩ => some result
  | _ => none

end TagQuery.Json
