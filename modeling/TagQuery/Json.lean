import TagQuery.Number.Decimal
import TagQuery.Number.Layout

/-!
# JSON values

A JSON value keeps what a document says: an object keeps its entries in order, repeated keys
included, and a number keeps its text until someone asks for its value. What follows the grammar but
cannot be read may stand where nobody asks for it.

## Main definitions

- `Json`: a value.
- `Json.ofNat`, `Json.ofInt`, `Json.ofReal`: numbers.
- `Json.toInt?`, `Json.toReal?`: the value of a number.
- `Json.canonical`: the same value with sorted keys and each number in its usual form.
-/

namespace TagQuery

/-- A JSON value. -/
inductive Json where
  | null
  | bool (value : Bool)
  | number (literal : String)
  | string (text : String)
  | array (items : List Json)
  | object (entries : List (String × Json))
  /-- A part that is nested too deep, or has half of a surrogate pair in a text of its own. -/
  | unreadable
  deriving Repr

namespace Json

/-! ## Making values -/

def ofNat (n : Nat) : Json := .number (toString n)

def ofInt (i : Int) : Json := .number (toString i)

/-- A binary64 number; `null` when it is not finite. -/
def ofReal (x : Real64) : Json :=
  if x.isFinite then .number (RealLayout.json.render x) else .null

def ofList (f : α → Json) (items : List α) : Json := .array (items.map f)

def ofStrings (texts : List String) : Json := .array (texts.map .string)

def ofOption (f : α → Json) : Option α → Json
  | some a => f a
  | none => .null

/-! ## Numbers -/

/-- The parts of a number: its sign, the digits before and after the point, and the exponent. -/
structure NumberParts where
  negative : Bool
  whole : List Char
  fraction : List Char
  exponent : Option Int
  deriving DecidableEq, Repr

/-- The parts of a text that follows the grammar of numbers: no digit before a leading zero, and a
digit at least before a point, after it and in an exponent. -/
def NumberParts.ofChars? (cs : List Char) : Option NumberParts :=
  let (negative, rest) : Bool × List Char :=
    match cs with
    | '-' :: ds => (true, ds)
    | ds => (false, ds)
  let whole := rest.takeWhile Number.isDigit
  let afterWhole := rest.dropWhile Number.isDigit
  let wholeOk := !whole.isEmpty && (whole.length == 1 || whole.head? != some '0')
  let (fraction, afterFraction, fractionOk) : List Char × List Char × Bool :=
    match afterWhole with
    | '.' :: ds => (ds.takeWhile Number.isDigit, ds.dropWhile Number.isDigit,
        !(ds.takeWhile Number.isDigit).isEmpty)
    | ds => ([], ds, true)
  if wholeOk && fractionOk then
    match afterFraction with
    | [] => some ⟨negative, whole, fraction, none⟩
    | ds => (Number.readExponent ds).map fun e => ⟨negative, whole, fraction, some e⟩
  else none

/-- Appends digits to a number as long as it stays below `2 ^ 64`; the number of digits left over
comes with it. -/
def leadingDigits (n : Nat) : List Char → Nat × Nat
  | [] => (n, 0)
  | c :: cs =>
    let next := n * 10 + (c.toNat - '0'.toNat)
    if Number.maxWord < next then (n, cs.length + 1) else leadingDigits next cs

/-- Scales a number by a power of ten in steps of at most `10 ^ 308`, each of which rounds; `none`
when it leaves the range. -/
def scale? (x : Real64) (exponent : Int) : Option Real64 :=
  if 308 < exponent then
    if x.eqv (Real64.zero false) then some x else none
  else if 0 ≤ exponent then
    let y := x.mul (Real64.ofNat (Nat.pow 10 exponent.toNat))
    if y.isFinite then some y else none
  else if -308 ≤ exponent then some (x.div (Real64.ofNat (Nat.pow 10 (-exponent).toNat)))
  else if exponent < -1000 then some (Real64.zero false)
  else
    let y := x.div (Real64.ofNat (Nat.pow 10 308))
    some (y.div (Real64.ofNat (Nat.pow 10 (min (-exponent - 308) 308).toNat)))

/-- The binary64 number of a literal: its leading digits, rounded, are scaled by its power of ten,
so a literal of more than fifteen digits may be one unit away from the nearest number. Digits are
left over before the point and at the end, each time from the first that does not fit. -/
def NumberParts.toReal? (p : NumberParts) : Option Real64 :=
  let (whole, left) := leadingDigits 0 p.whole
  let (digits, leftAtEnd) := leadingDigits whole p.fraction
  let exponent := p.exponent.getD 0 + left + leftAtEnd - p.fraction.length
  (scale? (Real64.ofNat digits) exponent).map fun x =>
    if p.negative then x.mul (Real64.ofInt (-1)) else x

/-- The integer of a literal without fraction and exponent, when it has at most 64 bits and is not a
negative zero. -/
def NumberParts.toInt? (p : NumberParts) : Option Int :=
  if p.fraction.isEmpty && p.exponent.isNone then
    let n := Number.ofDigits p.whole
    if p.negative then
      if 0 < n ∧ n ≤ Number.maxSigned + 1 then some (-(n : Int)) else none
    else if n ≤ Number.maxWord then some n
    else none
  else none

def toInt? : Json → Option Int
  | .number literal => (NumberParts.ofChars? literal.toList).bind NumberParts.toInt?
  | _ => none

def toIntIn? (low high : Int) (j : Json) : Option Int :=
  j.toInt?.filter fun i => low ≤ i && i ≤ high

def toNat? (limit : Nat) (j : Json) : Option Nat :=
  (j.toIntIn? 0 limit).map Int.toNat

def toReal? : Json → Option Real64
  | .number literal =>
    (NumberParts.ofChars? literal.toList).bind fun p =>
      match p.toInt? with
      | some i => some (Real64.ofInt i)
      | none => p.toReal?
  | _ => none

/-! ## Other scalars -/

def toText? : Json → Option String
  | .string s => some s
  | _ => none

def toBool? : Json → Option Bool
  | .bool b => some b
  | _ => none

def toItems? : Json → Option (List Json)
  | .array items => some items
  | _ => none

def toList? (f : Json → Option α) (j : Json) : Option (List α) :=
  j.toItems?.bind fun items => items.mapM f

def toTexts? (j : Json) : Option (List String) :=
  j.toList? toText?

/-- `none` for `null`, and otherwise what `f` reads. -/
def toOption? (f : Json → Option α) : Json → Option (Option α)
  | .null => some none
  | j => (f j).map some

/-! ## Canonical form -/

/-- Puts an entry into entries sorted by key, in place of one with the same key. -/
def insertEntry (key : String) (value : Json) : List (String × Json) → List (String × Json)
  | [] => [(key, value)]
  | (k, v) :: rest =>
    if key < k then (key, value) :: (k, v) :: rest
    else if key = k then (key, value) :: rest
    else (k, v) :: insertEntry key value rest

def canonicalNumber (literal : String) : Json :=
  let j := Json.number literal
  match j.toInt? with
  | some i => ofInt i
  | none => (j.toReal?.map ofReal).getD j

mutual
/-- The same value with sorted keys, the last of repeated keys, and numbers in their usual form. -/
def canonical : Json → Json
  | .array items => .array (canonicalAll items)
  | .object entries => .object (canonicalEntries entries [])
  | .number literal => canonicalNumber literal
  | j => j
termination_by structural j => j

def canonicalAll : List Json → List Json
  | [] => []
  | j :: js => j.canonical :: canonicalAll js
termination_by structural js => js

def canonicalEntries : List (String × Json) → List (String × Json) → List (String × Json)
  | [], sorted => sorted
  | (k, v) :: rest, sorted => canonicalEntries rest (insertEntry k v.canonical sorted)
termination_by structural es => es
end

end Json
end TagQuery
