import TagQuery.Number.Decimal
import TagQuery.Number.Layout
import TagQuery.Yaml.Node

/-!
# YAML values

What a scalar means: nothing, a boolean, a number, or its own text. A plain scalar shows it by its
text, and any other by its tag.

## Main definitions

- `Yaml.Value`: a node in which scalars have their meaning.
- `Yaml.readNat?`, `Yaml.readReal?`: plain scalars as numbers.
- `Yaml.Node.toValue?`: the value of a node.
- `Yaml.Value.scalarText?`: the text of a scalar, as it is shown.
-/

namespace TagQuery.Yaml

/-- A node in which scalars have their meaning. -/
inductive Value where
  | null
  | bool (value : Bool)
  /-- An integer of 64 bits, with or without a sign. -/
  | integer (value : Int)
  | real (value : Real64)
  | text (value : String)
  | sequence (items : List Value)
  | mapping (entries : List (Value × Value))

/-! ## Plain scalars -/

def isNull (s : String) : Bool :=
  s == "" || s == "~" || s == "null" || s == "Null" || s == "NULL"

def readBool? : String → Option Bool
  | "true" | "True" | "TRUE" => some true
  | "false" | "False" | "FALSE" => some false
  | _ => none

/-- Whether a plain scalar is a run of digits, with or without a sign, that starts with a zero it
does not need; such a text is no number. -/
def hasIdleZero (cs : List Char) : Bool :=
  let digits :=
    match cs with
    | '+' :: ds => ds
    | '-' :: ds => ds
    | ds => ds
  1 < digits.length && digits.head? == some '0' && digits.all Number.isDigit

def readBase? (base : Nat) (cs : List Char) : Option Nat :=
  if cs.isEmpty then none
  else cs.foldlM (fun n c => (Number.digitOf? base c).map (n * base + ·)) 0

/-- The number of digits in base ten, or in the base that their first two characters name. -/
def readMagnitude? (cs : List Char) : Option Nat :=
  match cs with
  | '0' :: 'x' :: ds => readBase? 16 ds
  | '0' :: 'o' :: ds => readBase? 8 ds
  | '0' :: 'b' :: ds => readBase? 2 ds
  | ds => readBase? 10 ds

def readInteger? (s : String) : Option Int :=
  let cs := s.toList
  if hasIdleZero cs then none
  else
    match cs with
    | '-' :: ds => (readMagnitude? ds).map fun n => -(n : Int)
    | '+' :: ds => (readMagnitude? ds).map Int.ofNat
    | ds => (readMagnitude? ds).map Int.ofNat

def readNat? (s : String) : Option Nat :=
  if s.startsWith "-" then none
  else (readInteger? s).bind fun i => if i ≤ Number.maxWord then some i.toNat else none

/-- The binary64 number of a plain scalar. A text whose number is not finite is none, but for the
words for infinity and NaN. -/
def readReal? (s : String) : Option Real64 :=
  let unsigned :=
    match s.toList with
    | '+' :: cs => if cs.head?.any fun c => c == '+' || c == '-' then none else some cs
    | cs => some cs
  match unsigned.map String.ofList, s with
  | none, _ => none
  | some ".inf", _ | some ".Inf", _ | some ".INF", _ => some (.infinity false)
  | _, "-.inf" | _, "-.Inf" | _, "-.INF" => some (.infinity true)
  | _, ".nan" | _, ".NaN" | _, ".NAN" => some .nan
  | some t, _ => (Number.readReal t.toList).toOption.filter Real64.isFinite

/-- Which integers a document may hold: those of 64 bits. Larger ones of up to 128 bits are faults,
and beyond these a text of digits is a binary64 number. -/
inductive IntegerSize where
  | word
  | tooLarge
  | beyond
  deriving DecidableEq, Repr

def IntegerSize.of (i : Int) : IntegerSize :=
  if -(Number.maxSigned : Int) - 1 ≤ i ∧ i ≤ Number.maxWord then .word
  else if -(Nat.pow 2 127 : Int) ≤ i ∧ i < (Nat.pow 2 128 : Int) then .tooLarge
  else .beyond

/-- A plain scalar that is no integer, as a number or a text. -/
def readRealOrText (s : String) : Value :=
  if hasIdleZero s.toList then .text s
  else
    match readReal? s with
    | some x => .real x
    | none => .text s

/-- The value of a plain scalar; `none` for an integer that no document may hold. -/
def readPlain? (s : String) : Option Value :=
  if isNull s then some .null
  else
    match readBool? s, readInteger? s with
    | some b, _ => some (.bool b)
    | none, none => some (readRealOrText s)
    | none, some i =>
      match IntegerSize.of i with
      | .word => some (.integer i)
      | .tooLarge => none
      | .beyond => some (readRealOrText s)

/-! ## Tagged scalars -/

def isNullWord (s : String) : Bool :=
  !s.isEmpty && isNull s

/-- The value of a scalar; tags of the document's own have no values. -/
def readScalar? (tag : Option Tag) (style : Style) (s : String) : Option Value :=
  match tag with
  | none => if style = .plain then readPlain? s else some (.text s)
  | some .null => if isNullWord s then some .null else none
  | some .bool => (readBool? s).map .bool
  | some .integer => ((readInteger? s).filter fun i => IntegerSize.of i = .word).map .integer
  | some .real => (readReal? s).map .real
  | some (.own _) => none
  | some .other => some (.text s)

/-! ## Nodes -/

mutual
def Node.toValue? : Node → Option Value
  | .scalar tag style s => readScalar? tag style s
  | .sequence tag items =>
    if Tag.isOwn tag then none else (Node.toValues? items).map .sequence
  | .mapping tag entries =>
    if Tag.isOwn tag then none else (Node.toEntries? entries).map .mapping
termination_by structural n => n

def Node.toValues? : List Node → Option (List Value)
  | [] => some []
  | n :: ns => do return (← n.toValue?) :: (← toValues? ns)
termination_by structural ns => ns

def Node.toEntries? : List (Node × Node) → Option (List (Value × Value))
  | [] => some []
  | e :: es => do return (← toEntry? e) :: (← toEntries? es)
termination_by structural es => es

def Node.toEntry? : Node × Node → Option (Value × Value)
  | (k, v) => do return (← k.toValue?, ← v.toValue?)
termination_by structural e => e
end

namespace Value

/-! ## Equality -/

mutual
/-- Equality of values, where all NaN are equal and the order of entries does not matter. -/
def same : Value → Value → Bool
  | .null, .null => true
  | .bool a, .bool b => a == b
  | .integer a, .integer b => a == b
  | .real a, .real b => a.eqv b || (a == .nan && b == .nan)
  | .text a, .text b => a == b
  | .sequence as, .sequence bs => sameAll as bs
  | .mapping as, .mapping bs => as.length == bs.length && areAmong as bs
  | _, _ => false
termination_by structural v => v

def sameAll : List Value → List Value → Bool
  | [], [] => true
  | a :: as, b :: bs => a.same b && sameAll as bs
  | _, _ => false
termination_by structural vs => vs

def areAmong : List (Value × Value) → List (Value × Value) → Bool
  | [], _ => true
  | e :: es, others => others.any (sameEntry e) && areAmong es others
termination_by structural es => es

def sameEntry : Value × Value → Value × Value → Bool
  | (k, v), other => k.same other.1 && v.same other.2
termination_by structural e => e
end

mutual
def hasDistinctKeys : Value → Bool
  | .sequence items => allDistinctKeys items
  | .mapping entries => distinctEntries entries
  | _ => true
termination_by structural v => v

def allDistinctKeys : List Value → Bool
  | [] => true
  | v :: vs => v.hasDistinctKeys && allDistinctKeys vs
termination_by structural vs => vs

def distinctEntries : List (Value × Value) → Bool
  | [] => true
  | e :: es => distinctEntry e && !es.any (fun f => e.1.same f.1) && distinctEntries es
termination_by structural es => es

def distinctEntry : Value × Value → Bool
  | (k, v) => k.hasDistinctKeys && v.hasDistinctKeys
termination_by structural e => e
end

/-! ## Text -/

/-- The form of numbers in documents: positional from `1e-5` up to `1e16`, always with a point. -/
def realLayout : RealLayout := ⟨some (-5, 15), true, false, .toEven⟩

def realText (x : Real64) : String :=
  match x with
  | .nan => ".nan"
  | .infinity negative => if negative then "-.inf" else ".inf"
  | x => realLayout.render x

def text? : Value → Option String
  | .text s => some s
  | _ => none

/-- The text of a scalar other than null, as it is shown. -/
def scalarText? : Value → Option String
  | .bool b => some (if b then "true" else "false")
  | .integer i => some (toString i)
  | .real x => some (realText x)
  | .text s => some s
  | _ => none

end Value
end TagQuery.Yaml
