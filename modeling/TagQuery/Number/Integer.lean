/-!
# Whole numbers in text

Reading a whole number of bounded size from digits. The first digit that is none, or that takes the
number past its bound, decides the fault.

## Main definitions

- `IntegerFault`: why a text is no whole number of the wanted range.
- `readNat`, `readInt`: numbers with an optional sign.
-/

namespace TagQuery

/-- Why a text is no whole number of the wanted range. -/
inductive IntegerFault where
  | empty
  | badDigit
  | tooLarge
  | tooSmall
  deriving DecidableEq, Repr

def IntegerFault.message : IntegerFault → String
  | .empty => "cannot parse integer from empty string"
  | .badDigit => "invalid digit found in string"
  | .tooLarge => "number too large to fit in target type"
  | .tooSmall => "number too small to fit in target type"

namespace Number

def maxWord : Nat := Nat.pow 2 64 - 1

def maxSigned : Nat := Nat.pow 2 63 - 1

def maxByte : Nat := Nat.pow 2 8 - 1

/-! ## Digits -/

/-- The value of a digit or of a letter used as a digit. -/
def digitValue (c : Char) : Option Nat :=
  if '0' ≤ c ∧ c ≤ '9' then some (c.toNat - '0'.toNat)
  else if 'a' ≤ c ∧ c ≤ 'z' then some (c.toNat - 'a'.toNat + 10)
  else if 'A' ≤ c ∧ c ≤ 'Z' then some (c.toNat - 'A'.toNat + 10)
  else none

def digitOf? (base : Nat) (c : Char) : Option Nat :=
  (digitValue c).filter (· < base)

def isDigit (c : Char) : Bool :=
  '0' ≤ c && c ≤ '9'

/-- Appends digits to the number `n`; `past` is the fault of a number above `limit`. -/
def readDigits (base limit : Nat) (past : IntegerFault) (n : Nat) :
    List Char → Except IntegerFault Nat
  | [] => .ok n
  | c :: cs =>
    match digitOf? base c with
    | none => .error .badDigit
    | some d =>
      if limit < n * base + d then .error past
      else readDigits base limit past (n * base + d) cs

/-- Reads a run of digits that must not be empty. -/
def readMagnitude (base limit : Nat) (past : IntegerFault) (cs : List Char) :
    Except IntegerFault Nat :=
  if cs.isEmpty then .error .badDigit else readDigits base limit past 0 cs

def ofDigits (cs : List Char) : Nat :=
  cs.foldl (fun n c => n * 10 + (c.toNat - '0'.toNat)) 0

/-! ## Numbers -/

/-- Reads a number up to `limit` with an optional plus sign. -/
def readNat (base limit : Nat) : List Char → Except IntegerFault Nat
  | [] => .error .empty
  | '+' :: cs => readMagnitude base limit .tooLarge cs
  | cs => readMagnitude base limit .tooLarge cs

def readInt : List Char → Except IntegerFault Int
  | [] => .error .empty
  | '+' :: cs => (readMagnitude 10 maxSigned .tooLarge cs).map Int.ofNat
  | '-' :: cs => (readMagnitude 10 (maxSigned + 1) .tooSmall cs).map fun n => -(n : Int)
  | cs => (readMagnitude 10 maxSigned .tooLarge cs).map Int.ofNat

end Number
end TagQuery
