import TagQuery.Number.Integer
import TagQuery.Number.Real64

/-!
# Decimal numbers in text

Reading the binary64 number nearest to a decimal one: digits with an optional point and exponent, or
one of the words for NaN and infinity in any letter case.

## Main definitions

- `DecimalFault`: why a text is no decimal number.
- `readReal`: the number a text denotes.
-/

namespace TagQuery

inductive DecimalFault where
  | empty
  | malformed
  deriving DecidableEq, Repr

def DecimalFault.message : DecimalFault → String
  | .empty => "cannot parse float from empty string"
  | .malformed => "invalid float literal"

namespace Number

/-- The number nearest to `digits * 10 ^ exponent`. Exponents far outside the range are not raised
to a power: the value is past the greatest number, or below half of the least. -/
def realOfDecimal (negative : Bool) (digits : Nat) (exponent : Int) : Real64 :=
  let length : Int := (Nat.toDigits 10 digits).length
  if digits = 0 ∨ length + exponent < -400 then Real64.zero negative
  else if 400 < length + exponent then .infinity negative
  else if 0 ≤ exponent then Real64.ofRatio negative (digits * Nat.pow 10 exponent.toNat) 1
  else Real64.ofRatio negative digits (Nat.pow 10 (-exponent).toNat)

/-- A decimal number before it is rounded: the digits without the point, and the power of ten. -/
structure DecimalText where
  digits : Nat
  exponent : Int
  deriving DecidableEq, Repr

/-- Reads the exponent that follows the digits of a number; no text is the exponent zero. -/
def readExponent : List Char → Option Int
  | [] => some 0
  | c :: cs =>
    if c = 'e' ∨ c = 'E' then
      let (negative, digits) : Bool × List Char :=
        match cs with
        | '-' :: ds => (true, ds)
        | '+' :: ds => (false, ds)
        | ds => (false, ds)
      if digits.isEmpty || !digits.all isDigit then none
      else some (if negative then -(ofDigits digits : Int) else ofDigits digits)
    else none

/-- Reads digits with an optional point and exponent; one digit at least is needed. -/
def readDecimal (cs : List Char) : Option DecimalText :=
  let whole := cs.takeWhile isDigit
  let afterWhole := cs.dropWhile isDigit
  let (fraction, rest) : List Char × List Char :=
    match afterWhole with
    | '.' :: ds => (ds.takeWhile isDigit, ds.dropWhile isDigit)
    | ds => ([], ds)
  if whole.isEmpty && fraction.isEmpty then none
  else (readExponent rest).map fun e => ⟨ofDigits (whole ++ fraction), e - fraction.length⟩

def readUnsignedReal (negative : Bool) (cs : List Char) : Except DecimalFault Real64 :=
  let word := cs.map Char.toLower
  if word = "inf".toList ∨ word = "infinity".toList then .ok (.infinity negative)
  else if word = "nan".toList then .ok .nan
  else
    match readDecimal cs with
    | some d => .ok (realOfDecimal negative d.digits d.exponent)
    | none => .error .malformed

def readReal : List Char → Except DecimalFault Real64
  | [] => .error .empty
  | '-' :: cs => readUnsignedReal true cs
  | '+' :: cs => readUnsignedReal false cs
  | cs => readUnsignedReal false cs

end Number
end TagQuery
