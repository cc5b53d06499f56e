import TagQuery.Number.Shortest

/-!
# Written forms of binary64 numbers

A layout says how the shortest decimal of a number is written: from which exponents on in scientific
notation, whether a whole number keeps a point, and how an exponent shows its sign.

## Main definitions

- `RealLayout`: the choices of a written form.
- `RealLayout.debug`, `RealLayout.plain`, `RealLayout.json`: the three forms in use.
- `RealLayout.render`: a number in a layout.
-/

namespace TagQuery

open Number

/-- The choices of a written form. -/
structure RealLayout where
  /-- Leading exponents written in positional notation lie from the first bound to the second. -/
  positional : Option (Int × Int)
  /-- A whole number in positional notation keeps `.0`. -/
  keepsPoint : Bool
  /-- A positive exponent shows its sign. -/
  plusSign : Bool
  /-- Which of two equally near decimals is written. -/
  tie : Tie

namespace RealLayout

/-- The form of literals: positional from `1e-4` up to `1e16`, always with a point. -/
def debug : RealLayout := ⟨some (-4, 15), true, false, .up⟩

/-- The form of messages and labels: always positional, a whole number without a point. -/
def plain : RealLayout := ⟨none, false, false, .up⟩

/-- The form of JSON documents: positional from `1e-5` up to `1e16`, always with a point. -/
def json : RealLayout := ⟨some (-5, 15), true, true, .toEven⟩

/-- Digits with the point at its place; `leading` is the exponent of the first digit. -/
def positionalText (layout : RealLayout) (digits : List Char) (leading : Int) : List Char :=
  let whole := if leading < 0 then ['0'] else digits.take (leading.toNat + 1)
  let zeros := List.replicate (leading.toNat + 1 - digits.length) '0'
  let fraction :=
    if leading < 0 then List.replicate ((-leading).toNat - 1) '0' ++ digits
    else digits.drop (leading.toNat + 1)
  let wholeText := if leading < 0 then whole else whole ++ zeros
  if fraction.isEmpty then
    if layout.keepsPoint then wholeText ++ ['.', '0'] else wholeText
  else wholeText ++ ['.'] ++ fraction

def scientificText (layout : RealLayout) (digits : List Char) (leading : Int) : List Char :=
  let fraction := digits.drop 1
  let significand := digits.take 1 ++ (if fraction.isEmpty then [] else '.' :: fraction)
  let sign := if leading < 0 then ['-'] else if layout.plusSign then ['+'] else []
  significand ++ ['e'] ++ sign ++ Nat.toDigits 10 leading.natAbs

def decimalText (layout : RealLayout) (d : Decimal) : List Char :=
  let digits := Nat.toDigits 10 d.digits
  let leading := d.exponent + digits.length - 1
  match layout.positional with
  | none => positionalText layout digits leading
  | some (low, high) =>
    if low ≤ leading ∧ leading ≤ high then positionalText layout digits leading
    else scientificText layout digits leading

def render (layout : RealLayout) : Real64 → String
  | .nan => "NaN"
  | .infinity negative => if negative then "-inf" else "inf"
  | .finite negative steps _ =>
    let sign := if negative then ['-'] else []
    let d : Decimal := if steps = 0 then ⟨0, 0⟩ else shortest layout.tie steps
    String.ofList (sign ++ decimalText layout d)

end RealLayout
end TagQuery
