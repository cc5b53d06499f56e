import TagQuery.Fault
import TagQuery.Text.LetterCase

/-!
# Values of search fields

Reading the values that search fields take: sizes, hashes and portions.

## Main definitions

- `readSize`: a number of bytes.
- `readHash`: a content hash.
- `readPortion`: a part of a whole.
-/

namespace TagQuery.Search

/-! ## Numbers -/

/-- The number that a value is, without the blanks around it. -/
def readReal (value : String) : Except DecimalFault Real64 :=
  Number.readReal (Text.trim value).toList

/-! ## Sizes -/

/-- The units of sizes with their numbers of bytes; a longer name comes before its ending. -/
def sizeUnits : List (List Char × Nat) :=
  [(['t', 'b'], Nat.pow 1024 4), (['g', 'b'], Nat.pow 1024 3), (['m', 'b'], Nat.pow 1024 2),
    (['k', 'b'], 1024), (['b'], 1)]

/-- The number and the unit of a size in lower case; without a unit it counts bytes. -/
def splitUnit (cs : List Char) : List Char × Nat :=
  let found := sizeUnits.findSome? fun (name, bytes) =>
    (Text.dropSuffix? name cs).map fun number => (Text.trimBy Text.isBlank number, bytes)
  found.getD (cs, 1)

/-- The number of bytes of a fractional size, rounded; a half goes up. -/
def sizeOfReal (number : Real64) (unit : Nat) : Except ValueFault Nat :=
  if !number.isFinite || number.blt (.zero false) then .error .negativeSize
  else
    let bytes := (number.mul (.ofNat unit)).round
    if (Real64.ofNat Number.maxWord).blt bytes then .error .sizeOverflow else .ok bytes.toWord

/-- A number of bytes: a number with an optional unit in any letter case. -/
def readSize (value : String) : Except ValueFault Nat :=
  let (number, unit) := splitUnit (Text.asciiLowercase (Text.trim value)).toList
  match Number.readNat 10 Number.maxWord number with
  | .ok n => if n * unit ≤ Number.maxWord then .ok (n * unit) else .error .sizeOverflow
  | .error _ =>
    match Number.readReal number with
    | .error _ => .error (.notSize value)
    | .ok x => sizeOfReal x unit

/-! ## Hashes -/

def isHexDigit (c : Char) : Bool :=
  (Number.digitOf? 16 c).isSome

def readHash (value : String) : Except ValueFault String :=
  let text := Text.trim value
  if text = "" then .error .emptyHash
  else if text.toList.all isHexDigit then .ok (Text.asciiLowercase text)
  else .error .hashNotHex

/-! ## Portions -/

/-- A number from zero to `max`, with or without percent signs, as a part of `max`. -/
def readPortion (max : Real64) (value : String) : Except ValueFault Real64 :=
  match Number.readReal (Text.trimEndBy (· == '%') (Text.trim value).toList) with
  | .error _ => .error (.notNumber value)
  | .ok x =>
    if (Real64.zero false).ble x && x.ble max then .ok (x.div max)
    else .error (.portionOutOfRange max)

end TagQuery.Search
