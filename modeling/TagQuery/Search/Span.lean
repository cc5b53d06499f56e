import TagQuery.Search.Values

/-!
# Spans of time

Reading a span of time, in seconds: a plain number, hours, minutes and seconds between colons, or
numbers with units such as `1h 30m`.

## Main definitions

- `Span`: whole seconds and nanoseconds.
- `Span.read`: a span written with units.
- `readDuration`: a span in any of its forms, as seconds.
-/

namespace TagQuery.Search

structure Span where
  seconds : Nat
  nanos : Nat
  deriving DecidableEq, Repr

namespace Span

def perSecond : Nat := Nat.pow 10 9

/-- Refuses numbers of more than 64 bits. -/
def bounded (n : Nat) : Except SpanFault Nat :=
  if n ≤ Number.maxWord then .ok n else .error .outOfRange

def add (s : Span) (seconds nanos : Nat) : Except SpanFault Span := do
  let nanos ← bounded (s.nanos + nanos)
  let seconds ← bounded (seconds + nanos / perSecond)
  let seconds ← bounded (s.seconds + seconds)
  return ⟨seconds, nanos % perSecond⟩

/-! ## Units -/

/-- A unit of time: a number of seconds, or a number of nanoseconds less than a second. -/
inductive Scale where
  | seconds (count : Nat)
  | nanos (count : Nat)
  deriving DecidableEq, Repr

def scaleOf? : String → Option Scale
  | "nanos" | "nsec" | "ns" => some (.nanos 1)
  | "usec" | "us" | "µs" => some (.nanos 1000)
  | "millis" | "msec" | "ms" => some (.nanos 1000000)
  | "seconds" | "second" | "secs" | "sec" | "s" => some (.seconds 1)
  | "minutes" | "minute" | "min" | "mins" | "m" => some (.seconds 60)
  | "hours" | "hour" | "hr" | "hrs" | "h" => some (.seconds 3600)
  | "days" | "day" | "d" => some (.seconds 86400)
  | "weeks" | "week" | "wk" | "wks" | "w" => some (.seconds 604800)
  | "months" | "month" | "M" => some (.seconds 2630016)
  | "years" | "year" | "yr" | "yrs" | "y" => some (.seconds 31557600)
  | _ => none

/-- A fraction of a unit, from the digits after a point. -/
structure Fraction where
  numerator : Nat
  denominator : Nat
  deriving DecidableEq, Repr

/-- A fraction of a unit of so many parts, in parts. It must have no remainder. -/
def Fraction.parts (f : Fraction) (count : Nat) : Except SpanFault Nat := do
  let n ← bounded (f.numerator * count)
  if n % f.denominator = 0 then return n / f.denominator else throw .outOfRange

/-- A fraction of a unit as seconds and nanoseconds. Up to minutes its parts are nanoseconds, from
hours on seconds; a nanosecond has no parts. -/
def ofFraction (scale : Scale) (f : Fraction) : Except SpanFault (Nat × Nat) :=
  match scale with
  | .nanos count =>
    if count = 1 then .error .outOfRange else (f.parts count).map fun n => (0, n)
  | .seconds count =>
    if count ≤ 60 then (f.parts (count * perSecond)).map fun n => (0, n)
    else (f.parts count).map fun n => (n, 0)

def ofWhole (scale : Scale) (n : Nat) : Except SpanFault (Nat × Nat) :=
  match scale with
  | .nanos count => (bounded (n * count)).map fun n => (0, n)
  | .seconds count => (bounded (n * count)).map fun n => (n, 0)

def addItem (s : Span) (number : Nat) (fraction : Option Fraction) (unit : List Char) :
    Except SpanFault Span := do
  match scaleOf? (String.ofList unit) with
  | none =>
    throw (if unit.isEmpty then .unitNeeded number else .unknownUnit (String.ofList unit))
  | some scale =>
    let whole ← ofWhole scale number
    let s ← s.add whole.1 whole.2
    match fraction with
    | none => return s
    | some f =>
      let part ← ofFraction scale f
      s.add part.1 part.2

/-! ## Reading -/

/-- Where the reader of a span stands. Each number carries the digits read so far. -/
inductive ReadState where
  /-- Before a number; the offset is where the search for it began. -/
  | seeking (first : Bool) (since : Nat)
  /-- Inside the digits of a number. -/
  | number (n : Nat)
  /-- Inside the digits after a point; the offset is where a fault is reported. -/
  | fraction (n : Nat) (digits : Fraction) (reported : Nat)
  /-- Inside a unit, whose letters are kept in reverse order. -/
  | unit (n : Nat) (fraction : Option Fraction) (letters : List Char)

def isUnitChar (c : Char) : Bool :=
  ('a' ≤ c && c ≤ 'z') || ('A' ≤ c && c ≤ 'Z') || c == 'µ'

def digit (c : Char) : Nat := c.toNat - '0'.toNat

def Fraction.push (f : Fraction) (c : Char) : Except SpanFault Fraction := do
  let denominator ← bounded (f.denominator * 10)
  let numerator ← bounded (f.numerator * 10 + digit c)
  return ⟨numerator, denominator⟩

/-- Takes one character, which starts at byte `offset`. -/
def step (offset : Nat) (c : Char) (state : ReadState) (s : Span) :
    Except SpanFault (ReadState × Span) := do
  match state with
  | .seeking first since =>
    if Number.isDigit c then return (.number (digit c), s)
    else if Text.isBlank c then return (.seeking first since, s)
    else throw (.numberExpected since)
  | .number n =>
    if Number.isDigit c then return (.number (← bounded (n * 10 + digit c)), s)
    else if Text.isBlank c then return (.number n, s)
    else if isUnitChar c then return (.unit n none [c], s)
    else if c == '.' then return (.fraction n ⟨0, 1⟩ offset, s)
    else throw (.badCharacter offset)
  | .fraction n f reported =>
    if Number.isDigit c then return (.fraction n (← f.push c) (offset + c.utf8Size), s)
    else if Text.isBlank c then return (.fraction n f (offset + c.utf8Size), s)
    else if isUnitChar c then
      if f.denominator = 1 then throw (.badCharacter reported)
      else return (.unit n (some f) [c], s)
    else throw (.badCharacter reported)
  | .unit n f letters =>
    if Number.isDigit c then
      return (.number (digit c), ← s.addItem n f letters.reverse)
    else if Text.isBlank c then
      return (.seeking false (offset + c.utf8Size), ← s.addItem n f letters.reverse)
    else if isUnitChar c then return (.unit n f (c :: letters), s)
    else throw (.badCharacter offset)

def finish (state : ReadState) (s : Span) : Except SpanFault Span :=
  match state with
  | .seeking true _ => .error .empty
  | .seeking false _ => .ok s
  | .number n => s.addItem n none []
  | .fraction n f reported =>
    if f.denominator = 1 then .error (.badCharacter reported) else s.addItem n (some f) []
  | .unit n f letters => s.addItem n f letters.reverse

/-- Reads the characters from byte `offset` on. -/
def readFrom (offset : Nat) (state : ReadState) (s : Span) :
    List Char → Except SpanFault Span
  | [] => finish state s
  | c :: cs =>
    match step offset c state s with
    | .error fault => .error fault
    | .ok (next, t) => readFrom (offset + c.utf8Size) next t cs

def read (cs : List Char) : Except SpanFault Span :=
  readFrom 0 (.seeking true 0) ⟨0, 0⟩ cs

def toReal (s : Span) : Real64 :=
  (Real64.ofNat s.seconds).add ((Real64.ofNat s.nanos).div (.ofNat perSecond))

end Span

/-! ## Durations -/

/-- The number of minutes of the parts before the seconds; every part but the first is below
sixty. -/
def readMinutes (text : String) (total : Nat) (isFirst : Bool) :
    List (List Char) → Except ValueFault Nat
  | [] => .ok total
  | part :: parts =>
    match Number.readNat 10 Number.maxWord part with
    | .error _ => .error (.notWhole (String.ofList part))
    | .ok n =>
      if !isFirst && 60 ≤ n then .error (.minutesOutOfRange (String.ofList part))
      else if Number.maxWord < total * 60 + n then .error (.durationOverflow text)
      else readMinutes text (total * 60 + n) false parts

/-- Hours, minutes and seconds between colons, in seconds. -/
def readClock (text : String) : Except ValueFault Real64 := do
  let parts := Text.splitAt ':' text.toList
  if 3 < parts.length then throw (.tooManyParts text)
  let last := parts.getLast?.getD []
  match Number.readReal last with
  | .error _ => throw (.notSeconds (String.ofList last))
  | .ok seconds =>
    if !((Real64.zero false).ble seconds && seconds.blt (.ofNat 60)) then
      throw (.secondsOutOfRange (String.ofList last))
    let minutes ← readMinutes text 0 true parts.dropLast
    return ((Real64.ofNat minutes).mul (.ofNat 60)).add seconds

def readDuration (value : String) : Except ValueFault Real64 :=
  let text := Text.trim value
  match Number.readReal text.toList with
  | .ok x => if x.isFinite && (Real64.zero false).ble x then .ok x else .error .negativeDuration
  | .error _ =>
    if ':' ∈ text.toList then readClock text
    else
      match Span.read text.toList with
      | .ok s => .ok s.toReal
      | .error fault => .error (.notDuration value fault)

end TagQuery.Search
