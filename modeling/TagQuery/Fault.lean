import TagQuery.Number.Decimal
import TagQuery.Number.Layout
import TagQuery.Rule.Text

/-!
# Faults

Why a value, a rule or a query is refused. Each fault is a cause; its wording is in one place.

## Main definitions

- `ValueFault`: why a field's value is refused.
- `SearchError`: why a query or its surroundings are refused.
- `SearchError.message`: the wording of an error.
-/

namespace TagQuery

/-! ## Values -/

/-- Why a text is no span of time. Offsets count bytes of the text in UTF-8. -/
inductive SpanFault where
  | empty
  | numberExpected (offset : Nat)
  | badCharacter (offset : Nat)
  | unitNeeded (number : Nat)
  | unknownUnit (unit : String)
  | outOfRange
  deriving DecidableEq, Repr

def SpanFault.message : SpanFault → String
  | .empty => "value was empty"
  | .numberExpected offset => "expected number at " ++ toString offset
  | .badCharacter offset => "invalid character at " ++ toString offset
  | .unitNeeded n =>
    "time unit needed, for example " ++ toString n ++ "sec or " ++ toString n ++ "ms"
  | .unknownUnit unit =>
    "unknown time unit \"" ++ unit ++ "\", supported units: ns, us/µs, ms, sec, min, hours, " ++
      "days, weeks, months, years (and few variations)"
  | .outOfRange =>
    "number is too large or cannot be represented without a lack of precision " ++
      "(values below 1ns are not supported)"

inductive ValueFault where
  | notInteger (fault : IntegerFault)
  | notDecimal (fault : DecimalFault)
  | ratingNotFinite
  | starsOutOfRange
  | notSize (value : String)
  | negativeSize
  | sizeOverflow
  | negativeDuration
  | notDuration (value : String) (fault : SpanFault)
  | tooManyParts (value : String)
  | notSeconds (part : String)
  | secondsOutOfRange (part : String)
  | notWhole (part : String)
  | minutesOutOfRange (part : String)
  | durationOverflow (value : String)
  | emptyHash
  | hashNotHex
  | notGridHash (value : String) (fault : IntegerFault)
  | notNumber (value : String)
  | portionOutOfRange (max : Real64)
  | propertyNotNumber
  /-- A regular expression is refused by the library that builds them. -/
  | regex (message : String)
  deriving DecidableEq

def ValueFault.message : ValueFault → String
  | .notInteger fault => fault.message
  | .notDecimal fault => fault.message
  | .ratingNotFinite => "rating must be finite"
  | .starsOutOfRange => "stars must be between 1 and 5"
  | .notSize value => "`" ++ value ++ "` is not a size"
  | .negativeSize => "size must be a non-negative number"
  | .sizeOverflow => "size overflows 64 bits"
  | .negativeDuration => "duration must be a non-negative number of seconds"
  | .notDuration value fault => "`" ++ value ++ "` is not a duration: " ++ fault.message
  | .tooManyParts value => "`" ++ value ++ "` has too many `:` separated parts"
  | .notSeconds part => "`" ++ part ++ "` is not a number of seconds"
  | .secondsOutOfRange part => "seconds `" ++ part ++ "` out of range"
  | .notWhole part => "`" ++ part ++ "` is not a whole number"
  | .minutesOutOfRange part => "minutes `" ++ part ++ "` out of range"
  | .durationOverflow value => "`" ++ value ++ "` overflows the duration range"
  | .emptyHash => "hash is empty"
  | .hashNotHex => "hash must be hexadecimal"
  | .notGridHash value fault => "`" ++ value ++ "` is not a 64-bit hex hash: " ++ fault.message
  | .notNumber value => "`" ++ value ++ "` is not a number"
  | .portionOutOfRange max => "must be between 0 and " ++ RealLayout.plain.render max
  | .propertyNotNumber => "relational property comparisons need a number"
  | .regex message => message

/-! ## Queries -/

inductive ConfigFault where
  | emptyHiddenTag
  | noSteps
  | unknownSimilarMode (name : String)
  deriving DecidableEq, Repr

def ConfigFault.message : ConfigFault → String
  | .emptyHiddenTag => "hidden_tag must not be empty"
  | .noSteps => "max_optimizer_iterations must be > 0"
  | .unknownSimilarMode name => "unknown similar mode `" ++ name ++ "`"

/-- Why a query or its surroundings are refused. -/
inductive SearchError where
  | config (fault : ConfigFault)
  | invalidRule (rule : TagRule) (fault : RuleFault)
  | ruleText (error : RuleTextError)
  | unknownField (field : String)
  | unsupportedOperator (field : String) (operator : String) (value : String)
  | invalidValue (field : String) (operator : String) (value : String) (fault : ValueFault)
  /-- A saved search leads back to itself by the given names. -/
  | savedSearchCycle (chain : List String)
  deriving DecidableEq

def SearchError.message : SearchError → String
  | .config fault => "Invalid configuration: " ++ fault.message
  | .invalidRule rule fault => fault.describe rule
  | .ruleText e => "Rule syntax error on line " ++ toString e.line ++ ": " ++ e.fault.message
  | .unknownField field => "Unknown search field `" ++ field ++ "`"
  | .unsupportedOperator field operator value =>
    "Operator `" ++ operator ++ "` is not supported for field `" ++ field ++ "` (value `" ++ value ++
      "`)"
  | .invalidValue field operator value fault =>
    "Invalid value `" ++ value ++ "` for `" ++ field ++ operator ++ "`: " ++ fault.message
  | .savedSearchCycle chain => "Saved search cycle: " ++ " -> ".intercalate chain

end TagQuery
