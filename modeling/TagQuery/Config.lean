import TagQuery.Fault
import TagQuery.Text.LetterCase

/-!
# Configuration

The settings that a search depends on, and where they come from.

## Main definitions

- `SimilarMode`: which variants of a hash a search for similar files looks for.
- `Config`: the settings.
- `Config.ofEnvironment`: the settings that environment variables ask for.
- `Config.fault?`: why settings are not acceptable.
-/

namespace TagQuery

/-- Which variants of a hash a search for similar files looks for. -/
inductive SimilarMode where
  /-- The hash as given. -/
  | identity
  /-- The hash in all rotations and reflections. -/
  | all
  deriving DecidableEq, Repr

namespace SimilarMode

def name : SimilarMode → String
  | .identity => "identity"
  | .all => "all"

def ofName? : String → Option SimilarMode
  | "identity" => some .identity
  | "all" => some .all
  | _ => none

/-- The mode a user asks for: a name or a number, in any letter case and with blanks around it. -/
def parse (s : String) : Except ConfigFault SimilarMode :=
  match Text.asciiLowercase (Text.trim s) with
  | "identity" => .ok .identity
  | "0" => .ok .identity
  | "all" => .ok .all
  | "1" => .ok .all
  | other => .error (.unknownSimilarMode other)

end SimilarMode

/-- The settings that a search depends on. -/
structure Config where
  /-- Files with this tag are left out unless a query asks for them. -/
  hiddenTag : String
  similarMode : SimilarMode
  /-- The category whose ratings a query is about. -/
  ratingCategory : String
  /-- The greatest number of steps that an expression is optimized in. -/
  maxSteps : Nat
  deriving DecidableEq, Repr

namespace Config

def default : Config := ⟨"hidden", .all, "", 10000⟩

instance : Inhabited Config := ⟨default⟩

/-- The values of the environment variables that settings come from. -/
structure Environment where
  hiddenTag : Option String
  similarMode : Option String
  ratingCategory : Option String
  maxSteps : Option String
  deriving DecidableEq, Repr

namespace Environment

def hiddenTagName : String := "TAGSIEVE_HIDDEN_TAG"
def similarModeName : String := "TAGSIEVE_SIMILAR_MODE"
def ratingCategoryName : String := "TAGSIEVE_RATING_CATEGORY"
def maxStepsName : String := "TAGSIEVE_MAX_OPTIMIZER_ITERATIONS"

def ofLookup (get? : String → Option String) : Environment :=
  ⟨get? hiddenTagName, get? similarModeName, get? ratingCategoryName, get? maxStepsName⟩

end Environment

/-- The settings that environment variables ask for. A blank tag, an unknown mode and a text that is
no number ask for nothing. -/
def ofEnvironment (env : Environment) : Config :=
  let hiddenTag := (env.hiddenTag.map Text.trim).filter (· != "")
  let similarMode := env.similarMode.bind fun s => (SimilarMode.parse s).toOption
  let maxSteps :=
    env.maxSteps.bind fun s => (Number.readNat 10 Number.maxWord s.toList).toOption
  { hiddenTag := hiddenTag.getD default.hiddenTag
    similarMode := similarMode.getD default.similarMode
    ratingCategory := env.ratingCategory.getD default.ratingCategory
    maxSteps := maxSteps.getD default.maxSteps }

def fault? (c : Config) : Option ConfigFault :=
  if Text.trim c.hiddenTag = "" then some .emptyHiddenTag
  else if c.maxSteps = 0 then some .noSteps
  else none

def validate (c : Config) : Except SearchError Unit :=
  match c.fault? with
  | some fault => .error (.config fault)
  | none => .ok ()

end Config
end TagQuery
