import TagQuery.Command
import TagQuery.Text.Cut

/-!
# Command line arguments

A command line names a command and then gives options and values in any order. An option has one
value, after an equals sign or as the next argument, and may be given once. Two hyphens end the
options.

## Main definitions

- `Arguments`: the options and values of a command line.
- `Arguments.read?`: the arguments of a list of texts.
- `Request.read?`: the request of a command line.
-/

namespace TagQuery

/-- The options, each with its value, and the other values of a command line. -/
structure Arguments where
  options : List (String × String)
  values : List String
  deriving DecidableEq, Repr

namespace Arguments

/-- An argument as it looks: the end of options, an option with its name and perhaps its value, or a
value. -/
inductive Shape where
  | endOfOptions
  | option (name : String) (value : Option String)
  | value
  deriving DecidableEq, Repr

/-- The only option that may be written with one letter. -/
def workspaceOption : String := "workspace"

/-- The look of an argument. A single hyphen is a value. -/
def shapeOf (argument : String) : Shape :=
  match argument.toList with
  | ['-'] => .value
  | ['-', '-'] => .endOfOptions
  | '-' :: '-' :: cs =>
    match Text.splitOnce? '=' cs with
    | some (name, value) => .option (String.ofList name) (some (String.ofList value))
    | none => .option (String.ofList cs) none
  | ['-', 'w'] => .option workspaceOption none
  | '-' :: 'w' :: '=' :: cs => .option workspaceOption (some (String.ofList cs))
  | '-' :: 'w' :: cs => .option workspaceOption (some (String.ofList cs))
  | '-' :: cs => .option (String.ofList ('-' :: cs)) none
  | _ => .value

/-- Adds an option in front, unless it is given again. -/
def addOption? (name value : String) (a : Arguments) : Option Arguments :=
  if a.options.any (·.1 == name) then none
  else some { a with options := (name, value) :: a.options }

/-- The arguments of a list of texts, where only the named options are known. -/
def read? (known : List String) : List String → Option Arguments
  | [] => some ⟨[], []⟩
  | argument :: rest =>
    match shapeOf argument with
    | .endOfOptions => some ⟨[], rest⟩
    | .value => (read? known rest).map fun a => { a with values := argument :: a.values }
    | .option name attached =>
      if name ∉ known then none
      else
        match attached, rest with
        | some value, rest => (read? known rest).bind (addOption? name value)
        | none, [] => none
        | none, value :: rest =>
          if shapeOf value = .value then (read? known rest).bind (addOption? name value) else none

def get? (a : Arguments) (name : String) : Option String :=
  (a.options.find? (·.1 == name)).map (·.2)

end Arguments

structure Request where
  workspace : String
  command : Command
  deriving DecidableEq, Repr

namespace Request

def overrideOptions : List String := ["hidden-tag", "similar-mode", "rating-category"]

def optionsOf? : String → Option (List String)
  | "explain" | "sql" => some (Arguments.workspaceOption :: overrideOptions)
  | "analyze" => some [Arguments.workspaceOption, "info"]
  | "validate" => some [Arguments.workspaceOption]
  | _ => none

/-- The settings among arguments; a mode must be known. -/
def overridesOf? (a : Arguments) : Option Overrides := do
  let similarMode ←
    match a.get? "similar-mode" with
    | none => some none
    | some mode => (SimilarMode.parse mode).toOption.map some
  return { hiddenTag := a.get? "hidden-tag", similarMode, ratingCategory := a.get? "rating-category" }

/-- The command of a name with its arguments; only `analyze` takes values. -/
def commandOf? (name : String) (a : Arguments) : Option Command :=
  match name with
  | "explain" => if a.values.isEmpty then (overridesOf? a).map .explain else none
  | "sql" => if a.values.isEmpty then (overridesOf? a).map .sql else none
  | "analyze" => some (.analyze (a.get? "info") a.values)
  | "validate" => if a.values.isEmpty then some .validate else none
  | _ => none

/-- The request of a command line; `none` when the command line is refused. -/
def read? : List String → Option Request
  | [] => none
  | name :: rest => do
    let arguments ← Arguments.read? (← optionsOf? name) rest
    let workspace ← arguments.get? Arguments.workspaceOption
    let command ← commandOf? name arguments
    return { workspace, command }

end Request
end TagQuery
