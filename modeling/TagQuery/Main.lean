import TagQuery.Command.Arguments

/-!
# The program

Reads the settings of the environment and the file of a workspace, and prints what a command says.
-/

namespace TagQuery

def usage : String :=
  "usage: explain | sql | analyze | validate --workspace FILE [options]\n" ++
    "  explain, sql: --hidden-tag TAG, --similar-mode MODE, --rating-category NAME\n" ++
    "  analyze: --info TAG, TAGS"

def readEnvironment : IO Config.Environment := do
  return {
    hiddenTag := ← IO.getEnv Config.Environment.hiddenTagName
    similarMode := ← IO.getEnv Config.Environment.similarModeName
    ratingCategory := ← IO.getEnv Config.Environment.ratingCategoryName
    maxSteps := ← IO.getEnv Config.Environment.maxStepsName }

/-- Does what a request asks for, and says with which status the program ends. -/
def Request.perform (r : Request) : IO UInt32 := do
  let base := Config.ofEnvironment (← readEnvironment)
  let text ← IO.FS.readFile r.workspace
  match r.command.run base text with
  | .ok output =>
    IO.println output
    return 0
  | .error fault =>
    IO.eprintln ("Error: " ++ fault.message)
    return 1

end TagQuery

def main (arguments : List String) : IO UInt32 := do
  match TagQuery.Request.read? arguments with
  | none =>
    IO.eprintln TagQuery.usage
    return 2
  | some request =>
    try request.perform
    catch e =>
      IO.eprintln ("Error: " ++ toString e)
      return 1
