import AccessRules.CommandLine

/-! The program: it reads the files that its arguments name, and prints and exits as they say. -/
namespace AccessRules.CommandLine

def readFile? (path : String) : IO (Option String) := do
  try
    pure (some (← IO.FS.readFile path))
  catch _ => pure none

/-- The environment of the process, where the system shows it as a file. -/
def environment : IO (List (String × String)) := do
  let text := (← readFile? "/proc/self/environ").getD ""
  pure ((text.splitOn "\x00").filterMap fun entry =>
    match entry.splitOn "=" with
    | name :: value :: values => some (name, "=".intercalate (value :: values))
    | _ => none)

def Invocation.paths (invocation : Invocation) : List String :=
  invocation.configuration.toList ++ [invocation.rules] ++ invocation.fixtures.toList

def main (words : List String) : IO UInt32 := do
  let environment ← environment
  let paths := match Invocation.ofWords environment words with
    | .ok invocation => invocation.paths
    | .error _ => []
  let files ← paths.mapM fun path => do pure (path, ← readFile? path)
  let outcome := run environment (fun path => (files.lookup path).join) words
  IO.print outcome.output
  pure (UInt32.ofNat outcome.code)

end AccessRules.CommandLine

def main (words : List String) : IO UInt32 := AccessRules.CommandLine.main words
