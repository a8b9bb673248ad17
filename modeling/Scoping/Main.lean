import Scoping.Command.Run
import Scoping.Command.Usage

/-!
# The program

Reads from the disk what the paths of a command line lead to, hands it to `run`, and prints the
report. What is printed and which status the program exits with is decided there; only a command
line that cannot be read (status 2) and a run without a report (status 1) are answered here.
-/

namespace Scoping

/-- Reads what is at a path. In the directories below it files other than scripts are left out, for
no run looks at them. Links are followed, unless they lead to one of the directories `behind`, in
which the path lies. -/
partial def Files.load (behind : List String) (path : String) : IO (Option Entry) := do
  let place ← try IO.FS.realPath path catch _ => return none
  if ← place.isDir then
    if behind.contains place.toString then
      throw (IO.userError ("failed to walk directory: " ++ path))
    let mut entries := []
    for e in ← place.readDir do
      if let some entry ← Files.load (place.toString :: behind) e.path.toString then
        entries := (e.fileName, entry) :: entries
    return some (.directory entries.reverse)
  else if behind.isEmpty || Run.isScript path then
    return some (.file (← IO.FS.readBinFile place))
  else
    return none

/-- Reads what a run may look at: the configuration file and the paths. -/
def Files.ofArgs (args : Args) : IO Files := do
  let mut found : List (String × Entry) := []
  if let some path := args.config then
    try
      found := [(path, .file (← IO.FS.readBinFile path))]
    catch _ => pure ()
  for path in args.paths do
    if let some entry ← Files.load [] path then
      found := (path, entry) :: found
  let all := found
  return fun path => (all.find? (·.1 == path)).map (·.2)

/-- Does what a command line asks for, and answers the exit status. -/
def perform (line : List String) : IO UInt32 := do
  match Args.parse line with
  | .error .helpAsked =>
    IO.println Usage.help
    return 0
  | .error .versionAsked =>
    IO.println Usage.version
    return 0
  | .error e =>
    IO.eprintln ("error: " ++ e.message)
    return 2
  | .ok args =>
    let files ← Files.ofArgs args
    let tty ← (← IO.getStdout).isTty
    match run files args (tty && !args.noColor) with
    | .error e =>
      IO.eprintln ("error: " ++ e.message)
      return 1
    | .ok (code, report) =>
      IO.print report
      return code.toUInt32

end Scoping

def main (line : List String) : IO UInt32 := Scoping.perform line
