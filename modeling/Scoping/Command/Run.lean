import Scoping.Analysis.OptionsText
import Scoping.Command.Args
import Scoping.Command.Files
import Scoping.Command.Glob
import Scoping.Command.Render
import Scoping.Json.Pretty
import Scoping.Json.Report

/-!
# Runs

A run reads its options, its globs and its paths, in this order, and fails at the first problem. It
then analyses every file by itself and reports on all of them in the order of their paths, so a file
that cannot be read or analysed is reported beside the others. Files that are named are taken as
they are; directories contribute the scripts below them.
-/

namespace Scoping

/-- Why a run reports on no file. -/
inductive RunError where
  | unreadableConfig (path : String)
  | badConfig (path : String)
  | badGlob (pattern : String)
  | missingPath (path : String)
  deriving DecidableEq, Repr, Inhabited

/-- The error in words. -/
def RunError.message : RunError → String
  | unreadableConfig path => "failed to read config: " ++ path
  | badConfig path => "failed to parse config: " ++ path
  | badGlob pattern => "invalid --exclude glob: " ++ pattern
  | missingPath path => "path does not exist: " ++ path

/-- Why a file is reported as failed. -/
inductive FileError where
  | notText
  | analysis (source : String) (e : AnalysisError)
  deriving DecidableEq, Repr, Inhabited

/-- The error in words. -/
def FileError.message : FileError → String
  | notText => "failed to read file: stream did not contain valid UTF-8"
  | analysis _ e => e.message

/-- A file with what became of it. -/
structure Outcome where
  path : String
  result : Except FileError Analysis

namespace Run

/-! ## Options, globs and paths -/

/-- The text of the file at a path. -/
def text? (files : Files) (path : String) : Option String :=
  match files path with
  | some (.file bytes) => String.fromUTF8? bytes
  | _ => none

/-- The options of a configuration file. -/
def configured (files : Files) (path : String) : Except RunError Options :=
  match text? files path with
  | none => .error (.unreadableConfig path)
  | some text =>
    match Options.ofText text with
    | .ok o => .ok o
    | .error _ => .error (.badConfig path)

/-- The options of a run: those of the configuration file, if one is named, with those of the
command line on top. -/
def options (files : Files) (args : Args) : Except RunError Options :=
  match args.config with
  | none => .ok (args.override .standard)
  | some path => (configured files path).map args.override

/-- The globs that patterns write. -/
def globs (patterns : List String) : Except RunError (List Glob) :=
  patterns.mapM fun pattern =>
    match Glob.ofText? pattern with
    | some g => .ok g
    | none => .error (.badGlob pattern)

/-- One of the globs matches the path. -/
def excludes (gs : List Glob) (path : String) : Bool := gs.any (·.covers path)

/-- The path is that of a script. -/
def isScript (path : String) : Bool :=
  match Path.extension? path with
  | some ext => ext == "js" || ext == "mjs" || ext == "cjs"
  | none => false

/-- The files that a path stands for. -/
def filesOf (files : Files) (gs : List Glob) (path : String) :
    Except RunError (List FoundFile) :=
  match files path with
  | none => .error (.missingPath path)
  | some (.file bytes) => .ok (if excludes gs path then [] else [⟨path, bytes⟩])
  | some (.directory entries) =>
    .ok ((Entry.filesIn path entries).filter fun f => isScript f.path && !excludes gs f.path)

/-- The files that paths stand for, in order and each once. -/
def discover (files : Files) (gs : List Glob) (paths : List String) :
    Except RunError (List FoundFile) :=
  (paths.mapM (filesOf files gs)).map fun found => Path.sorted FoundFile.path found.flatten

/-! ## Reports -/

/-- What becomes of a file. -/
def outcome (options : Options) (f : FoundFile) : Outcome :=
  match String.fromUTF8? f.bytes with
  | none => ⟨f.path, .error .notText⟩
  | some source =>
    match analyze source options with
    | .ok a => ⟨f.path, .ok a⟩
    | .error e => ⟨f.path, .error (.analysis source e)⟩

/-- A file in the text report. -/
def outcomeText (args : Args) (color : Bool) (o : Outcome) : String :=
  match o.result with
  | .ok a =>
    Render.tree a color o.path ++
      if args.unresolved || args.failOnUnresolved then Render.unresolved a color o.path else ""
  | .error (.analysis source e) => Render.error color o.path source e
  | .error .notText => Render.fileError color o.path FileError.notText.message

/-- A file in the JSON report. -/
def outcomeJson (o : Outcome) : Json :=
  .object (("path", .string o.path) ::
    match o.result with
    | .ok a =>
      ("scopes", a.report.toJson) ::
        Json.memberOfList "unresolved" UnresolvedReport.toJson (a.unresolved.map a.unresolvedReport)
    | .error e =>
      (match e with
        | .analysis _ e => [("error", e.toJson)]
        | .notText => []) ++ [("message", .string e.message)])

/-- The report on all files: as text with an empty line between files, or as one JSON array. -/
def report (args : Args) (color : Bool) (os : List Outcome) : String :=
  match args.format with
  | .text => "\n".intercalate (os.map (outcomeText args color))
  | .json => (Json.array (os.map outcomeJson)).pretty ++ "\n"

/-- The exit code: 1 when a file failed, else 2 when names have to be declared and one is not. -/
def exitCode (args : Args) (os : List Outcome) : Nat :=
  if os.any fun o => o.result.toOption.isNone then 1
  else if args.failOnUnresolved && os.any (fun o => o.result.toOption.any (!·.unresolved.isEmpty))
  then 2
  else 0

end Run

/-- A whole run: the exit code and the report. -/
def run (files : Files) (args : Args) (color : Bool) : Except RunError (Nat × String) := do
  let options ← Run.options files args
  let gs ← Run.globs args.exclude
  let found ← Run.discover files gs args.paths
  let os := found.map (Run.outcome options)
  return (Run.exitCode args os, Run.report args color os)

end Scoping
