import Scoping.Analysis.Basic

/-!
# The command line

Arguments are read from left to right, and the first problem met is the answer. Whether a word of
the command line is a path, an option, or the value of an option is decided at once; a value that
stands apart from its option, and paths in a row, are only judged when the next known option or the
next path behind an option comes, or the line ends. That no path was given is found at the very end.
-/

namespace Scoping

/-- How reports are written. -/
inductive Format where
  | text | json
  deriving DecidableEq, Repr, Inhabited

/-- What is asked for on the command line. -/
structure Args where
  paths : List String
  exclude : List String
  format : Format
  noColor : Bool
  unresolved : Bool
  failOnUnresolved : Bool
  config : Option String
  maxTokens : Option Nat
  maxNestingDepth : Option Nat
  deriving DecidableEq, Repr, Inhabited

/-- What is wrong with a command line, or what it asks for instead of a run. -/
inductive UsageError where
  | missingPath
  | unknownArgument
  | invalidValue
  | unreadableValue
  | repeatedArgument
  | unwantedValue
  | helpAsked
  | versionAsked
  deriving DecidableEq, Repr, Inhabited

namespace Args

/-- An option that takes a value. -/
inductive Setting where
  | exclude | format | config | maxTokens | maxNestingDepth
  deriving DecidableEq, Repr, Inhabited

/-- An option that takes none. -/
inductive Flag where
  | noColor | unresolved | failOnUnresolved | help | version
  deriving DecidableEq, Repr, Inhabited

/-- An option that a name stands for. -/
inductive Named where
  | setting (s : Setting)
  | flag (f : Flag)
  deriving DecidableEq, Repr, Inhabited

/-- The option with the given name. Names are not shortened. -/
def named? (name : String) : Option Named :=
  if name == "exclude" then some (.setting .exclude)
  else if name == "format" then some (.setting .format)
  else if name == "config" then some (.setting .config)
  else if name == "max-tokens" then some (.setting .maxTokens)
  else if name == "max-nesting-depth" then some (.setting .maxNestingDepth)
  else if name == "no-color" then some (.flag .noColor)
  else if name == "unresolved" then some (.flag .unresolved)
  else if name == "fail-on-unresolved" then some (.flag .failOnUnresolved)
  else if name == "help" then some (.flag .help)
  else if name == "version" then some (.flag .version)
  else none

/-! ## Values -/

/-- An ASCII letter in lower case. -/
def lowerChar (c : Char) : Char := if 'A' ≤ c && c ≤ 'Z' then Char.ofNat (c.toNat + 32) else c

/-- A text with its ASCII letters in lower case. -/
def lower (s : String) : String := String.ofList (s.toList.map lowerChar)

/-- The format that a text names, in whatever case. -/
def format? (s : String) : Option Format :=
  if lower s == "text" then some .text
  else if lower s == "json" then some .json
  else none

/-- The value of decimal digits, of which there has to be one. -/
def digits? (cs : List Char) : Option Nat :=
  if cs.isEmpty || !cs.all (fun c => '0' ≤ c && c ≤ '9') then none
  else some (cs.foldl (fun n c => n * 10 + (c.toNat - 48)) 0)

/-- A number of tokens: digits, with a plus sign or without, of at most 64 bits. -/
def tokenCount? (s : String) : Option Nat :=
  let n := match s.toList with
    | '+' :: cs => digits? cs
    | cs => digits? cs
  n.filter (· < 0x10000000000000000)

/-- A depth: digits, with a sign or without, of at most 32 bits. No number below zero is one. -/
def depthCount? (s : String) : Option Nat :=
  match s.toList with
  | '-' :: cs => (digits? cs).filter (· == 0)
  | '+' :: cs => (digits? cs).filter (· < 0x100000000)
  | cs => (digits? cs).filter (· < 0x100000000)

/-! ## Reading -/

/-- What waits to be judged. -/
inductive Pending where
  | nothing
  /-- An option and its value, if the value was met. -/
  | value (s : Setting) (value : Option String)
  /-- Paths in a row. -/
  | paths (ps : List String)
  deriving DecidableEq, Repr, Inhabited

/-- A command line read so far: what was judged, which options were met, and what waits. -/
structure Progress where
  paths : List String
  exclude : List String
  format : Option Format
  noColor : Bool
  unresolved : Bool
  failOnUnresolved : Bool
  config : Option String
  maxTokens : Option Nat
  maxNestingDepth : Option Nat
  pending : Pending
  deriving DecidableEq, Repr, Inhabited

namespace Progress

def start : Progress := ⟨[], [], none, false, false, false, none, none, none, .nothing⟩

/-- A setting that was not met before takes the value that `read?` finds. -/
def once {α : Type} (old : Option α) (read? : String → Option α) (fault : UsageError)
    (value : String) : Except UsageError (Option α) :=
  if old.isSome then .error .repeatedArgument
  else
    match read? value with
    | some a => .ok (some a)
    | none => .error fault

/-- A path, which is any text but the empty one. -/
def path? (s : String) : Option String := if s == "" then none else some s

/-- Judges the value of an option. -/
def set (p : Progress) (s : Setting) (value : String) : Except UsageError Progress :=
  match s with
  | .exclude => .ok { p with exclude := p.exclude ++ [value] }
  | .format => return { p with format := ← once p.format format? .invalidValue value }
  | .config => return { p with config := ← once p.config path? .invalidValue value }
  | .maxTokens =>
    return { p with maxTokens := ← once p.maxTokens tokenCount? .unreadableValue value }
  | .maxNestingDepth =>
    return { p with maxNestingDepth := ← once p.maxNestingDepth depthCount? .unreadableValue value }

/-- Judges what waits. -/
def settle (p : Progress) : Except UsageError Progress :=
  match p.pending with
  | .nothing => .ok p
  | .value _ none => .error .invalidValue
  | .value s (some value) => Progress.set { p with pending := .nothing } s value
  | .paths ps =>
    if ps.any (· == "") then .error .invalidValue
    else .ok { p with paths := p.paths ++ ps, pending := .nothing }

/-- Turns a flag on, which can be done once. -/
def raise (p : Progress) (f : Flag) : Except UsageError Progress :=
  match f with
  | .noColor => if p.noColor then .error .repeatedArgument else .ok { p with noColor := true }
  | .unresolved =>
    if p.unresolved then .error .repeatedArgument else .ok { p with unresolved := true }
  | .failOnUnresolved =>
    if p.failOnUnresolved then .error .repeatedArgument
    else .ok { p with failOnUnresolved := true }
  | .help => .error .helpAsked
  | .version => .error .versionAsked

/-- An option by its name, with the value behind an equals sign if there is one. -/
def option (p : Progress) (name : String) (attached : Option String) :
    Except UsageError Progress :=
  match named? name, attached with
  | none, _ => .error .unknownArgument
  | some (.flag _), some _ => .error .unwantedValue
  | some (.flag f), none => do (← p.settle).raise f
  | some (.setting s), some value => do (← p.settle).set s value
  | some (.setting s), none => return { ← p.settle with pending := .value s none }

/-- A path, among others in a row or first after something else. -/
def path (p : Progress) (s : String) : Except UsageError Progress :=
  match p.pending with
  | .paths ps => .ok { p with pending := .paths (ps ++ [s]) }
  | _ => return { ← p.settle with pending := .paths [s] }

/-- One word of the command line that may be an option. -/
def word (p : Progress) (s : String) : Except UsageError Progress :=
  match s.toList with
  | '-' :: '-' :: rest =>
    let name := rest.takeWhile (· != '=')
    let attached := match rest.dropWhile (· != '=') with
      | [] => none
      | _ :: value => some (String.ofList value)
    p.option (String.ofList name) attached
  | '-' :: c :: _ =>
    if c == 'h' then do (← p.settle).raise .help
    else if c == 'V' then do (← p.settle).raise .version
    else .error .unknownArgument
  | _ =>
    match p.pending with
    | .value setting none => .ok { p with pending := .value setting (some s) }
    | _ => p.path s

/-- The words of a command line. Behind two hyphens every word is a path. -/
def words (p : Progress) : List String → Except UsageError Progress
  | [] => .ok p
  | "--" :: rest => rest.foldlM (fun p s => p.path s) p
  | s :: rest => do (← p.word s).words rest

/-- What a command line asks for when all of it is judged. -/
def finish (p : Progress) : Except UsageError Args := do
  let p ← p.settle
  if p.paths.isEmpty then .error .missingPath
  else .ok ⟨p.paths, p.exclude, p.format.getD .text, p.noColor, p.unresolved, p.failOnUnresolved,
    p.config, p.maxTokens, p.maxNestingDepth⟩

end Progress

/-- Reads a command line, the program's name left out. -/
def parse (line : List String) : Except UsageError Args := do
  (← Progress.start.words line).finish

/-- Options with those of the command line on top. -/
def override (a : Args) (o : Options) : Options :=
  { maxTokens := a.maxTokens.orElse fun _ => o.maxTokens
    maxNestingDepth := a.maxNestingDepth.getD o.maxNestingDepth }

end Args

end Scoping
