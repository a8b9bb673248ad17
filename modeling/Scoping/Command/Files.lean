import Scoping.Command.Path

/-!
# Files

The files that a run can see, as a value: a directory is a list of named entries, and a file is its
bytes. A path is looked up step by step from the working directory. Every step but the last has to
lead to a directory, and so has the last if a separator or a dot follows it.
-/

namespace Scoping

/-- A file or a directory. -/
inductive Entry where
  | file (bytes : ByteArray)
  | directory (entries : List (String × Entry))
  deriving Inhabited

/-- A file that was found, with the path that led to it. -/
structure FoundFile where
  path : String
  bytes : ByteArray

namespace Entry

/-- The entry of a directory with the given name. -/
def child? (name : String) : Entry → Option Entry
  | file _ => none
  | directory entries => (entries.find? (·.1 == name)).map (·.2)

def isDirectory : Entry → Bool
  | file _ => false
  | directory _ => true

/-- Puts an entry at the given names below a directory, with directories on the way. -/
def place (new : Entry) : (names : List String) → Entry → Entry
  | [], _ => new
  | name :: names, e =>
    let others := match e with
      | file _ => []
      | directory entries => entries
    let below := place new names ((child? name e).getD (directory []))
    if others.any (·.1 == name) then
      directory (others.map fun o => if o.1 == name then (name, below) else o)
    else directory (others ++ [(name, below)])

/-- Follows the pieces of a path. The directories passed through lie behind, innermost first; there
is nothing above the outermost. -/
def follow (behind : List Entry) (e : Entry) : (pieces : List String) → Option Entry
  | [] => some e
  | piece :: pieces =>
    if !e.isDirectory then none
    else if piece == "" || piece == "." then follow behind e pieces
    else if piece == ".." then
      match behind with
      | [] => none
      | d :: behind => follow behind d pieces
    else
      match child? piece e with
      | some below => follow (e :: behind) below pieces
      | none => none

/-- The entry at a path that starts in the given directory. -/
def find? (workingDirectory : Entry) (path : String) : Option Entry :=
  match Path.pieces path with
  | "" :: _ => none
  | pieces => follow [] workingDirectory pieces

mutual
/-- The files at and below an entry, which is found at the given path. -/
def filesAt (path : String) : Entry → List FoundFile
  | file bytes => [⟨path, bytes⟩]
  | directory entries => filesIn path entries
/-- The files of the entries of the directory at a path. -/
def filesIn (path : String) : List (String × Entry) → List FoundFile
  | [] => []
  | e :: rest => filesNamed path e ++ filesIn path rest
/-- The files of one entry of the directory at a path. -/
def filesNamed (path : String) : String × Entry → List FoundFile
  | (name, e) => filesAt (Path.join path name) e
end

end Entry

/-- What a path leads to, for every path that leads to something. -/
abbrev Files := String → Option Entry

end Scoping
