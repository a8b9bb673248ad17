/-!
# Paths

Paths are texts, and are printed as they were given. They are compared by component: repeated and
final separators do not count, nor does a dot except at the start. So two spellings can name one
path, and a directory's files come before a file whose name goes on where the separator stands.
-/

namespace Scoping

namespace Path

/-- A step of a path, in the order in which steps are compared. -/
inductive Component where
  | root
  | current
  | parent
  | name (s : String)
  deriving DecidableEq, Repr, Inhabited

/-- Which kind of step comes first. -/
def Component.rank : Component → Nat
  | root => 0
  | current => 1
  | parent => 2
  | name _ => 3

/-- The order of two steps: by kind, and names by their characters. -/
def Component.order : Component → Component → Ordering
  | name s, name t => compare s t
  | a, b => compare a.rank b.rank

/-- The pieces of a path between separators, before which the piece in hand, latest first, is
continued. -/
def piecesFrom (piece : List Char) : List Char → List String
  | [] => [String.ofList piece.reverse]
  | c :: cs =>
    if c == '/' then String.ofList piece.reverse :: piecesFrom [] cs else piecesFrom (c :: piece) cs

/-- The pieces of a path between separators, empty ones included. -/
def pieces (path : String) : List String := piecesFrom [] path.toList

/-- A piece that is no step is left out: an empty one, and a dot. -/
def component? (piece : String) : Option Component :=
  if piece == "" || piece == "." then none
  else if piece == ".." then some .parent
  else some (.name piece)

/-- The steps of a path. -/
def components (path : String) : List Component :=
  match pieces path with
  | "" :: rest =>
    if rest.isEmpty then [] else .root :: rest.filterMap component?
  | "." :: rest => .current :: rest.filterMap component?
  | all => all.filterMap component?

/-- Step by step, a path before which it is a part. -/
def order : List Component → List Component → Ordering
  | [], [] => .eq
  | [], _ :: _ => .lt
  | _ :: _, [] => .gt
  | a :: as, b :: bs => (a.order b).then (order as bs)

/-- The first path does not come behind the second. -/
def precedes (a b : String) : Bool := order (components a) (components b) != .gt

/-- The two spellings name one path. -/
def same (a b : String) : Bool := components a == components b

/-- Things that have paths, in the order of their paths. Of those with the same path the first one
stays. -/
def sorted {α : Type} (path : α → String) (things : List α) : List α :=
  (things.mergeSort fun a b => precedes (path a) (path b)).eraseRepsBy fun a b =>
    same (path a) (path b)

/-- The path of an entry of a directory. -/
def join (directory name : String) : String :=
  if directory.toList.getLast? == some '/' then directory ++ name else directory ++ "/" ++ name

/-- What stands behind the last point of the last piece of a path, unless the piece begins with it. -/
def extension? (path : String) : Option String :=
  let cs := path.toList.reverse.takeWhile (· != '/')
  match cs.dropWhile (· != '.') with
  | _ :: _ :: _ => some (String.ofList (cs.takeWhile (· != '.')).reverse)
  | _ => none

end Path

end Scoping
