/-!
# Globs

Patterns for paths. A pattern is read into parts, and is matched against the bytes of a whole path,
where no part treats the separator in a special way but those made of two stars beside it:

- `?` is any byte and `*` any bytes;
- `**` at the start, before a separator, is any directories or none; between separators it is one
  separator or any directories; at the end, behind a separator, it is anything below. Elsewhere it
  is two stars. A pattern that is nothing else matches everything;
- a class in square brackets is one of its bytes, or with `!` or `^` in front none of them;
- braces hold alternatives; those that are empty count for nothing, unless all are;
- a backslash takes the next character as it is.

A path that ends in `..` has no file's name at its end, and a pattern that asks for such a name
(`asksForName`) does not match it.

Matching keeps the set of places in the path that the parts so far can lead to, so its cost does not
grow with the number of ways to match.
-/

namespace Scoping

/-- A part of a glob. -/
inductive GlobPart where
  | literal (c : Char)
  | anyByte
  | anyBytes
  /-- Any directories, or none, at the start. -/
  | leading
  /-- Anything below the directory before. -/
  | trailing
  /-- A separator, or directories between two. -/
  | between
  | oneOf (negated : Bool) (ranges : List (Char × Char))
  | choice (alternatives : List (List GlobPart))
  deriving Repr, Inhabited

namespace Glob

/-! ## Reading -/

/-- A group that is being read: its finished alternatives and the parts of the one at hand, both
latest first. The pattern itself is the outermost group. -/
structure Group where
  finished : List (List GlobPart)
  parts : List GlobPart
  deriving Repr, Inhabited

/-- The groups around the place that is being read, innermost first. -/
structure Groups where
  inner : Group
  outer : List Group
  deriving Repr, Inhabited

namespace Groups

/-- Nothing read yet. -/
def start : Groups := ⟨⟨[], []⟩, []⟩

/-- One more part. -/
def push (gs : Groups) (p : GlobPart) : Groups :=
  { gs with inner := { gs.inner with parts := p :: gs.inner.parts } }

/-- The last part replaced by what `f` makes of it. -/
def replaceLast (gs : Groups) (f : GlobPart → GlobPart) : Groups :=
  match gs.inner.parts with
  | [] => gs
  | p :: ps => { gs with inner := { gs.inner with parts := f p :: ps } }

/-- A new group. -/
def enter (gs : Groups) : Groups := ⟨⟨[], []⟩, gs.inner :: gs.outer⟩

/-- A new alternative of the innermost group. -/
def alternative (gs : Groups) : Groups :=
  { gs with inner := ⟨gs.inner.parts.reverse :: gs.inner.finished, []⟩ }

/-- The innermost group is complete and becomes a part of the one around it. -/
def leave? (gs : Groups) : Option Groups :=
  match gs.outer with
  | [] => none
  | g :: outer =>
    let alternatives := (gs.inner.parts.reverse :: gs.inner.finished).reverse
    some (Groups.push ⟨g, outer⟩ (.choice alternatives))

/-- No group is open. -/
def atTop (gs : Groups) : Bool := gs.outer.isEmpty

end Groups

/-- A class while it is being read: its ranges, latest first; whether anything was read; and whether
a hyphen waits for the end of a range. -/
structure ClassScan where
  ranges : List (Char × Char)
  first : Bool
  waiting : Bool
  deriving Repr, Inhabited

/-- One more character of a class; refused when it ends a range that runs backwards. -/
def ClassScan.push? (s : ClassScan) (c : Char) : Option ClassScan :=
  match s.waiting, s.ranges with
  | true, (low, _) :: ranges => if c < low then none else some ⟨(low, c) :: ranges, false, false⟩
  | _, ranges =>
    if c == '-' && !s.first then some { s with waiting := true }
    else some ⟨(c, c) :: ranges, false, false⟩

/-- The ranges of a class that is complete. A hyphen that waits stands for itself. -/
def ClassScan.complete (s : ClassScan) : List (Char × Char) :=
  (if s.waiting then ('-', '-') :: s.ranges else s.ranges).reverse

/-- Reads a class up to its closing bracket, which as the first character stands for itself. -/
def classTail? (s : ClassScan) : List Char → Option (List (Char × Char) × List Char)
  | [] => none
  | c :: rest =>
    if c == ']' && !s.first then some (s.complete, rest)
    else
      match s.push? c with
      | some s => classTail? s rest
      | none => none

/-- Reads a class, its opening bracket consumed. -/
def class? (cs : List Char) : Option (GlobPart × List Char) :=
  let negated := cs.head? == some '!' || cs.head? == some '^'
  (classTail? ⟨[], true, false⟩ (if negated then cs.tail else cs)).map fun (ranges, rest) =>
    (.oneOf negated ranges, rest)

/-- What two stars behind the given character become, and the text behind them. -/
def twoStars (gs : Groups) (before : Option Char) (rest : List Char) : Groups × List Char :=
  let plain := ((gs.push .anyBytes).push .anyBytes, rest)
  let joined (gs : Groups) (p : GlobPart) : Groups := gs.replaceLast fun last =>
    match last with
    | .leading => .leading
    | .trailing => .trailing
    | _ => p
  if gs.inner.parts.isEmpty then
    match rest with
    | [] => (gs.push .leading, [])
    | c :: behind => if c == '/' then (gs.push .leading, behind) else plain
  else if before == some '/' || (!gs.atTop && (before == some ',' || before == some '\x7b')) then
    match rest with
    | [] => (joined gs .trailing, [])
    | c :: behind =>
      if !gs.atTop && (c == ',' || c == '\x7d') then (joined gs .trailing, rest)
      else if c == '/' then (joined gs .between, behind)
      else plain
  else plain

/-- Reads the rest of a pattern behind the character `before`. Each step spends a character of the
budget, for which the pattern itself is enough. -/
def readFrom? (budget : List Char) (gs : Groups) (before : Option Char) (cs : List Char) :
    Option Groups :=
  match cs with
  | [] => some gs
  | c :: rest =>
    match budget with
    | [] => none
    | _ :: budget =>
      if c == '?' then readFrom? budget (gs.push .anyByte) c rest
      else if c == '*' then
        match rest with
        | '*' :: behind =>
          let (gs, left) := twoStars gs before behind
          readFrom? budget gs (if left.length == behind.length then '*' else '/') left
        | _ => readFrom? budget (gs.push .anyBytes) c rest
      else if c == '[' then
        match class? rest with
        | some (p, left) => readFrom? budget (gs.push p) ']' left
        | none => none
      else if c == '\x7b' then readFrom? budget gs.enter c rest
      else if c == '\x7d' then
        match gs.leave? with
        | some gs => readFrom? budget gs c rest
        | none => none
      else if c == ',' && !gs.atTop then readFrom? budget gs.alternative c rest
      else if c == '\\' then
        match rest with
        | x :: behind => readFrom? budget (gs.push (.literal x)) x behind
        | [] => none
      else readFrom? budget (gs.push (.literal c)) c rest

end Glob

/-- A pattern for paths. -/
structure Glob where
  parts : List GlobPart
  deriving Repr, Inhabited

namespace Glob

/-- The glob that a text writes; none for an open class, a range that runs backwards, braces that
do not match, and a backslash at the end. -/
def ofText? (text : String) : Option Glob :=
  let cs := text.toList
  match readFrom? cs .start none cs with
  | some gs => if gs.atTop then some ⟨gs.inner.parts.reverse⟩ else none
  | none => none

/-! ## Matching -/

/-- The bytes of a character. -/
def bytesOf (c : Char) : List UInt8 := (String.singleton c).toUTF8.toList

/-- The bytes that a range of characters stands for in a class: all bytes of its ends count, and the
last of the first end begins a range of bytes that the first of the second one ends. -/
def byteRanges (range : Char × Char) : List (UInt8 × UInt8) :=
  let each (bs : List UInt8) := bs.map fun b => (b, b)
  if range.1 == range.2 then each (bytesOf range.1)
  else
    match (bytesOf range.1).reverse, bytesOf range.2 with
    | low :: before, high :: behind => each before ++ [(low, high)] ++ each behind
    | _, _ => []

/-- The byte belongs to a class. -/
def inClass (negated : Bool) (ranges : List (Char × Char)) (b : UInt8) : Bool :=
  (ranges.flatMap byteRanges).any (fun r => r.1 ≤ b && b ≤ r.2) != negated

/-- Places in a path, as numbers of bytes before them, in ascending order. -/
abbrev Places := List Nat

/-- One byte further, where it satisfies `p`. -/
def step (path : Array UInt8) (p : UInt8 → Bool) (places : Places) : Places :=
  (places.filter fun i => (path[i]?).any p).map (· + 1)

/-- One separator further. -/
def separator (path : Array UInt8) (places : Places) : Places := step path (· == 0x2f) places

/-- Any number of bytes further. -/
def anywhere (path : Array UInt8) (places : Places) : Places :=
  match places with
  | [] => []
  | i :: _ => List.range' i (path.size + 1 - i)

/-- The places in either. -/
def union (path : Array UInt8) (a b : Places) : Places :=
  (List.range (path.size + 1)).filter fun i => a.contains i || b.contains i

mutual
/-- The part stands for nothing at all. -/
def vacuous : GlobPart → Bool
  | .choice alternatives => vacuousChoice alternatives
  | _ => false
/-- All parts stand for nothing. -/
def vacuousParts : List GlobPart → Bool
  | [] => true
  | p :: ps => vacuous p && vacuousParts ps
/-- All alternatives stand for nothing. -/
def vacuousChoice : List (List GlobPart) → Bool
  | [] => true
  | ps :: rest => vacuousParts ps && vacuousChoice rest
end

mutual
/-- Where a part leads to. -/
def follow (path : Array UInt8) (places : Places) : GlobPart → Places
  | .literal c => (bytesOf c).foldl (fun places b => step path (· == b) places) places
  | .anyByte => step path (fun _ => true) places
  | .anyBytes => anywhere path places
  | .leading => union path places (separator path (anywhere path places))
  | .trailing => anywhere path (separator path places)
  | .between =>
    let behind := separator path places
    union path behind (separator path (anywhere path behind))
  | .oneOf negated ranges => step path (inClass negated ranges) places
  | .choice alternatives =>
    if vacuousChoice alternatives then places else followChoice path places alternatives
/-- Where parts in a row lead to. -/
def followParts (path : Array UInt8) (places : Places) : List GlobPart → Places
  | [] => places
  | p :: ps => followParts path (follow path places p) ps
/-- Where alternatives lead to, those that stand for nothing apart. -/
def followChoice (path : Array UInt8) (places : Places) : List (List GlobPart) → Places
  | [] => []
  | ps :: rest =>
    let others := followChoice path places rest
    if vacuousParts ps then others else union path (followParts path places ps) others
end

/-! ## Names -/

/-- The part is a character of the pattern's text. -/
def isText : GlobPart → Bool
  | .literal _ => true
  | _ => false

/-- The part is the given character. -/
def isChar (c : Char) : GlobPart → Bool
  | .literal x => x == c
  | _ => false

/-- The parts say no more than which text a path ends in, or which text it is. Text behind a star
counts when there is more of it than one point, and text behind any directories when it holds a
separator; what is shorter asks for the extension of a name, or for a name. -/
def saysEnding : List GlobPart → Bool
  | .leading :: .anyBytes :: text => text.all isText && 1 < text.length
  | .leading :: text => text.all isText && text.any (isChar '/')
  | .anyBytes :: text => text.all isText && 1 < text.length
  | text => text.all isText

/-- A pattern that ends in a point asks for a name, unless it says no more than an ending. -/
def asksForName (g : Glob) : Bool := (g.parts.getLast?).any (isChar '.') && !saysEnding g.parts

/-- The path ends in `..`, which is no name of a file. -/
def endsNameless (path : String) : Bool :=
  path.toList.reverse.takeWhile (· != '/') == ['.', '.']

/-- The parts lead from the start of the path to its end. -/
def spans (parts : List GlobPart) (path : String) : Bool :=
  let bytes := path.toUTF8.data
  (followParts bytes [0] parts).contains bytes.size

/-- The glob matches the path. -/
def covers (g : Glob) (path : String) : Bool :=
  match g.parts with
  | [.leading] => true
  | parts => spans parts path && !(g.asksForName && endsNameless path)

end Glob

end Scoping
