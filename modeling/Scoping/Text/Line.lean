import Scoping.Text.Bisect
import Scoping.Text.Bytes
import Scoping.Text.CharClass

/-!
# Lines and columns

A line map remembers where each line of a source begins. A line ends at LF, at CR LF, which counts
once, and at a CR that no LF follows. Offsets are turned into positions: the line is found by
binary search over the line starts, the column counts characters from there. An offset past the end
of the source has the position of the end; one inside a character has column zero.
-/

namespace Scoping

/-- A line and a column, both counted from zero. -/
structure Position where
  line : Nat
  character : Nat
  deriving DecidableEq, Repr, Inhabited

/-- The beginning of a line: its offset and the source from there on. -/
structure Line where
  start : Nat
  rest : List Char
  deriving DecidableEq, Repr, Inhabited

/-- The lines of a source, with the source's length in bytes. -/
structure LineMap where
  lines : Array Line
  size : Nat
  deriving DecidableEq, Repr, Inhabited

/-- The lines found so far, and those that begin behind `offset`, where `rest` stands. -/
def linesFrom (found : Array Line) (offset : Nat) : List Char → Array Line
  | [] => found
  | '\r' :: '\n' :: rest => linesFrom (found.push ⟨offset + 2, rest⟩) (offset + 2) rest
  | c :: rest =>
    let next := offset + c.utf8Size
    linesFrom (if isNewline c then found.push ⟨next, rest⟩ else found) next rest

/-- How many characters make up the first `n` bytes, `counted` of them before; zero where no
character ends there. -/
def columnFrom (counted : Nat) : Nat → List Char → Nat
  | 0, _ => counted
  | _ + 1, [] => 0
  | n + 1, c :: cs =>
    if c.utf8Size ≤ n + 1 then columnFrom (counted + 1) (n + 1 - c.utf8Size) cs else 0

namespace LineMap

/-- The lines of a source. The first begins at offset zero, even of an empty source. -/
def ofSource (source : String) : LineMap :=
  let cs := source.toList
  ⟨linesFrom #[⟨0, cs⟩] 0 cs, source.utf8ByteSize⟩

def lineCount (m : LineMap) : Nat := m.lines.size

/-- The offset at which a line begins. -/
def lineStart? (m : LineMap) (line : Nat) : Option Nat := (m.lines[line]?).map (·.start)

/-- The last line that begins at or before `offset`. -/
def lineOf (m : LineMap) (offset : Nat) : Nat :=
  bisect (fun i => (m.lines[i]?).any (·.start ≤ offset)) m.lines.size - 1

/-- The position of an offset, those past the end taken as the end. -/
def position (m : LineMap) (offset : Nat) : Position :=
  let offset := min offset m.size
  let line := m.lineOf offset
  ⟨line, ((m.lines[line]?).map fun l => columnFrom 0 (offset - l.start) l.rest).getD 0⟩

end LineMap

/-- A span with the positions of its ends. -/
structure SourceRange where
  span : Span
  startPosition : Position
  endPosition : Position
  deriving DecidableEq, Repr, Inhabited

/-- A span with the positions of its ends on the map. -/
def LineMap.range (m : LineMap) (s : Span) : SourceRange :=
  ⟨s, m.position s.start, m.position s.stop⟩

end Scoping
