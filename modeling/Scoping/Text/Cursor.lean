import Scoping.Text.Bytes
import Scoping.Text.CharClass

/-!
# Cursors

A cursor stands in a source: it holds its byte offset and the text not read yet. It also remembers
whether a line end has been passed inside a comment since the last token that is no comment, for
such a line end parts two tokens as one between comments does.

All reading is by moving a cursor forward over whole characters.
-/

namespace Scoping

/-- A place in a source, with the text from there on. -/
structure Cursor where
  offset : Nat
  rest : List Char
  /-- A comment read since the last significant token spans a line end. -/
  crossed : Bool
  deriving DecidableEq, Repr, Inhabited

namespace Cursor

/-- The cursor at the start of a source. -/
def start (source : String) : Cursor := ⟨0, source.toList, false⟩

/-- The cursor one character further; at the end it stays. -/
def next (c : Cursor) : Cursor :=
  match c.rest with
  | [] => c
  | x :: rest => { c with offset := c.offset + x.utf8Size, rest := rest }

/-- Where `skipWhile` stops, starting from `offset` with the given text before it. -/
def skipFrom (p : Char → Bool) (crossed : Bool) (offset : Nat) : List Char → Cursor
  | [] => ⟨offset, [], crossed⟩
  | x :: rest =>
    if p x then skipFrom p crossed (offset + x.utf8Size) rest else ⟨offset, x :: rest, crossed⟩

/-- The cursor at the first character that does not satisfy `p`. -/
def skipWhile (p : Char → Bool) (c : Cursor) : Cursor := skipFrom p c.crossed c.offset c.rest

/-- The text from `c` up to a later cursor. -/
def textTo (c stop : Cursor) : String :=
  String.ofList ((takeBytes? (stop.offset - c.offset) c.rest).getD [])

end Cursor

/-- A blank or a line end: what may stand between two tokens. -/
def isGap (c : Char) : Bool := endsLine c || isBlank c

/-- Skips blanks and line ends from `offset` on, and says whether a line end was among them or had
been met before. -/
def gapFrom (pending met : Bool) (offset : Nat) : List Char → Bool × Cursor
  | [] => (met, ⟨offset, [], pending⟩)
  | x :: rest =>
    if endsLine x then gapFrom pending true (offset + x.utf8Size) rest
    else if isBlank x then gapFrom pending met (offset + x.utf8Size) rest
    else (met, ⟨offset, x :: rest, pending⟩)

/-- The cursor behind the blanks and line ends, and whether there was a line end. -/
def Cursor.skipGap (c : Cursor) : Bool × Cursor := gapFrom c.crossed false c.offset c.rest

end Scoping
