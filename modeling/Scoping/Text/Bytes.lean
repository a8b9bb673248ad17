import Scoping.Text.Span

/-!
# Texts measured in bytes

Sources are lists of characters, and offsets into them count the bytes of their UTF-8 encoding.
This module says how long a text is in bytes, and cuts one at a byte offset. A cut is only made
where a character ends: an offset inside a character, or past the end, has no text on either side.
-/

namespace Scoping

/-- The number of bytes a text takes. -/
def byteSize : List Char → Nat
  | [] => 0
  | c :: cs => c.utf8Size + byteSize cs

@[simp] theorem byteSize_nil : byteSize [] = 0 := rfl

@[simp] theorem byteSize_cons (c : Char) (cs : List Char) :
    byteSize (c :: cs) = c.utf8Size + byteSize cs := rfl

@[simp] theorem byteSize_append (cs ds : List Char) :
    byteSize (cs ++ ds) = byteSize cs + byteSize ds := by
  induction cs with
  | nil => simp
  | cons c cs ih => simp [ih, Nat.add_assoc]

/-- The text behind the first `n` bytes, where a character ends there. -/
def dropBytes? : Nat → List Char → Option (List Char)
  | 0, cs => some cs
  | _ + 1, [] => none
  | n + 1, c :: cs => if c.utf8Size ≤ n + 1 then dropBytes? (n + 1 - c.utf8Size) cs else none

/-- The first `n` bytes of a text behind those gathered so far, latest first, where a character
ends there. -/
def takeBytesOnto? (taken : List Char) : Nat → List Char → Option (List Char)
  | 0, _ => some taken.reverse
  | _ + 1, [] => none
  | n + 1, c :: cs =>
    if c.utf8Size ≤ n + 1 then takeBytesOnto? (c :: taken) (n + 1 - c.utf8Size) cs else none

/-- The first `n` bytes of a text, where a character ends there. -/
def takeBytes? (n : Nat) (cs : List Char) : Option (List Char) := takeBytesOnto? [] n cs

/-- The piece of `source` under a span: none for a reversed span, for one that leaves the source,
and for one with an end inside a character. -/
def Span.text? (s : Span) (source : List Char) : Option (List Char) := do
  let length ← s.length?
  let behind ← dropBytes? s.start source
  takeBytes? length behind

/-- The piece of `source` under a span, empty where there is none. -/
def Span.text (s : Span) (source : String) : String :=
  String.ofList ((s.text? source.toList).getD [])

end Scoping
