/-!
# Punctuation

The marks that shape scopes: brackets, separators, and the few operators that change how a name is
read. Every other mark is an operator without further structure. `marks` lists all of them, longer
ones first, so that the first mark a text begins with is the longest.
-/

namespace Scoping

/-- A mark of structure. -/
inductive Punctuation where
  | openBrace | closeBrace | openParen | closeParen | openBracket | closeBracket
  | comma | semicolon | colon | question | dot | questionDot | ellipsis | equals | arrow
  deriving DecidableEq, Repr, Inhabited

/-- The three shapes of bracket. -/
inductive Bracket where
  | brace | paren | square
  deriving DecidableEq, Repr, Inhabited

namespace Punctuation

/-- How a mark is written. -/
def text : Punctuation → String
  | openBrace => "\x7b" | closeBrace => "\x7d" | openParen => "(" | closeParen => ")"
  | openBracket => "[" | closeBracket => "]" | comma => "," | semicolon => ";" | colon => ":"
  | question => "?" | dot => "." | questionDot => "?." | ellipsis => "..." | equals => "="
  | arrow => "=>"

/-- Every mark of structure once. -/
def all : List Punctuation :=
  [openBrace, closeBrace, openParen, closeParen, openBracket, closeBracket, comma, semicolon,
   colon, question, dot, questionDot, ellipsis, equals, arrow]

/-- The mark of structure that a text writes. -/
def ofText? (s : String) : Option Punctuation := all.find? (·.text == s)

/-- The shape that a mark opens. -/
def opens? : Punctuation → Option Bracket
  | openBrace => some .brace
  | openParen => some .paren
  | openBracket => some .square
  | _ => none

/-- The shape that a mark closes. -/
def closes? : Punctuation → Option Bracket
  | closeBrace => some .brace
  | closeParen => some .paren
  | closeBracket => some .square
  | _ => none

/-- The mark closes a bracket. -/
def isCloser (p : Punctuation) : Bool := p.closes?.isSome

theorem mem_all (p : Punctuation) : p ∈ all := by cases p <;> decide

theorem ofText?_text (p : Punctuation) : ofText? p.text = some p := by cases p <;> decide

theorem text_of_ofText? {s : String} {p : Punctuation} (h : ofText? s = some p) : p.text = s := by
  simpa using List.find?_some h

end Punctuation

/-- Every mark, those of structure and plain operators alike: no mark stands behind one that it
begins with. -/
def marks : List (List Char) :=
  [">>>=", "...", "===", "!==", "**=", "<<=", ">>=", ">>>", "&&=", "||=", "??=", "=>", "==",
   "!=", "<=", ">=", "&&", "||", "??", "?.", "++", "--", "+=", "-=", "*=", "/=", "%=", "&=",
   "|=", "^=", "**", "<<", ">>", "\x7b", "\x7d", "(", ")", "[", "]", ";", ",", ".", ":", "?",
   "=", "<", ">", "+", "-", "*", "/", "%", "&", "|", "^", "!", "~"].map String.toList

end Scoping
