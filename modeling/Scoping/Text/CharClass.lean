/-!
# Character classes

The classes by which a source is cut into tokens. Names, numbers and flags are spelled in ASCII
alone, so those classes hold no character past U+007F. Blanks and line ends are Unicode: a line
ends at LF, CR, U+2028 or U+2029, and a blank is any other character of the property `White_Space`
or the byte order mark.

Two notions of line end stand side by side. `endsLine` takes all four characters and decides
whether two tokens are on different lines; `isNewline` takes LF and CR only and decides where a
line comment, a string and a regular expression have to stop.
-/

namespace Scoping

/-- LF or CR. -/
def isNewline (c : Char) : Bool := c == '\n' || c == '\r'

/-- A character at which a line ends: LF, CR, the line separator or the paragraph separator. -/
def endsLine (c : Char) : Bool :=
  c == '\n' || c == '\r' || c == '\u2028' || c == '\u2029'

/-- The Unicode property `White_Space`. -/
def isWhiteSpace (c : Char) : Bool :=
  let n := c.toNat
  (0x09 ≤ n && n ≤ 0x0d) || n == 0x20 || n == 0x85 || n == 0xa0 || n == 0x1680 ||
    (0x2000 ≤ n && n ≤ 0x200a) || n == 0x2028 || n == 0x2029 || n == 0x202f || n == 0x205f ||
    n == 0x3000

/-- White space that ends no line, and the byte order mark. -/
def isBlank (c : Char) : Bool :=
  !endsLine c && (isWhiteSpace c || c == '\ufeff')

/-- An ASCII digit. -/
def isDigit (c : Char) : Bool := '0' ≤ c && c ≤ '9'

/-- An ASCII letter. -/
def isLetter (c : Char) : Bool := ('a' ≤ c && c ≤ 'z') || ('A' ≤ c && c ≤ 'Z')

/-- A character that starts a name: a letter, `_` or `$`. -/
def startsName (c : Char) : Bool := isLetter c || c == '_' || c == '$'

/-- A character that continues a name. -/
def continuesName (c : Char) : Bool := startsName c || isDigit c

/-- A character that continues a number written with a radix. -/
def continuesNumber (c : Char) : Bool := isLetter c || isDigit c || c == '_'

/-- A character of a run of decimal digits. -/
def continuesDigits (c : Char) : Bool := isDigit c || c == '_'

end Scoping
