import Scoping.Text.Printable

/-!
# Quoted characters

How a message writes a single character: between single quotes, with the usual escapes for NUL,
tab, LF, CR, the quote and the backslash. Of the others the printable ones stand for themselves,
the rest are written by number, in lower-case hexadecimal without leading zeros.
-/

namespace Scoping

/-- The digit of a value below sixteen. -/
def hexDigit (n : Nat) : Char := if n < 10 then Char.ofNat (48 + n) else Char.ofNat (87 + n)

/-- The hexadecimal digits of a number before those written so far; `fuel` bounds their count. -/
def hexOnto (written : List Char) : (fuel n : Nat) → List Char
  | 0, _ => written
  | fuel + 1, n =>
    let written := hexDigit (n % 16) :: written
    if n / 16 = 0 then written else hexOnto written fuel (n / 16)

/-- The hexadecimal digits of a code point, which has no more than six. -/
def hexDigits (c : Char) : String := String.ofList (hexOnto [] 6 c.toNat)

/-- A character inside the quotes. -/
def escapedChar (c : Char) : String :=
  if c == '\x00' then "\\0"
  else if c == '\t' then "\\t"
  else if c == '\n' then "\\n"
  else if c == '\r' then "\\r"
  else if c == '\'' then "\\'"
  else if c == '\\' then "\\\\"
  else if isPrintable c then String.singleton c
  else "\\u\x7b" ++ hexDigits c ++ "\x7d"

/-- A character between single quotes. -/
def quotedChar (c : Char) : String := "'" ++ escapedChar c ++ "'"

end Scoping
