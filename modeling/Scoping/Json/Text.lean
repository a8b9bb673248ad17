import Scoping.Text.Bytes
import Scoping.Text.CharClass

/-!
# Reading JSON text

Readers for the pieces of a JSON text: blanks, words, strings and numbers. Each takes the text from
its piece on and gives the text behind it. A text is read from left to right and the first problem
ends the reading; it is one of three kinds. The text ends too early, or it is no JSON, or it is JSON
of a kind that is not wanted.

A number is natural, or it is some other number that the text may hold but no reader here wants:
negative, with a fraction or an exponent, or past 64 bits. Such a number still has to be one that
double precision can hold; one too large is no JSON.
-/

namespace Scoping

/-- What is wrong with a JSON text. -/
inductive JsonFault where
  /-- The text ends too early. -/
  | truncated
  /-- The text is no JSON. -/
  | malformed
  /-- The text is JSON, but of the wrong shape. -/
  | unsuitable
  deriving DecidableEq, Repr, Inhabited

namespace JsonText

/-- A piece that was read, with the text behind it. -/
abbrev Found (α : Type) := α × List Char

/-- A space, tab, LF or CR. -/
def isSpace (c : Char) : Bool := c == ' ' || c == '\t' || c == '\n' || c == '\r'

def skipSpace (cs : List Char) : List Char := cs.dropWhile isSpace

/-- Reads the given word. -/
def word : (expected : List Char) → List Char → Except JsonFault (List Char)
  | [], cs => .ok cs
  | _ :: _, [] => .error .truncated
  | x :: expected, c :: cs => if c == x then word expected cs else .error .malformed

/-! ## Strings -/

/-- The value of a hexadecimal digit. -/
def hexValue? (c : Char) : Option Nat :=
  if isDigit c then some (c.toNat - 48)
  else if 'a' ≤ c && c ≤ 'f' then some (c.toNat - 87)
  else if 'A' ≤ c && c ≤ 'F' then some (c.toNat - 55)
  else none

/-- Reads four hexadecimal digits. -/
def hexQuad (cs : List Char) : Except JsonFault (Found Nat) :=
  match cs with
  | a :: b :: c :: d :: rest =>
    match hexValue? a, hexValue? b, hexValue? c, hexValue? d with
    | some a, some b, some c, some d => .ok (((a * 16 + b) * 16 + c) * 16 + d, rest)
    | _, _, _, _ => .error .malformed
  | short => .error (if byteSize short < 4 then .truncated else .malformed)

/-- Reads the second escape of a pair that stands for one character. -/
def lowSurrogate (high : Nat) (cs : List Char) : Except JsonFault (Found Char) := do
  let cs ← word ['\\', 'u'] cs
  let (low, rest) ← hexQuad cs
  if low < 0xdc00 || 0xdfff < low then .error .malformed
  else .ok (Char.ofNat (0x10000 + (high - 0xd800) * 0x400 + (low - 0xdc00)), rest)

/-- Reads the number of an escaped character, and a second one where the first is half of a pair. -/
def numericEscape (cs : List Char) : Except JsonFault (Found Char) := do
  let (n, rest) ← hexQuad cs
  if 0xdc00 ≤ n && n ≤ 0xdfff then .error .malformed
  else if 0xd800 ≤ n && n ≤ 0xdbff then lowSurrogate n rest
  else .ok (Char.ofNat n, rest)

/-- Reads an escaped character, its backslash consumed. -/
def escaped (cs : List Char) : Except JsonFault (Found Char) :=
  match cs with
  | [] => .error .truncated
  | 'u' :: rest => numericEscape rest
  | 'b' :: rest => .ok ('\x08', rest)
  | 'f' :: rest => .ok ('\x0c', rest)
  | 'n' :: rest => .ok ('\n', rest)
  | 'r' :: rest => .ok ('\r', rest)
  | 't' :: rest => .ok ('\t', rest)
  | c :: rest => if c == '"' || c == '\\' || c == '/' then .ok (c, rest) else .error .malformed

/-- Reads the rest of a string behind the characters read so far, latest first. Each step spends a
character of the budget, for which the text itself is enough. -/
def stringOnto (budget : List Char) (read : List Char) (cs : List Char) : Except JsonFault (Found String) :=
  match budget with
  | [] => .error .truncated
  | _ :: budget =>
    match cs with
    | [] => .error .truncated
    | c :: rest =>
      if c == '"' then .ok (String.ofList read.reverse, rest)
      else if c == '\\' then
        match escaped rest with
        | .ok (x, behind) => stringOnto budget (x :: read) behind
        | .error fault => .error fault
      else if c.toNat < 0x20 then .error .malformed
      else stringOnto budget (c :: read) rest

/-- Reads a string, its opening quote consumed. -/
def stringTail (cs : List Char) : Except JsonFault (Found String) := stringOnto ('"' :: cs) [] cs

/-! ## Numbers -/

/-- A number of a JSON text. -/
inductive Number where
  | natural (n : Nat)
  | other
  deriving DecidableEq, Repr, Inhabited

/-- The first number of 65 bits. -/
def wordBound : Nat := 0x10000000000000000

/-- A number rounded to 53 binary digits, ties to the even neighbour. -/
def roundTo53 (n : Nat) : Nat :=
  let dropped := n.log2 - 52
  let unit := 1 <<< dropped
  let kept := n / unit
  let rest := 2 * (n % unit)
  unit * (if unit < rest || (rest == unit && kept % 2 == 1) then kept + 1 else kept)

/-- The product of a number and a power of ten, each rounded to double precision, is too large for
double precision. -/
def overflows (significand : Nat) (exponent : Int) : Bool :=
  match exponent with
  | .negSucc _ => false
  | .ofNat e =>
    significand != 0 &&
      (308 < e || 1 <<< 1024 - 1 <<< 970 ≤ roundTo53 significand * roundTo53 (Nat.pow 10 e))

/-- Takes digits onto a significand as long as it stays within 64 bits, and counts them. -/
def digitsOnto (significand taken : Nat) : List Char → Nat × Nat × List Char
  | [] => (significand, taken, [])
  | c :: cs =>
    let grown := significand * 10 + (c.toNat - 48)
    if isDigit c && grown < wordBound then digitsOnto grown (taken + 1) cs
    else (significand, taken, c :: cs)

/-- The value of some digits. -/
def digitsValue (cs : List Char) : Nat := cs.foldl (fun n c => n * 10 + (c.toNat - 48)) 0

/-- Reads the exponent of a number, its mark consumed. -/
def exponentTail (significand : Nat) (exponent : Int) (cs : List Char) : Except JsonFault (Found Number) :=
  let negative := cs.head? == some '-'
  let cs := if negative || cs.head? == some '+' then cs.tail else cs
  match cs with
  | [] => .error .truncated
  | c :: _ =>
    if !isDigit c then .error .malformed
    else
      let shift : Int := digitsValue (cs.takeWhile isDigit)
      let exponent := if negative then exponent - shift else exponent + shift
      if overflows significand exponent then .error .malformed
      else .ok (.other, cs.dropWhile isDigit)

/-- Reads the exponent of a number if there is one. -/
def withExponent (significand : Nat) (exponent : Int) (cs : List Char) : Except JsonFault (Found Number) :=
  match cs with
  | 'e' :: rest | 'E' :: rest => exponentTail significand exponent rest
  | _ => if overflows significand exponent then .error .malformed else .ok (.other, cs)

/-- Reads the fraction of a number, its point consumed. -/
def fractionTail (significand : Nat) (exponent : Int) (cs : List Char) : Except JsonFault (Found Number) :=
  match cs with
  | [] => .error .truncated
  | c :: _ =>
    if !isDigit c then .error .malformed
    else
      let (significand, taken, rest) := digitsOnto significand 0 cs
      withExponent significand (exponent - taken) (rest.dropWhile isDigit)

/-- Reads what may stand behind the whole digits of a number: nothing, a fraction, an exponent. The
digits that did not fit the significand have raised the exponent. -/
def numberTail (negative : Bool) (significand dropped : Nat) (cs : List Char) :
    Except JsonFault (Found Number) :=
  match cs with
  | '.' :: rest => fractionTail significand dropped rest
  | 'e' :: rest | 'E' :: rest => exponentTail significand dropped rest
  | _ =>
    if dropped != 0 then withExponent significand dropped cs
    else if negative then .ok (.other, cs)
    else .ok (.natural significand, cs)

/-- Reads a number, its sign consumed. -/
def number (negative : Bool) (cs : List Char) : Except JsonFault (Found Number) :=
  match cs with
  | [] => .error .truncated
  | c :: rest =>
    if c == '0' then
      if (rest.head?).any isDigit then .error .malformed else numberTail negative 0 0 rest
    else if isDigit c then
      let (significand, _, behind) := digitsOnto 0 0 cs
      let dropped := behind.takeWhile isDigit
      numberTail negative significand dropped.length (behind.dropWhile isDigit)
    else .error .malformed

/-! ## Values that are not wanted -/

/-- What is wrong with a value of a kind that is not wanted: itself, unless it ends too early or is
no JSON. Of an array or an object no more than the bracket is looked at. -/
def unwanted (cs : List Char) : JsonFault :=
  let after {α : Type} : Except JsonFault α → JsonFault
    | .ok _ => .unsuitable
    | .error fault => fault
  match cs with
  | [] => .truncated
  | 'n' :: rest => after (word ['u', 'l', 'l'] rest)
  | 't' :: rest => after (word ['r', 'u', 'e'] rest)
  | 'f' :: rest => after (word ['a', 'l', 's', 'e'] rest)
  | '"' :: rest => after (stringTail rest)
  | '-' :: rest => after (number true rest)
  | '[' :: _ | '\x7b' :: _ => .unsuitable
  | c :: rest => if isDigit c then after (number false (c :: rest)) else .malformed

/-- Reads a natural number up to a greatest one. -/
def naturalUpTo (greatest : Nat) (cs : List Char) : Except JsonFault (Found Nat) :=
  let cs := skipSpace cs
  match cs with
  | [] => .error .truncated
  | c :: rest =>
    if c == '-' || isDigit c then
      match number (c == '-') (if c == '-' then rest else cs) with
      | .ok (.natural n, behind) => if n ≤ greatest then .ok (n, behind) else .error .unsuitable
      | .ok (.other, _) => .error .unsuitable
      | .error fault => .error fault
    else .error (unwanted cs)

/-- Reads a natural number up to a greatest one, or null. -/
def naturalOrNull (greatest : Nat) (cs : List Char) : Except JsonFault (Found (Option Nat)) :=
  match skipSpace cs with
  | 'n' :: rest => (word ['u', 'l', 'l'] rest).map fun behind => (none, behind)
  | cs => (naturalUpTo greatest cs).map fun (n, behind) => (some n, behind)

end JsonText

end Scoping
