import Scoping.Token.Error

/-!
# Literals and comments

The readers of those tokens whose bodies are read whole, so that nothing inside them is taken for
structure: comments, strings, regular expressions, numbers and templates. Each takes the offset at
which the literal opened and the cursor behind its opening mark, and gives the cursor behind the
literal, or an error at the opening offset together with the cursor where the text gave out.

A template is read together with its substitutions. Inside a substitution braces are counted, and
strings, comments and templates are passed over whole; regular expressions are not recognised there.
The two readers call each other, and spend one character of a budget for every step. The text
itself is budget enough, since each step moves the cursor.
-/

namespace Scoping

/-- The failure to find the end of a literal that opened at `opened`. -/
def unterminated {α : Type} (opened : Nat) (reason : LexReason) (stop : Cursor) : Reader α :=
  .error ⟨⟨opened, reason⟩, stop⟩

/-! ## Comments -/

/-- Passes over a line comment, up to the newline that ends it. -/
def Cursor.skipLine (c : Cursor) : Cursor := c.skipWhile (fun x => !isNewline x)

/-- The cursor behind the next closing mark of a comment. It has crossed a line when it had before
or when a newline stands before the mark. -/
def commentTail? (crossed : Bool) (offset : Nat) : List Char → Option Cursor
  | [] => none
  | '*' :: '/' :: rest => some ⟨offset + 2, rest, crossed⟩
  | x :: rest => commentTail? (crossed || isNewline x) (offset + x.utf8Size) rest

/-- Reads a block comment, the cursor standing on its opening mark. A reader that finds no closing
mark stays behind the opening one. -/
def blockComment (c : Cursor) : Reader Cursor :=
  let inside := c.next.next
  match commentTail? inside.crossed inside.offset inside.rest with
  | some stop => .ok stop
  | none => unterminated c.offset .unterminatedComment inside

/-! ## Strings -/

/-- Reads the rest of a string whose opening quote stands at `opened`. A backslash takes the next
character with it, CR LF counting as one; a bare newline ends the search. -/
def stringTail (quote : Char) (opened : Nat) (crossed : Bool) (offset : Nat) :
    List Char → Reader Cursor
  | [] => unterminated opened .unterminatedString ⟨offset, [], crossed⟩
  | ['\\'] => unterminated opened .unterminatedString ⟨offset + 1, [], crossed⟩
  | '\\' :: '\r' :: '\n' :: rest => stringTail quote opened crossed (offset + 3) rest
  | '\\' :: x :: rest => stringTail quote opened crossed (offset + 1 + x.utf8Size) rest
  | x :: rest =>
    if isNewline x then unterminated opened .unterminatedString ⟨offset, x :: rest, crossed⟩
    else if x == quote then .ok ⟨offset + x.utf8Size, rest, crossed⟩
    else stringTail quote opened crossed (offset + x.utf8Size) rest

/-- Reads a string, the cursor standing on its opening quote. -/
def stringLiteral (quote : Char) (c : Cursor) : Reader Cursor :=
  let inside := c.next
  stringTail quote c.offset inside.crossed inside.offset inside.rest

/-! ## Regular expressions -/

/-- Reads the rest of a regular expression's body, up to and with the slash that closes it. A
backslash takes the next character with it, and a slash inside a class closes nothing. -/
def regexTail (opened : Nat) (crossed : Bool) (inClass : Bool) (offset : Nat) :
    List Char → Reader Cursor
  | [] => unterminated opened .unterminatedRegex ⟨offset, [], crossed⟩
  | ['\\'] => unterminated opened .unterminatedRegex ⟨offset + 1, [], crossed⟩
  | '\\' :: x :: rest =>
    if isNewline x then unterminated opened .unterminatedRegex ⟨offset + 1, x :: rest, crossed⟩
    else regexTail opened crossed inClass (offset + 1 + x.utf8Size) rest
  | x :: rest =>
    if isNewline x then unterminated opened .unterminatedRegex ⟨offset, x :: rest, crossed⟩
    else if x == '[' then regexTail opened crossed true (offset + x.utf8Size) rest
    else if x == ']' then regexTail opened crossed false (offset + x.utf8Size) rest
    else if x == '/' && !inClass then .ok ⟨offset + x.utf8Size, rest, crossed⟩
    else regexTail opened crossed inClass (offset + x.utf8Size) rest

/-- Reads a regular expression with its flags, the cursor standing on the opening slash. -/
def regexLiteral (c : Cursor) : Reader Cursor :=
  let inside := c.next
  match regexTail c.offset inside.crossed false inside.offset inside.rest with
  | .ok stop => .ok (stop.skipWhile continuesName)
  | .error halt => .error halt

/-! ## Numbers -/

/-- Passes over one given character, if it is next. -/
def Cursor.skipIf (x : Char) (c : Cursor) : Cursor := if c.rest.head? == some x then c.next else c

/-- Passes over the fraction of a decimal number: a point and any digits. -/
def Cursor.skipFraction (c : Cursor) : Cursor :=
  if c.rest.head? == some '.' then c.next.skipWhile continuesDigits else c

/-- Passes over an exponent, which has to have a digit after its mark and sign. -/
def Cursor.skipExponent (c : Cursor) : Cursor :=
  match c.rest with
  | mark :: x :: rest =>
    if mark != 'e' && mark != 'E' then c
    else if isDigit x then c.next.next.skipWhile continuesDigits
    else if (x == '+' || x == '-') && (rest.head?).any isDigit then
      c.next.next.skipWhile continuesDigits
    else c
  | _ => c

/-- The letters that name a radix behind a zero. -/
def marksRadix (c : Char) : Bool :=
  c == 'x' || c == 'X' || c == 'o' || c == 'O' || c == 'b' || c == 'B'

/-- Passes over a number. Behind a radix every letter and digit belongs to it, whatever the radix;
a decimal number may have a fraction, an exponent and the suffix `n`. -/
def Cursor.skipNumber (c : Cursor) : Cursor :=
  if c.rest.head? == some '0' && (c.next.rest.head?).any marksRadix then
    c.next.next.skipWhile continuesNumber
  else (c.skipWhile continuesDigits).skipFraction.skipExponent.skipIf 'n'

/-! ## Templates -/

mutual
/-- Reads the rest of a template that opened at `opened`, and says whether it has a substitution;
one may have been `found` before. A backslash takes the next character with it. -/
def templateTail (budget : List Char) (opened : Nat) (found : Bool) (c : Cursor) :
    Reader (Bool × Cursor) :=
  match budget with
  | [] => unterminated opened .unterminatedTemplate c
  | _ :: budget =>
    match c.rest with
    | [] => unterminated opened .unterminatedTemplate c
    | x :: rest =>
      if x == '\\' then templateTail budget opened found c.next.next
      else if x == '\x60' then .ok (found, c.next)
      else if x == '$' && rest.head? == some '\x7b' then
        match substitutionTail budget opened 1 c.next.next with
        | .ok behind => templateTail budget opened true behind
        | .error halt => .error halt
      else templateTail budget opened found c.next
/-- Reads the rest of a substitution of the template that opened at `opened`, up to the brace that
closes the outermost of `depth` open ones. -/
def substitutionTail (budget : List Char) (opened : Nat) (depth : Nat) (c : Cursor) :
    Reader Cursor :=
  match budget with
  | [] => unterminated opened .unterminatedTemplate c
  | _ :: budget =>
    match c.rest with
    | [] => unterminated opened .unterminatedTemplate c
    | x :: rest =>
      if x == '\x7b' then substitutionTail budget opened (depth + 1) c.next
      else if x == '\x7d' then
        if depth ≤ 1 then .ok c.next else substitutionTail budget opened (depth - 1) c.next
      else if x == '\'' || x == '"' then
        match stringLiteral x c with
        | .ok behind => substitutionTail budget opened depth behind
        | .error halt => .error halt
      else if x == '\x60' then
        match templateTail budget c.offset false c.next with
        | .ok (_, behind) => substitutionTail budget opened depth behind
        | .error halt => .error halt
      else if x == '/' && rest.head? == some '/' then
        substitutionTail budget opened depth c.skipLine
      else if x == '/' && rest.head? == some '*' then
        match blockComment c with
        | .ok behind => substitutionTail budget opened depth behind
        | .error halt => .error halt
      else substitutionTail budget opened depth c.next
end

/-- Reads a template, the cursor standing on its opening mark, and says whether it has a
substitution. -/
def templateLiteral (c : Cursor) : Reader (Bool × Cursor) :=
  templateTail c.rest c.offset false c.next

end Scoping
