import Scoping.Token.Literal
import Scoping.Token.Lookbehind

/-!
# The lexer

A lexer walks a source and gives one token at a time. It can be asked again after an error: it then
goes on from where the failed reading stopped. `tokenize` runs it to the first end of input or
error, and a `TokenStream` is a lexer that has a memory of being finished.

Tokens can be limited in number. The limit counts comments but not the end of input, and is checked
before a token is read, so the error stands where the first token too many begins.
-/

namespace Scoping

/-- One token as its reader finds it: what it is, and the cursor behind it. -/
structure Reading where
  kind : TokenKind
  flags : TokenFlags
  stop : Cursor
  deriving DecidableEq, Repr, Inhabited

/-- The mark that a text begins with. A question mark and a point before a digit are two marks. -/
def markAt? (text : List Char) : Option (List Char) :=
  match marks.find? (·.isPrefixOf text) with
  | some ['?', '.'] => if (text[2]?).any isDigit then some ['?'] else some ['?', '.']
  | found => found

/-- The kind of a mark. -/
def markKind (mark : List Char) : TokenKind :=
  match Punctuation.ofText? (String.ofList mark) with
  | some p => .punctuation p
  | none => .operator

/-- The kind of a word. -/
def wordKind (word : String) : TokenKind :=
  match Keyword.ofText? word with
  | some k => .keyword k
  | none => .identifier

/-- Passes over as many characters as `mark` has. -/
def Cursor.skipMark (c : Cursor) : (mark : List Char) → Cursor
  | [] => c
  | _ :: mark => c.next.skipMark mark

/-- Reads the token that begins with `first`, at the cursor `c`; `more` is the text behind. -/
def readToken (afterOperand : Bool) (c : Cursor) (first : Char) (more : List Char) :
    Reader Reading :=
  let next := more.head?
  if first == '#' && c.offset == 0 && next == some '!' then .ok ⟨.comment, .none, c.skipLine⟩
  else if first == '/' && next == some '/' then .ok ⟨.comment, .none, c.skipLine⟩
  else if first == '/' && next == some '*' then
    match blockComment c with
    | .ok stop => .ok ⟨.comment, { TokenFlags.none with blockComment := true }, stop⟩
    | .error halt => .error halt
  else if first == '/' && !afterOperand then
    match regexLiteral c with
    | .ok stop => .ok ⟨.regex, .none, stop⟩
    | .error halt => .error halt
  else if first == '\'' || first == '"' then
    match stringLiteral first c with
    | .ok stop => .ok ⟨.string, .none, stop⟩
    | .error halt => .error halt
  else if first == '\x60' then
    match templateLiteral c with
    | .ok (found, stop) =>
      .ok ⟨.string, { TokenFlags.none with template := true, substitution := found }, stop⟩
    | .error halt => .error halt
  else if isDigit first || (first == '.' && next.any isDigit) then
    .ok ⟨.number, .none, c.skipNumber⟩
  else if startsName first then
    let stop := c.skipWhile continuesName
    .ok ⟨wordKind (c.textTo stop), .none, stop⟩
  else
    match markAt? (first :: more) with
    | some mark => .ok ⟨markKind mark, .none, c.skipMark mark⟩
    | none => .error ⟨⟨c.offset, .unexpectedCharacter first⟩, c⟩

/-- A reader of tokens at some place in a source. -/
structure Lexer where
  cursor : Cursor
  lookbehind : Lookbehind
  /-- How many tokens may be read, and how many have been, the end of input apart. -/
  limit : Option Nat
  emitted : Nat
  deriving DecidableEq, Repr, Inhabited

namespace Lexer

/-- The lexer at the start of a source. -/
def start (source : String) (limit : Option Nat) : Lexer :=
  ⟨Cursor.start source, Lookbehind.start, limit, 0⟩

/-- The token found between two cursors. -/
def tokenOf (start : Cursor) (afterBreak : Bool) (r : Reading) : Token :=
  ⟨r.kind, start.textTo r.stop, ⟨start.offset, r.stop.offset⟩,
    { r.flags with afterBreak := afterBreak }⟩

/-- The lexer behind a token: only a significant one settles what a slash means, and only it ends
the memory of lines crossed. -/
def moved (lx : Lexer) (t : Token) (stop : Cursor) : Lexer :=
  if t.isComment then
    { lx with
      cursor := { stop with crossed := t.flags.afterBreak || stop.crossed }
      emitted := lx.emitted + 1 }
  else
    { lx with
      cursor := { stop with crossed := false }
      lookbehind := lx.lookbehind.push t
      emitted := lx.emitted + 1 }

/-- The next token or error, and the lexer from which to go on. The end of input is given again
whenever it is asked for. -/
def scan (lx : Lexer) : Except LexError Token × Lexer :=
  let (met, start) := lx.cursor.skipGap
  let afterBreak := met || lx.cursor.crossed
  match start.rest with
  | [] =>
    (.ok (tokenOf start afterBreak ⟨.endOfInput, .none, start⟩),
      { lx with cursor := { start with crossed := false } })
  | first :: more =>
    match lx.limit.filter (· ≤ lx.emitted) with
    | some limit => (.error ⟨start.offset, .tokenLimitExceeded limit⟩, { lx with cursor := start })
    | none =>
      match readToken lx.lookbehind.afterOperand start first more with
      | .error halt => (.error halt.error, { lx with cursor := halt.cursor })
      | .ok r =>
        let t := tokenOf start afterBreak r
        (.ok t, lx.moved t r.stop)

/-- All tokens from the lexer on, behind those in `found`, latest first. Each token but the last
spends one character of the budget. -/
def collect (found : List Token) (budget : List Char) (lx : Lexer) :
    Except LexError (List Token) :=
  match lx.scan with
  | (.error e, _) => .error e
  | (.ok t, behind) =>
    if t.isEnd then .ok (t :: found).reverse
    else
      match budget with
      | [] => .ok (t :: found).reverse
      | _ :: budget => collect (t :: found) budget behind

end Lexer

/-- The tokens of a source, the end of input last, or the first lexical error. With a limit, a
source of more tokens is an error too. -/
def tokenize (source : String) (limit : Option Nat) : Except LexError (List Token) :=
  Lexer.collect [] source.toList (Lexer.start source limit)

/-- A lexer over a source, as a supply of tokens that dries up at the end of input and at the first
error. -/
structure TokenStream where
  source : String
  lexer : Lexer
  finished : Bool
  deriving DecidableEq, Repr, Inhabited

namespace TokenStream

/-- The stream of all tokens of a source. -/
def start (source : String) (limit : Option Nat) : TokenStream :=
  ⟨source, Lexer.start source limit, false⟩

/-- The next token or error; nothing once the stream is finished. -/
def next (s : TokenStream) : Option (Except LexError Token) × TokenStream :=
  if s.finished then (none, s)
  else
    let (answer, lexer) := s.lexer.scan
    let ended := match answer with
      | .ok t => t.isEnd
      | .error _ => true
    (some answer, { s with lexer := lexer, finished := ended })

/-- The next token or error whether or not the stream is finished, which stays as it is. -/
def scan (s : TokenStream) : Except LexError Token × TokenStream :=
  let (answer, lexer) := s.lexer.scan
  (answer, { s with lexer := lexer })

/-- The stream from its beginning. -/
def reset (s : TokenStream) : TokenStream := start s.source s.lexer.limit

end TokenStream

end Scoping
