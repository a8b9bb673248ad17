import Scoping.Text.Span
import Scoping.Token.Keyword
import Scoping.Token.Punctuation

/-!
# Tokens

A token is a piece of source with its kind: the piece as it is written, its span, and flags that
the kind leaves open. The last token of a source is the end of input, which is written with no
text. Comments are tokens too; every other token is significant.
-/

namespace Scoping

/-- The category of a token. A string is any quoted text, a template included. -/
inductive TokenKind where
  | identifier
  | keyword (k : Keyword)
  | punctuation (p : Punctuation)
  | operator
  | string
  | number
  | regex
  | comment
  | endOfInput
  deriving DecidableEq, Repr, Inhabited

/-- What is known of a token besides its kind. -/
structure TokenFlags where
  /-- A line end parts the token from the one before. -/
  afterBreak : Bool
  /-- The string is a template. -/
  template : Bool
  /-- The template has a substitution. -/
  substitution : Bool
  /-- The comment is one with a closing mark. -/
  blockComment : Bool
  deriving DecidableEq, Repr, Inhabited

/-- No flag set. -/
def TokenFlags.none : TokenFlags := ⟨false, false, false, false⟩

/-- A piece of source. -/
structure Token where
  kind : TokenKind
  lexeme : String
  span : Span
  flags : TokenFlags
  deriving DecidableEq, Repr, Inhabited

namespace Token

def isPunct (t : Token) (p : Punctuation) : Bool := t.kind == .punctuation p

def isKeyword (t : Token) (k : Keyword) : Bool := t.kind == .keyword k

def isIdentifier (t : Token) : Bool := t.kind == .identifier

/-- An identifier that is spelled like the given contextual word. -/
def isContextual (t : Token) (word : String) : Bool := t.isIdentifier && t.lexeme == word

/-- A plain operator that is written like the given text. -/
def isOperator (t : Token) (text : String) : Bool := t.kind == .operator && t.lexeme == text

/-- The token means nothing to the grammar. -/
def isComment (t : Token) : Bool := t.kind == .comment

def isEnd (t : Token) : Bool := t.kind == .endOfInput

/-- A word, which can name a property. -/
def isWord (t : Token) : Bool :=
  match t.kind with
  | .identifier | .keyword _ => true
  | _ => false

/-- An expression can end with this token. What follows decides on it whether a slash divides or
begins a regular expression, and whether a line end closes a statement. -/
def endsExpression (t : Token) : Bool :=
  match t.kind with
  | .identifier | .string | .number | .regex => true
  | .keyword k => k.isValue
  | .punctuation p => p.isCloser
  | .operator => t.lexeme == "++" || t.lexeme == "--"
  | .comment | .endOfInput => false

/-- The token in the words of an error message. -/
def describe (t : Token) : String :=
  match t.kind with
  | .endOfInput => "end of input"
  | .identifier => "identifier `" ++ t.lexeme ++ "`"
  | .keyword _ => "keyword `" ++ t.lexeme ++ "`"
  | .string => "string literal"
  | .number => "number `" ++ t.lexeme ++ "`"
  | .regex => "regular expression"
  | .comment => "comment"
  | .punctuation _ | .operator => "`" ++ t.lexeme ++ "`"

end Token

end Scoping
