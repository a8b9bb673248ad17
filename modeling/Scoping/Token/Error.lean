import Scoping.Text.Cursor
import Scoping.Text.Quoted

/-!
# Lexical errors

Why a source cannot be cut into tokens, and where. The position is the start of the offending
piece: of the innermost literal or comment that does not end, of the character that starts no
token, or of the first token past the limit.
-/

namespace Scoping

/-- The cause of a lexical error. -/
inductive LexReason where
  | unterminatedString
  | unterminatedTemplate
  | unterminatedComment
  | unterminatedRegex
  | unexpectedCharacter (character : Char)
  | tokenLimitExceeded (limit : Nat)
  deriving DecidableEq, Repr, Inhabited

/-- A lexical error at a byte offset. -/
structure LexError where
  position : Nat
  reason : LexReason
  deriving DecidableEq, Repr, Inhabited

/-- The cause in words. -/
def LexReason.message : LexReason → String
  | unterminatedString => "unterminated string literal"
  | unterminatedTemplate => "unterminated template literal"
  | unterminatedComment => "unterminated block comment"
  | unterminatedRegex => "unterminated regular expression literal"
  | unexpectedCharacter c => "unexpected character " ++ quotedChar c
  | tokenLimitExceeded limit => "token limit of " ++ toString limit ++ " exceeded"

/-- The error in words. -/
def LexError.message (e : LexError) : String :=
  e.reason.message ++ " at offset " ++ toString e.position

/-- How reading a token fails: the error, and the cursor where the reader gave up, from which
reading can be taken up again. -/
structure Halt where
  error : LexError
  cursor : Cursor
  deriving DecidableEq, Repr, Inhabited

/-- What reading a piece of source comes to. -/
abbrev Reader := Except Halt

end Scoping
