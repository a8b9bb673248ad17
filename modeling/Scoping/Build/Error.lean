import Scoping.Token.Basic

/-!
# Errors of the scope builder

Why tokens make no scope tree, and at which offset. What was wanted and which construct is not
supported are named by cause; the wording is in one place.
-/

namespace Scoping

/-- What the grammar wanted at the place of an error. -/
inductive Expectation where
  | statement | expression | variableName | functionName | parameterName | propertyName
  | catchParameter | catchOrFinally | whileWord | commaOrBrace
  | punct (p : Punctuation)
  deriving DecidableEq, Repr, Inhabited

/-- What was wanted, in words. -/
def Expectation.text : Expectation → String
  | statement => "a statement"
  | expression => "an expression"
  | variableName => "a variable name"
  | functionName => "a function name"
  | parameterName => "a parameter name"
  | propertyName => "a property name"
  | catchParameter => "a catch parameter"
  | catchOrFinally => "`catch` or `finally`"
  | whileWord => "`while`"
  | commaOrBrace => "`,` or `\x7d`"
  | punct p => "`" ++ p.text ++ "`"

/-- A construct that the builder recognises and refuses. -/
inductive Feature where
  | classDeclarations | classExpressions | modules | withStatements | destructuring
  deriving DecidableEq, Repr, Inhabited

/-- The construct in words. -/
def Feature.text : Feature → String
  | classDeclarations => "class declarations"
  | classExpressions => "class expressions"
  | modules => "modules"
  | withStatements => "with statements"
  | destructuring => "destructuring patterns"

/-- The cause of a parse error. -/
inductive ParseReason where
  /-- A closing bracket without partner. -/
  | unbalanced (found : Punctuation)
  | unexpected (expected : Expectation) (found : Token)
  /-- The input ends inside the scope that opened there. -/
  | unterminatedScope (openedAt : Nat)
  /-- A `let` or `const` where one statement is wanted. -/
  | lexicalDeclaration
  | unsupported (feature : Feature)
  | nestingTooDeep (limit : Nat)
  | missingEnd
  deriving DecidableEq, Repr, Inhabited

/-- A parse error at a byte offset. -/
structure ParseError where
  position : Nat
  reason : ParseReason
  deriving DecidableEq, Repr, Inhabited

/-- The cause in words. -/
def ParseReason.message : ParseReason → String
  | unbalanced p => "unbalanced `" ++ p.text ++ "`"
  | unexpected expected found => "expected " ++ expected.text ++ ", found " ++ found.describe
  | unterminatedScope openedAt => "unterminated scope opened at offset " ++ toString openedAt
  | lexicalDeclaration => "lexical declaration cannot appear in a single-statement context"
  | unsupported feature => feature.text ++ " are not supported"
  | nestingTooDeep limit => "nesting deeper than " ++ toString limit ++ " levels"
  | missingEnd => "token stream does not end with an end-of-input token"

/-- The error in words. -/
def ParseError.message (e : ParseError) : String :=
  e.reason.message ++ " at offset " ++ toString e.position

/-- How a run of the builder ends without a tree. -/
inductive Failure where
  /-- The tokens are refused. -/
  | rejected (e : ParseError)
  /-- A check of the builder on its own state fails: the brace at the cursor does not close the
  scope on top, a scope is closed out of turn, an arrow is gone, or a scope is open at the end. -/
  | inconsistent (e : ParseError)
  /-- A budget of recursion or of rounds is used up. -/
  | exhausted
  deriving DecidableEq, Repr, Inhabited

end Scoping
