import Scoping.Build.Grammar

/-!
# Expressions

An expression is not analysed. The builder passes over its tokens to the first that cannot continue
it, records the names used, and goes into what matters for scopes: functions, object literals, whose
keys are no uses, and bracketed groups. Much that is no expression is passed over as well; brackets
and the places of names are what it is strict about.
-/

namespace Scoping

/-- Where a function stands. -/
inductive FunctionForm where
  /-- As a statement: it has to have a name, which is bound around it. -/
  | declaration
  /-- In an expression: a name is bound inside it. -/
  | expression
  deriving DecidableEq, Repr, Inhabited

/-- The token begins an operand, so that behind a line end it begins a new statement. -/
def Token.startsOperand (t : Token) : Bool :=
  match t.kind with
  | .identifier | .string | .number | .regex => true
  | .keyword k => k != .in_ && k != .instanceof
  | .punctuation p => p == .openBrace
  | .operator => t.lexeme == "++" || t.lexeme == "--" || t.lexeme == "!" || t.lexeme == "~"
  | .comment | .endOfInput => false

/-- The token can be the key of a method behind `get`, `set` or `async`. -/
def Token.startsKey (t : Token) : Bool :=
  match t.kind with
  | .identifier | .keyword _ | .string | .number => true
  | .punctuation p => p == .openBracket
  | _ => t.isOperator "*"

/-- The text of a quoted key: quotes at both ends are dropped, however many. -/
def keyText (lexeme : String) : String :=
  let quote : Char → Bool := fun c => c == '\'' || c == '"'
  String.ofList ((lexeme.toList.dropWhile quote).reverse.dropWhile quote).reverse

namespace Builder

variable (g : Grammar)

/-- The rest of a parameter list, its opening parenthesis consumed, up to the closing one. -/
def parametersFor : (rounds : Nat) → Build Unit
  | 0 => exhausted
  | rounds + 1 => do
    if ← here .closeParen then return
    if ← here .ellipsis then advance
    declareHere .param .parameterName
    if ← here .equals then
      advance
      g.expression .item
    if ← here .comma then
      advance
      parametersFor rounds

/-- A parameter list in parentheses, the cursor on the opening one. -/
def parameters : Build Unit := do
  advance
  enter
  parametersFor g (← read).rounds
  expect .closeParen
  leave

/-- An arrow function, the cursor on its parameter or the parenthesis before its parameters. -/
def arrowFunction (mode : ExpressionMode) : Build Unit := do
  let start := (← current).span.start
  let id ← openScope .function "arrow" start .header
  if ← here .openParen then
    parameters g
  else
    declare (← current) .param
    advance
  expectArrow
  if ← here .openBrace then
    braceBody g id
  else
    g.expression ⟨true, mode.insertSemicolons, false⟩
    closeScope id (← get).prevEnd

/-- The parameters and body of a function. A name of its own is bound inside. -/
def functionTail (label : String) (ownName : Option Token) : Build Unit := do
  if !(← here .openParen) then refuse (.punct .openParen)
  let start := (← current).span.start
  let id ← openScope .function label start .header
  match ownName with
  | some name => declare name .function
  | none => pure ()
  parameters g
  braceBody g id

/-- The name of a function, if it has one, behind the word `function` and a star. -/
def functionName : Build (Option Token) := do
  advance
  if (← current).isOperator "*" then advance
  let name ← current
  if name.isIdentifier then
    advance
    return some name
  else return none

/-- A function, the cursor on the word `function`. -/
def functionLiteral (form : FunctionForm) : Build Unit := do
  let name? ← functionName
  match form, name? with
  | .declaration, none => refuse .functionName
  | .declaration, some name =>
    declare name .function
    functionTail g name.lexeme none
  | .expression, none => functionTail g "anonymous" none
  | .expression, some name => functionTail g name.lexeme (some name)

/-- The words and the star that may stand before the key of a method. True if one does, so that a
method has to follow. -/
def methodMarks : Build Bool := do
  let t ← current
  if t.isOperator "*" then
    advance
    return true
  else if (t.isContextual "get" || t.isContextual "set" || t.isContextual "async")
      && (← peek 1).startsKey then
    advance
    if (← current).isOperator "*" then advance
    return true
  else return false

/-- The key of a member, and what a method under it is called. -/
def memberKey : Build (Token × String) := do
  let key ← current
  match key.kind with
  | .identifier | .keyword _ | .number =>
    advance
    return (key, key.lexeme)
  | .string =>
    advance
    return (key, keyText key.lexeme)
  | .punctuation .openBracket =>
    advance
    grouped g .closeBracket
    return (key, "anonymous")
  | _ => refuse .propertyName

/-- A member of an object literal: a value under a key, a name that is key and value, a method, or
a spread. -/
def member : Build Unit := do
  if ← here .ellipsis then
    advance
    g.expression .item
  else
    let methodOnly ← methodMarks
    let (key, label) ← memberKey g
    if ← here .openParen then
      functionTail g label none
    else if methodOnly then refuse (.punct .openParen)
    else
      match (← current).kind with
      | .punctuation .colon =>
        advance
        g.expression .item
      | .punctuation .comma | .punctuation .closeBrace =>
        if key.isIdentifier then refer key
      | .punctuation .equals => refuseFeature .destructuring
      | _ => refuse (.punct .colon)

/-- The members of an object literal, up to the closing brace. -/
def membersFor : (rounds : Nat) → Build Unit
  | 0 => exhausted
  | rounds + 1 => do
    if ← here .closeBrace then return
    member g
    if ← here .comma then advance
    else if !(← here .closeBrace) then refuse .commaOrBrace
    membersFor rounds

/-- An object literal, the cursor on its opening brace. -/
def objectLiteral : Build Unit := do
  advance
  enter
  membersFor g (← read).rounds
  advance
  leave

/-- A name in an expression: the parameter of an arrow function, the word `async` before a function,
or a use of the name. -/
def identifierOperand (mode : ExpressionMode) : Build Unit := do
  let t ← current
  let next ← peek 1
  if next.isPunct .arrow then arrowFunction g mode
  else if t.isContextual "async" && !next.flags.afterBreak && next.isKeyword .function then
    advance
    functionLiteral g .expression
  else if t.isContextual "async" && !next.flags.afterBreak
      && ((next.isIdentifier && (← peek 2).isPunct .arrow)
        || (next.isPunct .openParen && (← read).startsArrow ((← get).pos + 1))) then
    advance
    arrowFunction g mode
  else
    refer t
    advance

/-- The token before the cursor ends an expression. -/
def prevEndsExpression : Build Bool := do
  return ((← get).prev).any (·.endsExpression)

/-- An expression that began before the cursor ends here because of its mode. -/
def endsByMode (mode : ExpressionMode) (t : Token) : Build Bool := do
  let operandBefore ← prevEndsExpression
  let newLine := mode.insertSemicolons && t.flags.afterBreak && operandBefore && t.startsOperand
  let header := mode.inHeader && (t.isKeyword .in_ || (t.isContextual "of" && operandBefore))
  return newLine || header

/-- One mark of an expression, with the number of question marks that wait for their colon. Nothing
is left to do where the expression ends. -/
def expressionMark (mode : ExpressionMode) (colons : Nat) (p : Punctuation) :
    Build (Option Nat) := do
  match p with
  | .semicolon | .closeBrace | .closeParen | .closeBracket => return none
  | .comma =>
    if mode.stopAtComma then return none
    advance
    return some colons
  | .question =>
    advance
    return some (colons + 1)
  | .colon =>
    if colons == 0 then return none
    advance
    return some (colons - 1)
  | .openParen =>
    if (← read).startsArrow (← get).pos then arrowFunction g mode
    else
      advance
      grouped g .closeParen
    return some colons
  | .openBracket =>
    advance
    grouped g .closeBracket
    return some colons
  | .openBrace =>
    objectLiteral g
    return some colons
  | .dot | .questionDot =>
    advance
    if (← current).isWord then advance
    return some colons
  | .ellipsis | .equals =>
    advance
    return some colons
  | .arrow => refuse .expression

/-- One keyword of an expression. -/
def expressionWord (colons : Nat) (k : Keyword) : Build (Option Nat) := do
  match k with
  | .function =>
    functionLiteral g .expression
    return some colons
  | .class_ => refuseFeature .classExpressions
  | .import_ => refuseFeature .modules
  | k =>
    if k.startsStatement then return none
    advance
    return some colons

/-- One step over an expression that began at `first`. -/
def expressionStep (mode : ExpressionMode) (first colons : Nat) : Build (Option Nat) := do
  let t ← current
  if (← get).pos != first then
    if ← endsByMode mode t then return none
  match t.kind with
  | .endOfInput => return none
  | .punctuation p => expressionMark g mode colons p
  | .identifier =>
    identifierOperand g mode
    return some colons
  | .keyword k => expressionWord g colons k
  | _ =>
    advance
    return some colons

/-- The steps over an expression that began at `first`. -/
def expressionFor (mode : ExpressionMode) (first : Nat) : (rounds colons : Nat) → Build Unit
  | 0, _ => exhausted
  | rounds + 1, colons => do
    match ← expressionStep g mode first colons with
    | none => return
    | some colons => expressionFor mode first rounds colons

/-- One expression, up to the first token that cannot continue it. -/
def expression (mode : ExpressionMode) : Build Unit := do
  expressionFor g mode (← get).pos (← read).rounds 0

end Builder

end Scoping
