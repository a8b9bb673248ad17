import Scoping.Build.Expression

/-!
# Statements

Statements are read by their grammar, as far as it decides where scopes begin and end and which
names are declared. The body of a control statement is a scope of its own, with braces or without;
a loop's scope begins at its header when the header can declare names. Semicolons may be left out
where the next token stands behind a line end, closes a brace or ends the input.
-/

namespace Scoping

namespace Builder

variable (g : Grammar)

/-- The cursor stands where a statement may end without a semicolon, or on a semicolon. -/
def atStatementEnd : Build Bool := do
  let t ← current
  return t.isEnd || t.isPunct .semicolon || t.isPunct .closeBrace || t.flags.afterBreak

/-- Consumes a semicolon, or nothing where it may be left out. -/
def semicolon : Build Unit := do
  if ← here .semicolon then advance
  else if !(← atStatementEnd) then refuse (.punct .semicolon)

/-- An expression as a statement, which has to have at least one token. -/
def expressionStatement : Build Unit := do
  let first := (← get).pos
  g.expression .statement
  if (← get).pos == first then refuse .statement
  semicolon

/-- The expression in parentheses behind `if`, `while` and `switch`. -/
def condition : Build Unit := do
  expect .openParen
  grouped g .closeParen

/-- The single statement that is the body of the scope `id`, which ends with it. -/
def statementBody (id : ScopeId) : Build Unit := do
  g.statement .body
  closeScope id (← get).prevEnd

/-- The body of a control statement, with a scope of its own. -/
def body (kind : ScopeKind) (label : String) : Build Unit := do
  if ← here .openBrace then block g kind label
  else
    let start := (← current).span.start
    let id ← openScope kind label start .statement
    statementBody g id

/-- The body of a loop whose scope opened at its header. -/
def loopBody (id : ScopeId) : Build Unit := do
  if ← here .openBrace then braceBody g id
  else
    modify (·.reopen .statement)
    statementBody g id

/-- Declared names with their values, separated by commas. -/
def declaratorsFor (kind : BindingKind) (mode : ExpressionMode) : (rounds : Nat) → Build Unit
  | 0 => exhausted
  | rounds + 1 => do
    declareHere kind .variableName
    if ← here .equals then
      advance
      g.expression mode.upToComma
    if ← here .comma then
      advance
      declaratorsFor kind mode rounds

/-- Declared names with their values, the cursor on the declaring word. -/
def declarators (kind : BindingKind) (mode : ExpressionMode) : Build Unit := do
  advance
  declaratorsFor g kind mode (← read).rounds

/-- A declaration with its semicolon. -/
def declaration (kind : BindingKind) : Build Unit := do
  declarators g kind .statement
  semicolon

/-- A declaration that is bound to its block, which no control statement has for a body. -/
def lexicalDeclaration (kind : BindingKind) (place : StatementPlace) : Build Unit := do
  match place with
  | .body => reject ⟨(← current).span.start, .lexicalDeclaration⟩
  | .list => declaration g kind

/-- A chain of conditions, the cursor on the first `if`. -/
def conditionsFor : (rounds : Nat) → Build Unit
  | 0 => exhausted
  | rounds + 1 => do
    advance
    condition g
    body g .block "if-block"
    if ← hereWord .else_ then
      advance
      if ← hereWord .if_ then conditionsFor rounds
      else body g .block "else-block"

/-- The first clause of a loop header: nothing, a declaration or an expression. -/
def headerStart : Build Unit := do
  match (← current).kind with
  | .punctuation .semicolon => pure ()
  | .keyword .var => declarators g .var .header
  | .keyword .let_ => declarators g .let_ .header
  | .keyword .const => declarators g .const .header
  | _ => g.expression .header

/-- The rest of a loop header: what is iterated over, or a test and an update. -/
def headerRest : Build Unit := do
  if (← hereWord .in_) || (← current).isContextual "of" then
    advance
    g.expression .nested
  else
    expect .semicolon
    if !(← here .semicolon) then g.expression .nested
    expect .semicolon
    if !(← here .closeParen) then g.expression .nested
  expect .closeParen

/-- A loop with a header, whose scope begins at the parenthesis and holds the body as well. -/
def forStatement : Build Unit := do
  advance
  if ← hereWord .await then advance
  if !(← here .openParen) then refuse (.punct .openParen)
  let start := (← current).span.start
  let id ← openScope .loop "for-block" start .header
  advance
  headerStart g
  headerRest g
  loopBody g id

/-- A loop with its condition behind the body. -/
def doStatement : Build Unit := do
  advance
  body g .loop "do-block"
  if !(← hereWord .while_) then refuse .whileWord
  advance
  condition g
  if ← here .semicolon then advance

/-- The handler of a `try`, whose scope begins at the parameter if there is one. -/
def catchClause : Build Unit := do
  advance
  if ← here .openParen then
    let start := (← current).span.start
    let id ← openScope .block "catch-block" start .header
    advance
    declareHere .catchParam .catchParameter
    expect .closeParen
    braceBody g id
  else block g .block "catch-block"

/-- A `try` with a handler, a final block, or both. -/
def tryStatement : Build Unit := do
  advance
  block g .block "try-block"
  let caught ← hereWord .catch_
  if caught then catchClause g
  let finished ← hereWord .finally_
  if finished then
    advance
    block g .block "finally-block"
  if !caught && !finished then refuse .catchOrFinally

/-- The clauses of a `switch`, up to the closing brace. -/
def clausesFor : (rounds : Nat) → Build Unit
  | 0 => exhausted
  | rounds + 1 => do
    if ← here .closeBrace then return
    if (← current).isEnd then refuse (.punct .closeBrace)
    if ← hereWord .case then
      advance
      g.expression .nested
      expect .colon
    else if ← hereWord .default then
      advance
      expect .colon
    else g.statement .list
    clausesFor rounds

/-- A `switch`, all of whose clauses share one scope. -/
def switchStatement : Build Unit := do
  advance
  condition g
  if !(← here .openBrace) then refuse (.punct .openBrace)
  let start := (← current).span.start
  let id ← openScope .block "switch-block" start (.brace (← get).pos)
  advance
  clausesFor g (← read).rounds
  closeBraceScope id

/-- A `return` or `throw`, whose operand has to begin on its line. -/
def operandStatement : Build Unit := do
  advance
  if !(← atStatementEnd) then g.expression .statement
  semicolon

/-- A `break` or `continue`, whose label has to stand on its line. -/
def jumpStatement : Build Unit := do
  advance
  let t ← current
  if t.isIdentifier && !t.flags.afterBreak then advance
  semicolon

/-- A statement that begins with a keyword. -/
def keywordStatement (place : StatementPlace) (k : Keyword) : Build Unit := do
  match k with
  | .var => declaration g .var
  | .let_ => lexicalDeclaration g .let_ place
  | .const => lexicalDeclaration g .const place
  | .function => functionLiteral g .declaration
  | .if_ => conditionsFor g (← read).rounds
  | .for_ => forStatement g
  | .while_ =>
    advance
    condition g
    body g .loop "while-block"
  | .do_ => doStatement g
  | .try_ => tryStatement g
  | .switch => switchStatement g
  | .return_ | .throw => operandStatement g
  | .break_ | .continue_ => jumpStatement
  | .debugger =>
    advance
    semicolon
  | .class_ => refuseFeature .classDeclarations
  | .import_ | .export_ => refuseFeature .modules
  | .with_ => refuseFeature .withStatements
  | .else_ | .catch_ | .finally_ | .case | .default => refuse .statement
  | _ => expressionStatement g

/-- Passes over the labels before a statement. -/
def labelsFor : (rounds : Nat) → Build Unit
  | 0 => exhausted
  | rounds + 1 => do
    if (← current).isIdentifier && (← peek 1).isPunct .colon then
      advance
      advance
      labelsFor rounds

/-- A statement behind its labels. -/
def unlabeled (place : StatementPlace) : Build Unit := do
  let t ← current
  match t.kind with
  | .punctuation .openBrace => block g .block "block"
  | .punctuation .semicolon => advance
  | .punctuation .closeBrace | .punctuation .closeParen | .punctuation .closeBracket =>
    refuse .statement
  | .keyword k => keywordStatement g place k
  | .identifier =>
    let next ← peek 1
    if t.isContextual "async" && next.isKeyword .function && !next.flags.afterBreak then
      advance
      functionLiteral g .declaration
    else expressionStatement g
  | _ => expressionStatement g

/-- One statement with its labels. -/
def statement (place : StatementPlace) : Build Unit := do
  labelsFor (← read).rounds
  unlabeled g place

end Builder

end Scoping
