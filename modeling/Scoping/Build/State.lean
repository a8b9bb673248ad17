import Scoping.Build.Bracket
import Scoping.Build.Error
import Scoping.Tree.Basic

/-!
# The builder's state

The builder walks over the significant tokens with a cursor, and keeps a stack of the scopes that
are open around it. A name is declared in, or referred to from, the scope on top; a declaration
that leaves blocks goes down the stack to the nearest function. Each open scope remembers what
opened it, and one that a brace opened is closed by the partner of that brace.

The state is changed by the total functions on `State`. `Build` adds what a run needs: the tokens to
read from, and failure.
-/

namespace Scoping

/-- What opened a scope. -/
inductive Opener where
  | root
  /-- The brace at this place among the significant tokens. -/
  | brace (place : Nat)
  /-- A header, whose body is still to come. -/
  | header
  /-- A single statement without braces. -/
  | statement
  deriving DecidableEq, Repr, Inhabited

/-- An open scope, the offset at which it starts and what opened it. -/
structure Frame where
  scope : ScopeId
  opener : Opener
  start : Nat
  deriving DecidableEq, Repr, Inhabited

namespace Builder

/-- What a run reads and does not change. -/
structure Context where
  /-- The significant tokens, with the end of input last. -/
  tokens : Array Token
  /-- The last token, which stands for all places behind it too. -/
  final : Token
  partners : Array (Option Nat)
  /-- How deep scopes and bracketed groups may nest. -/
  limit : Nat
  deriving DecidableEq, Repr, Inhabited

namespace Context

/-- The token at a place. -/
def token (c : Context) (place : Nat) : Token := c.tokens.getD place c.final

/-- The partner of the bracket at a place. -/
def partner? (c : Context) (place : Nat) : Option Nat := (c.partners[place]?).join

/-- The length of the source. -/
def sourceSize (c : Context) : Nat := c.final.span.stop

/-- How many rounds a loop may go: each consumes a token, all but the last. -/
def rounds (c : Context) : Nat := c.tokens.size + 1

/-- The bracket at a place is closed right before an arrow. -/
def startsArrow (c : Context) (place : Nat) : Bool :=
  ((c.partner? place).bind fun close => c.tokens[close + 1]?).any (·.isPunct .arrow)

end Context

/-- What a run has come to. -/
structure State where
  /-- The place of the cursor among the significant tokens. -/
  pos : Nat
  /-- The token consumed last. -/
  prev : Option Token
  scopes : Array Scope
  bindings : Array Binding
  references : Array Reference
  /-- The open scopes, innermost first. -/
  frames : List Frame
  /-- How many scopes and groups are open, the global scope apart. -/
  depth : Nat
  deriving DecidableEq, Repr, Inhabited

namespace State

/-- Nothing read yet, and the global scope open. -/
def start : State :=
  ⟨0, none, #[⟨globalScope, .global, "Global", none, #[], #[], .point 0⟩], #[], #[],
    [⟨globalScope, .root, 0⟩], 0⟩

/-- The innermost open scope. -/
def currentScope (s : State) : ScopeId :=
  match s.frames with
  | [] => globalScope
  | f :: _ => f.scope

/-- The innermost open scope other than the global one, if one is open. -/
def openFrame? (s : State) : Option Frame := s.frames.head?.filter (·.scope != globalScope)

/-- Where the last consumed token ends. -/
def prevEnd (s : State) : Nat :=
  match s.prev with
  | none => 0
  | some t => t.span.stop

/-- The cursor behind the given token. The end of input is never passed. -/
def consume (s : State) (t : Token) : State :=
  { s with prev := some t, pos := if t.isEnd then s.pos else s.pos + 1 }

def deepen (s : State) : State := { s with depth := s.depth + 1 }

def rise (s : State) : State := { s with depth := s.depth - 1 }

/-- A new scope inside the innermost open one, open itself. -/
def pushScope (s : State) (kind : ScopeKind) (label : String) (start : Nat) (opener : Opener) :
    State :=
  let id := s.scopes.size
  let parent := s.currentScope
  let node : Scope := ⟨id, kind, label, some parent, #[], #[], .point start⟩
  { s with
    scopes := (s.scopes.modify parent fun p => { p with children := p.children.push id }).push node
    frames := ⟨id, opener, start⟩ :: s.frames }

/-- The innermost open scope is from now on opened by `opener`. -/
def reopen (s : State) (opener : Opener) : State :=
  match s.frames with
  | [] => s
  | f :: rest => { s with frames := { f with opener := opener } :: rest }

/-- The scope `id` ends, and with it the innermost frame. -/
def popScope (s : State) (id : ScopeId) (stop : Nat) : State :=
  { s with
    scopes := s.scopes.modify id fun n => { n with range := { n.range with stop := stop } }
    frames := s.frames.tail }

/-- The scope in which a declaration made here ends up. -/
def target (s : State) (kind : BindingKind) : ScopeId :=
  if kind.hoists then
    match s.frames.find? fun f => (s.scopes[f.scope]?).any (·.kind.boundsFunction) with
    | some f => f.scope
    | none => globalScope
  else s.currentScope

/-- Declares the name of a token. -/
def declare (s : State) (name : Token) (kind : BindingKind) : State :=
  let scope := s.target kind
  match (s.scopes[scope]?).bind (·.find? name.lexeme) with
  | some known =>
    { s with bindings := s.bindings.modify known (·.redeclare kind name.span) }
  | none =>
    let id := s.bindings.size
    { s with
      scopes := s.scopes.modify scope fun n =>
        { n with declarations := n.declarations.push (name.lexeme, id) }
      bindings := s.bindings.push ⟨id, name.lexeme, kind, name.span, #[], scope⟩ }

/-- Records a use of the name of a token. -/
def refer (s : State) (name : Token) : State :=
  { s with references := s.references.push ⟨name.lexeme, name.span, s.currentScope⟩ }

end State

end Builder

/-- An action of the builder. -/
abbrev Build := ReaderT Builder.Context (StateT Builder.State (Except Failure))

namespace Builder

/-- The token under the cursor. -/
def current : Build Token := do return (← read).token (← get).pos

/-- The token `n` places behind the cursor. -/
def peek (n : Nat) : Build Token := do return (← read).token ((← get).pos + n)

/-- The cursor stands on the given mark. -/
def here (p : Punctuation) : Build Bool := do return (← current).isPunct p

/-- The cursor stands on the given keyword. -/
def hereWord (k : Keyword) : Build Bool := do return (← current).isKeyword k

/-- Consumes the token under the cursor. -/
def advance : Build Unit := do
  let t ← current
  modify (·.consume t)

/-- The error at the cursor for a token that the grammar does not want. A closing bracket without
partner is unbalanced, and the end of input inside a scope leaves that scope unterminated. -/
def Context.unexpected (c : Context) (s : State) (wanted : Expectation) : ParseError :=
  let t := c.token s.pos
  let otherwise : ParseError :=
    match t.isEnd, s.openFrame? with
    | true, some f => ⟨t.span.start, .unterminatedScope f.start⟩
    | _, _ => ⟨t.span.start, .unexpected wanted t⟩
  match t.kind with
  | .punctuation p =>
    if p.isCloser && (c.partner? s.pos).isNone then ⟨t.span.start, .unbalanced p⟩ else otherwise
  | _ => otherwise

/-- Refuses the tokens with the given error. -/
def reject {α : Type} (e : ParseError) : Build α := throw (.rejected e)

/-- Refuses the token under the cursor. -/
def refuse {α : Type} (wanted : Expectation) : Build α := do
  reject ((← read).unexpected (← get) wanted)

/-- Refuses a construct that is not supported, at the cursor. -/
def refuseFeature {α : Type} (feature : Feature) : Build α := do
  reject ⟨(← current).span.start, .unsupported feature⟩

/-- A budget is used up. -/
def exhausted {α : Type} : Build α := throw .exhausted

/-- Consumes the given mark, which has to stand here. -/
def expect (p : Punctuation) : Build Unit := do
  if ← here p then advance else refuse (.punct p)

/-- Consumes an arrow that is known to stand here. -/
def expectArrow : Build Unit := do
  if ← here .arrow then advance
  else throw (.inconsistent ((← read).unexpected (← get) (.punct .arrow)))

/-- One level deeper, if the limit allows it. -/
def enter : Build Unit := do
  modify (·.deepen)
  let limit := (← read).limit
  if limit < (← get).depth then
    reject ⟨(← current).span.start, .nestingTooDeep limit⟩

/-- One level back. -/
def leave : Build Unit := modify (·.rise)

/-- Opens a scope, one level deeper. -/
def openScope (kind : ScopeKind) (label : String) (start : Nat) (opener : Opener) :
    Build ScopeId := do
  enter
  let id := (← get).scopes.size
  modify (·.pushScope kind label start opener)
  return id

/-- The scope on top goes on into the brace under the cursor. -/
def attachBrace : Build Unit := modify fun s => s.reopen (.brace s.pos)

/-- Closes a scope, which has to be the one on top. -/
def closeScope (id : ScopeId) (stop : Nat) : Build Unit := do
  match (← get).frames.head? with
  | some f =>
    if f.scope != id then throw (.inconsistent ⟨stop, .unterminatedScope f.start⟩)
  | none => throw (.inconsistent ⟨stop, .unterminatedScope stop⟩)
  modify (·.popScope id stop)
  leave

/-- The brace under the cursor is the partner of the one that opened the scope on top. -/
def closesTop (c : Context) (s : State) : Bool :=
  match s.frames with
  | ⟨_, .brace place, _⟩ :: _ => c.partner? place == some s.pos
  | _ => false

/-- Consumes the brace that closes a scope. -/
def closeBraceScope (id : ScopeId) : Build Unit := do
  if !(← here .closeBrace) then refuse (.punct .closeBrace)
  let close ← current
  if !closesTop (← read) (← get) then
    throw (.inconsistent ⟨close.span.start, .unbalanced .closeBrace⟩)
  advance
  closeScope id close.span.stop

/-- Declares the name of a token. -/
def declare (name : Token) (kind : BindingKind) : Build Unit := modify (·.declare name kind)

/-- Records a use of the name of a token. -/
def refer (name : Token) : Build Unit := modify (·.refer name)

/-- Declares the identifier under the cursor and consumes it. Patterns are not supported. -/
def declareHere (kind : BindingKind) (wanted : Expectation) : Build Unit := do
  let name ← current
  match name.kind with
  | .identifier =>
    declare name kind
    advance
  | .punctuation .openBrace | .punctuation .openBracket => refuseFeature .destructuring
  | _ => refuse wanted

end Builder

end Scoping
