import Scoping.Text.Span

/-!
# Scope trees

A program's scopes, the names bound in them and the places where names are used, in three arenas
that are addressed by index. Scope zero is the global one. A scope knows its parent and its children
by index, so a tree can be put together by hand that is no tree at all: with parents in a circle,
with children or bindings that do not exist. Every reader of a tree is total on those too.
-/

namespace Scoping

/-- The place of a scope in its tree. -/
abbrev ScopeId := Nat

/-- The place of a binding in its tree. -/
abbrev BindingId := Nat

/-- The scope that holds all others. -/
def globalScope : ScopeId := 0

/-- What makes a scope. -/
inductive ScopeKind where
  | global | function | block | loop
  deriving DecidableEq, Repr, Inhabited

namespace ScopeKind

/-- The kind in a word. -/
def text : ScopeKind → String
  | global => "global"
  | function => "function"
  | block => "block"
  | loop => "loop"

/-- Declarations that leave blocks end up in a scope of this kind. -/
def boundsFunction : ScopeKind → Bool
  | global | function => true
  | block | loop => false

end ScopeKind

/-- How a name is declared. -/
inductive BindingKind where
  | var | let_ | const | param | function | catchParam
  deriving DecidableEq, Repr, Inhabited

namespace BindingKind

/-- The kind as a reader sees it. -/
def label : BindingKind → String
  | var => "var"
  | let_ => "let"
  | const => "const"
  | param => "param"
  | function => "function"
  | catchParam => "catch"

/-- The declaration leaves the blocks around it, up to the function. -/
def hoists : BindingKind → Bool
  | var | function => true
  | _ => false

end BindingKind

/-- A name declared in a scope. A name declared again keeps its binding, which takes on the kind of
the latest declaration. -/
structure Binding where
  id : BindingId
  name : String
  kind : BindingKind
  /-- The name at its latest declaration. -/
  declaredAt : Span
  /-- The name at its earlier declarations, in source order. -/
  earlier : Array Span
  /-- The scope that owns the binding. -/
  scope : ScopeId
  deriving DecidableEq, Repr, Inhabited

/-- Every declaration of the name, in source order. -/
def Binding.declarations (b : Binding) : List Span := b.earlier.toList ++ [b.declaredAt]

/-- The binding after its name is declared once more. -/
def Binding.redeclare (b : Binding) (kind : BindingKind) (span : Span) : Binding :=
  { b with kind := kind, earlier := b.earlier.push b.declaredAt, declaredAt := span }

/-- A use of a name that is neither its declaration nor the name of a property. -/
structure Reference where
  name : String
  span : Span
  /-- The innermost scope around the use. -/
  scope : ScopeId
  deriving DecidableEq, Repr, Inhabited

/-- The names of one scope with their bindings, in the order in which they came. -/
abbrev Declarations := Array (String × BindingId)

namespace Declarations

/-- The binding of a name. -/
def find? (ds : Declarations) (name : String) : Option BindingId :=
  (Array.find? (fun d => d.1 == name) ds).map (·.2)

/-- Binds a name: in its old place when it has one, behind all others when it is new. -/
def insert (ds : Declarations) (name : String) (id : BindingId) : Declarations :=
  if (ds.find? name).isSome then Array.map (fun d => if d.1 == name then (name, id) else d) ds
  else Array.push ds (name, id)

/-- The bindings, in the order of their names. -/
def ids (ds : Declarations) : List BindingId := (Array.toList ds).map (·.2)

end Declarations

/-- A scope. -/
structure Scope where
  id : ScopeId
  kind : ScopeKind
  /-- What the scope is called: by its function's name, or by the statement that makes it. -/
  label : String
  parent : Option ScopeId
  children : Array ScopeId
  declarations : Declarations
  range : Span
  deriving DecidableEq, Repr, Inhabited

/-- The binding that the scope itself gives a name. -/
def Scope.find? (s : Scope) (name : String) : Option BindingId := s.declarations.find? name

/-- The scopes, bindings and references of a source. -/
structure Tree where
  scopes : Array Scope
  bindings : Array Binding
  /-- In source order. -/
  references : Array Reference
  /-- The length of the source in bytes. -/
  sourceSize : Nat
  deriving DecidableEq, Repr, Inhabited

namespace Tree

def scope? (t : Tree) (id : ScopeId) : Option Scope := t.scopes[id]?

def binding? (t : Tree) (id : BindingId) : Option Binding := t.bindings[id]?

end Tree

end Scoping
