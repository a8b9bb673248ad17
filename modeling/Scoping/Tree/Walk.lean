import Scoping.Tree.Basic

/-!
# Walks through a scope tree

Upwards along parents and downwards along children. A walk upwards is cut off after `walkLimit`
scopes, so that parents in a circle do not keep it going; a walk downwards goes no deeper than the
tree has scopes, which is as deep as a walk can go that meets no scope twice.
-/

namespace Scoping

/-- The most scopes that a walk upwards visits. -/
def walkLimit : Nat := 10000

namespace Tree

/-- At most `steps` scopes from `id` upwards. -/
def chainFrom (t : Tree) : (steps : Nat) → ScopeId → List Scope
  | 0, _ => []
  | steps + 1, id =>
    match t.scope? id with
    | none => []
    | some s =>
      s :: match s.parent with
        | none => []
        | some p => t.chainFrom steps p

/-- A scope and those around it, innermost first. -/
def ancestors (t : Tree) (id : ScopeId) : List Scope :=
  match t.scope? id with
  | none => []
  | some s => t.chainFrom walkLimit s.id

/-- How far a scope is below the outermost one. -/
def depth (t : Tree) (id : ScopeId) : Nat := (t.ancestors id).length - 1

/-- The innermost scope around `id`, itself included, where a declaration that leaves blocks ends
up. -/
def functionScopeOf (t : Tree) (id : ScopeId) : ScopeId :=
  match (t.ancestors id).find? (·.kind.boundsFunction) with
  | some s => s.id
  | none => globalScope

/-- A scope before its descendants, `levels` levels of them. -/
def descendFrom (t : Tree) : (levels : Nat) → ScopeId → List ScopeId
  | 0, _ => []
  | levels + 1, id =>
    id :: match t.scope? id with
      | none => []
      | some s => s.children.toList.flatMap (t.descendFrom levels)

/-- All scopes, each before its descendants and siblings in order. -/
def preorder (t : Tree) : List ScopeId :=
  if t.scopes.isEmpty then [] else t.descendFrom (t.scopes.size + 1) globalScope

end Tree

end Scoping
