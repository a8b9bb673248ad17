import Scoping.Proofs.Resolve.Bind
import Scoping.Proofs.Token.Abreast
import Scoping.Proofs.Tree.WayUp

/-!
# Trees in a block

A block around a program takes the place of the global scope, and every other scope moves up one number
(`Tree.InBlock`). What leaves blocks stays in the global scope; what does not is at home in the block.
On the way up the two come one behind the other, and a name that the global scope bound is bound in one
of them, so names mean what they meant (`Tree.InBlock.bind_occurrences`).
-/

namespace Scoping

/-- Where a binding is at home, when a block inside the global scope keeps what does not leave it. -/
def BindingKind.home (kind : BindingKind) (scope : ScopeId) : ScopeId :=
  if kind.hoists ∧ scope = globalScope then globalScope else scope + 1

/-- A home is the home of one scope. -/
theorem BindingKind.home_inj {kind kind' : BindingKind} {i j : Nat}
    (h : kind.home i = kind'.home j) : i = j := by
  unfold home globalScope at h
  by_cases out : kind.hoists = true ∧ i = 0
  · rw [if_pos out] at h
    by_cases out' : kind'.hoists = true ∧ j = 0
    · exact out.2.trans out'.2.symm
    · rw [if_neg out'] at h
      cases h
  · rw [if_neg out] at h
    by_cases out' : kind'.hoists = true ∧ j = 0
    · rw [if_pos out'] at h
      cases h
    · rw [if_neg out'] at h
      exact Nat.succ.inj h

theorem BindingKind.home_eq_global_iff {kind : BindingKind} {i : Nat} :
    kind.home i = globalScope ↔ kind.hoists = true ∧ i = globalScope := by
  unfold home globalScope
  split
  · next out => exact iff_of_true rfl out
  · next out => exact iff_of_false nofun out

theorem BindingKind.home_eq_one_iff {kind : BindingKind} {i : Nat} :
    kind.home i = 1 ↔ kind.hoists = false ∧ i = globalScope := by
  unfold home globalScope
  by_cases root : i = 0
  · cases kind.hoists <;> simp [root]
  · simp [root]

/-! ## A byte further -/

/-- A scope other than the global one, behind an opening brace. -/
def Scope.inBlock (x : Scope) : Scope :=
  { x with
    id := x.id + 1
    parent := x.parent.map (· + 1)
    children := x.children.map (· + 1)
    range := x.range.moved 1 }

/-- A binding at home in the block or outside. -/
def Binding.inBlock (b : Binding) : Binding :=
  { b with
    declaredAt := b.declaredAt.moved 1
    earlier := b.earlier.map (Span.moved 1)
    scope := b.kind.home b.scope }

/-- A use of a name behind an opening brace. -/
def Reference.inBlock (r : Reference) : Reference :=
  { r with
    span := r.span.moved 1
    scope := r.scope + 1 }

/-- The use with the binding it had. -/
def Occurrence.inBlock (o : Occurrence) : Occurrence :=
  { o with
    span := o.span.moved 1
    scope := o.scope + 1 }

/-- A binding leaves blocks. -/
def Tree.hoists (t : Tree) (b : BindingId) : Bool := (t.binding? b).any (·.kind.hoists)

/-- The tree of a program and that of the program in braces, with a line end before the second. -/
structure Tree.InBlock (t t' : Tree) : Prop where
  sourceSize : t'.sourceSize = t.sourceSize + 3
  size : t'.scopes.size = t.scopes.size + 1
  global : ∃ ds, t'.scope? globalScope =
    some ⟨globalScope, .global, "Global", none, #[1], ds, ⟨0, t'.sourceSize⟩⟩
  block : ∃ x ds, t.scope? globalScope = some x ∧ t'.scope? 1 =
    some ⟨1, .block, "block", some globalScope, x.children.map (· + 1), ds, ⟨0, t'.sourceSize⟩⟩
  inner : ∀ (i : Nat) (x : Scope), i ≠ globalScope → t.scope? i = some x →
    t'.scope? (i + 1) = some x.inBlock
  bindings : t'.bindings = t.bindings.map Binding.inBlock
  references : t'.references = t.references.map Reference.inBlock
  outside : ∀ name, boundIn t'.scopes globalScope name =
    (boundIn t.scopes globalScope name).filter (t.hoists ·)
  inside : ∀ name, boundIn t'.scopes 1 name =
    (boundIn t.scopes globalScope name).filter (! t.hoists ·)

namespace Tree.InBlock

variable {t t' : Tree} (h : t.InBlock t') {i p : Nat} {l : List ScopeId}
include h

/-- The global scope and the block bind what the global scope bound. -/
theorem boundIn_or (name : String) : (boundIn t'.scopes 1 name).or
    (boundIn t'.scopes globalScope name) = boundIn t.scopes globalScope name := by
  rw [h.inside, h.outside]
  cases boundIn t.scopes globalScope name with
  | none => rfl
  | some b => cases out : t.hoists b <;> simp [Option.filter_some, out]

/-- Every other scope binds what it bound. -/
theorem boundIn_succ (inner : i ≠ globalScope) (inside : i < t.scopes.size) (name : String) :
    boundIn t'.scopes (i + 1) name = boundIn t.scopes i name := by
  have at_i : t.scopes[i]? = some t.scopes[i] := Array.getElem?_eq_getElem inside
  have at_i' : t'.scopes[i + 1]? = _ := h.inner i _ inner at_i
  rw [boundIn, boundIn, at_i, at_i']
  rfl

theorem parentIn_succ (parent : parentIn t.scopes i = some p) (rooted : Rooted t.scopes) :
    parentIn t'.scopes (i + 1) = some (p + 1) := by
  obtain ⟨x, at_i, up⟩ := Option.bind_eq_some_iff.mp parent
  have at_i' : t'.scopes[i + 1]? = _ := h.inner i x (rooted.ne_root_of_parentIn parent) at_i
  rw [parentIn_of_getElem? at_i']
  show x.parent.map (· + 1) = _
  rw [up, Option.map_some]

/-- A way up goes on through the block to the global scope. -/
theorem wayUp (way : WayUp t.scopes l) (rooted : Rooted t.scopes) :
    WayUp t'.scopes (l.map (· + 1) ++ [globalScope]) := by
  induction way with
  | @root i top inside =>
    have root := rooted.eq_root top inside
    subst root
    obtain ⟨ds, at_global⟩ := h.global
    obtain ⟨x, ds', _, at_block⟩ := h.block
    have at_global : t'.scopes[globalScope]? = _ := at_global
    have at_block : t'.scopes[1]? = _ := at_block
    refine .step ((parentIn_of_getElem? at_block).trans rfl) (.root ?_ ?_)
    · exact (parentIn_of_getElem? at_global).trans rfl
    · rw [h.size]
      exact Nat.succ_pos _
  | step parent _ ih => exact .step (h.parentIn_succ parent rooted) ih

/-- On the way up a name is found as it was found. -/
theorem findSome?_boundIn (way : WayUp t.scopes l) (rooted : Rooted t.scopes) (name : String) :
    (l.map (· + 1) ++ [globalScope]).findSome? (boundIn t'.scopes · name) =
      l.findSome? (boundIn t.scopes · name) := by
  induction way with
  | @root i top inside =>
    have root := rooted.eq_root top inside
    subst root
    change [1, globalScope].findSome? _ = _
    rw [List.findSome?_singleton, ← h.boundIn_or, List.findSome?_cons, List.findSome?_singleton]
    cases boundIn t'.scopes 1 name <;> rfl
  | @step i p l parent way ih =>
    rw [List.map_cons, List.cons_append, List.findSome?_cons, List.findSome?_cons, ih,
      h.boundIn_succ (rooted.ne_root_of_parentIn parent) (lt_size_of_parentIn parent)]

/-- A name means what it meant. -/
theorem lookUp_eq (rooted : Rooted t.scopes) (rooted' : Rooted t'.scopes)
    (way : WayUp t.scopes (i :: l)) (enough : l.length + 1 < walkLimit) (name : String) :
    t'.lookUp (i + 1) name = t.lookUp i name := by
  have way' : WayUp t'.scopes ((i + 1) :: (l.map (· + 1) ++ [globalScope])) := h.wayUp way rooted
  have enough' : (l.map (· + 1) ++ [globalScope]).length < walkLimit := by
    rw [List.length_append, List.length_map]
    exact enough
  rw [Tree.lookUp_eq way' enough' rooted', Tree.lookUp_eq way (Nat.lt_of_succ_lt enough) rooted]
  exact h.findSome?_boundIn way rooted name

/-- Every use of a name has the binding that it had. -/
theorem bind_occurrences (rooted : Rooted t.scopes) (rooted' : Rooted t'.scopes)
    (short : ∀ r ∈ t.references, ∃ l, WayUp t.scopes (r.scope :: l) ∧ l.length + 1 < walkLimit) :
    t'.bind.occurrences = t.bind.occurrences.map Occurrence.inBlock := by
  rw [← Array.toList_inj, Array.toList_map, Tree.bind_occurrences, Tree.bind_occurrences,
    h.references, Array.toList_map]
  refine List.ext_getElem? fun n => ?_
  rw [List.getElem?_mapIdx, List.getElem?_map, List.getElem?_map, List.getElem?_mapIdx]
  cases at_n : t.references.toList[n]? with
  | none => rfl
  | some r =>
    obtain ⟨l, way, enough⟩ := short r (Array.mem_toList_iff.mp (List.mem_of_getElem? at_n))
    have found := h.lookUp_eq rooted rooted' way enough r.name
    simp only [Option.map_some, Tree.occurrenceOf, Reference.inBlock, Occurrence.inBlock, found]

end Tree.InBlock

end Scoping
