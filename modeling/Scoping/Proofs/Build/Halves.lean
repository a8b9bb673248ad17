import Scoping.Proofs.Build.Name
import Scoping.Proofs.Build.Retell
import Scoping.Proofs.Tree.InBlock

/-!
# The global scope in halves

A run may begin with a block open inside the global scope (`State.halved`). It reads the same program
in the same way, but what the program declares for its global scope goes two ways: `var` and `function`
leave the block, `let` and `const` stay in it. Every other scope is numbered one higher
(`Halves.Split`).
-/

namespace Scoping

open Builder

/-- The use of a name in its scope, which is numbered one higher. -/
def Reference.halved (r : Reference) : Reference := { r with scope := r.scope + 1 }

/-- The open scope, which is numbered one higher. -/
def Frame.halved (f : Frame) : Frame := { f with scope := f.scope + 1 }

/-- A scope and what stands for it where the global scope is in halves. For the global scope stands the
inner half. -/
structure Scope.Halved (x x' : Scope) : Prop where
  id : x'.id = x.id + 1
  children : x'.children = x.children.map (· + 1)
  inner : x.id = globalScope → x'.kind = .block ∧ x'.label = "block" ∧ x'.parent = some globalScope
  other : x.id ≠ globalScope → x'.kind = x.kind ∧ x'.label = x.label ∧
    x'.parent = x.parent.map (· + 1) ∧ x'.range = x.range

/-- The outer half of the global scope. -/
structure Scope.IsOuterHalf (x : Scope) : Prop where
  id : x.id = globalScope
  kind : x.kind = .global
  label : x.label = "Global"
  parent : x.parent = none
  children : x.children = #[1]

namespace Builder

/-- Nothing read yet, and a block open inside the global scope. -/
def State.halved : State := State.start.pushScope .block "block" 0 .root

namespace Halves

/-- Two runs over one program have come to the same place, the second with the global scope in halves. -/
structure Split (s s' : State) : Prop where
  pos : s'.pos = s.pos
  prev : s'.prev = s.prev
  depth : s'.depth = s.depth
  nonempty : 0 < s.scopes.size
  ids : ∀ (i : Nat) (x : Scope), s.scopes[i]? = some x → x.id = i
  scopes : ∃ outer rest, s'.scopes.toList = outer :: rest ∧ outer.IsOuterHalf ∧
    List.Forall₂ Scope.Halved s.scopes.toList rest
  references : s'.references = s.references.map Reference.halved
  frames : ∃ inner last bottom, s.frames = inner ++ [last] ∧
    s'.frames = s.frames.map Frame.halved ++ [bottom] ∧ last.scope = globalScope ∧
    bottom.scope = globalScope ∧ ∀ f ∈ inner, f.scope ≠ globalScope

variable {s s' : State}

theorem split_start : Split .start .halved where
  pos := rfl
  prev := rfl
  depth := rfl
  nonempty := by decide
  ids i x at_i := by
    cases i with
    | zero => exact Option.some.inj at_i ▸ rfl
    | succ i => cases at_i
  scopes := ⟨_, _, rfl, ⟨rfl, rfl, rfl, rfl, rfl⟩,
    .cons ⟨rfl, by simp, fun _ => ⟨rfl, rfl, rfl⟩, fun other => absurd rfl other⟩ .nil⟩
  references := by simp [State.halved, State.start]
  frames := ⟨[], _, _, rfl, rfl, rfl, rfl, nofun⟩

/-! ## Looking -/

namespace Split

variable (h : Split s s')
include h

theorem outer : ∃ x, s'.scopes[globalScope]? = some x ∧ x.IsOuterHalf := by
  obtain ⟨x, rest, scopes, outer, _⟩ := h.scopes
  exact ⟨x, by rw [← Array.getElem?_toList, scopes]; rfl, outer⟩

theorem scope_rel (i : Nat) : Option.Rel Scope.Halved s.scopes[i]? s'.scopes[i + 1]? := by
  obtain ⟨x, rest, scopes, _, rel⟩ := h.scopes
  have both := forall₂_getElem? rel i
  rw [← Array.getElem?_toList, ← Array.getElem?_toList, scopes]
  exact both

theorem size_eq : s'.scopes.size = s.scopes.size + 1 := by
  obtain ⟨x, rest, scopes, _, rel⟩ := h.scopes
  rw [← Array.length_toList, scopes, List.length_cons, ← rel.length_eq, Array.length_toList]

theorem currentScope_eq : s'.currentScope = s.currentScope + 1 := by
  obtain ⟨inner, last, bottom, frames, frames', _⟩ := h.frames
  unfold State.currentScope
  rw [frames', frames]
  cases inner <;> rfl

/-- Above the global scope both runs find the same scope that bounds a function. -/
theorem bounds_eq {i : Nat} (inner : i ≠ globalScope) :
    (s'.scopes[i + 1]?).any (·.kind.boundsFunction) =
      (s.scopes[i]?).any (·.kind.boundsFunction) := by
  have rel := h.scope_rel i
  have id := h.ids i
  generalize s.scopes[i]? = x, s'.scopes[i + 1]? = x' at rel id
  cases rel with
  | none => rfl
  | @some x x' halved =>
    have other : x.id ≠ globalScope := by rw [id x rfl]; exact inner
    simp only [Option.any_some, (halved.other other).1]

theorem inner_bounds : (s'.scopes[globalScope + 1]?).any (·.kind.boundsFunction) = false := by
  have rel := h.scope_rel globalScope
  have id := h.ids globalScope
  obtain ⟨x, inside⟩ : ∃ x, s.scopes[globalScope]? = some x :=
    ⟨_, Array.getElem?_eq_getElem h.nonempty⟩
  rw [inside] at rel id
  generalize s'.scopes[globalScope + 1]? = x' at rel
  cases rel with
  | some halved =>
    rw [Option.any_some, (halved.inner (id _ rfl)).1]
    rfl

omit h in
theorem find?_halved (p p' : Nat → Bool) (bounds : ∀ {i : Nat}, i ≠ globalScope → p' (i + 1) = p i)
    (inner : List Frame) (above : ∀ f ∈ inner, f.scope ≠ globalScope) :
    (inner.map Frame.halved).find? (p' ·.scope) = (inner.find? (p ·.scope)).map Frame.halved := by
  induction inner with
  | nil => rfl
  | cons f inner ih =>
    have same : p' f.halved.scope = p f.scope := bounds (above f List.mem_cons_self)
    rw [List.map_cons, List.find?_cons, List.find?_cons, same]
    cases p f.scope with
    | true => rfl
    | false => exact ih fun f mem => above f (List.mem_cons_of_mem _ mem)

omit h in
theorem target_of_hoists {kind : BindingKind} (hoists : kind.hoists = true) : s.target kind =
    ((s.frames.find? fun f => (s.scopes[f.scope]?).any (·.kind.boundsFunction)).elim globalScope
      (·.scope)) := by
  rw [State.target, if_pos hoists]
  split
  · next found => rw [found, Option.elim_some]
  · next none => rw [none, Option.elim_none]

/-- What leaves blocks ends up in the same function, or in the outer half. -/
theorem target_eq (kind : BindingKind) : s'.target kind = kind.home (s.target kind) := by
  unfold BindingKind.home
  cases hoists : kind.hoists with
  | false =>
    simp only [State.target, hoists, Bool.false_eq_true, ↓reduceIte, false_and,
      h.currentScope_eq]
  | true =>
    obtain ⟨inner, last, bottom, frames, frames', isLast, isBottom, above⟩ := h.frames
    obtain ⟨outer, at_outer, isOuter⟩ := h.outer
    have found : (inner.map Frame.halved).find? (fun f =>
        (s'.scopes[f.scope]?).any (·.kind.boundsFunction)) = (inner.find? fun f =>
        (s.scopes[f.scope]?).any (·.kind.boundsFunction)).map Frame.halved :=
      find?_halved (fun i => (s.scopes[i]?).any (·.kind.boundsFunction))
        (fun i => (s'.scopes[i]?).any (·.kind.boundsFunction)) h.bounds_eq inner above
    have half : (s'.scopes[last.halved.scope]?).any (·.kind.boundsFunction) = false := by
      rw [Frame.halved, isLast]
      exact h.inner_bounds
    have whole : (s'.scopes[bottom.scope]?).any (·.kind.boundsFunction) = true := by
      rw [isBottom, at_outer, Option.any_some, isOuter.kind]
      rfl
    rw [target_of_hoists hoists, target_of_hoists hoists, frames', frames, List.map_append,
      List.append_assoc, List.find?_append, List.find?_append, List.find?_append, found]
    cases top : inner.find? fun f => (s.scopes[f.scope]?).any (·.kind.boundsFunction) with
    | some f =>
      have other := above f (List.mem_of_find?_eq_some top)
      rw [Option.map_some, Option.some_or, Option.some_or, Option.elim_some, Option.elim_some,
        if_neg (other ·.2)]
      rfl
    | none =>
      have global : ([last].find? fun f => (s.scopes[f.scope]?).any (·.kind.boundsFunction)).elim
          globalScope (·.scope) = globalScope := by
        rw [List.find?_singleton]
        split
        · exact isLast
        · rfl
      rw [Option.map_none, Option.none_or, Option.none_or, global, if_pos ⟨rfl, rfl⟩,
        List.map_singleton, List.find?_singleton, List.find?_singleton, half, if_pos whole]
      exact isBottom

/-! ## Moving on -/

theorem consume (t : Token) : Split (s.consume t) (s'.consume t) :=
  { h with
    pos := by simp only [State.consume, h.pos]
    prev := rfl }

theorem refer (t : Token) : Split (s.refer t) (s'.refer t) :=
  { h with
    references := by
      rw [State.refer_references, State.refer_references, h.references, Array.map_push,
        h.currentScope_eq]
      rfl }

omit h in
/-- A declaration changes the declarations of one scope at most. -/
theorem declare_scopes (s : State) (t : Token) (kind : BindingKind) :
    ∃ (i : Nat) (more : Declarations → Declarations), (s.declare t kind).scopes =
      s.scopes.modify i fun x => { x with declarations := more x.declarations } := by
  rcases s.declare_cases t kind with ⟨_, _, e⟩ | ⟨_, e⟩
  · refine ⟨0, id, ?_⟩
    rw [e, ← Array.toList_inj, Array.toList_modify]
    exact (List.modify_id 0 _).symm
  · exact ⟨_, (·.push _), by rw [e]⟩

theorem declare_left (t : Token) (kind : BindingKind) : Split (s.declare t kind) s' := by
  obtain ⟨outer, rest, scopes, isOuter, rel⟩ := h.scopes
  obtain ⟨i, more, e⟩ := declare_scopes s t kind
  refine ⟨?_, ?_, ?_, ?_, fun j x at_j => ?_, ⟨outer, rest, scopes, isOuter, ?_⟩, ?_, ?_⟩
  · rw [State.declare_pos, h.pos]
  · rw [State.declare_prev, h.prev]
  · rw [State.declare_depth, h.depth]
  · rw [State.declare_size]
    exact h.nonempty
  · rw [e, Array.getElem?_modify] at at_j
    split at at_j
    · obtain ⟨y, at_y, rfl⟩ := Option.map_eq_some_iff.mp at_j
      exact h.ids j y at_y
    · exact h.ids j x at_j
  · rw [e, Array.toList_modify, ← List.modify_id i rest]
    refine forall₂_modify rel (fun x y same => ?_) i
    exact ⟨same.id, same.children, same.inner, same.other⟩
  · rw [State.declare_references, h.references]
  · rw [State.declare_frames]
    exact h.frames

theorem declare_right (t : Token) (kind : BindingKind) : Split s (s'.declare t kind) := by
  obtain ⟨outer, rest, scopes, isOuter, rel⟩ := h.scopes
  obtain ⟨i, more, e⟩ := declare_scopes s' t kind
  refine ⟨?_, ?_, ?_, h.nonempty, h.ids, ?_, ?_, ?_⟩
  · rw [State.declare_pos, h.pos]
  · rw [State.declare_prev, h.prev]
  · rw [State.declare_depth, h.depth]
  · rw [e, Array.toList_modify, scopes]
    cases i with
    | zero => exact ⟨_, _, rfl, ⟨isOuter.id, isOuter.kind, isOuter.label, isOuter.parent,
        isOuter.children⟩, rel⟩
    | succ i =>
      refine ⟨outer, _, List.modify_succ_cons .., isOuter, ?_⟩
      rw [← List.modify_id i s.scopes.toList]
      refine forall₂_modify rel (fun x y same => ?_) i
      exact ⟨same.id, same.children, same.inner, same.other⟩
  · rw [State.declare_references, h.references]
  · rw [State.declare_frames]
    exact h.frames

theorem deepen : Split s.deepen s'.deepen :=
  { h with depth := by rw [State.deepen_depth, State.deepen_depth, h.depth] }

theorem rise : Split s.rise s'.rise :=
  { h with depth := by rw [State.rise_depth, State.rise_depth, h.depth] }

theorem pushScope (kind : ScopeKind) (label : String) (start : Nat) (opener : Opener) :
    Split (s.pushScope kind label start opener) (s'.pushScope kind label start opener) := by
  obtain ⟨outer, rest, scopes, isOuter, rel⟩ := h.scopes
  obtain ⟨inner, last, bottom, frames, frames', isLast, isBottom, above⟩ := h.frames
  have notGlobal : s.scopes.size ≠ globalScope := Nat.ne_of_gt h.nonempty
  refine { h with nonempty := ?_, ids := fun i x at_i => ?_, scopes := ?_, frames := ?_ }
  · rw [State.pushScope_size]
    exact Nat.succ_pos _
  · rcases State.pushScope_cases _ _ _ _ _ at_i with ⟨rfl, rfl⟩ | ⟨_, y, at_y, rfl⟩
    · rfl
    · rw [← h.ids i y at_y]
      split <;> rfl
  · refine ⟨outer, (rest.modify s.currentScope fun x =>
      { x with children := x.children.push s'.scopes.size }) ++
        [⟨s'.scopes.size, kind, label, some s'.currentScope, #[], #[], .point start⟩], ?_, isOuter, ?_⟩
    · simp only [State.pushScope, Array.toList_push, Array.toList_modify, scopes,
        h.currentScope_eq, List.modify_succ_cons, List.cons_append]
    · simp only [State.pushScope, Array.toList_push, Array.toList_modify]
      refine forall₂_concat (forall₂_modify rel (fun x y same => ?_) _) ?_
      · exact { same with children := by simp [same.children, h.size_eq] }
      · refine ⟨h.size_eq, by simp, fun global => absurd global notGlobal, fun _ => ⟨rfl, rfl, ?_, rfl⟩⟩
        rw [Option.map_some, h.currentScope_eq]
  · refine ⟨⟨s.scopes.size, opener, start⟩ :: inner, last, bottom, ?_, ?_, isLast, isBottom, ?_⟩
    · rw [State.pushScope_frames, frames]
      rfl
    · rw [State.pushScope_frames, State.pushScope_frames, frames', h.size_eq]
      rfl
    · intro f mem
      rcases List.mem_cons.mp mem with rfl | mem
      · exact notGlobal
      · exact above f mem

theorem reopen (opener : Opener) : Split (s.reopen opener) (s'.reopen opener) := by
  obtain ⟨inner, last, bottom, frames, frames', isLast, isBottom, above⟩ := h.frames
  refine ⟨?_, ?_, ?_, ?_, ?_, ?_, ?_, ?_⟩
  · rw [State.reopen_pos, State.reopen_pos, h.pos]
  · rw [State.reopen_prev, State.reopen_prev, h.prev]
  · rw [State.reopen_depth, State.reopen_depth, h.depth]
  · rw [State.reopen_scopes]
    exact h.nonempty
  · rw [State.reopen_scopes]
    exact h.ids
  · rw [State.reopen_scopes, State.reopen_scopes]
    exact h.scopes
  · rw [State.reopen_references, State.reopen_references, h.references]
  · cases inner with
    | nil =>
      refine ⟨[], { last with opener := opener }, bottom, ?_, ?_, isLast, isBottom, nofun⟩
      · exact State.reopen_frames _ _ frames
      · rw [State.reopen_frames _ _ frames]
        rw [frames] at frames'
        exact State.reopen_frames _ _ frames'
    | cons f inner =>
      refine ⟨{ f with opener := opener } :: inner, last, bottom, ?_, ?_, isLast, isBottom, ?_⟩
      · exact State.reopen_frames _ _ frames
      · rw [State.reopen_frames _ _ frames]
        rw [frames] at frames'
        exact State.reopen_frames _ _ frames'
      · intro g mem
        rcases List.mem_cons.mp mem with rfl | mem
        · exact above f List.mem_cons_self
        · exact above g (List.mem_cons_of_mem _ mem)

/-- A scope inside the global one ends. -/
theorem popScope {f : Frame} (top : s.frames.head? = some f) (inside : f.scope ≠ globalScope)
    (stop : Nat) : Split (s.popScope f.scope stop) (s'.popScope (f.scope + 1) stop) := by
  obtain ⟨outer, rest, scopes, isOuter, rel⟩ := h.scopes
  obtain ⟨inner, last, bottom, frames, frames', isLast, isBottom, above⟩ := h.frames
  refine { h with nonempty := ?_, ids := fun i x at_i => ?_, scopes := ?_, frames := ?_ }
  · rw [State.popScope_size]
    exact h.nonempty
  · rw [State.popScope_scope] at at_i
    obtain ⟨y, at_y, rfl⟩ := Option.map_eq_some_iff.mp at_i
    rw [← h.ids i y at_y]
    split <;> rfl
  · refine ⟨outer, rest.modify f.scope fun x => { x with range := { x.range with stop := stop } }, ?_,
      isOuter, ?_⟩
    · simp only [State.popScope, Array.toList_modify, scopes, List.modify_succ_cons]
    · simp only [State.popScope, Array.toList_modify]
      refine forall₂_modify rel (fun x y same => ?_) _
      refine { same with other := fun other => ?_ }
      obtain ⟨kind, label, parent, range⟩ := same.other other
      exact ⟨kind, label, parent, by rw [range]⟩
  · cases inner with
    | nil =>
      rw [frames] at top
      obtain rfl : last = f := Option.some.inj top
      exact absurd isLast inside
    | cons g inner =>
      refine ⟨inner, last, bottom, ?_, ?_, isLast, isBottom,
        fun g mem => above g (List.mem_cons_of_mem _ mem)⟩
      · rw [State.popScope_frames, frames]
        rfl
      · rw [State.popScope_frames, State.popScope_frames, frames', frames]
        rfl

end Split

end Halves

end Builder

end Scoping
