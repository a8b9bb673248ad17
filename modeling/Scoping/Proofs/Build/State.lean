import Scoping.Build.State

/-!
# What each change of the builder's state leaves alone

The changes of `State` are read field by field. `State.Grows` is what all of them have in common: a
scope that exists keeps its id, kind, label, parent and start, a binding its id, name and owner, and
apart from where scopes end everything else is only added to.
-/

namespace Scoping

namespace Builder.State

variable (s : State)

/-! ## Fields -/

@[simp] theorem consume_scopes (t : Token) : (s.consume t).scopes = s.scopes := rfl
@[simp] theorem consume_bindings (t : Token) : (s.consume t).bindings = s.bindings := rfl
@[simp] theorem consume_references (t : Token) : (s.consume t).references = s.references := rfl
@[simp] theorem consume_frames (t : Token) : (s.consume t).frames = s.frames := rfl
@[simp] theorem consume_depth (t : Token) : (s.consume t).depth = s.depth := rfl
@[simp] theorem consume_prev (t : Token) : (s.consume t).prev = some t := rfl
@[simp] theorem consume_prevEnd (t : Token) : (s.consume t).prevEnd = t.span.stop := rfl
@[simp] theorem consume_currentScope (t : Token) :
    (s.consume t).currentScope = s.currentScope := rfl

theorem consume_pos {t : Token} (h : t.isEnd = false) : (s.consume t).pos = s.pos + 1 := by
  simp [consume, h]

@[simp] theorem deepen_pos : s.deepen.pos = s.pos := rfl
@[simp] theorem deepen_prev : s.deepen.prev = s.prev := rfl
@[simp] theorem deepen_scopes : s.deepen.scopes = s.scopes := rfl
@[simp] theorem deepen_bindings : s.deepen.bindings = s.bindings := rfl
@[simp] theorem deepen_references : s.deepen.references = s.references := rfl
@[simp] theorem deepen_frames : s.deepen.frames = s.frames := rfl
@[simp] theorem deepen_depth : s.deepen.depth = s.depth + 1 := rfl
@[simp] theorem deepen_currentScope : s.deepen.currentScope = s.currentScope := rfl

@[simp] theorem rise_pos : s.rise.pos = s.pos := rfl
@[simp] theorem rise_prev : s.rise.prev = s.prev := rfl
@[simp] theorem rise_scopes : s.rise.scopes = s.scopes := rfl
@[simp] theorem rise_bindings : s.rise.bindings = s.bindings := rfl
@[simp] theorem rise_references : s.rise.references = s.references := rfl
@[simp] theorem rise_frames : s.rise.frames = s.frames := rfl
@[simp] theorem rise_depth : s.rise.depth = s.depth - 1 := rfl

section
variable (kind : ScopeKind) (label : String) (start : Nat) (opener : Opener)

@[simp] theorem pushScope_pos : (s.pushScope kind label start opener).pos = s.pos := rfl
@[simp] theorem pushScope_prev : (s.pushScope kind label start opener).prev = s.prev := rfl
@[simp] theorem pushScope_bindings :
    (s.pushScope kind label start opener).bindings = s.bindings := rfl
@[simp] theorem pushScope_references :
    (s.pushScope kind label start opener).references = s.references := rfl
@[simp] theorem pushScope_depth : (s.pushScope kind label start opener).depth = s.depth := rfl
@[simp] theorem pushScope_frames :
    (s.pushScope kind label start opener).frames = ⟨s.scopes.size, opener, start⟩ :: s.frames :=
  rfl
@[simp] theorem pushScope_currentScope :
    (s.pushScope kind label start opener).currentScope = s.scopes.size := rfl

@[simp] theorem pushScope_size :
    (s.pushScope kind label start opener).scopes.size = s.scopes.size + 1 := by
  simp [pushScope]

/-- The new scope. -/
theorem pushScope_scope_new :
    (s.pushScope kind label start opener).scopes[s.scopes.size]? =
      some ⟨s.scopes.size, kind, label, some s.currentScope, #[], #[], .point start⟩ := by
  simp only [pushScope, Array.getElem?_push, Array.size_modify, ↓reduceIte]

/-- The old scopes, of which the one on top has one more child. -/
theorem pushScope_scope_old {i : ScopeId} (h : i < s.scopes.size) :
    (s.pushScope kind label start opener).scopes[i]? =
      (s.scopes[i]?).map fun x =>
        if s.currentScope = i then { x with children := x.children.push s.scopes.size } else x := by
  simp only [pushScope, Array.getElem?_push, Array.size_modify, if_neg (Nat.ne_of_lt h),
    Array.getElem?_modify]
  split
  · rfl
  · exact Option.map_id'.symm

theorem pushScope_cases {i : Nat} {x : Scope}
    (h : (s.pushScope kind label start opener).scopes[i]? = some x) :
    (i = s.scopes.size ∧
      x = ⟨s.scopes.size, kind, label, some s.currentScope, #[], #[], .point start⟩) ∨
    (i < s.scopes.size ∧ ∃ y, s.scopes[i]? = some y ∧
      x = if s.currentScope = i then { y with children := y.children.push s.scopes.size } else y) := by
  have inside : i < (s.pushScope kind label start opener).scopes.size :=
    (Array.getElem?_eq_some_iff.mp h).1
  rw [pushScope_size] at inside
  rcases Nat.lt_succ_iff_lt_or_eq.mp inside with old | rfl
  · rw [pushScope_scope_old _ _ _ _ _ old] at h
    obtain ⟨y, at_i, rfl⟩ := Option.map_eq_some_iff.mp h
    exact .inr ⟨old, y, at_i, rfl⟩
  · rw [pushScope_scope_new] at h
    exact .inl ⟨rfl, (Option.some.inj h).symm⟩
end

section
variable (id : ScopeId) (stop : Nat)

@[simp] theorem popScope_pos : (s.popScope id stop).pos = s.pos := rfl
@[simp] theorem popScope_prev : (s.popScope id stop).prev = s.prev := rfl
@[simp] theorem popScope_bindings : (s.popScope id stop).bindings = s.bindings := rfl
@[simp] theorem popScope_references : (s.popScope id stop).references = s.references := rfl
@[simp] theorem popScope_depth : (s.popScope id stop).depth = s.depth := rfl
@[simp] theorem popScope_frames : (s.popScope id stop).frames = s.frames.tail := rfl

@[simp] theorem popScope_size : (s.popScope id stop).scopes.size = s.scopes.size := by
  simp [popScope]

/-- Only the scope that ends is changed, and only where it ends. -/
theorem popScope_scope (i : ScopeId) :
    (s.popScope id stop).scopes[i]? =
      (s.scopes[i]?).map fun x =>
        if id = i then { x with range := { x.range with stop := stop } } else x := by
  simp only [popScope, Array.getElem?_modify]
  split
  · rfl
  · exact Option.map_id'.symm
end

section
variable (opener : Opener)

@[simp] theorem reopen_pos : (s.reopen opener).pos = s.pos := by unfold reopen; split <;> rfl
@[simp] theorem reopen_prev : (s.reopen opener).prev = s.prev := by unfold reopen; split <;> rfl
@[simp] theorem reopen_scopes : (s.reopen opener).scopes = s.scopes := by
  unfold reopen; split <;> rfl
@[simp] theorem reopen_bindings : (s.reopen opener).bindings = s.bindings := by
  unfold reopen; split <;> rfl
@[simp] theorem reopen_references : (s.reopen opener).references = s.references := by
  unfold reopen; split <;> rfl
@[simp] theorem reopen_depth : (s.reopen opener).depth = s.depth := by
  unfold reopen; split <;> rfl
@[simp] theorem reopen_currentScope : (s.reopen opener).currentScope = s.currentScope := by
  cases h : s.frames <;> simp only [reopen, currentScope, h]

theorem reopen_frames {f : Frame} {rest : List Frame} (h : s.frames = f :: rest) :
    (s.reopen opener).frames = { f with opener := opener } :: rest := by
  simp only [reopen, h]

/-- A scope that is opened by what opened it stays as it is. -/
theorem reopen_self {f : Frame} {rest : List Frame} (h : s.frames = f :: rest) :
    s.reopen f.opener = s := by
  cases s
  simp only at h
  subst h
  rfl
end

section
variable (name : Token)

@[simp] theorem refer_pos : (s.refer name).pos = s.pos := rfl
@[simp] theorem refer_prev : (s.refer name).prev = s.prev := rfl
@[simp] theorem refer_scopes : (s.refer name).scopes = s.scopes := rfl
@[simp] theorem refer_bindings : (s.refer name).bindings = s.bindings := rfl
@[simp] theorem refer_frames : (s.refer name).frames = s.frames := rfl
@[simp] theorem refer_depth : (s.refer name).depth = s.depth := rfl
@[simp] theorem refer_references : (s.refer name).references =
    s.references.push ⟨name.lexeme, name.span, s.currentScope⟩ := rfl

variable (kind : BindingKind)

@[simp] theorem declare_pos : (s.declare name kind).pos = s.pos := by
  simp only [declare]; split <;> rfl
@[simp] theorem declare_prev : (s.declare name kind).prev = s.prev := by
  simp only [declare]; split <;> rfl
@[simp] theorem declare_references : (s.declare name kind).references = s.references := by
  simp only [declare]; split <;> rfl
@[simp] theorem declare_frames : (s.declare name kind).frames = s.frames := by
  simp only [declare]; split <;> rfl
@[simp] theorem declare_depth : (s.declare name kind).depth = s.depth := by
  simp only [declare]; split <;> rfl
@[simp] theorem declare_size : (s.declare name kind).scopes.size = s.scopes.size := by
  simp only [declare]; split <;> simp
@[simp] theorem declare_currentScope :
    (s.declare name kind).currentScope = s.currentScope := by
  simp only [currentScope, declare_frames]

/-- Moving the cursor and declaring do not disturb each other. -/
theorem declare_consume (t : Token) :
    (s.declare name kind).consume t = (s.consume t).declare name kind := by
  have target : (s.consume t).target kind = s.target kind := rfl
  simp only [declare, target, consume_scopes]
  split <;> rfl
end

/-! ## Declarations -/

/-- A declaration either finds the name in its scope and overwrites the binding, or adds a binding
and its name. -/
theorem declare_cases (name : Token) (kind : BindingKind) :
    (∃ known, (s.scopes[s.target kind]?).bind (·.find? name.lexeme) = some known ∧
      s.declare name kind =
        { s with bindings := s.bindings.modify known (·.redeclare kind name.span) }) ∨
    ((s.scopes[s.target kind]?).bind (·.find? name.lexeme) = none ∧
      s.declare name kind =
        { s with
          scopes := s.scopes.modify (s.target kind) fun n =>
            { n with declarations := n.declarations.push (name.lexeme, s.bindings.size) }
          bindings := s.bindings.push
            ⟨s.bindings.size, name.lexeme, kind, name.span, #[], s.target kind⟩ }) := by
  cases found : (s.scopes[s.target kind]?).bind (·.find? name.lexeme) with
  | some known => exact .inl ⟨known, rfl, by simp only [declare, found]⟩
  | none => exact .inr ⟨rfl, by simp only [declare, found]⟩

end Builder.State

/-! ## Growth -/

/-- What a scope keeps while the builder goes on: all but where it ends, and what is added to it. -/
structure Scope.Keeps (x y : Scope) : Prop where
  id : y.id = x.id
  kind : y.kind = x.kind
  label : y.label = x.label
  parent : y.parent = x.parent
  start : y.range.start = x.range.start
  children : x.children.toList <+: y.children.toList
  declarations : x.declarations.toList <+: y.declarations.toList

theorem Scope.Keeps.refl (x : Scope) : x.Keeps x :=
  ⟨rfl, rfl, rfl, rfl, rfl, List.prefix_rfl, List.prefix_rfl⟩

theorem Scope.Keeps.trans {x y z : Scope} (h : x.Keeps y) (k : y.Keeps z) : x.Keeps z :=
  ⟨k.id.trans h.id, k.kind.trans h.kind, k.label.trans h.label, k.parent.trans h.parent,
    k.start.trans h.start, h.children.trans k.children, h.declarations.trans k.declarations⟩

/-- What a binding keeps: all but its kind and where it is declared. -/
structure Binding.Keeps (x y : Binding) : Prop where
  id : y.id = x.id
  name : y.name = x.name
  scope : y.scope = x.scope

theorem Binding.Keeps.refl (x : Binding) : x.Keeps x := ⟨rfl, rfl, rfl⟩

theorem Binding.Keeps.trans {x y z : Binding} (h : x.Keeps y) (k : y.Keeps z) : x.Keeps z :=
  ⟨k.id.trans h.id, k.name.trans h.name, k.scope.trans h.scope⟩

namespace Builder.State

/-- Nothing that exists in `s` is lost in `t`. -/
structure Grows (s t : State) : Prop where
  scope : ∀ (i : ScopeId) (x : Scope), s.scopes[i]? = some x →
    ∃ y, t.scopes[i]? = some y ∧ x.Keeps y
  binding : ∀ (i : BindingId) (x : Binding), s.bindings[i]? = some x →
    ∃ y, t.bindings[i]? = some y ∧ x.Keeps y
  references : s.references.toList <+: t.references.toList

namespace Grows

variable {s t u : State}

/-- Arenas that stay the same lose nothing. -/
theorem of_eq (scopes : t.scopes = s.scopes) (bindings : t.bindings = s.bindings)
    (references : t.references = s.references) : s.Grows t :=
  ⟨fun _ x h => ⟨x, scopes ▸ h, .refl x⟩, fun _ x h => ⟨x, bindings ▸ h, .refl x⟩,
    references ▸ List.prefix_rfl⟩

theorem refl (s : State) : s.Grows s := of_eq rfl rfl rfl

theorem trans (h : s.Grows t) (k : t.Grows u) : s.Grows u where
  scope i x at_s := by
    obtain ⟨y, at_t, xy⟩ := h.scope i x at_s
    obtain ⟨z, at_u, yz⟩ := k.scope i y at_t
    exact ⟨z, at_u, xy.trans yz⟩
  binding i x at_s := by
    obtain ⟨y, at_t, xy⟩ := h.binding i x at_s
    obtain ⟨z, at_u, yz⟩ := k.binding i y at_t
    exact ⟨z, at_u, xy.trans yz⟩
  references := h.references.trans k.references

theorem consume (s : State) (t : Token) : s.Grows (s.consume t) := of_eq rfl rfl rfl

theorem deepen (s : State) : s.Grows s.deepen := of_eq rfl rfl rfl

theorem rise (s : State) : s.Grows s.rise := of_eq rfl rfl rfl

theorem reopen (s : State) (opener : Opener) : s.Grows (s.reopen opener) :=
  of_eq (by simp) (by simp) (by simp)

theorem push (s : State) (kind : ScopeKind) (label : String) (start : Nat) (opener : Opener) :
    s.Grows (s.pushScope kind label start opener) where
  scope i x at_s := by
    rw [pushScope_scope_old _ _ _ _ _ (Array.getElem?_eq_some_iff.mp at_s).1, at_s]
    refine ⟨_, rfl, ?_⟩
    split
    · exact { Scope.Keeps.refl x with children := by simp }
    · exact .refl x
  binding i x at_s := ⟨x, at_s, .refl x⟩
  references := List.prefix_rfl

theorem pop (s : State) (id : ScopeId) (stop : Nat) : s.Grows (s.popScope id stop) where
  scope i x at_s := by
    rw [popScope_scope, at_s]
    refine ⟨_, rfl, ?_⟩
    split <;> exact ⟨rfl, rfl, rfl, rfl, rfl, List.prefix_rfl, List.prefix_rfl⟩
  binding i x at_s := ⟨x, at_s, .refl x⟩
  references := List.prefix_rfl

theorem refer (s : State) (name : Token) : s.Grows (s.refer name) where
  scope i x at_s := ⟨x, at_s, .refl x⟩
  binding i x at_s := ⟨x, at_s, .refl x⟩
  references := by simp

theorem declare (s : State) (name : Token) (kind : BindingKind) :
    s.Grows (s.declare name kind) := by
  rcases s.declare_cases name kind with ⟨known, _, e⟩ | ⟨_, e⟩
  · rw [e]
    refine ⟨fun i x at_s => ⟨x, at_s, .refl x⟩, fun i x at_s => ?_, List.prefix_rfl⟩
    simp only [Array.getElem?_modify, at_s]
    split <;> exact ⟨_, rfl, rfl, rfl, rfl⟩
  · rw [e]
    refine ⟨fun i x at_s => ?_, fun i x at_s => ⟨x, ?_, .refl x⟩, List.prefix_rfl⟩
    · simp only [Array.getElem?_modify, at_s]
      split
      · exact ⟨_, rfl, { Scope.Keeps.refl x with declarations := by simp }⟩
      · exact ⟨_, rfl, .refl x⟩
    · have inside : i < s.bindings.size := (Array.getElem?_eq_some_iff.mp at_s).1
      simp only [Array.getElem?_push, if_neg (Nat.ne_of_lt inside), at_s]

end Grows

end Builder.State

end Scoping
