import Scoping.Proofs.Build.Range

/-!
# What a walk leaves alone

A walk closes the scopes that it opens and no others. So every scope that was there before it not only
begins but also ends where it did, and of a binding that was there nothing is changed but that it may
have been declared once more (`State.Adds`). With what is known of frames, depth and growth this is the
frame of a production (`Walk.framed`): behind it the same scopes are open at the same depth, and the
tables of scopes, bindings and references are those before it, added to.
-/

namespace Scoping

/-! ## Bindings -/

/-- The binding stays as it is, or has been declared once more, behind all its declarations. -/
structure Binding.Redeclared (x y : Binding) : Prop where
  keeps : x.Keeps y
  declarations : x.declarations <+: y.declarations
  untouched : y.declarations = x.declarations → y = x

namespace Binding.Redeclared

variable {x y z : Binding}

theorem refl (x : Binding) : x.Redeclared x := ⟨.refl x, List.prefix_rfl, fun _ => rfl⟩

theorem trans (h : x.Redeclared y) (k : y.Redeclared z) : x.Redeclared z where
  keeps := h.keeps.trans k.keeps
  declarations := h.declarations.trans k.declarations
  untouched same := by
    -- What lies between a list and itself is that list.
    have between : y.declarations = x.declarations := by
      apply List.IsPrefix.eq_of_length_le _ h.declarations.length_le
      rw [← same]
      exact k.declarations
    have last : z = y := k.untouched (same.trans between.symm)
    rw [last, h.untouched between]

theorem redeclare (x : Binding) (kind : BindingKind) (span : Span) :
    x.Redeclared (x.redeclare kind span) := by
  have longer : (x.redeclare kind span).declarations = x.declarations ++ [span] := by
    simp [Binding.redeclare, Binding.declarations]
  refine ⟨⟨rfl, rfl, rfl⟩, ?_, fun same => ?_⟩
  · rw [longer]
    exact List.prefix_append _ _
  · rw [longer] at same
    simp at same

end Binding.Redeclared

/-! ## The tables -/

namespace Builder

/-- Scopes that exist keep their ranges, and bindings are at most declared once more. -/
structure State.Adds (s t : State) : Prop where
  size : s.scopes.size ≤ t.scopes.size
  range : ∀ i < s.scopes.size, rangeIn t.scopes i = rangeIn s.scopes i
  binding : ∀ (i : BindingId) (x : Binding), s.bindings[i]? = some x →
    ∃ y, t.bindings[i]? = some y ∧ x.Redeclared y

namespace State.Adds

variable {s t u : State}

theorem of_eq (scopes : t.scopes = s.scopes) (bindings : t.bindings = s.bindings) : s.Adds t where
  size := Nat.le_of_eq (congrArg Array.size scopes.symm)
  range i _ := by rw [scopes]
  binding i x at_s := ⟨x, bindings ▸ at_s, .refl x⟩

theorem trans (h : s.Adds t) (k : t.Adds u) : s.Adds u where
  size := Nat.le_trans h.size k.size
  range i inside := (k.range i (Nat.lt_of_lt_of_le inside h.size)).trans (h.range i inside)
  binding i x at_s := by
    obtain ⟨y, at_t, xy⟩ := h.binding i x at_s
    obtain ⟨z, at_u, yz⟩ := k.binding i y at_t
    exact ⟨z, at_u, xy.trans yz⟩

theorem push (s : State) (kind : ScopeKind) (label : String) (start : Nat) (opener : Opener) :
    s.Adds (s.pushScope kind label start opener) where
  size := by
    rw [State.pushScope_size]
    exact Nat.le_succ _
  range i inside := rangeIn_push_old inside
  binding i x at_s := ⟨x, at_s, .refl x⟩

/-- The end of a scope that is new changes none that was there. -/
theorem pop (h : s.Adds t) {id : ScopeId} (new : s.scopes.size ≤ id) (stop : Nat) :
    s.Adds (t.popScope id stop) where
  size := by
    rw [State.popScope_size]
    exact h.size
  range i inside := by
    rw [rangeIn_pop_other (Nat.ne_of_lt (Nat.lt_of_lt_of_le inside new))]
    exact h.range i inside
  binding := h.binding

theorem declare (s : State) (name : Token) (kind : BindingKind) : s.Adds (s.declare name kind) where
  size := Nat.le_of_eq (s.declare_size name kind).symm
  range i _ := rangeIn_declare name kind
  binding i x at_s := by
    rcases s.declare_cases name kind with ⟨known, _, e⟩ | ⟨_, e⟩
    · rw [e]
      simp only [Array.getElem?_modify, at_s]
      split
      · exact ⟨_, rfl, .redeclare x kind name.span⟩
      · exact ⟨x, rfl, .refl x⟩
    · rw [e]
      have inside : i < s.bindings.size := (Array.getElem?_eq_some_iff.mp at_s).1
      simp only [Array.getElem?_push, if_neg (Nat.ne_of_lt inside), at_s]
      exact ⟨x, rfl, .refl x⟩

end State.Adds

variable {c : Context} {s t : State}

theorem Opening.adds (h : Opening c s t) : s.Adds t := by
  cases h with
  | plain _ =>
    have deeper : s.Adds s.deepen := .of_eq rfl rfl
    exact deeper.trans (.push _ _ _ _ _)
  | named _ _ =>
    have deeper : s.Adds (c.behind s).deepen := .of_eq rfl rfl
    exact (deeper.trans (.push _ _ _ _ _)).trans (.declare _ _ _)

/-- A walk only adds to the tables. -/
theorem Walk.adds (w : Walk c s t) : s.Adds t := by
  have behind (s : State) : s.Adds (c.behind s) := .of_eq rfl rfl
  induction w with
  | stay s => exact .of_eq rfl rfl
  | trans _ _ first second => exact first.trans second
  | pass _ => exact behind _
  | select _ =>
    unfold Context.behindSelector
    split
    · exact (behind _).trans (behind _)
    · exact behind _
  | use _ => exact (behind _).trans (.of_eq rfl rfl)
  | name _ _ => exact (behind _).trans (.declare _ _ _)
  | pair _ _ _ inner => exact ((behind _).trans inner).trans (behind _)
  | @deeper s t _ _ inner =>
    have deeper : s.Adds s.deepen := .of_eq rfl rfl
    exact (deeper.trans inner).trans (.of_eq rfl rfl)
  | @scope s opened t u opener _ opening _ _ _ header body =>
    have begun : s.Adds (t.reopen opener) :=
      (opening.adds.trans header).trans (.of_eq (by simp) (by simp))
    have ended := (begun.trans body).pop (Nat.le_refl _) u.prevEnd
    exact ended.trans (.of_eq rfl rfl)

/-! ## The frame -/

/-- What a production leaves alone: the open scopes and the depth, and all that is in the tables, which
are only added to. -/
structure State.Framed (s t : State) : Prop where
  frames : t.frames = s.frames
  depth : t.depth = s.depth
  grows : s.Grows t
  adds : s.Adds t

theorem Walk.framed (w : Walk c s t) : s.Framed t := ⟨w.frames_eq, w.depth_eq, w.grows, w.adds⟩

end Builder

end Scoping
