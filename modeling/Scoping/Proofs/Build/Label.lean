import Scoping.Proofs.Build.Agree

/-!
# What scopes are called

A scope is called by a fixed word, by the text of a name or number, or by the text of a quoted key,
and a binding by the text of a name (`State.Titled`). Each action of a run keeps that (`Titled.kept`), for
none opens a scope or declares a name but with labels and names of these kinds. Nothing else is known of
a label: a quoted key may hold any text that a string token has.
-/

namespace Scoping

open Builder

/-- What a scope over the tokens may be called. -/
inductive Title (ts : List Token) : String → Prop
  | fixed {label : String} : label ∈ scopeWords → Title ts label
  | name {t : Token} : t ∈ ts → spellsName t = true → Title ts t.lexeme
  | key {t : Token} : t ∈ ts → t.kind = .string → Title ts (keyText t.lexeme)

theorem Title.of_labels {ts : List Token} {label label' : String}
    (h : Labels (fun t t' => t = t' ∧ t ∈ ts) label label') : Title ts label := by
  cases h with
  | fixed known => exact .fixed known
  | name same spells => exact .name same.2 spells
  | key same string => exact .key same.2 string

namespace Builder

/-- Scopes and bindings are called as they may be over the tokens. -/
structure State.Titled (ts : List Token) (s : State) : Prop where
  labels : ∀ (i : Nat) (x : Scope), s.scopes[i]? = some x → Title ts x.label
  names : ∀ b ∈ s.bindings, ∃ t ∈ ts, t.isIdentifier = true ∧ b.name = t.lexeme

namespace State.Titled

variable {c : Context} {ts : List Token} {s t : State}

theorem start (ts : List Token) : State.start.Titled ts where
  labels i x at_i := by
    have mem := Array.mem_of_getElem? at_i
    rw [Array.mem_singleton.mp mem]
    exact .fixed (by decide)
  names _ mem := nomatch mem

/-- Where no scope is opened and nothing declared, nothing is called anew. -/
theorem of_eq (h : s.Titled ts) (scopes : t.scopes = s.scopes) (bindings : t.bindings = s.bindings) :
    t.Titled ts where
  labels := by rw [scopes]; exact h.labels
  names := by rw [bindings]; exact h.names

theorem push (h : s.Titled ts) (kind : ScopeKind) {label : String} (start : Nat) (opener : Opener)
    (title : Title ts label) : (s.pushScope kind label start opener).Titled ts where
  labels i x at_i := by
    rcases State.pushScope_cases _ _ _ _ _ at_i with ⟨_, rfl⟩ | ⟨_, y, at_y, rfl⟩
    · exact title
    · have label := h.labels i y at_y
      split
      · exact label
      · exact label
  names := h.names

theorem pop (h : s.Titled ts) (id : ScopeId) (stop : Nat) : (s.popScope id stop).Titled ts where
  labels i x at_i := by
    rw [State.popScope_scope] at at_i
    obtain ⟨y, at_y, rfl⟩ := Option.map_eq_some_iff.mp at_i
    have label := h.labels i y at_y
    split
    · exact label
    · exact label
  names := h.names

theorem declare (h : s.Titled ts) {name : Token} (mem : name ∈ ts)
    (isName : name.isIdentifier = true) (kind : BindingKind) :
    (s.declare name kind).Titled ts := by
  rcases s.declare_cases name kind with ⟨known, _, same⟩ | ⟨_, same⟩
  · rw [same]
    refine ⟨h.labels, fun b listed => ?_⟩
    obtain ⟨i, at_i⟩ := Array.mem_iff_getElem?.mp listed
    rw [Array.getElem?_modify] at at_i
    split at at_i
    · obtain ⟨b', at_b, rfl⟩ := Option.map_eq_some_iff.mp at_i
      exact h.names b' (Array.mem_of_getElem? at_b)
    · exact h.names b (Array.mem_of_getElem? at_i)
  · rw [same]
    constructor
    case labels =>
      intro i x at_i
      rw [Array.getElem?_modify] at at_i
      split at at_i
      · obtain ⟨y, at_y, rfl⟩ := Option.map_eq_some_iff.mp at_i
        exact h.labels i y at_y
      · exact h.labels i x at_i
    case names =>
      intro b listed
      rcases Array.mem_push.mp listed with old | rfl
      · exact h.names b old
      · exact ⟨name, mem, isName, rfl⟩

/-- All that a run does calls scopes and bindings as they may be. -/
theorem kept (c : Context) : Kept c (State.Titled c.tokens.toList) where
  behind titled := titled.of_eq rfl rfl
  refer titled _ _ := titled.of_eq rfl rfl
  declare kind titled mem name := titled.declare mem name kind
  deepen titled _ := titled.of_eq rfl rfl
  rise titled := titled.of_eq rfl rfl
  push kind start opener titled labels := titled.push kind start opener (Title.of_labels labels)
  reopen _ titled := titled.of_eq (State.reopen_scopes _ _) (State.reopen_bindings _ _)
  pop id stop titled := titled.pop id stop

end State.Titled

/-- The scopes and bindings of a tree are called after the tokens that mean something. -/
theorem ofTokens_titled {ts : List Token} {limit : Nat} {t : Tree} (h : Tree.ofTokens ts limit = .ok t) :
    (∀ x ∈ t.scopes, Title (significant ts) x.label) ∧
      ∀ b ∈ t.bindings, ∃ u ∈ significant ts, u.isIdentifier = true ∧ b.name = u.lexeme := by
  obtain ⟨final, s, last, atEnd, made, rfl⟩ := ofTokens_run h
  have formed := ofTokens_formed last atEnd limit
  rcases (Context.Agrees.refl _).run_cases formed (State.Titled.kept _) (.start _)
    (room_lt_levels (Nat.le_refl _) _) (Nat.le_refl _) with ⟨_, ran, _, titled⟩ | ⟨e, ran, _⟩
  · rw [made] at ran
    cases ran
    refine ⟨fun x mem => ?_, titled.names⟩
    obtain ⟨i, at_i⟩ := Array.mem_iff_getElem?.mp mem
    dsimp only [State.tree] at at_i
    rw [Array.getElem?_modify] at at_i
    split at at_i
    · obtain ⟨y, at_y, rfl⟩ := Option.map_eq_some_iff.mp at_i
      exact titled.labels i y at_y
    · exact titled.labels i x at_i
  · rw [made] at ran
    cases ran

end Builder

end Scoping
