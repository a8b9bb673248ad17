import Scoping.Build.Grammar

/-!
# Outcomes of a run

`Build.Ends` says of one run how it may end: in an answer and a state of one kind, or in a failure of
another. It passes through the actions of the builder by equations, so that a production is followed
along its text: what only looks at the tokens is computed away, and what goes into the grammar is met
by what is known of it (`Ends.andThen`).

A branch without an answer of its own is elaborated with all that stands behind it in both arms.
`Build.join` and `Build.join₂` take that apart again.
-/

namespace Scoping

open Builder

namespace Build

variable {α β : Type} {c : Context} {E : Failure → Prop} {s : State}

/-- The run of `m` from `s` ends in an answer and a state that satisfy `Q`, or in a failure that
satisfies `E`. -/
def Ends (m : Build α) (c : Context) (E : Failure → Prop) (Q : α → State → Prop) (s : State) :
    Prop :=
  match (m.run c).run s with
  | .ok (a, t) => Q a t
  | .error e => E e

/-- A demand that is met meets every weaker one. -/
theorem Ends.mono {m : Build α} {Q R : α → State → Prop} (h : m.Ends c E Q s)
    (weaker : ∀ a t, Q a t → R a t) : m.Ends c E R s := by
  unfold Ends at h ⊢
  split at h
  · next a t _ => exact weaker a t h
  · exact h

/-- A run ends as it does. -/
theorem ends_run {m : Build α} :
    m.Ends c (fun e => (m.run c).run s = .error e) (fun a t => (m.run c).run s = .ok (a, t)) s := by
  unfold Ends
  split
  · next h => exact h
  · next h => exact h

/-- The one end of a run without an answer of its own. -/
theorem ends_iff_run {m : Build Unit} {t : State} :
    m.Ends c (fun _ => False) (fun _ u => u = t) s ↔ (m.run c).run s = .ok ((), t) := by
  unfold Ends
  cases (m.run c).run s with
  | error e => exact iff_of_false id nofun
  | ok out => exact ⟨fun same => by rw [← same], fun same => by cases same; rfl⟩

/-! ## Structure -/

theorem ends_pure {a : α} {Q : α → State → Prop} : (pure a : Build α).Ends c E Q s ↔ Q a s :=
  Iff.rfl

theorem ends_bind {m : Build α} {f : α → Build β} {Q : β → State → Prop} :
    (m >>= f).Ends c E Q s ↔ m.Ends c E (fun a t => (f a).Ends c E Q t) s := by
  unfold Ends
  rw [ReaderT.run_bind, StateT.run_bind]
  cases (m.run c).run s <;> rfl

/-- What is known of a first action is where the second one starts from. -/
theorem Ends.andThen {m : Build α} {f : α → Build β} {P : α → State → Prop}
    {Q : β → State → Prop} (h : m.Ends c E P s) (next : ∀ a t, P a t → (f a).Ends c E Q t) :
    (m >>= f).Ends c E Q s :=
  ends_bind.mpr (h.mono next)

theorem ends_ite {p : Prop} [Decidable p] {m n : Build α} {Q : α → State → Prop} :
    (if p then m else n).Ends c E Q s ↔ if p then m.Ends c E Q s else n.Ends c E Q s := by
  split <;> rfl

theorem ends_throw {e : Failure} {Q : α → State → Prop} :
    (throw e : Build α).Ends c E Q s ↔ E e :=
  Iff.rfl

/-- What follows a branch stands in both arms. -/
theorem ite_bind {p : Prop} [Decidable p] {m n : Build α} {f : α → Build β} :
    ((if p then m else n) >>= f) = if p then m >>= f else n >>= f := by
  split <;> rfl

/-- A branch that only acts stands before what follows it. -/
theorem join {p : Prop} [Decidable p] (m : Build Unit) (f : Unit → Build β) :
    (if p then m >>= f else f ()) = (if p then m else pure ()) >>= f := by
  split
  · rfl
  · exact (pure_bind () f).symm

/-- The same with two actions in the branch. -/
theorem join₂ {p : Prop} [Decidable p] (m : Build α) (n : α → Build Unit) (f : Unit → Build β) :
    (if p then m >>= fun a => n a >>= f else f ()) = (if p then m >>= n else pure ()) >>= f := by
  rw [← join, bind_assoc]

/-! ## Looking -/

theorem ends_read {Q : Context → State → Prop} : Ends read c E Q s ↔ Q c s := Iff.rfl

theorem ends_get {Q : State → State → Prop} : Ends get c E Q s ↔ Q s s := Iff.rfl

theorem ends_current {Q : Token → State → Prop} :
    current.Ends c E Q s ↔ Q (c.token s.pos) s :=
  Iff.rfl

theorem ends_here {p : Punctuation} {Q : Bool → State → Prop} :
    (here p).Ends c E Q s ↔ Q ((c.token s.pos).isPunct p) s :=
  Iff.rfl

/-! ## Acting -/

theorem ends_modify {f : State → State} {Q : Unit → State → Prop} :
    Ends (modify f) c E Q s ↔ Q () (f s) :=
  Iff.rfl

theorem ends_advance {Q : Unit → State → Prop} :
    advance.Ends c E Q s ↔ Q () (s.consume (c.token s.pos)) :=
  Iff.rfl

theorem ends_declare {name : Token} {kind : BindingKind} {Q : Unit → State → Prop} :
    (declare name kind).Ends c E Q s ↔ Q () (s.declare name kind) :=
  Iff.rfl

theorem ends_refer {name : Token} {Q : Unit → State → Prop} :
    (refer name).Ends c E Q s ↔ Q () (s.refer name) :=
  Iff.rfl

theorem ends_attachBrace {Q : Unit → State → Prop} :
    attachBrace.Ends c E Q s ↔ Q () (s.reopen (.brace s.pos)) :=
  Iff.rfl

/-- A level deeper is a failure past the limit. -/
theorem ends_enter {Q : Unit → State → Prop} :
    enter.Ends c E Q s ↔
      if c.limit < s.depth + 1 then
        E (.rejected ⟨(c.token s.pos).span.start, .nestingTooDeep c.limit⟩)
      else Q () s.deepen := by
  change (if c.limit < s.depth + 1 then _ else _ : Build Unit).Ends c E Q s.deepen ↔ _
  rw [ends_ite]
  rfl

/-- The id of a new scope is the number of scopes so far. -/
theorem ends_openScope {kind : ScopeKind} {label : String} {start : Nat} {opener : Opener}
    {Q : ScopeId → State → Prop} :
    (openScope kind label start opener).Ends c E Q s ↔
      if c.limit < s.depth + 1 then
        E (.rejected ⟨(c.token s.pos).span.start, .nestingTooDeep c.limit⟩)
      else Q s.scopes.size (s.deepen.pushScope kind label start opener) := by
  rw [openScope, ends_bind, ends_enter]
  rfl

/-! ## Failing -/

theorem ends_expect {p : Punctuation} {Q : Unit → State → Prop} :
    (expect p).Ends c E Q s ↔
      if (c.token s.pos).isPunct p then Q () (s.consume (c.token s.pos))
      else E (.rejected (c.unexpected s (.punct p))) := by
  rw [expect, ends_bind, ends_here, ends_ite]
  rfl

/-! ## Checks of the builder on its own state -/

theorem ends_expectArrow {Q : Unit → State → Prop} :
    expectArrow.Ends c E Q s ↔
      if (c.token s.pos).isPunct .arrow then Q () (s.consume (c.token s.pos))
      else E (.inconsistent (c.unexpected s (.punct .arrow))) := by
  rw [expectArrow, ends_bind, ends_here, ends_ite]
  rfl

theorem ends_closeScope {id : ScopeId} {stop : Nat} {Q : Unit → State → Prop} :
    (closeScope id stop).Ends c E Q s ↔
      match s.frames.head? with
      | some f =>
        if f.scope = id then Q () (s.popScope id stop).rise
        else E (.inconsistent ⟨stop, .unterminatedScope f.start⟩)
      | none => E (.inconsistent ⟨stop, .unterminatedScope stop⟩) := by
  rw [closeScope, ends_bind, ends_get]
  cases s.frames.head? with
  | none => rfl
  | some f =>
    by_cases same : f.scope = id
    · simp only [same, bne_self_eq_false, Bool.false_eq_true, ↓reduceIte]
      rfl
    · simp only [bne_iff_ne.mpr same, if_neg same, ↓reduceIte]
      rfl

/-- A scope that stands on top can be closed. -/
theorem ends_closeScope_top {f : Frame} {rest : List Frame} {stop : Nat}
    {Q : Unit → State → Prop} (top : s.frames = f :: rest) :
    (closeScope f.scope stop).Ends c E Q s ↔ Q () (s.popScope f.scope stop).rise := by
  rw [ends_closeScope, top, List.head?_cons]
  simp only [↓reduceIte]

theorem ends_closeBraceScope {id : ScopeId} {Q : Unit → State → Prop} :
    (closeBraceScope id).Ends c E Q s ↔
      if (c.token s.pos).isPunct .closeBrace then
        if closesTop c s then
          (closeScope id (c.token s.pos).span.stop).Ends c E Q (s.consume (c.token s.pos))
        else E (.inconsistent ⟨(c.token s.pos).span.start, .unbalanced .closeBrace⟩)
      else E (.rejected (c.unexpected s (.punct .closeBrace))) := by
  rw [closeBraceScope, ends_bind, ends_here]
  cases (c.token s.pos).isPunct .closeBrace with
  | false => rfl
  | true =>
    cases closes : closesTop c s with
    | false =>
      simp only [Bool.not_true, Bool.false_eq_true, ↓reduceIte, ends_bind, ends_current, ends_read,
        ends_get, closes, Bool.not_false, ends_throw]
    | true =>
      simp only [Bool.not_true, Bool.false_eq_true, ↓reduceIte, ends_bind, ends_current, ends_read,
        ends_get, closes, ends_advance]

end Build

end Scoping
