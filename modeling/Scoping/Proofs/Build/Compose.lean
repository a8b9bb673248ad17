import Scoping.Proofs.Build.Reach

/-!
# What productions are put together from

A production changes the state itself, by steps of a few kinds, and leaves the rest to calls of the
grammar; it does one after the other and looks at nothing else (`Composed`). Three things follow, for
all productions alike and whatever the grammar answers. A production makes a call, or would not notice
if that call failed (`Composed.gets_or_unnoticed`). Its run is a row of steps and of calls that it
makes (`Composed.follows`). And where it succeeds, each call that it made has returned, and what came
behind it is a row of the same (`Composed.returned`).

Which kinds of steps there are is told by `Change`, one for each way to change the state at once. A
production may open levels and has closed them when it ends, so what it is made of is counted from level
to level (`Levels`).
-/

namespace Scoping

open Builder Grammar

namespace Grammar

variable {c : Context} {g : Grammar} {call : Call} {u : State} {e : Failure}

/-- A grammar that fails at one call in one state answers all else as before. -/
theorem failingAt_call (other : Call) (s : State) :
    (((g.failingAt call u e).call other).run c).run s =
      if call = other ∧ s = u then .error e else ((g.call other).run c).run s := by
  cases other
  all_goals
    show (((if _ ∧ s = u then throw e else _ : Build Unit)).run c).run s = _
    split <;> rfl

end Grammar

namespace Builder

variable {α β : Type} {c : Context} {T : State → State → Prop} {g : Grammar} {call : Call}
  {s t u : State}

/-- A step that `T` allows, from `a` levels above some depth to `b` levels above it. -/
def Levels (T : State → State → Prop) (a b : Nat) (s t : State) : Prop :=
  T s t ∧ (a ≤ s.depth → t.depth + a = s.depth + b)

/-- What is made of steps that `T` allows and of calls of the grammar. It begins `a` levels above some
depth and ends `b` levels above it, and what it is made of follows on each other. -/
inductive Composed (c : Context) (T : State → State → Prop) :
    (a b : Nat) → {α : Type} → (Grammar → Build α) → Prop
  | act {a b : Nat} {α : Type} {m : Build α} :
    (∀ s, m.Ends c (fun _ => True) (fun _ t => Levels T a b s t) s) → Composed c T a b fun _ => m
  | call {a : Nat} (call : Call) : Composed c T a a fun g => g.call call
  | bind {a b d : Nat} {α β : Type} {m : Grammar → Build α} {k : α → Grammar → Build β} :
    Composed c T a b m → (∀ x, Composed c T b d (k x)) → Composed c T a d fun g => m g >>= fun x => k x g

/-! ## Calls that are made -/

section
variable {m : Grammar → Build α} {k : α → Grammar → Build β}

theorem run_bind_of_error {e : Failure} (failed : ((m g).run c).run s = .error e) :
    ((m g >>= fun a => k a g).run c).run s = .error e := by
  rw [ReaderT.run_bind, StateT.run_bind, failed]
  rfl

theorem run_bind_of_ok {a : α} (ran : ((m g).run c).run s = .ok (a, t)) :
    ((m g >>= fun a => k a g).run c).run s = ((k a g).run c).run t := by
  rw [ReaderT.run_bind, StateT.run_bind, ran]
  rfl

/-- The failure of a call that is made makes a difference. -/
theorem Gets.noticed {r : Except Failure (α × State)} (gets : Gets m g c s call u) :
    ¬ ∀ e, ((m (g.failingAt call u e)).run c).run s = r := by
  intro same
  have other := (same .exhausted).trans (same (.rejected ⟨0, .missingEnd⟩)).symm
  rw [gets, gets] at other
  cases other

/-- A call that the first part does not make is made behind it. -/
theorem Gets.behind {a : α} (gets : Gets (fun g => m g >>= fun a => k a g) g c s call u)
    (ran : ((m g).run c).run s = .ok (a, t))
    (unnoticed : ∀ e, ((m (g.failingAt call u e)).run c).run s = ((m g).run c).run s) :
    Gets (k a) g c t call u :=
  fun e => (run_bind_of_ok ((unnoticed e).trans ran)).symm.trans (gets e)

/-- A call that is made first is made. -/
theorem Gets.first (gets : Gets m g c s call u) :
    Gets (fun g => m g >>= fun a => k a g) g c s call u :=
  fun e => run_bind_of_error (gets e)

end

namespace Composed

variable {a b : Nat} {m : Grammar → Build α}

/-- A call is made, or it would not be noticed if it failed. -/
theorem gets_or_unnoticed (composed : Composed c T a b m) (call : Call) (u s : State) :
    Gets m g c s call u ∨
      ∀ e, ((m (g.failingAt call u e)).run c).run s = ((m g).run c).run s := by
  induction composed generalizing s with
  | act _ => exact .inr fun _ => rfl
  | call other =>
    by_cases here : call = other ∧ s = u
    · exact .inl fun e => by rw [failingAt_call, if_pos here]
    · exact .inr fun e => by rw [failingAt_call, if_neg here]
  | @bind _ _ _ α β m k _ _ first next =>
    rcases first s with gets | unnoticed
    · exact .inl gets.first
    · cases ran : ((m g).run c).run s with
      | error e' =>
        refine .inr fun e => ?_
        rw [run_bind_of_error ran, run_bind_of_error ((unnoticed e).trans ran)]
      | ok out =>
        obtain ⟨a, v⟩ := out
        rcases next a v with gets | unnoticed'
        · exact .inl fun e => (run_bind_of_ok ((unnoticed e).trans ran)).trans (gets e)
        · refine .inr fun e => ?_
          rw [run_bind_of_ok ran, run_bind_of_ok ((unnoticed e).trans ran), unnoticed']

/-- What is called behind a first part that has run is called by the whole. -/
theorem gets_behind {k : α → Grammar → Build β} (composed : Composed c T a b m) {x : α}
    (ran : ((m g).run c).run s = .ok (x, t)) (gets : Gets (k x) g c t call u) :
    Gets (fun g => m g >>= fun a => k a g) g c s call u := by
  rcases composed.gets_or_unnoticed (g := g) call u s with first | unnoticed
  · exact first.first
  · exact fun e => (run_bind_of_ok ((unnoticed e).trans ran)).trans (gets e)

/-- What `T` allows of every call that is made, it allows of the whole. -/
theorem follows (composed : Composed c T a b m) (trans : ∀ {s t u : State}, T s t → T t u → T s u)
    {x : α} (ran : ((m g).run c).run s = .ok (x, t))
    (calls : ∀ call u v, Gets m g c s call u → ((g.call call).run c).run u = .ok ((), v) → T u v) :
    T s t := by
  induction composed generalizing s t with
  | act steps =>
    have ends := steps s
    unfold Build.Ends at ends
    rw [ran] at ends
    exact ends.1
  | call other =>
    refine calls other s t (fun e => ?_) ran
    rw [failingAt_call, if_pos ⟨rfl, rfl⟩]
  | @bind _ _ _ α β m k composed _ first next =>
    cases begun : ((m g).run c).run s with
    | error e =>
      rw [run_bind_of_error begun] at ran
      cases ran
    | ok out =>
      obtain ⟨b, v⟩ := out
      rw [run_bind_of_ok begun] at ran
      refine trans (first begun fun call u w gets => calls call u w gets.first) ?_
      exact next b ran fun call u w gets => calls call u w (composed.gets_behind begun gets)

/-- What `T` allows of every call, it allows of the way to a call that is made. -/
theorem reaches (composed : Composed c T a b m) (trans : ∀ {s t u : State}, T s t → T t u → T s u)
    (refl : ∀ s, T s s) (gets : Gets m g c s call u)
    (calls : ∀ call u v, ((g.call call).run c).run u = .ok ((), v) → T u v) : T s u := by
  induction composed generalizing s with
  | act _ => exact absurd (fun _ => rfl) gets.noticed
  | call other =>
    by_cases here : call = other ∧ s = u
    · exact here.2 ▸ refl s
    · exact absurd (fun e => by rw [failingAt_call, if_neg here]) gets.noticed
  | @bind _ _ _ α β m k composed _ first next =>
    rcases composed.gets_or_unnoticed (g := g) call u s with early | unnoticed
    · exact first early
    · cases begun : ((m g).run c).run s with
      | error e =>
        exact absurd (fun e => run_bind_of_error ((unnoticed e).trans begun)) gets.noticed
      | ok out =>
        obtain ⟨b, v⟩ := out
        have late := gets.behind begun unnoticed
        exact trans (composed.follows trans begun fun call u v _ => calls call u v) (next b late)

/-- Where all goes well, a call that is made has returned, and `T` allows all that is done behind it. -/
theorem returned (composed : Composed c T a b m) (trans : ∀ {s t u : State}, T s t → T t u → T s u)
    (refl : ∀ s, T s s) {x : α} (ran : ((m g).run c).run s = .ok (x, t)) (gets : Gets m g c s call u)
    (calls : ∀ call u v, ((g.call call).run c).run u = .ok ((), v) → T u v) :
    ∃ v, ((g.call call).run c).run u = .ok ((), v) ∧ T v t := by
  induction composed generalizing s t with
  | act _ => exact absurd (fun _ => rfl) gets.noticed
  | call other =>
    by_cases here : call = other ∧ s = u
    · obtain ⟨rfl, rfl⟩ := here
      exact ⟨t, ran, refl t⟩
    · exact absurd (fun e => by rw [failingAt_call, if_neg here]) gets.noticed
  | @bind _ _ _ α β m k composed rest first next =>
    cases begun : ((m g).run c).run s with
    | error e =>
      rw [run_bind_of_error begun] at ran
      cases ran
    | ok out =>
      obtain ⟨b, v⟩ := out
      rw [run_bind_of_ok begun] at ran
      rcases composed.gets_or_unnoticed (g := g) call u s with early | unnoticed
      · obtain ⟨w, made, inside⟩ := first begun early
        refine ⟨w, made, trans inside ?_⟩
        exact (rest b).follows trans ran fun call u v _ => calls call u v
      · exact next b ran (gets.behind begun unnoticed)

end Composed

/-! ## Steps -/

/-- The single changes that are made of a state, with declarations of the given kinds. -/
inductive Change (kinds : BindingKind → Prop) : State → State → Prop
  | consume (s : State) (t : Token) : Change kinds s (s.consume t)
  | deepen (s : State) : Change kinds s s.deepen
  | rise (s : State) : Change kinds s s.rise
  | push (s : State) (kind : ScopeKind) (label : String) (start : Nat) (opener : Opener) :
    Change kinds s (s.pushScope kind label start opener)
  | reopen (s : State) (opener : Opener) : Change kinds s (s.reopen opener)
  | pop (s : State) (id : ScopeId) (stop : Nat) : Change kinds s (s.popScope id stop)
  | refer (s : State) (name : Token) : Change kinds s (s.refer name)
  | declare (s : State) (name : Token) {kind : BindingKind} : kinds kind →
    Change kinds s (s.declare name kind)

theorem Change.mono {kinds kinds' : BindingKind → Prop} (wider : ∀ kind, kinds kind → kinds' kind)
    (change : Change kinds s t) : Change kinds' s t := by
  cases change with
  | consume t => exact .consume s t
  | deepen => exact .deepen s
  | rise => exact .rise s
  | push kind label start opener => exact .push s kind label start opener
  | reopen opener => exact .reopen s opener
  | pop id stop => exact .pop s id stop
  | refer name => exact .refer s name
  | declare name allowed => exact .declare s name (wider _ allowed)

/-- `T` allows to stay, and every change of the state but the declaration of a function. -/
structure Permits (T : State → State → Prop) : Prop where
  refl : ∀ s, T s s
  change : ∀ {s t : State}, Change (· ≠ .function) s t → T s t

namespace Permits

/-- It is enough that `T` allows all that leaves the bindings alone, and the other declarations. -/
theorem of_still (still : ∀ {s t : State}, s.Grows t → t.bindings = s.bindings →
      (∀ i, declarationsIn t.scopes i = declarationsIn s.scopes i) → T s t)
    (declare : ∀ (s : State) (name : Token) (kind : BindingKind), kind ≠ .function →
      T s (s.declare name kind)) : Permits T where
  refl s := still (.refl s) rfl fun _ => rfl
  change change := by
    cases change with
    | consume t => exact still (.consume _ t) rfl fun _ => rfl
    | deepen | rise => exact still (.of_eq rfl rfl rfl) rfl fun _ => rfl
    | push kind label start opener =>
      exact still (.push _ kind label start opener) rfl fun _ => declarationsIn_push
    | reopen opener => exact still (.reopen _ opener) (by simp) fun _ => by rw [State.reopen_scopes]
    | pop id stop => exact still (.pop _ id stop) rfl fun _ => declarationsIn_pop
    | refer name => exact still (.refer _ name) rfl fun _ => rfl
    | declare name other => exact declare _ name _ other

variable (permits : Permits T)
include permits

/-- To do nothing keeps the level. -/
theorem stays (s : State) : Levels T a a s s := ⟨permits.refl s, fun _ => rfl⟩

/-- So does a change that keeps the depth. -/
theorem keeps (change : Change (· ≠ .function) s t) (level : t.depth = s.depth) : Levels T a a s t :=
  ⟨permits.change change, fun _ => by rw [level]⟩

end Permits

namespace Composed

variable {a b : Nat} {m n : Grammar → Build α}

theorem statement (place : StatementPlace) : Composed c T a a fun g => g.statement place :=
  .call (.statement place)

theorem expression (mode : ExpressionMode) : Composed c T a a fun g => g.expression mode :=
  .call (.expression mode)

theorem ite {p : Prop} [Decidable p] (yes : p → Composed c T a b m) (no : ¬ p → Composed c T a b n) :
    Composed c T a b fun g => if p then m g else n g := by
  split
  · next h => exact yes h
  · next h => exact no h

/-! What fails takes no step. -/

theorem throw (e : Failure) : Composed (α := α) c T a b fun _ => MonadExcept.throw e :=
  .act fun _ => trivial

theorem refuse (wanted : Expectation) :
    Composed (α := α) c T a b fun _ => Builder.refuse wanted :=
  .act fun _ => trivial

theorem refuseFeature (feature : Feature) :
    Composed (α := α) c T a b fun _ => Builder.refuseFeature feature :=
  .act fun _ => trivial

theorem exhausted : Composed (α := α) c T a b fun _ => Builder.exhausted := .act fun _ => trivial

section
variable (permits : Permits T)
include permits

/-! Looking takes no step either. -/

theorem pure (x : α) : Composed c T a a fun _ => Pure.pure x := .act permits.stays

theorem read : Composed c T a a fun _ => MonadReader.read := .act permits.stays

theorem get : Composed c T a a fun _ => MonadState.get := .act permits.stays

theorem current : Composed c T a a fun _ => Builder.current := .act permits.stays

theorem peek (n : Nat) : Composed c T a a fun _ => Builder.peek n := .act permits.stays

theorem here (p : Punctuation) : Composed c T a a fun _ => Builder.here p := .act permits.stays

theorem hereWord (k : Keyword) : Composed c T a a fun _ => Builder.hereWord k := .act permits.stays

theorem guard {p : Prop} [Decidable p] (wanted : Expectation) :
    Composed c T a a fun _ => if p then Builder.refuse wanted else Pure.pure () :=
  .ite (fun _ => .refuse wanted) fun _ => .pure permits ()

theorem advance : Composed c T a a fun _ => Builder.advance :=
  .act fun s => permits.keeps (.consume s _) rfl

/-- A token is passed over, or nothing is done. -/
theorem skip {p : Prop} [Decidable p] :
    Composed c T a a fun _ => if p then Builder.advance else Pure.pure () :=
  .ite (fun _ => .advance permits) fun _ => .pure permits ()

theorem expect (p : Punctuation) : Composed c T a a fun _ => Builder.expect p :=
  .bind (.here permits p) fun _ => .ite (fun _ => .advance permits) fun _ => .refuse _

theorem expectArrow : Composed c T a a fun _ => Builder.expectArrow :=
  .bind (.here permits .arrow) fun _ => .ite (fun _ => .advance permits) fun _ => .act fun _ => trivial

theorem enter : Composed c T a (a + 1) fun _ => Builder.enter := by
  refine .act fun s => ?_
  rw [Build.ends_enter]
  split
  · trivial
  · exact ⟨permits.change (.deepen s), fun _ => by rw [State.deepen_depth]; omega⟩

theorem leave : Composed c T (a + 1) a fun _ => Builder.leave :=
  .act fun s => ⟨permits.change (.rise s), fun _ => by rw [State.rise_depth]; omega⟩

theorem openScope (kind : ScopeKind) (label : String) (start : Nat) (opener : Opener) :
    Composed c T a (a + 1) fun _ => Builder.openScope kind label start opener :=
  .bind (.enter permits) fun _ => .bind (.get permits) fun _ =>
    .bind (.act fun s => permits.keeps (.push s kind label start opener) rfl) fun _ =>
      .pure permits _

theorem attachBrace : Composed c T a a fun _ => Builder.attachBrace :=
  .act fun s => permits.keeps (.reopen s _) (s.reopen_depth _)

theorem closeScope (id : ScopeId) (stop : Nat) :
    Composed c T (a + 1) a fun _ => Builder.closeScope id stop := by
  have rest : Composed c T (a + 1) a fun _ =>
      (modify (·.popScope id stop) : Build Unit) >>= fun _ => Builder.leave :=
    .bind (.act fun s => permits.keeps (.pop s id stop) rfl) fun _ => .leave permits
  refine .bind (.get permits) fun s => ?_
  split
  · exact .ite (fun _ => .bind (.throw _) fun _ => rest) fun _ => rest
  · exact .bind (.throw _) fun _ => rest

theorem closeBraceScope (id : ScopeId) :
    Composed c T (a + 1) a fun _ => Builder.closeBraceScope id := by
  simp only [Builder.closeBraceScope, Build.join]
  exact .bind (.here permits _) fun _ => .bind (.guard permits _) fun _ =>
    .bind (.current permits) fun _ => .bind (.read permits) fun _ => .bind (.get permits) fun _ =>
      .bind (.ite (fun _ => .throw _) fun _ => .pure permits ()) fun _ =>
        .bind (.advance permits) fun _ => .closeScope permits id _

theorem declare (name : Token) {kind : BindingKind} (other : kind ≠ .function) :
    Composed c T a a fun _ => Builder.declare name kind :=
  .act fun s => permits.keeps (.declare s name other) (s.declare_depth name kind)

theorem refer (name : Token) : Composed c T a a fun _ => Builder.refer name :=
  .act fun s => permits.keeps (.refer s name) rfl

theorem declareHere {kind : BindingKind} (other : kind ≠ .function) (wanted : Expectation) :
    Composed c T a a fun _ => Builder.declareHere kind wanted := by
  refine .bind (.current permits) fun name => ?_
  split
  · exact .bind (.declare permits name other) fun _ => .advance permits
  · exact .refuseFeature _
  · exact .refuseFeature _
  · exact .refuse _

end

end Composed

end Builder

end Scoping
