import Scoping.Proofs.Build.Agree
import Scoping.Proofs.Build.Frame
import Scoping.Proofs.Token.Tiling

/-!
# The calls that a run makes

A program is read by calls of the two productions that contain each other, each made from inside
another or from the program itself. A call is made in a state where a failure put in its place is the
failure of what makes it (`Gets`); from call to call this gives all that a run reaches (`Reached`).

Each of them is made from a state that is ready for it (`Reached.ready`): a grammar that fails only
elsewhere still serves, and what reads over a grammar that serves never runs out. So every call that a
run makes ends. It refuses the tokens, or it consumes what it has to and leaves alone what was there
(`Steps`); and no token is looked at but those in the list (`run_ending`).

That a call of an expression consumes something is not told: before the end of input it consumes
nothing.
-/

namespace Scoping

open Builder

/-! ## Calls -/

namespace Grammar

/-- A call of one of the productions that a grammar has. -/
inductive Call where
  | statement (place : StatementPlace)
  | expression (mode : ExpressionMode)
  deriving DecidableEq, Repr, Inhabited

namespace Call

/-- The tokens that a call consumes at least. -/
def least : Call → Nat
  | statement _ => 1
  | expression _ => 0

/-- What of `a` and `b` the call needs of a grammar that serves these. -/
def need (a b : Nat) : Call → Nat
  | statement _ => a
  | expression _ => b

end Call

/-- The call as the grammar answers it. -/
def call (g : Grammar) : Call → Build Unit
  | .statement place => g.statement place
  | .expression mode => g.expression mode

/-- The same grammar, but that one call fails in one state. -/
def failingAt (g : Grammar) (call : Call) (u : State) (e : Failure) : Grammar where
  statement place := do
    if call = .statement place ∧ (← get) = u then throw e else g.statement place
  expression mode := do
    if call = .expression mode ∧ (← get) = u then throw e else g.expression mode

namespace Serves

variable {c : Context} {g : Grammar} {a b : Nat} {s u : State}

theorem call (serves : g.Serves c a b) (call : Call) (s : State) :
    Reads c (call.need a b) (fun _ => s.pos + call.least) (g.call call) s := by
  cases call with
  | statement place => exact serves.statement place s
  | expression mode => exact serves.expression mode s

/-- A grammar that fails only where nothing is asked of it still serves. -/
theorem failingAt (serves : g.Serves c a b) {call : Call}
    (unready : ¬ Ready c (call.need a b) u) (e : Failure) :
    (g.failingAt call u e).Serves c a b := by
  constructor
  · intro place s
    refine .get (.ite (fun here ready => ?_) fun _ => serves.statement place s)
    obtain ⟨rfl, rfl⟩ := here
    exact absurd ready unready
  · intro mode s
    refine .get (.ite (fun here ready => ?_) fun _ => serves.expression mode s)
    obtain ⟨rfl, rfl⟩ := here
    exact absurd ready unready

end Serves

end Grammar

open Grammar

namespace Builder

variable {c : Context} {g : Grammar} {level : Nat} {call : Call} {s t u : State}

/-- Over the grammar `m` comes to make the call in the state `u`: if that call failed, so would `m`,
with the same failure. -/
def Gets {α : Type} (m : Grammar → Build α) (g : Grammar) (c : Context) (s : State) (call : Call)
    (u : State) : Prop :=
  ∀ e, ((m (g.failingAt call u e)).run c).run s = .error e

/-- A run at the level `top` comes to make the call in the state `u`, with `level` levels left. -/
inductive Reached (c : Context) (top : Nat) : (level : Nat) → Call → State → Prop
  | outermost {call : Call} {u : State} :
    Gets program (Grammar.level top) c .start call u → Reached c top top call u
  | inside {level : Nat} {outer call : Call} {s u : State} : Reached c top (level + 1) outer s →
    Gets (fun g => g.next.call outer) (Grammar.level level) c s call u → Reached c top level call u

/-- What reads over every grammar that serves makes its calls from states that are ready for them. -/
theorem Gets.ready {a b : Nat} {m : Grammar → Build Unit} (gets : Gets m g c s call u)
    (serves : g.Serves c a b)
    (ends : ∀ g' : Grammar, g'.Serves c a b →
      ∃ Q, (m g').Ends c (Failure.Sound c) Q s) : Ready c (call.need a b) u := by
  refine Classical.byContradiction fun unready => ?_
  obtain ⟨Q, ended⟩ := ends _ (serves.failingAt unready .exhausted)
  unfold Build.Ends at ended
  rw [gets .exhausted] at ended
  exact ended

/-- Every call that a run makes is made from a state that is ready for it. -/
theorem Reached.ready {top : Nat} (formed : c.Formed) (enough : c.levels ≤ top)
    (reached : Reached c top level call u) : Ready c (call.need (level / 2) ((level + 1) / 2)) u := by
  induction reached with
  | outermost gets =>
    apply gets.ready (Grammar.level_serves c top)
    intro g' serves
    exact ⟨_, program_ends serves formed (room_lt_levels enough _)⟩
  | @inside level outer call s u _ gets ih =>
    apply gets.ready (Grammar.level_serves c level)
    intro g' serves
    exact ⟨_, serves.next.call outer s ih⟩

/-! ## What a call does -/

/-- From the state `s` the tokens are refused, or at least so many of them are consumed and the state
behind them frames what was there. -/
def Steps (c : Context) (least : Nat) (m : Build Unit) (s : State) : Prop :=
  m.Ends c (fun e => ∃ r, e = .rejected r)
    (fun _ t => s.Framed t ∧ s.pos + least ≤ t.pos ∧ t.pos < c.tokens.size) s

theorem steps_of_ready (ready : Ready c (call.need (level / 2) ((level + 1) / 2)) s) :
    Steps c call.least ((Grammar.level level).call call) s := by
  have ends := (Grammar.level_serves c level).call call s ready
  unfold Steps
  unfold Build.Ends at ends ⊢
  split at ends
  · next t ran =>
    obtain ⟨w, further⟩ := ends
    exact ⟨w.framed, further, w.inside ready.formed ready.inside⟩
  · exact Failure.Sound.exists_rejected ends

/-! ## No token behind the last -/

/-- The same tokens, with another one to be seen behind them. -/
def Context.ending (c : Context) (t : Token) : Context := { c with final := t }

/-- The token that is seen behind the list is all that changes. -/
theorem Context.ending_agrees (x : Token) : c.Agrees (c.ending x) where
  limit := rfl
  token n inside := by simp [Context.token, Context.ending, inside]
  partner _ := rfl
  arrow _ := rfl
  rounds := Nat.le_refl _

/-- Whatever is to be seen behind the last token, a run does not look at it. -/
theorem run_ending (formed : c.Formed) (enough : c.levels ≤ level) (x : Token) :
    run level c = run level (c.ending x) :=
  (Context.ending_agrees x).run_eq formed (room_lt_levels enough _) (Nat.le_refl _)

/-! ## Runs -/

/-- A run steps through the tokens. Every call that it makes steps from where it is made, and so would
any other call there; no budget is used up; and the cursor does not leave the list, so that nothing
behind it matters. -/
structure Context.Steady (c : Context) : Prop where
  calls : ∀ level call u, Reached c c.levels level call u →
    Steps c call.least ((Grammar.level level).call call) u
  states : ∀ level call u, Reached c c.levels level call u → u.pos < c.tokens.size ∧
    ∀ other : Call, Steps c other.least ((Grammar.level c.levels).call other) u
  ends : run c.levels c ≠ .error .exhausted
  inside : ∀ s, run c.levels c = .ok s → s.pos < c.tokens.size
  unseen : ∀ x, run c.levels c = run c.levels (c.ending x)

/-- A run over tokens that end with an end of input is steady, also where there is another end of input
before. -/
theorem ofTokens_steady {ts : List Token} {final : Token} (last : ts.getLast? = some final)
    (atEnd : final.isEnd = true) (limit : Nat) : (Context.ofTokens ts final limit).Steady := by
  have formed := ofTokens_formed last atEnd limit
  have enough := Nat.le_refl (Context.ofTokens ts final limit).levels
  have ends := run_ends formed enough
  constructor
  case calls =>
    intro level call u reached
    exact steps_of_ready (reached.ready formed enough)
  case states =>
    intro level call u reached
    have ready := reached.ready formed enough
    refine ⟨ready.inside, fun other => steps_of_ready { ready with room_lt := ?_ }⟩
    have few := room_lt_levels enough u
    cases other with
    | statement place => exact few
    | expression mode =>
      show room _ u < ((Context.ofTokens ts final limit).levels + 1) / 2
      omega
  case ends =>
    intro failed
    rw [failed] at ends
    exact ends
  case inside =>
    intro s made
    rw [made] at ends
    exact ends.1.inside formed formed.nonempty
  case unseen => exact run_ending formed enough

/-- A statement before an end of input that is not the last token. -/
theorem ofTokens_steady_early_end : ∃ (ts : List Token) (final : Token) (c : Context) (t : State),
    ts.getLast? = some final ∧ final.isEnd = true ∧ c = Context.ofTokens ts final 1 ∧ c.Steady ∧
      Reached c c.levels c.levels (.statement .list) .start ∧
      (((Grammar.level c.levels).call (.statement .list)).run c).run .start = .ok ((), t) ∧
      State.start.Framed t ∧ 1 ≤ t.pos ∧ t.references.size = 1 := by
  let ending (offset : Nat) : Token := ⟨.endOfInput, "", .point offset, .none⟩
  let ts : List Token := [⟨.identifier, "x", ⟨0, 1⟩, .none⟩, ending 1,
    ⟨.punctuation .closeBrace, "\x7d", ⟨1, 2⟩, .none⟩, ending 2]
  let c := Context.ofTokens ts (ending 2) 1
  have steady : c.Steady := @ofTokens_steady ts (ending 2) rfl rfl 1
  have reached : Reached c c.levels c.levels (.statement .list) .start := by
    apply Reached.outermost
    intro e
    rfl
  have made : ((((Grammar.level c.levels).call (.statement .list)).run c).run .start).toOption.map
      (fun out => out.2.references.size) = some 1 := by
    decide +kernel
  obtain ⟨⟨⟨⟩, t⟩, ran, used⟩ := Option.map_eq_some_iff.mp made
  have ran := ok_of_toOption ran
  have steps := steady.calls _ _ _ reached
  unfold Steps Build.Ends at steps
  rw [ran] at steps
  obtain ⟨framed, further, _⟩ := steps
  exact ⟨ts, ending 2, c, t, rfl, rfl, rfl, steady, reached, ran, framed, further, used⟩

end Builder

end Scoping
