import Mathlib.Logic.Relation
import Scoping.Proofs.Build.Production

/-!
# The limit on nesting bounds the recursion

The two productions that contain each other are called inside each other. How many of these calls are
under way at once changes where one is made and where one returns (`Underway`), and between two of these
events a run goes from state to state by single changes (`Amid`). At none of them are there more calls
under way than twice the depth and two (`ofTokens_bounded`).

A call is made deeper than the one that it is made from, or it is that of an expression from a statement
(`Gets.rank_lt`). So the calls that are under way have ranks that rise inwards (`Call.rank`), and there
are no more of them than the rank of the innermost. That a call is made deeper is seen over the same
tokens with more ends of input behind them (`Context.padded`): there what is left of the tokens never
bounds the recursion, and only by its depth can a state be ready.

Between the events the depth does not fall below that of the innermost call: what a production opens it
closes, and its parts go from level to level (`Comes.depth_le`).
-/

namespace Scoping

open Builder Grammar

/-- How many calls can be under way when this one is made at the depth: with every level a statement and an
expression more. -/
def Grammar.Call.rank (depth : Nat) : Call → Nat
  | statement _ => 2 * depth + 1
  | expression _ => 2 * depth + 2

namespace Builder

variable {c c' : Context} {g g' : Grammar} {call other outer : Call} {s s' t u : State}

/-! ## Calls in step -/

theorem run_failingAt {e : Failure} : (((g.failingAt call u e).call other).run c).run s =
    if call = other ∧ s = u then .error e else ((g.call other).run c).run s := by
  cases other with
  | statement place =>
    change ((if call = .statement place ∧ s = u then throw e else g.statement place).run c).run s = _
    split <;> rfl
  | expression mode =>
    change ((if call = .expression mode ∧ s = u then throw e else g.expression mode).run c).run s = _
    split <;> rfl

theorem failingAt_ends (other : Call) {e : Failure} {Q : Unit → State → Prop}
    (ends : (g.call other).Ends c (fun _ => True) Q s) :
    ((g.failingAt call u e).call other).Ends c (fun _ => True) Q s := by
  unfold Build.Ends at ends ⊢
  rw [run_failingAt]
  by_cases here : call = other ∧ s = u
  · rw [if_pos here]
    trivial
  · rw [if_neg here]
    exact ends

section
variable {S : Simulation c c'} {e : ParseError}

namespace Simulation.Serves

theorem inStep (serves : S.Serves g g') (call : Call) :
    S.InStep Eq (g.call call) (g'.call call) s s' := by
  cases call with
  | statement place => exact serves.statement place s s'
  | expression mode => exact serves.expression mode s s'

/-- A grammar that fails in one call goes in step with one that answers the others as before. -/
theorem failing {h : Grammar} (serves : S.Serves g g') (call : Call)
    (step : ∀ (other : Call) (s s' : State), S.rel s s' →
      S.Meets Eq (if call = other ∧ s = u then .error (.rejected e) else ((g.call other).run c).run s)
        (((h.call other).run c').run s')) :
    S.Serves (g.failingAt call u (.rejected e)) h := by
  have follows (other : Call) (s s' : State) :
      S.InStep Eq ((g.failingAt call u (.rejected e)).call other) (h.call other) s s' := by
    intro related
    rw [run_failingAt]
    exact step other s s' related
  exact ⟨fun place => follows (.statement place), fun mode => follows (.expression mode),
    fun place s atEnd => failingAt_ends (.statement place) (serves.noStatement place s atEnd),
    fun mode s atEnd => failingAt_ends (.expression mode) (serves.noExpression mode s atEnd)⟩

/-- Grammars go in step that fail in the same call. -/
theorem failingAt (serves : S.Serves g g') (call : Call)
    (there : ∀ {s s'}, S.rel s s' → (s' = u ↔ s = u)) (fails : S.fails e e) :
    S.Serves (g.failingAt call u (.rejected e)) (g'.failingAt call u (.rejected e)) := by
  refine serves.failing call fun other s s' related => ?_
  rw [run_failingAt]
  simp only [there related]
  split
  · exact .inr ⟨e, rfl, fails⟩
  · exact serves.inStep other related

/-- It does not matter what a grammar does in a state that no run comes to. -/
theorem failingAt_unrelated (serves : S.Serves g g') (call : Call) (never : ∀ s', ¬ S.rel u s') :
    S.Serves (g.failingAt call u (.rejected e)) g' := by
  refine serves.failing call fun other s s' related => ?_
  rw [if_neg fun here : call = other ∧ s = u => never s' (here.2 ▸ related)]
  exact serves.inStep other related

end Simulation.Serves

end

/-! ## Where calls are made -/

/-- So many ends of input more that the tokens never bound the recursion. -/
abbrev Context.deep (c : Context) : Context := c.padded c.limit

/-- A run goes the same way with more ends of input. -/
abbrev Context.Formed.deepening (formed : c.Formed) : Simulation c c.deep :=
  (formed.padded_agrees c.limit).simulation formed (kept_allowed c)

/-- A run can come to the state: it could be gone on from if only the depth bounded the recursion, and the
depth is within the limit. -/
structure Placed (c : Context) (s : State) : Prop where
  ready : Ready c.deep (c.limit + 1) s
  inside : s.pos < c.tokens.size
  allowed : s.depth ≤ c.limit

namespace Placed

theorem start (formed : c.Formed) : Placed c .start where
  ready := start_ready (formed.padded _) (Nat.lt_succ_of_le (Nat.min_le_left _ _))
  inside := formed.nonempty
  allowed := Nat.zero_le _

/-- It can be gone on with less left than by the depth. -/
theorem ready_of_depth {k : Nat} (placed : Placed c s) (h : c.limit - s.depth < k) :
    Ready c.deep k s :=
  { placed.ready with room_lt := Nat.lt_of_le_of_lt (Nat.min_le_left _ _) h }

theorem related (placed : Placed c s) (formed : c.Formed) :
    formed.deepening.rel s s :=
  ⟨rfl, placed.inside, placed.allowed⟩

end Placed

/-- A grammar that serves so much serves less. -/
theorem level_serves_of_le {level a b : Nat} (ha : a ≤ level / 2) (hb : b ≤ (level + 1) / 2) :
    (Grammar.level level).Serves c a b where
  statement place s ready := (Grammar.level_serves c level).statement place s (ready.mono ha)
  expression mode s ready := (Grammar.level_serves c level).expression mode s (ready.mono hb)

/-- Over every grammar that serves, `m` reads from where it makes a call, so the call is made from a state
that is ready for it, also if only the depth bounds the recursion. -/
theorem Gets.ready_deep {m : Grammar → Build Unit} {level a b : Nat} (formed : c.Formed)
    (gets : Gets m (Grammar.level level) c s call u) (placed : Placed c s)
    (follows : ∀ {g g' : Grammar}, formed.deepening.Serves g g' →
      formed.deepening.InStep Eq (m g) (m g') s s)
    (ends : ∀ g : Grammar, g.Serves c.deep a b →
      ∃ Q, (m g).Ends c.deep (Failure.Sound c.deep) Q s) :
    Ready c.deep (call.need a b) u ∧ u.pos < c.tokens.size ∧ u.depth ≤ c.limit := by
  let e : ParseError := ⟨0, .missingEnd⟩
  have deeper : level ≤ level + 2 * (a + b) := Nat.le_add_right _ _
  have inStep := level_inStep formed.deepening deeper
  have serves : (Grammar.level (level + 2 * (a + b))).Serves c.deep a b :=
    level_serves_of_le (by omega) (by omega)
  -- The failure in the call is no sound one, so no grammar that serves lets it through.
  have refuted {g : Grammar} (serves : g.Serves c.deep a b)
      (inStep : formed.deepening.Serves ((Grammar.level level).failingAt call u (.rejected e)) g) :
      False := by
    have meets := follows inStep (placed.related formed)
    rw [gets (.rejected e)] at meets
    rcases meets with lost | ⟨_, ran, rfl⟩
    · exact lost
    · obtain ⟨Q, ended⟩ := ends g serves
      unfold Build.Ends at ended
      rw [ran] at ended
      obtain ⟨_, _, _, sound⟩ := ended
      exact sound
  constructor
  · refine Classical.byContradiction fun unready => ?_
    refine refuted (serves.failingAt unready _) (inStep.failingAt call ?_ rfl)
    rintro s _ ⟨rfl, _⟩
    exact Iff.rfl
  · refine Classical.byContradiction fun outside => ?_
    exact refuted serves (inStep.failingAt_unrelated call fun _ related => outside related.2)

/-- A state that is ready where the tokens bound nothing is so by its depth. -/
theorem Placed.of_ready {k : Nat} (ready : Ready c.deep k u) (few : k ≤ c.limit + 1)
    (inside : u.pos < c.tokens.size) (allowed : u.depth ≤ c.limit) :
    Placed c u ∧ c.limit - u.depth < k := by
  refine ⟨⟨ready.mono few, inside, allowed⟩, ?_⟩
  have less := ready.room_lt
  unfold room at less
  rw [padded_size] at less
  have same : c.deep.limit = c.limit := rfl
  omega

/-- The program makes its calls from states that a run can come to. -/
theorem Gets.placed {level : Nat} (formed : c.Formed)
    (gets : Gets program (Grammar.level level) c .start call u) : Placed c u := by
  have start := Placed.start formed
  obtain ⟨ready, inside, allowed⟩ := gets.ready_deep (a := c.limit + 1) (b := c.limit + 1) formed start
    (fun serves => program_inStep serves (by
      rintro s _ ⟨rfl, inside, _⟩
      rw [(formed.padded_agrees c.limit).token _ inside]) (by rintro s _ ⟨rfl, _⟩ closed; exact closed))
    fun g serves => ⟨_, program_ends serves (formed.padded _) start.ready.room_lt⟩
  refine (Placed.of_ready ready ?_ inside allowed).1
  cases call <;> exact Nat.le_refl _

/-- From inside a call another one is made deeper, or it is that of an expression from a statement. -/
theorem Gets.rank_lt {level : Nat} (formed : c.Formed) (placed : Placed c s)
    (gets : Gets (fun g => g.next.call outer) (Grammar.level level) c s call u) :
    Placed c u ∧ outer.rank s.depth < call.rank u.depth := by
  -- What is left by the depth is what the production of the outer call needs.
  have left : c.limit - s.depth < c.limit - s.depth + 1 := Nat.lt_succ_self _
  have allowed := placed.allowed
  obtain ⟨ready, inside, allowed'⟩ := gets.ready_deep (a := c.limit - s.depth)
    (b := outer.need (c.limit - s.depth + 1) (c.limit - s.depth)) formed placed
    (fun serves => serves.next.inStep outer) fun g serves => by
      cases outer with
      | statement place => exact ⟨_, statement_reads serves place (placed.ready_of_depth left)⟩
      | expression mode => exact ⟨_, expression_reads serves mode (placed.ready_of_depth left)⟩
  have few : call.need (c.limit - s.depth)
      (outer.need (c.limit - s.depth + 1) (c.limit - s.depth)) ≤ c.limit + 1 := by
    cases call <;> cases outer <;> simp only [Call.need] <;> omega
  obtain ⟨placed', less⟩ := Placed.of_ready ready few inside allowed'
  refine ⟨placed', ?_⟩
  cases outer <;> cases call <;> simp only [Call.need, Call.rank] at less ⊢ <;> omega

/-! ## Between calls -/

/-- No change or a single one. -/
abbrev Single : State → State → Prop := Relation.ReflGen (Change fun _ => True)

theorem Single.permits : Permits Single where
  refl _ := .refl
  change change := .single (change.mono fun _ _ => trivial)

/-- The production of a call, of single changes. -/
theorem next_single (call : Call) : Composed c Single 0 0 fun g => g.next.call call :=
  next_composed Single.permits (fun s name => .single (.declare s name trivial)) call

/-- What is put together of single changes and of calls, from level to level, ends at the level it should,
if the calls return at the depth at which they were made. -/
theorem Composed.level_eq {α : Type} {a b n : Nat} {m : Grammar → Build α}
    (composed : Composed c Single a b m) {x : α} (ran : ((m g).run c).run s = .ok (x, t))
    (level : s.depth = n + a)
    (calls : ∀ call u v, ((g.call call).run c).run u = .ok ((), v) → v.depth = u.depth) :
    t.depth = n + b := by
  induction composed generalizing s t with
  | act steps =>
    have ends := steps s
    unfold Build.Ends at ends
    rw [ran] at ends
    have moved := ends.2 (by omega)
    omega
  | call call => exact (calls call s t ran).trans level
  | @bind _ _ _ α β m k _ _ first next =>
    cases begun : ((m g).run c).run s with
    | error e =>
      rw [run_bind_of_error begun] at ran
      cases ran
    | ok out =>
      obtain ⟨y, v⟩ := out
      rw [run_bind_of_ok begun] at ran
      exact next y ran (first begun level)

/-- A call that returns leaves the depth as it found it. -/
theorem level_depth {level : Nat}
    (ran : (((Grammar.level level).call call).run c).run u = .ok ((), t)) : t.depth = u.depth := by
  induction level generalizing call u t with
  | zero => cases call <;> cases ran
  | succ level ih =>
    rw [Grammar.level_succ] at ran
    exact (next_single call).level_eq (n := u.depth) ran rfl fun _ _ _ => ih

/-- A run of `m` comes to the state `v`: it begins or ends there, or the run of a part comes there. Parts
have parts down to single changes and calls, so no state is left out but those inside a call. -/
inductive Comes (c : Context) (g : Grammar) :
    (a b : Nat) → {α : Type} → (Grammar → Build α) → State → State → Prop
  | begins {a b : Nat} {α : Type} {m : Grammar → Build α} {s : State} : Comes c g a b m s s
  | ends {a b : Nat} {α : Type} {m : Grammar → Build α} {s t : State} {x : α} :
    Composed c Single a b m → ((m g).run c).run s = .ok (x, t) → Comes c g a b m s t
  | first {a b d : Nat} {α β : Type} {m : Grammar → Build α} {k : α → Grammar → Build β} {s v : State} :
    Comes c g a b m s v → Comes c g a d (fun g => m g >>= fun x => k x g) s v
  | behind {a b d : Nat} {α β : Type} {m : Grammar → Build α} {k : α → Grammar → Build β}
    {s t v : State} {x : α} :
    Composed c Single a b m → ((m g).run c).run s = .ok (x, t) → Comes c g b d (k x) t v →
    Comes c g a d (fun g => m g >>= fun x => k x g) s v

/-- What begins `a` levels above a depth never comes below that depth. -/
theorem Comes.depth_le {α : Type} {a b n : Nat} {m : Grammar → Build α} {v : State}
    (comes : Comes c g a b m s v) (level : s.depth = n + a)
    (calls : ∀ call u v, ((g.call call).run c).run u = .ok ((), v) → v.depth = u.depth) :
    n ≤ v.depth := by
  induction comes with
  | begins => omega
  | ends composed ran =>
    have ended := composed.level_eq ran level calls
    omega
  | first _ ih => exact ih level
  | behind composed ran _ ih => exact ih (composed.level_eq ran level calls)

/-- What makes a call comes to where it returns. -/
theorem Composed.comes {α : Type} {a b : Nat} {m : Grammar → Build α} {v : State}
    (composed : Composed c Single a b m) (gets : Gets m g c s call u)
    (ran : ((g.call call).run c).run u = .ok ((), v)) : Comes c g a b m s v := by
  induction composed generalizing s with
  | act _ => exact absurd (fun _ => rfl) gets.noticed
  | call other =>
    by_cases here : call = other ∧ s = u
    · obtain ⟨rfl, rfl⟩ := here
      exact .ends (.call call) ran
    · exact absurd (fun e => by rw [failingAt_call, if_neg here]) gets.noticed
  | @bind _ _ _ α β m k composed _ first next =>
    rcases composed.gets_or_unnoticed (g := g) call u s with early | unnoticed
    · exact .first (first early)
    · cases begun : ((m g).run c).run s with
      | error e =>
        exact absurd (fun e => run_bind_of_error ((unnoticed e).trans begun)) gets.noticed
      | ok out =>
        obtain ⟨y, t⟩ := out
        exact .behind composed begun (next y (gets.behind begun unnoticed))

/-! ## Calls under way -/

/-- What the innermost of the calls does, or the program where there is none. -/
def carriedOut : List (Call × State) → Grammar → Build Unit
  | [] => program
  | (call, _) :: _ => fun g => g.next.call call

/-- The state in which it began. -/
def began : List (Call × State) → State
  | [] => .start
  | (_, s) :: _ => s

/-- A run at the level `top` comes to the state with these calls under way, the innermost first, each with
the state that it was made in. -/
inductive Underway (c : Context) (top : Nat) : List (Call × State) → State → Prop
  | start : Underway c top [] .start
  | made {calls : List (Call × State)} {call : Call} {s u : State} : Underway c top calls s →
    calls.length ≤ top →
    Gets (carriedOut calls) (Grammar.level (top - calls.length)) c (began calls) call u →
    Underway c top ((call, u) :: calls) u
  | returned {calls : List (Call × State)} {call : Call} {u t : State} :
    Underway c top ((call, u) :: calls) u →
    (((Grammar.level (top - calls.length)).call call).run c).run u = .ok ((), t) →
    Underway c top calls t

/-- Each of the calls was made in a state that a run can come to, and their ranks rise inwards. -/
structure Ranked (c : Context) (calls : List (Call × State)) : Prop where
  placed : ∀ x ∈ calls, Placed c x.2
  rises : calls.Pairwise fun inner outer => outer.1.rank outer.2.depth < inner.1.rank inner.2.depth

namespace Ranked

variable {calls : List (Call × State)} {top level : Nat}

/-- A call that the innermost one makes has the highest rank. -/
theorem made (formed : c.Formed) (ranked : Ranked c calls)
    (gets : Gets (carriedOut calls) (Grammar.level level) c (began calls) call u) :
    Ranked c ((call, u) :: calls) := by
  cases calls with
  | nil =>
    have placed := gets.placed formed
    exact ⟨by simpa using placed, List.pairwise_singleton _ _⟩
  | cons innermost below =>
    obtain ⟨outer, s⟩ := innermost
    obtain ⟨placed, higher⟩ := gets.rank_lt formed (ranked.placed _ List.mem_cons_self)
    have rises := List.pairwise_cons.mp ranked.rises
    constructor
    case placed =>
      intro x mem
      rcases List.mem_cons.mp mem with rfl | mem
      · exact placed
      · exact ranked.placed x mem
    case rises =>
      refine List.pairwise_cons.mpr ⟨fun x mem => ?_, ranked.rises⟩
      rcases List.mem_cons.mp mem with rfl | mem
      · exact higher
      · exact Nat.lt_trans (rises.1 x mem) higher

theorem outward {x : Call × State} (ranked : Ranked c (x :: calls)) : Ranked c calls where
  placed y mem := ranked.placed y (List.mem_cons_of_mem _ mem)
  rises := (List.pairwise_cons.mp ranked.rises).2

/-- There are no more calls than the rank of the innermost one. -/
theorem length_le (ranked : Ranked c ((call, u) :: calls)) :
    calls.length + 1 ≤ call.rank u.depth := by
  induction calls generalizing call u with
  | nil => cases call <;> exact Nat.succ_le_succ (Nat.zero_le _)
  | cons next below ih =>
    have below_le := ih ranked.outward
    have higher : next.1.rank next.2.depth < call.rank u.depth :=
      (List.pairwise_cons.mp ranked.rises).1 next List.mem_cons_self
    rw [List.length_cons]
    omega

/-- While a call is under way, none is made at a depth below its own. -/
theorem depth_le (ranked : Ranked c ((call, u) :: calls)) : ∀ x ∈ calls, x.2.depth ≤ u.depth := by
  rintro ⟨outer, s⟩ mem
  have higher := (List.pairwise_cons.mp ranked.rises).1 _ mem
  show s.depth ≤ u.depth
  cases outer <;> cases call <;> simp only [Call.rank] at higher <;> omega

end Ranked

/-- A call that is made from another has its rank above it, and the depth is within the limit there. -/
theorem Underway.ranked {calls : List (Call × State)} {top : Nat} (formed : c.Formed)
    (underway : Underway c top calls s) : Ranked c calls ∧ s.depth ≤ c.limit := by
  induction underway with
  | start => exact ⟨⟨fun _ mem => absurd mem List.not_mem_nil, .nil⟩, Nat.zero_le _⟩
  | made _ _ gets ih =>
    have ranked := ih.1.made formed gets
    exact ⟨ranked, (ranked.placed _ List.mem_cons_self).allowed⟩
  | returned _ ran ih => exact ⟨ih.1.outward, (level_depth ran).symm ▸ ih.2⟩

/-- What the innermost call does is put together of single changes and of calls. -/
theorem carriedOut_single (calls : List (Call × State)) :
    Composed c Single 0 0 (carriedOut calls) := by
  cases calls with
  | nil => exact program_composed Single.permits
  | cons x calls => exact next_single x.1

/-- A run is at `v` with these calls under way: it has made them, and what the innermost does has come from
where it began to there. -/
def Amid (c : Context) (top : Nat) (calls : List (Call × State)) (v : State) : Prop :=
  (∃ s, Underway c top calls s) ∧
    Comes c (Grammar.level (top - calls.length)) 0 0 (carriedOut calls) (began calls) v

/-- Each of the calls was made by the one below it. -/
theorem Underway.gets {calls below : List (Call × State)} {top : Nat}
    (underway : Underway c top calls s) (above : List (Call × State))
    (split : calls = above ++ (call, u) :: below) :
    Gets (carriedOut below) (Grammar.level (top - below.length)) c (began below) call u := by
  induction underway generalizing above with
  | start => exact absurd split (by simp)
  | made _ _ gets ih =>
    cases above with
    | nil =>
      cases split
      exact gets
    | cons x above => exact ih above (List.cons.inj split).2
  | @returned _ other v _ _ _ ih => exact ih ((other, v) :: above) (congrArg ((other, v) :: ·) split)

/-- A run that has just made a call, or come back from one, is amid the calls that are under way. -/
theorem Underway.amid {calls : List (Call × State)} {top : Nat} (underway : Underway c top calls s) :
    Amid c top calls s := by
  refine ⟨⟨s, underway⟩, ?_⟩
  cases underway with
  | start => exact .begins
  | made _ _ _ => exact .begins
  | returned made ran => exact (carriedOut_single _).comes (made.gets [] rfl) ran

/-- At every moment the calls that are under way are bounded by the depth, which is not below that of any
of them. -/
theorem Amid.bounded {calls : List (Call × State)} {top : Nat} {v : State} (formed : c.Formed)
    (amid : Amid c top calls v) :
    calls.length ≤ 2 * (v.depth + 1) ∧ ∀ x ∈ calls, x.2.depth ≤ v.depth := by
  obtain ⟨⟨s, underway⟩, comes⟩ := amid
  have ranked := (underway.ranked formed).1
  have high : (began calls).depth ≤ v.depth := comes.depth_le rfl fun _ _ _ => level_depth
  cases calls with
  | nil => exact ⟨Nat.zero_le _, fun _ mem => absurd mem List.not_mem_nil⟩
  | cons innermost outer =>
    obtain ⟨call, u⟩ := innermost
    have high : u.depth ≤ v.depth := high
    constructor
    · have few := ranked.length_le
      cases call <;> simp only [Call.rank] at few <;> rw [List.length_cons] <;> omega
    · intro x mem
      rcases List.mem_cons.mp mem with rfl | mem
      · exact high
      · exact Nat.le_trans (ranked.depth_le x mem) high

/-! ## Levels -/

/-- Levels for twice the depth that the limit allows, and two more, are as good as levels for all
tokens. -/
theorem run_of_limit (formed : c.Formed) {level : Nat} (enough : 2 * (c.limit + 1) ≤ level) :
    run level c ≠ .error .exhausted ∧ run level c = run c.levels c := by
  have room_lt : room c .start < level / 2 := by
    have : room c .start ≤ c.limit := Nat.min_le_left _ _
    omega
  constructor
  · intro failed
    have ends := run_ends_of_room formed room_lt
    rw [failed] at ends
    exact ends
  · rcases Nat.le_total level c.levels with fewer | more
    · exact (Context.Agrees.refl c).run_eq formed room_lt fewer
    · exact ((Context.Agrees.refl c).run_eq formed (room_lt_levels (Nat.le_refl _) _) more).symm

/-- Over tokens that end with an end of input there are at no moment more calls under way than twice the
depth and two, nor is the depth less than where one of the calls was made; and where a call is made or
returns, the depth is within the limit. So a budget of twice the limit and two calls is never used up, and
makes what every larger one does. -/
theorem ofTokens_bounded {ts : List Token} {final : Token} (last : ts.getLast? = some final)
    (atEnd : final.isEnd = true) (limit : Nat) :
    (∀ top calls s, Underway (Context.ofTokens ts final limit) top calls s →
      calls.length ≤ 2 * (s.depth + 1) ∧ 2 * (s.depth + 1) ≤ 2 * (limit + 1) ∧
        ∀ x ∈ calls, x.2.depth ≤ s.depth) ∧
    (∀ top calls v, Amid (Context.ofTokens ts final limit) top calls v →
      calls.length ≤ 2 * (v.depth + 1) ∧ calls.length ≤ 2 * (limit + 1) ∧
        ∀ x ∈ calls, x.2.depth ≤ v.depth) ∧
    ∀ level, 2 * (limit + 1) ≤ level →
      Tree.build (fun _ => level) ts limit ≠ .error .exhausted ∧
        Tree.build (fun _ => level) ts limit = Tree.build Context.levels ts limit := by
  have formed := ofTokens_formed last atEnd limit
  have allowed {top calls s} (underway : Underway (Context.ofTokens ts final limit) top calls s) :
      2 * (s.depth + 1) ≤ 2 * (limit + 1) :=
    Nat.mul_le_mul_left 2 (Nat.succ_le_succ (underway.ranked formed).2)
  refine ⟨fun top calls s underway => ?_, fun top calls v amid => ?_, ?_⟩
  · obtain ⟨few, deeper⟩ := underway.amid.bounded formed
    exact ⟨few, allowed underway, deeper⟩
  · obtain ⟨few, deeper⟩ := amid.bounded formed
    obtain ⟨⟨s, underway⟩, _⟩ := amid
    have fewHere := (underway.amid.bounded formed).1
    exact ⟨few, Nat.le_trans fewHere (allowed underway), deeper⟩
  · intro level enough
    obtain ⟨ends, same⟩ := run_of_limit formed enough
    simp only [Tree.build, last, atEnd, ↓reduceIte, same]
    refine ⟨fun failed => ends ?_, trivial⟩
    rw [same]
    cases made : run (Context.ofTokens ts final limit).levels (Context.ofTokens ts final limit) with
    | ok s =>
      rw [made] at failed
      cases failed
    | error e =>
      rw [made] at failed
      cases failed
      rfl

/-- A name alone: without any nesting allowed, a statement with an expression inside is two calls. -/
theorem ofTokens_bounded_name : ∃ (ts : List Token) (final : Token) (calls : List (Call × State)),
    ts.getLast? = some final ∧ final.isEnd = true ∧
      Underway (Context.ofTokens ts final 0) 2 calls .start ∧
      calls.length = 2 ∧ calls.length ≤ 2 * (State.start.depth + 1) ∧
      Tree.build (fun _ => 1) ts 0 = .error .exhausted ∧
      Tree.build (fun _ => 2) ts 0 ≠ .error .exhausted ∧
      Tree.build (fun _ => 2) ts 0 = Tree.build Context.levels ts 0 := by
  let final : Token := ⟨.endOfInput, "", .point 1, .none⟩
  let ts : List Token := [⟨.identifier, "x", ⟨0, 1⟩, .none⟩, final]
  obtain ⟨bounded, _, budget⟩ := @ofTokens_bounded ts final rfl rfl 0
  have statement : Underway (Context.ofTokens ts final 0) 2 [(.statement .list, .start)] .start :=
    .made .start (by decide) fun e => rfl
  have expression : Underway (Context.ofTokens ts final 0) 2
      [(.expression .statement, .start), (.statement .list, .start)] .start :=
    .made statement (by decide) fun e => rfl
  obtain ⟨ends, same⟩ := budget 2 (by decide)
  exact ⟨ts, final, _, rfl, rfl, expression, rfl, (bounded _ _ _ expression).1, rfl, ends, same⟩

end Builder

end Scoping
