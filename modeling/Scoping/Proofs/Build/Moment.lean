import Mathlib.Logic.Relation
import Scoping.Proofs.Build.Finish

/-!
# Moments of a run

A walk is made of moves, so it comes through states (`Moment`) at each of which some scope is the
innermost that is open. Every scope has its moment (`Walk.visited`), and what is declared then
and leaves blocks ends up where the finished scopes lead to (`Moment.hoistsTo`).
-/

namespace Scoping

namespace Builder

/-- From one state to another by moves. -/
abbrev Moves (c : Context) : State → State → Prop := Relation.ReflTransGen (Move c)

/-- The state `u` lies on a way from the start of a run to its end at `s`. -/
structure Moment (c : Context) (u s : State) : Prop where
  reached : Moves c .start u
  goesOn : Moves c u s

variable {c : Context} {s t u : State} {i : Nat}

namespace Moves

theorem shaped (moves : Moves c .start s) : Shaped c s := by
  induction moves with
  | refl => exact shaped_start
  | tail _ move ih => exact ih.move move

theorem grows (moves : Moves c s t) : s.Grows t := by
  induction moves with
  | refl => exact .refl s
  | tail _ move ih => exact ih.trans move.grows

end Moves

/-- A move adds no scope but the one that it enters. -/
theorem Move.size_cases (move : Move c s t) : t.scopes.size = s.scopes.size ∨
    t.scopes.size = s.scopes.size + 1 ∧ t.currentScope = s.scopes.size := by
  cases move with
  | level _ | ahead _ | use _ => exact .inl rfl
  | name _ _ => exact .inl (by rw [State.declare_size, behind_scopes])
  | enter _ opening =>
    right
    cases opening with
    | plain _ => exact ⟨by rw [State.pushScope_size, State.deepen_scopes], rfl⟩
    | named _ _ =>
      rw [State.declare_size, State.pushScope_size, State.deepen_scopes, behind_scopes,
        State.declare_currentScope]
      exact ⟨rfl, rfl⟩
  | reopen _ => exact .inl (by rw [State.reopen_scopes])
  | leave _ _ _ _ => exact .inl (State.popScope_size ..)

/-- Every scope that exists was the innermost open one at some moment. -/
structure Visited (c : Context) (s : State) : Prop where
  reached : Moves c .start s
  each : ∀ i < s.scopes.size, ∃ u, Moment c u s ∧ u.currentScope = i

theorem visited_start : Visited c .start where
  reached := .refl
  each i inside := by
    have only : i < 1 := inside
    obtain rfl : i = 0 := by omega
    exact ⟨.start, ⟨.refl, .refl⟩, rfl⟩

/-- A scope that a move enters is the innermost one behind it. -/
theorem Visited.move (move : Move c s t) (visited : Visited c s) : Visited c t where
  reached := visited.reached.tail move
  each i inside := by
    by_cases old : i < s.scopes.size
    · obtain ⟨u, moment, top⟩ := visited.each i old
      exact ⟨u, ⟨moment.reached, moment.goesOn.tail move⟩, top⟩
    · rcases move.size_cases with same | ⟨more, top⟩
      · exact absurd (same ▸ inside) old
      · have new : i = s.scopes.size := by omega
        exact ⟨t, ⟨visited.reached.tail move, .refl⟩, top.trans new.symm⟩

theorem Walk.visited (w : Walk c .start s) : Visited c s :=
  w.keeps (fun _ _ => Visited.move) start_leveled visited_start

/-- What is declared at a moment and leaves blocks ends up where the finished scopes lead to. -/
theorem Moment.hoistsTo {kind : BindingKind} (moment : Moment c u s) (hoists : kind.hoists = true) :
    HoistsTo s.scopes u.currentScope (u.target kind) :=
  hoistsTo_grows (moment.reached.shaped.target_hoistsTo hoists) moment.goesOn.grows

end Builder

end Scoping
