import Scoping.Proofs.Build.Statement

/-!
# Whole runs

The productions are tied together by levels. Going from a statement to one inside it costs two
levels, and a level of nesting or a token with them, so a level that is twice what is left serves
(`Grammar.level_serves`), and `Context.levels` is enough for every list of tokens.

A run over tokens that end with an end of input so comes to one of two ends (`run_ends`). Either it
is a walk over all of them, behind which the global scope is the only open one; or the tokens are
refused for a cause that is found in them. No check of the builder on its own state ever fails.
-/

namespace Scoping

open Builder

/-- The productions over `g`: what is inside of them is read by `g`. -/
def Grammar.next (g : Grammar) : Grammar :=
  ⟨fun place => Builder.statement g place, fun mode => Builder.expression g mode⟩

theorem Grammar.level_succ (level : Nat) :
    Grammar.level (level + 1) = (Grammar.level level).next := rfl

/-- Over a grammar that serves so much the productions serve half a level more. -/
theorem Grammar.Serves.next {c : Context} {g : Grammar} {level : Nat}
    (serves : g.Serves c (level / 2) ((level + 1) / 2)) :
    g.next.Serves c ((level + 1) / 2) ((level + 2) / 2) := by
  constructor
  · intro place s
    cases half : (level + 1) / 2 with
    | zero => exact fun ready => absurd ready.room_lt (Nat.not_lt_zero _)
    | succ k =>
      rw [half] at serves
      refine statement_reads ⟨fun place s ready => ?_, serves.expression⟩ place
      exact serves.statement place s (ready.mono (by omega))
  · intro mode s
    have deeper : (level + 2) / 2 = level / 2 + 1 := by omega
    rw [deeper]
    refine expression_reads ⟨serves.statement, fun mode s ready => ?_⟩ mode
    exact serves.expression mode s (ready.mono (by omega))

/-- A grammar of `level` levels reads statements with `level / 2` left to nest, and expressions with
half a level more. -/
theorem Grammar.level_serves (c : Context) (level : Nat) :
    (Grammar.level level).Serves c (level / 2) ((level + 1) / 2) := by
  induction level with
  | zero =>
    exact ⟨fun _ _ ready => absurd ready.room_lt (Nat.not_lt_zero _),
      fun _ _ ready => absurd ready.room_lt (Nat.not_lt_zero _)⟩
  | succ level ih =>
    rw [level_succ]
    exact ih.next

namespace Builder

variable {c : Context} {g : Grammar} {k : Nat} {s t : State}

/-- Statements up to the end of input. -/
theorem programFor_ends {b rounds : Nat} (serves : g.Serves c k b) (ready : Ready c k s)
    (enough : c.tokens.size - s.pos < rounds) :
    (programFor g rounds).Ends c (Failure.Sound c)
      (fun _ t => Walk c s t ∧ (c.token t.pos).isEnd = true) s := by
  induction rounds generalizing s with
  | zero => omega
  | succ rounds ih =>
    have inside := ready.inside
    unfold programFor
    rw [Build.ends_bind, Build.ends_current, Build.ends_ite]
    split
    · next atEnd => exact ⟨.stay s, atEnd⟩
    · refine (serves.statement .list s ready).andThen fun _ t ⟨w, further⟩ => ?_
      have further : s.pos + 1 ≤ t.pos := further
      exact (ih (w.ready ready) (by omega)).mono fun _ u ⟨v, atEnd⟩ => ⟨w.trans v, atEnd⟩

/-- The frame of the global scope. -/
def rootFrame : Frame := ⟨globalScope, .root, 0⟩

theorem start_frames : State.start.frames = [rootFrame] := rfl

theorem start_ready (formed : c.Formed) (h : room c State.start < k) : Ready c k State.start where
  formed := formed
  inside := formed.nonempty
  frames f mem notGlobal := by
    rw [start_frames, List.mem_singleton] at mem
    exact absurd (mem ▸ rfl) notGlobal
  room_lt := h

theorem program_ends {b : Nat} (serves : g.Serves c k b) (formed : c.Formed)
    (enough : room c State.start < k) :
    (program g).Ends c (Failure.Sound c)
      (fun _ t => Walk c State.start t ∧ (c.token t.pos).isEnd = true) State.start := by
  unfold program
  rw [Build.ends_bind, Build.ends_read]
  refine (programFor_ends serves (start_ready formed enough) ?_).andThen fun _ t ⟨w, atEnd⟩ => ?_
  · unfold Context.rounds
    omega
  · have noFrame : t.openFrame? = none := by
      rw [State.openFrame?, w.frames_eq]
      rfl
    rw [Build.ends_bind, Build.ends_get, noFrame, Build.ends_pure]
    exact ⟨w, atEnd⟩

/-- A run comes to a state where its program does. -/
theorem run_ok_iff_ends {level : Nat} {c : Context} : run level c = .ok s ↔
    (program (Grammar.level level)).Ends c (fun _ => False) (fun _ t => t = s) .start := by
  rw [Build.ends_iff_run]
  unfold run
  cases ((program (Grammar.level level)).run c).run .start with
  | error e => exact iff_of_false (fun read => by cases read) fun read => by cases read
  | ok out => exact ⟨fun read => by cases read; rfl, fun read => by cases read; rfl⟩

/-- A whole run reads statements up to the end of input and finds no scope open behind them. -/
theorem run_ok_iff {level : Nat} {c : Context} : run level c = .ok s ↔
    ((programFor (Grammar.level level) c.rounds).run c).run .start = .ok ((), s) ∧
      s.openFrame? = none := by
  rw [run_ok_iff_ends, program, Build.ends_bind, Build.ends_read, Build.ends_bind,
    ← Build.ends_iff_run]
  constructor
  · intro ends
    have closes := ends.mono (R := fun _ t => t = s ∧ t.openFrame? = none) fun _ t closes => by
      rw [Build.ends_bind, Build.ends_get] at closes
      cases closed : t.openFrame? with
      | none =>
        rw [closed] at closes
        exact ⟨closes, rfl⟩
      | some f =>
        rw [closed] at closes
        exact closes.elim
    have ends := closes.mono fun _ _ => And.left
    refine ⟨ends, ?_⟩
    rw [Build.Ends, Build.ends_iff_run.mp ends] at closes
    exact closes.2
  · rintro ⟨ends, closed⟩
    refine ends.mono fun _ t same => ?_
    subst same
    rw [Build.ends_bind, Build.ends_get, closed]
    rfl

/-! ## From a list of tokens -/

/-- An end of input is significant. -/
theorem significant_append_end (before : List Token) {final : Token} (atEnd : final.isEnd = true) :
    significant (before ++ [final]) = significant before ++ [final] := by
  have kept : (!final.isComment) = true := by
    simp only [Token.isEnd, beq_iff_eq] at atEnd
    simp [Token.isComment, atEnd]
  simp [significant, List.filter_append, kept]

theorem significant_getLast? {ts : List Token} {final : Token} (last : ts.getLast? = some final)
    (atEnd : final.isEnd = true) : (significant ts).getLast? = some final := by
  obtain ⟨before, rfl⟩ := List.getLast?_eq_some_iff.mp last
  rw [significant_append_end before atEnd, List.getLast?_concat]

/-- The context of a list of tokens that ends with an end of input is formed. -/
theorem ofTokens_formed {ts : List Token} {final : Token} (last : ts.getLast? = some final)
    (atEnd : final.isEnd = true) (limit : Nat) : (Context.ofTokens ts final limit).Formed where
  last := by
    rw [← Array.getLast?_toList]
    exact significant_getLast? last atEnd
  final_isEnd := atEnd
  partners := rfl

/-- What bounds the recursion is less than half of so many levels. -/
theorem room_lt_levels {level : Nat} (enough : c.levels ≤ level) (s : State) :
    room c s < level / 2 := by
  unfold Context.levels Context.rounds at enough
  unfold room
  omega

/-- A run with levels for what bounds the recursion: it reads all tokens and leaves the global scope
open, or it refuses them for a cause that is found in them. -/
theorem run_ends_of_room {level : Nat} (formed : c.Formed) (enough : room c .start < level / 2) :
    match run level c with
    | .ok s => Walk c State.start s ∧ (c.token s.pos).isEnd = true
    | .error e => e.Sound c := by
  have ends := program_ends (Grammar.level_serves c level) formed enough
  unfold Build.Ends at ends
  unfold run
  revert ends
  cases ((program (Grammar.level level)).run c).run State.start with
  | ok out => exact fun ends => ends
  | error e => exact fun ends => ends

/-- No run over the tokens uses up these levels. -/
theorem run_ends {level : Nat} (formed : c.Formed) (enough : c.levels ≤ level) :
    match run level c with
    | .ok s => Walk c State.start s ∧ (c.token s.pos).isEnd = true
    | .error e => e.Sound c :=
  run_ends_of_room formed (room_lt_levels enough _)

/-- A run that succeeds walks over all tokens. -/
theorem run_walk (formed : c.Formed) (ran : run c.levels c = .ok s) :
    Walk c State.start s ∧ (c.token s.pos).isEnd = true := by
  have ends := run_ends formed (Nat.le_refl _)
  rwa [ran] at ends

/-- No check of the builder on its own state fails: a brace that closes a scope is the partner of
the one that opened it, scopes are closed in turn, an arrow that was seen is there, and at the end
only the global scope is open. Nor does a run end for want of a budget. What is left are runs that
make a tree and runs that refuse the tokens. -/
theorem run_consistent {ts : List Token} {final : Token} (last : ts.getLast? = some final)
    (atEnd : final.isEnd = true) (limit : Nat) :
    (∃ s : State, run (Context.ofTokens ts final limit).levels (Context.ofTokens ts final limit) =
      .ok s ∧ s.frames = [rootFrame] ∧
        Tree.build Context.levels ts limit = .ok (s.tree final.span.stop)) ∨
      ∃ e : ParseError, run (Context.ofTokens ts final limit).levels
          (Context.ofTokens ts final limit) = .error (.rejected e) ∧
        Tree.build Context.levels ts limit = .error (.rejected e) := by
  have ends := run_ends (ofTokens_formed last atEnd limit) (Nat.le_refl _)
  simp only [Tree.build, last, atEnd, ↓reduceIte]
  revert ends
  cases run (Context.ofTokens ts final limit).levels (Context.ofTokens ts final limit) with
  | ok s => exact fun ⟨w, _⟩ => .inl ⟨s, rfl, w.frames_eq, rfl⟩
  | error e =>
    cases e with
    | rejected e => exact fun _ => .inr ⟨e, rfl, rfl⟩
    | inconsistent e => exact fun sound => sound.elim
    | exhausted => exact fun sound => sound.elim

/-- An arrow function before an end of input that is not the last token. -/
theorem run_consistent_early_end : ∃ (ts : List Token) (final : Token) (s : State),
    ts.getLast? = some final ∧ final.isEnd = true ∧
      run (Context.ofTokens ts final 1).levels (Context.ofTokens ts final 1) = .ok s ∧
      s.frames = [rootFrame] ∧ Tree.build Context.levels ts 1 = .ok (s.tree final.span.stop) := by
  let ending (offset : Nat) : Token := ⟨.endOfInput, "", .point offset, .none⟩
  let ts : List Token :=
    [⟨.identifier, "x", ⟨0, 1⟩, .none⟩, ⟨.punctuation .arrow, "=>", ⟨1, 3⟩, .none⟩,
      ⟨.identifier, "x", ⟨3, 4⟩, .none⟩, ending 4, ⟨.punctuation .closeBrace, "\x7d", ⟨4, 5⟩, .none⟩,
      ending 5]
  have made : (Tree.build Context.levels ts 1).toOption.isSome = true := by decide +kernel
  rcases @run_consistent ts (ending 5) rfl rfl 1 with ⟨s, ran, frames, built⟩ | ⟨e, _, refused⟩
  · exact ⟨ts, ending 5, s, rfl, rfl, ran, frames, built⟩
  · rw [refused] at made
    cases made

end Builder

end Scoping
