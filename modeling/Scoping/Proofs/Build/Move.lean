import Scoping.Proofs.Build.Walk

/-!
# Moves of the builder

A walk is made of moves: the cursor goes a token ahead, a name is recorded, a scope begins or ends,
or the depth changes. What every move keeps, every walk keeps (`Walk.keeps`). A scope begins only
where the limit allows one more, and ends only when it is on top, with the cursor behind its first
token.
-/

namespace Scoping

namespace Builder

/-- One change of the state on a walk. -/
inductive Move (c : Context) : State → State → Prop
  | level (s : State) (n : Nat) : Move c s { s with depth := n }
  | ahead {s : State} : (c.token s.pos).isEnd = false → Move c s (c.behind s)
  | use {s : State} : (c.token s.pos).isIdentifier = true →
    Move c s ((c.behind s).refer (c.token s.pos))
  | name {s : State} {kind : BindingKind} : (c.token s.pos).isIdentifier = true →
    Declares s kind → Move c s ((c.behind s).declare (c.token s.pos) kind)
  | enter {s o : State} : s.frames.length ≤ c.limit → Opening c s o → Move c s o
  | reopen (s : State) (opener : Opener) : Move c s (s.reopen opener)
  | leave {s : State} {f : Frame} {rest : List Frame} {first : Nat} : s.frames = f :: rest →
    rest ≠ [] → f.start = (c.token first).span.start → first < s.pos →
    Move c s (s.popScope f.scope s.prevEnd)

/-- A scope is open, and each but the global one has a level of its own. -/
def Leveled (s : State) : Prop := s.frames ≠ [] ∧ s.frames.length ≤ s.depth + 1

variable {c : Context} {s t : State}

theorem Leveled.walk (h : Leveled s) (w : Walk c s t) : Leveled t := by
  unfold Leveled
  rw [w.frames_eq, w.depth_eq]
  exact h

theorem Leveled.enter (h : Leveled s) (opening : Opening c s t) : Leveled t := by
  obtain ⟨opener, top⟩ := opening.frames_eq
  unfold Leveled
  rw [top, opening.depth_eq]
  exact ⟨nofun, Nat.succ_le_succ h.2⟩

theorem Leveled.reopen (h : Leveled s) (opener : Opener) : Leveled (s.reopen opener) := by
  obtain ⟨f, rest, top⟩ := List.exists_cons_of_ne_nil h.1
  unfold Leveled at h ⊢
  rw [State.reopen_frames _ _ top, State.reopen_depth]
  rw [top] at h
  exact ⟨nofun, h.2⟩

/-- A move loses nothing that was recorded. -/
theorem Move.grows (move : Move c s t) : s.Grows t := by
  cases move with
  | level n => exact .of_eq rfl rfl rfl
  | ahead _ => exact .consume s _
  | use _ => exact (State.Grows.consume s _).trans (.refer (c.behind s) _)
  | name _ _ => exact (State.Grows.consume s _).trans (.declare (c.behind s) _ _)
  | enter _ opening => exact opening.grows
  | reopen opener => exact .reopen s opener
  | leave _ _ _ _ => exact .pop s _ _

/-- What every move keeps, a walk keeps. -/
theorem Walk.keeps {I : State → Prop} (moves : ∀ s t, Move c s t → I s → I t) (w : Walk c s t)
    (leveled : Leveled s) (h : I s) : I t := by
  have flat {s : State} (flat : (c.token s.pos).isFlat = true) : Move c s (c.behind s) :=
    .ahead (Token.isFlat_iff.mp flat).1
  induction w with
  | stay => exact h
  | trans first _ ih ih' => exact ih' (leveled.walk first) (ih leveled h)
  | pass passes => exact moves _ _ (flat passes.isFlat) h
  | @select s point =>
    have flatPoint := Token.isFlat_of_isSelector point
    have behind : I (c.behind s) := moves _ _ (flat flatPoint) h
    rcases behindSelector_cases point with e | ⟨word, e⟩
    · exact e ▸ behind
    · rw [← behind_pos_of_isFlat flatPoint] at word
      exact e ▸ moves _ _ (flat (Token.isFlat_of_isWord word)) behind
  | use name => exact moves _ _ (.use name) h
  | name name declares => exact moves _ _ (.name name declares) h
  | pair opens _ closes ih =>
    have inside := ih leveled (moves _ _ (.ahead (Token.isEnd_of_opens? opens)) h)
    exact moves _ _ (.ahead (Token.isEnd_of_closes? closes)) inside
  | @deeper s t _ _ ih =>
    have inside := ih ⟨leveled.1, Nat.le_succ_of_le leveled.2⟩ (moves _ _ (.level s _) h)
    exact moves _ _ (.level t _) inside
  | @scope s opened t u opener allowed opening header body further ih ih' =>
    have begun := moves _ _ (.enter (Nat.le_trans leveled.2 allowed) opening) h
    have headed := ih (leveled.enter opening) begun
    have leveled' := (leveled.enter opening).walk header
    have inside := ih' (leveled'.reopen opener) (moves _ _ (.reopen t opener) headed)
    obtain ⟨_, top⟩ := opening.frames_eq
    have top' := body.frames_eq.trans (State.reopen_frames t opener (header.frames_eq.trans top))
    have ended := moves _ _ (.leave top' leveled.1 rfl further) inside
    exact moves _ _ (.level _ _) ended

end Builder

end Scoping
