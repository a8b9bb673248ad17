import Scoping.Proofs.Build.Outcome
import Scoping.Proofs.Build.Walk

/-!
# What it is for a production to read

`Reads c k far m s`: from a state that is ready, `m` makes a walk and gets at least as far as `far`
says, or it fails with an error that is sound. A failure is sound when it is a rejection whose
position and cause agree with the tokens; a check of the builder on its own state is never the
cause, and neither is a budget. So a production that reads neither fails one of those checks nor
runs out.

A state is ready at `k` when less than `k` is left of what bounds the recursion: the levels that the
limit still allows, or the tokens not read yet, whichever is less. Going into a bracket or a scope
uses up one of both (`Ready.deeper`).
-/

namespace Scoping

open Builder

/-- The cause of an error agrees with the token at the place of the error. -/
def ParseReason.SoundAt (c : Context) (place : Nat) : ParseReason → Prop
  | unbalanced found =>
    (c.token place).kind = .punctuation found ∧ found.isCloser = true ∧ c.partner? place = none
  | unexpected _ found => found = c.token place
  | unterminatedScope openedAt =>
    (c.token place).isEnd = true ∧
      ∃ first, first < c.tokens.size ∧ openedAt = (c.token first).span.start
  | lexicalDeclaration => True
  | unsupported _ => True
  | nestingTooDeep limit => limit = c.limit
  | missingEnd => False

/-- The failure is a rejection at one of the tokens, for a cause that agrees with it. -/
def Failure.Sound (c : Context) : Failure → Prop
  | rejected e =>
    ∃ place, place < c.tokens.size ∧ e.position = (c.token place).span.start ∧
      e.reason.SoundAt c place
  | inconsistent _ => False
  | exhausted => False

theorem Failure.Sound.exists_rejected {c : Context} {e : Failure} (sound : e.Sound c) :
    ∃ r, e = .rejected r := by
  cases e with
  | rejected r => exact ⟨r, rfl⟩
  | inconsistent r => exact sound.elim
  | exhausted => exact sound.elim

namespace Builder

/-- What is left of the bounds of the recursion. -/
def room (c : Context) (s : State) : Nat := min (c.limit - s.depth) (c.tokens.size - s.pos)

/-- The open scope begins at a token that the cursor has come to. -/
def StartsAtToken (c : Context) (s : State) (f : Frame) : Prop :=
  ∃ first ≤ s.pos, f.start = (c.token first).span.start ∧
    ∃ x, s.scopes[f.scope]? = some x ∧ x.range.start = f.start

theorem StartsAtToken.grows {c : Context} {s t : State} {f : Frame} (h : StartsAtToken c s f)
    (grows : s.Grows t) (further : s.pos ≤ t.pos) : StartsAtToken c t f := by
  obtain ⟨first, reached, start, x, at_f, begins⟩ := h
  obtain ⟨y, at_f', keeps⟩ := grows.scope _ _ at_f
  exact ⟨first, Nat.le_trans reached further, start, y, at_f', keeps.start.trans begins⟩

/-- A scope that is new begins at the token under the cursor. -/
theorem startsAtToken_push {c : Context} {s : State} {kind : ScopeKind} {label : String}
    {opener opener' : Opener} :
    StartsAtToken c (s.pushScope kind label (c.token s.pos).span.start opener)
      ⟨s.scopes.size, opener', (c.token s.pos).span.start⟩ :=
  ⟨s.pos, Nat.le_refl _, rfl, _, State.pushScope_scope_new .., rfl⟩

theorem Opening.startsAtToken {c : Context} {s o : State} {opener : Opener}
    (opening : Opening c s o) :
    StartsAtToken c o ⟨s.scopes.size, opener, (c.token o.pos).span.start⟩ := by
  cases opening with
  | plain _ => exact startsAtToken_push (s := s.deepen)
  | named _ _ =>
    rw [State.declare_pos]
    exact (startsAtToken_push (s := (c.behind s).deepen)).grows (.declare _ _ _)
      (Nat.le_of_eq (State.declare_pos ..).symm)

/-- The state can be gone on from: the cursor stands on a token, each open scope but the global one
begins at a token up to there, and less than `k` is left of the bounds. -/
structure Ready (c : Context) (k : Nat) (s : State) : Prop where
  formed : c.Formed
  inside : s.pos < c.tokens.size
  frames : ∀ f ∈ s.frames, f.scope ≠ globalScope → StartsAtToken c s f
  room_lt : room c s < k

namespace Ready

variable {c : Context} {k : Nat} {s t : State}

theorem mono {m : Nat} (ready : Ready c k s) (h : k ≤ m) : Ready c m s :=
  { ready with room_lt := Nat.lt_of_lt_of_le ready.room_lt h }

theorem behind (ready : Ready c k s) (h : (c.token s.pos).isEnd = false) :
    Ready c k (c.behind s) where
  formed := ready.formed
  inside := ready.formed.inside_behind h
  frames f mem notGlobal :=
    (ready.frames f mem notGlobal).grows (.consume s _) (by rw [behind_pos h]; exact Nat.le_succ _)
  room_lt := by
    refine Nat.lt_of_le_of_lt ?_ ready.room_lt
    unfold room
    rw [behind_depth, behind_pos h]
    omega

/-- A level deeper and a token further, there is less left. -/
theorem deeper (ready : Ready c (k + 1) s) (allowed : s.depth < c.limit)
    (inside : t.pos < c.tokens.size) (further : s.pos < t.pos) (depth : t.depth = s.depth + 1)
    (grows : s.Grows t) (frames : ∀ f ∈ t.frames, f ∈ s.frames ∨ StartsAtToken c t f) :
    Ready c k t where
  formed := ready.formed
  inside := inside
  frames f mem notGlobal := by
    rcases frames f mem with old | starts
    · exact (ready.frames f old notGlobal).grows grows (Nat.le_of_lt further)
    · exact starts
  room_lt := by
    have before := ready.room_lt
    unfold room at before ⊢
    omega

end Ready

/-- What opened the scope on top does not matter. -/
theorem Ready.reopen {c : Context} {k : Nat} {s : State} (ready : Ready c k s) (opener : Opener) :
    Ready c k (s.reopen opener) where
  formed := ready.formed
  inside := by rw [State.reopen_pos]; exact ready.inside
  frames := by
    have kept {f : Frame} (starts : StartsAtToken c s f) : StartsAtToken c (s.reopen opener) f :=
      starts.grows (.reopen s opener) (Nat.le_of_eq (s.reopen_pos opener).symm)
    cases top : s.frames with
    | nil => rw [State.reopen, top]; exact ready.frames
    | cons f rest =>
      rw [State.reopen_frames _ _ top]
      intro g mem notGlobal
      rcases List.mem_cons.mp mem with rfl | mem
      · exact kept (ready.frames f (top ▸ List.mem_cons_self) notGlobal)
      · exact kept (ready.frames g (top ▸ List.mem_cons_of_mem _ mem) notGlobal)
  room_lt := by
    unfold room
    rw [State.reopen_depth, State.reopen_pos]
    exact ready.room_lt

/-- From a state that a ready one walks to, it can be gone on. -/
theorem Walk.ready {c : Context} {k : Nat} {s t : State} (w : Walk c s t) (ready : Ready c k s) :
    Ready c k t where
  formed := ready.formed
  inside := w.inside ready.formed ready.inside
  frames f mem notGlobal := (ready.frames f (w.frames_eq ▸ mem) notGlobal).grows w.grows w.pos_le
  room_lt := by
    refine Nat.lt_of_le_of_lt ?_ ready.room_lt
    have := w.pos_le
    unfold room
    rw [w.depth_eq]
    omega

/-- Inside a scope and a token further, there is less left. -/
theorem Ready.opened {c : Context} {k : Nat} {s o t : State} (ready : Ready c (k + 1) s)
    (allowed : s.depth < c.limit) (opening : Opening c s o) (inside : t.pos < c.tokens.size)
    (further : s.pos < t.pos) (depth : t.depth = o.depth) (frames : t.frames = o.frames)
    (grows : o.Grows t) (reached : o.pos ≤ t.pos) : Ready c k t := by
  refine ready.deeper allowed inside further (depth.trans opening.depth_eq)
    (opening.grows.trans grows) fun f mem => ?_
  obtain ⟨opener, top⟩ := opening.frames_eq
  rw [frames, top] at mem
  rcases List.mem_cons.mp mem with rfl | mem
  · exact .inr (opening.startsAtToken.grows grows reached)
  · exact .inl mem

theorem Ready.begun {c : Context} {k : Nat} {s o : State} (ready : Ready c k s)
    (opening : Opening c s o) : Ready c k o where
  formed := ready.formed
  inside := opening.inside ready.formed ready.inside
  frames f mem notGlobal := by
    obtain ⟨opener, top⟩ := opening.frames_eq
    rw [top] at mem
    rcases List.mem_cons.mp mem with rfl | mem
    · exact opening.startsAtToken
    · exact (ready.frames f mem notGlobal).grows opening.grows opening.pos_le
  room_lt := by
    refine Nat.lt_of_le_of_lt ?_ ready.room_lt
    have := opening.pos_le
    unfold room
    rw [opening.depth_eq]
    omega

/-- The same behind a walk through the header. -/
theorem Ready.headed {c : Context} {k : Nat} {s o t : State} (ready : Ready c (k + 1) s)
    (allowed : s.depth < c.limit) (opening : Opening c s o) (header : Walk c o t)
    (further : s.pos < t.pos) : Ready c k t :=
  ready.opened allowed opening
    (header.inside ready.formed (opening.inside ready.formed ready.inside))
    further header.depth_eq header.frames_eq header.grows header.pos_le

/-! ## Errors -/

namespace Ready

variable {c : Context} {k : Nat} {s : State} (ready : Ready c k s)
include ready

/-- An error at the cursor is sound if its cause is. -/
theorem sound_here {reason : ParseReason} (h : reason.SoundAt c s.pos) :
    Failure.Sound c (.rejected ⟨(c.token s.pos).span.start, reason⟩) :=
  ⟨s.pos, ready.inside, rfl, h⟩

theorem sound_unexpected (wanted : Expectation) :
    Failure.Sound c (.rejected (c.unexpected s wanted)) := by
  have unterminated {f : Frame} (atEnd : (c.token s.pos).isEnd = true)
      (found : s.openFrame? = some f) : Failure.Sound c (.rejected
        ⟨(c.token s.pos).span.start, .unterminatedScope f.start⟩) := by
    obtain ⟨top, inner⟩ := Option.filter_eq_some_iff.mp found
    obtain ⟨first, reached, start, _⟩ :=
      ready.frames f (List.mem_of_mem_head? top) (by simpa using inner)
    exact ready.sound_here ⟨atEnd, first, Nat.lt_of_le_of_lt reached ready.inside, start⟩
  unfold Context.unexpected
  dsimp only
  split
  · next p kind =>
    split
    · next closer =>
      simp only [Bool.and_eq_true, Option.isNone_iff_eq_none] at closer
      exact ready.sound_here ⟨kind, closer.1, closer.2⟩
    · split
      · next atEnd found => exact unterminated atEnd found
      · exact ready.sound_here rfl
  · split
    · next atEnd found => exact unterminated atEnd found
    · exact ready.sound_here rfl

end Ready

/-! ## Reading -/

variable {α β : Type} {c : Context} {k : Nat} {s t : State}

/-- From a ready state, `m` makes a walk at least as far as `far`, or fails soundly. -/
def Reads (c : Context) (k : Nat) (far : α → Nat) (m : Build α) (s : State) : Prop :=
  Ready c k s → m.Ends c (Failure.Sound c) (fun a t => Walk c s t ∧ far a ≤ t.pos) s

namespace Reads

theorem mono {far far' : α → Nat} {m : Build α} (h : Reads c k far m s)
    (nearer : ∀ a, far' a ≤ far a) : Reads c k far' m s :=
  fun ready => (h ready).mono fun a _ w => ⟨w.1, Nat.le_trans (nearer a) w.2⟩

/-- What reads with more left to nest reads with less. -/
theorem shallow {far : α → Nat} {m : Build α} (h : Reads c (k + 1) far m s) :
    Reads c k far m s :=
  fun ready => h (ready.mono (Nat.le_succ k))

theorem of_ready {far : α → Nat} {m : Build α} (h : Ready c k s → Reads c k far m s) :
    Reads c k far m s :=
  fun ready => h ready ready

/-- The cursor of a ready state stands on a token. -/
theorem of_inside {far : α → Nat} {m : Build α}
    (h : s.pos < c.tokens.size → Reads c k far m s) : Reads c k far m s :=
  of_ready fun ready => h ready.inside

theorem done {far : α → Nat} {a : α} (h : far a ≤ s.pos) : Reads c k far (pure a) s :=
  fun _ => ⟨.stay s, h⟩

/-- What comes next starts where the first walk ends. -/
theorem andThen {n : α → Nat} {far : β → Nat} {m : Build α} {f : α → Build β}
    (first : Reads c k n m s)
    (next : ∀ a t, Walk c s t → n a ≤ t.pos → Reads c k far (f a) t) :
    Reads c k far (m >>= f) s := by
  intro ready
  refine (first ready).andThen fun a t ⟨w, reached⟩ => ?_
  exact (next a t w reached (w.ready ready)).mono fun _ _ v => ⟨w.trans v.1, v.2⟩

theorem ite {far : α → Nat} {p : Prop} [Decidable p] {m n : Build α}
    (yes : p → Reads c k far m s) (no : ¬ p → Reads c k far n s) :
    Reads c k far (if p then m else n) s := by
  split
  · next h => exact yes h
  · next h => exact no h

theorem refuse (wanted : Expectation) {far : α → Nat} :
    Reads c k far (Builder.refuse wanted) s :=
  fun ready => ready.sound_unexpected wanted

theorem refuseFeature (feature : Feature) {far : α → Nat} :
    Reads c k far (Builder.refuseFeature feature) s :=
  fun ready => ready.sound_here trivial

/-! Looking at tokens moves nothing. -/

section
variable {far : β → Nat}

theorem read {f : Context → Build β} (h : Reads c k far (f c) s) :
    Reads c k far (MonadReader.read >>= f) s := h

theorem get {f : State → Build β} (h : Reads c k far (f s) s) :
    Reads c k far (MonadState.get >>= f) s := h

theorem current {f : Token → Build β} (h : Reads c k far (f (c.token s.pos)) s) :
    Reads c k far (Builder.current >>= f) s := h

theorem peek {n : Nat} {f : Token → Build β} (h : Reads c k far (f (c.token (s.pos + n))) s) :
    Reads c k far (Builder.peek n >>= f) s := h

theorem here {p : Punctuation} {f : Bool → Build β}
    (h : Reads c k far (f ((c.token s.pos).isPunct p)) s) :
    Reads c k far (Builder.here p >>= f) s := h

theorem hereWord {w : Keyword} {f : Bool → Build β}
    (h : Reads c k far (f ((c.token s.pos).isKeyword w)) s) :
    Reads c k far (Builder.hereWord w >>= f) s := h

/-- Behind a test that refuses, the test is known to have failed. -/
theorem guard {p : Prop} [Decidable p] {wanted : Expectation} {f : Unit → Build β}
    (h : ¬ p → Reads c k far (f ()) s) :
    Reads c k far ((if p then Builder.refuse wanted else pure ()) >>= f) s := by
  intro ready
  split
  · exact ready.sound_unexpected wanted
  · next no => exact h no ready

/-- What is expected is there, or it is refused. -/
theorem expect {p : Punctuation} {f : Unit → Build β}
    (h : (c.token s.pos).isPunct p = true → Reads c k far (advance >>= f) s) :
    Reads c k far (Builder.expect p >>= f) s := by
  intro ready
  rw [Build.ends_bind, Build.ends_expect]
  split
  · next there => exact h there ready
  · exact ready.sound_unexpected _

theorem assoc {m : Build α} {γ : Type} {n : α → Build γ} {f : γ → Build β}
    (h : Reads c k far ((m >>= n) >>= f) s) : Reads c k far (m >>= fun a => n a >>= f) s :=
  bind_assoc m n f ▸ h

end

/-- The token under the cursor is passed over. -/
theorem pass {far : Unit → Nat} (h : Passes c s) (near : far () ≤ s.pos + 1) :
    Reads c k far advance s :=
  fun _ => ⟨.pass h, Nat.le_trans near (Nat.le_of_eq (behind_pos_of_isFlat h.isFlat).symm)⟩

/-- Behind a token that is passed over it goes on. -/
theorem passThen {far : β → Nat} {f : Unit → Build β} (h : Passes c s)
    (next : (c.behind s).pos = s.pos + 1 → Reads c k far (f ()) (c.behind s)) :
    Reads c k far (advance >>= f) s := by
  intro ready
  have notEnd := (Token.isFlat_iff.mp h.isFlat).1
  refine (next (behind_pos notEnd) (ready.behind notEnd)).mono fun _ _ w => ?_
  exact ⟨(Walk.pass h).trans w.1, w.2⟩

/-- A scope is opened if the limit allows it, and goes on from there. -/
theorem opening {far : β → Nat} {kind : ScopeKind} {label : String} {opener : Opener}
    {f : ScopeId → Build β}
    (inside : Ready c k s → s.depth < c.limit →
      (f s.scopes.size).Ends c (Failure.Sound c) (fun a t => Walk c s t ∧ far a ≤ t.pos)
        (s.deepen.pushScope kind label (c.token s.pos).span.start opener)) :
    Reads c k far (openScope kind label (c.token s.pos).span.start opener >>= f) s := by
  intro ready
  rw [Build.ends_bind, Build.ends_openScope]
  split
  · exact ready.sound_here rfl
  · next allowed => exact inside ready (Nat.not_lt.mp allowed)

end Reads

/-- From a ready state, `m` makes a walk and consumes the bracket of the given shape behind it, or
fails soundly. -/
def ReadsThrough (c : Context) (k : Nat) (shape : Bracket) (m : Build Unit) (s : State) : Prop :=
  Ready c k s → m.Ends c (Failure.Sound c)
    (fun _ t => ∃ u, Walk c s u ∧ (c.token u.pos).closes? = some shape ∧ t = c.behind u) s

theorem closes?_of_isPunct {t : Token} {p : Punctuation} (h : t.isPunct p = true) :
    t.closes? = p.closes? := by
  simp only [Token.isPunct, beq_iff_eq] at h
  simp only [Token.closes?, h]

theorem opens?_of_isPunct {t : Token} {p : Punctuation} (h : t.isPunct p = true) :
    t.opens? = p.opens? := by
  simp only [Token.isPunct, beq_iff_eq] at h
  simp only [Token.opens?, h]

theorem ReadsThrough.of_expect {shape : Bracket} {m : Build Unit} {close : Punctuation}
    (closes : close.closes? = some shape) (h : Reads c k (fun _ => s.pos) m s) :
    ReadsThrough c k shape (m >>= fun _ => expect close) s := by
  intro ready
  refine (h ready).andThen fun _ u ⟨w, _⟩ => ?_
  rw [Build.ends_expect]
  split
  · next there => exact ⟨u, w, (closes?_of_isPunct there).trans closes, rfl⟩
  · exact (w.ready ready).sound_unexpected _

end Builder

end Scoping
