import Scoping.Proofs.Build.Reads

/-!
# Lists, blocks and groups

The productions that statements and expressions share. They are read against a grammar that serves:
`g.Serves c a b` says that its statements read from states ready at `a` and its expressions from
states ready at `b`. What a production needs of the grammar is so much as is left one bracket or one
scope deeper.

A scope is followed from its opening to its end by `Closes`, which a body ends with, and
`Closes.walk`, which makes one walk of header and body.
-/

namespace Scoping

open Builder

/-- The statements of a grammar read from states ready at `a`, its expressions from states ready at
`b`, and a statement consumes a token. -/
structure Grammar.Serves (c : Context) (g : Grammar) (a b : Nat) : Prop where
  statement : ∀ (place : StatementPlace) (s : State),
    Reads c a (fun _ => s.pos + 1) (g.statement place) s
  expression : ∀ (mode : ExpressionMode) (s : State),
    Reads c b (fun _ => s.pos) (g.expression mode) s

namespace Builder

variable {c : Context} {g : Grammar} {k : Nat} {s t : State}

/-! ## Groups -/

/-- A production between a bracket and its partner, one level deeper, is a walk to behind the
partner. -/
theorem bracketed_ends {shape : Bracket} {m : Build Unit} (ready : Ready c (k + 1) s)
    (opens : (c.token s.pos).opens? = some shape)
    (inner : ReadsThrough c k shape m (c.behind s).deepen) :
    (advance >>= fun _ => enter >>= fun _ => m >>= fun _ => leave).Ends c (Failure.Sound c)
      (fun _ t => Walk c s t ∧ ∃ close, s.pos < close ∧ t.pos = close + 1 ∧
        c.partner? s.pos = some close) s := by
  have notEnd := Token.isEnd_of_opens? opens
  rw [Build.ends_bind, Build.ends_advance, Build.ends_bind, Build.ends_enter]
  split
  · obtain ⟨place, inside, same⟩ := ready.formed.token_inside (c.behind s).pos
    exact ⟨place, inside, congrArg (·.span.start) same, rfl⟩
  · next allowed =>
    have allowed : s.depth < c.limit := Nat.not_lt.mp allowed
    have ready' : Ready c k (c.behind s).deepen :=
      ready.deeper allowed (ready.formed.inside_behind notEnd)
        (by rw [State.deepen_pos, behind_pos notEnd]; exact Nat.lt_succ_self _) rfl
        ((State.Grows.consume s _).trans (.deepen _)) (fun f mem => .inl mem)
    refine (inner ready').andThen fun _ t ⟨u, w, closes, e⟩ => ?_
    subst e
    have further : s.pos < u.pos := by
      have := w.pos_le
      rw [State.deepen_pos, behind_pos notEnd] at this
      exact this
    refine ⟨.deeper allowed (.pair (s := s.deepen) opens w closes), u.pos, further, ?_,
      Walk.partner_of_pair (s := s.deepen) w ready.formed opens closes⟩
    exact behind_pos (Token.isEnd_of_closes? closes)

theorem grouped_reads {shape : Bracket} {close : Punctuation} (serves : g.Serves c k k)
    (opens : (c.token s.pos).opens? = some shape) (closes : close.closes? = some shape) :
    Reads c (k + 1) (fun _ => s.pos + 2) (advance >>= fun _ => grouped g close) s := by
  intro ready
  have inner := ReadsThrough.of_expect closes (serves.expression .nested (c.behind s).deepen)
  have parts : grouped g close =
      enter >>= fun _ => (g.expression .nested >>= fun _ => expect close) >>= fun _ => leave := by
    simp only [grouped, bind_assoc]
  rw [parts]
  refine (bracketed_ends ready opens inner).mono fun _ t ⟨w, close, further, pos, _⟩ => ⟨w, ?_⟩
  show s.pos + 2 ≤ t.pos
  omega

/-! ## Statement lists -/

theorem statementsFor_reads {b rounds : Nat} (serves : g.Serves c k b)
    (enough : c.tokens.size - s.pos < rounds) :
    Reads c k (fun _ => s.pos) (statementsFor g rounds) s := by
  induction rounds generalizing s with
  | zero => omega
  | succ rounds ih =>
    simp only [statementsFor, Build.join]
    refine .of_inside fun inside => .here (.ite (fun _ => .done (Nat.le_refl _)) fun _ => ?_)
    refine .current (.guard fun _ => ?_)
    refine .andThen (serves.statement .list s) fun _ t _ further => ?_
    exact (ih (by omega)).mono fun _ => by omega

theorem statements_reads {b : Nat} (serves : g.Serves c k b) :
    Reads c k (fun _ => s.pos) (statements g) s :=
  .read (statementsFor_reads serves (by unfold Context.rounds; omega))

/-! ## Bodies -/

/-- The body of the scope `id` that is open at `s` ends at `t`, at least as far as `far`, and the
scope with it. -/
def Closes (c : Context) (id : ScopeId) (far : Nat) (s t : State) : Prop :=
  ∃ u, Walk c s u ∧ far ≤ u.pos ∧ t = (u.popScope id u.prevEnd).rise

/-- Header and body of a scope make one walk. -/
theorem Closes.walk {o t u : State} {opener : Opener} {far : Nat} (allowed : s.depth < c.limit)
    (opening : Opening c s o) (header : Walk c o t) (further : o.pos < far)
    (body : Closes c s.scopes.size far (t.reopen opener) u) : Walk c s u ∧ far ≤ u.pos := by
  obtain ⟨v, w, reached, rfl⟩ := body
  exact ⟨.scope allowed opening header w (Nat.lt_of_lt_of_le further reached), reached⟩

/-- The same for a body that begins as its header left off. -/
theorem Closes.straight {o t u : State} {far : Nat} (allowed : s.depth < c.limit)
    (opening : Opening c s o) (header : Walk c o t) (further : o.pos < far)
    (body : Closes c s.scopes.size far t u) : Walk c s u ∧ far ≤ u.pos := by
  obtain ⟨opener, top⟩ := opening.frames_eq
  obtain ⟨v, w, reached, e⟩ := body
  rw [← State.reopen_self t (header.frames_eq.trans top)] at w
  exact Closes.walk allowed opening header further ⟨v, w, reached, e⟩

/-- The innermost open scope ends where the last token does. -/
theorem closeScope_ends {f : Frame} {rest : List Frame} (top : s.frames = f :: rest) :
    (get >>= fun s => closeScope f.scope s.prevEnd).Ends c (Failure.Sound c)
      (fun _ t => t = (s.popScope f.scope s.prevEnd).rise) s := by
  rw [Build.ends_bind, Build.ends_get, Build.ends_closeScope_top top]

theorem closesTop_iff : closesTop c s = true ↔
    ∃ f rest place, s.frames = f :: rest ∧ f.opener = .brace place ∧
      c.partner? place = some s.pos := by
  unfold closesTop
  constructor
  · split
    · next scope place start rest top =>
      exact fun partner => ⟨_, rest, place, top, rfl, by simpa using partner⟩
    · exact fun never => nomatch never
  · rintro ⟨⟨scope, opener, start⟩, rest, place, top, rfl, partner⟩
    rw [top]
    simpa using partner

/-- The innermost open scope is closed at once where the brace under the cursor is the partner of
its own. -/
theorem closeBraceScope_ends {f : Frame} {rest : List Frame} {place : Nat} (ready : Ready c k s)
    (top : s.frames = f :: rest) (opener : f.opener = .brace place)
    (partner : (c.token s.pos).closes? = some .brace → c.partner? place = some s.pos) :
    (closeBraceScope f.scope).Ends c (Failure.Sound c)
      (fun _ t => (c.token s.pos).closes? = some .brace ∧
        t = ((c.behind s).popScope f.scope (c.behind s).prevEnd).rise) s := by
  rw [Build.ends_closeBraceScope]
  split
  · next there =>
    have closes := closes?_of_isPunct there
    rw [if_pos (closesTop_iff.mpr ⟨f, rest, place, top, opener, partner closes⟩)]
    exact (Build.ends_closeScope_top (s := c.behind s) top).mpr ⟨closes, rfl⟩
  · exact ready.sound_unexpected _

/-- Braces that the scope on top continues into end it. -/
theorem braced_ends {m : Build Unit} {f : Frame} {rest : List Frame}
    (ready : Ready c k (c.behind s))
    (top : s.frames = f :: rest) (opener : f.opener = .brace s.pos)
    (there : (c.token s.pos).isPunct .openBrace = true)
    (inner : Reads c k (fun _ => (c.behind s).pos) m (c.behind s)) :
    (advance >>= fun _ => m >>= fun _ => closeBraceScope f.scope).Ends c (Failure.Sound c)
      (fun _ t => Closes c f.scope (s.pos + 1) s t) s := by
  have opens : (c.token s.pos).opens? = some .brace := opens?_of_isPunct there
  rw [Build.ends_bind, Build.ends_advance]
  refine (inner ready).andThen fun _ t ⟨w, further⟩ => ?_
  have further : s.pos < t.pos := by
    rw [behind_pos (Token.isEnd_of_opens? opens)] at further
    exact further
  have partner := w.partner_of_pair ready.formed opens
  refine (closeBraceScope_ends (w.ready ready) (w.frames_eq.trans top) opener partner).mono
    fun _ u ⟨closes, e⟩ => ⟨c.behind t, .pair opens w closes, ?_, e⟩
  rw [behind_pos (Token.isEnd_of_closes? closes)]
  omega

theorem braceBody_ends {b : Nat} {f : Frame} {rest : List Frame} (serves : g.Serves c k b)
    (ready : Ready c k s) (top : s.frames = f :: rest) :
    (braceBody g f.scope).Ends c (Failure.Sound c)
      (fun _ t => ∃ opener, Closes c f.scope (s.pos + 1) (s.reopen opener) t) s := by
  simp only [braceBody, Build.join]
  rw [Build.ends_bind, Build.ends_here, Build.ends_bind, Build.ends_ite]
  split
  · exact ready.sound_unexpected _
  · next there =>
    have there : (c.token s.pos).isPunct .openBrace = true := by simpa using there
    have same : c.token (s.reopen (.brace s.pos)).pos = c.token s.pos := by rw [State.reopen_pos]
    have notEnd := Token.isEnd_of_opens? (opens?_of_isPunct there)
    have ready' : Ready c k (c.behind (s.reopen (.brace s.pos))) :=
      (ready.reopen _).behind (by rw [same]; exact notEnd)
    rw [Build.ends_pure, Build.ends_bind, Build.ends_attachBrace]
    refine (braced_ends ready' (State.reopen_frames _ _ top) (by simp) (by rw [same]; exact there)
      (statements_reads serves)).mono fun _ t closes => ⟨.brace s.pos, ?_⟩
    rw [State.reopen_pos] at closes
    exact closes

/-- A scope whose braces begin at the cursor. -/
theorem bracedScope_reads {m : Build Unit} {kind : ScopeKind} (notGlobal : kind ≠ .global)
    (label : String) (there : (c.token s.pos).isPunct .openBrace = true)
    (inner : ∀ t, Reads c k (fun _ => t.pos) m t) :
    Reads c (k + 1) (fun _ => s.pos + 1)
      (openScope kind label (c.token s.pos).span.start (.brace s.pos) >>= fun id =>
        advance >>= fun _ => m >>= fun _ => closeBraceScope id) s := by
  refine .opening fun ready allowed => ?_
  have notEnd := Token.isEnd_of_opens? (opens?_of_isPunct there)
  have opening : Opening c s (s.deepen.pushScope kind label (c.token s.pos).span.start
    (.brace s.pos)) := .plain notGlobal
  have further : s.pos < (c.behind s).pos := by
    rw [behind_pos notEnd]
    exact Nat.lt_succ_self _
  have ready' : Ready c k (c.behind (s.deepen.pushScope kind label (c.token s.pos).span.start
      (.brace s.pos))) :=
    ready.opened allowed opening (ready.formed.inside_behind notEnd) further rfl rfl
      (.consume _ _) (Nat.le_of_lt further)
  refine (braced_ends ready' rfl rfl there (inner _)).mono fun _ t closes => ?_
  exact Closes.straight allowed opening (.stay _) (Nat.lt_succ_self _) closes

theorem block_reads {b : Nat} {kind : ScopeKind} (serves : g.Serves c k b)
    (notGlobal : kind ≠ .global) (label : String) :
    Reads c (k + 1) (fun _ => s.pos + 1) (block g kind label) s := by
  simp only [block, Build.join]
  refine .here (.guard fun there => .current (.get ?_))
  exact bracedScope_reads notGlobal label (by simpa using there) fun t => statements_reads serves

end Builder

end Scoping
