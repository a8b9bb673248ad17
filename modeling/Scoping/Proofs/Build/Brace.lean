import Scoping.Proofs.Build.Slash
import Scoping.Proofs.Build.Run

/-!
# Braces that open statements

The lexer takes a brace for one of a block by the token before it, the builder by the grammar. This
module says what the tokens show of the grammar. A brace is `Grounded` where a block may stand by the
token before it; a place is `Sealed` when what stands there may end a scope: if that is a closing brace
with a division behind it, its partner is grounded.

A run is `Orderly` when every open brace is grounded and every scope that has ended did so at a sealed
place. `Keeps c Q m s` says that `m` leaves an orderly state behind, in which `Q` holds, if it succeeds;
how it fails is not asked. There is one rule for each action of the builder.
-/

namespace Scoping

open Builder

/-- A block may stand behind a token of this kind: the lexer knows it of all but the last two. -/
def TokenKind.leadsBlock (kind : TokenKind) : Bool :=
  Lookbehind.opensBlock (some kind) || kind == .punctuation .colon || kind == .keyword .catch_

/-- The words that can be statements by themselves. -/
def Keyword.endsAlone : Keyword → Bool
  | .return_ | .throw | .break_ | .continue_ | .debugger => true
  | _ => false

/-- A statement may end with this token at a line end. -/
def Token.endsAtBreak (t : Token) : Bool :=
  t.endsExpression ||
    match t.kind with
    | .keyword w => w.endsAlone
    | _ => false

/-- A block may begin with the given brace behind this token. -/
def Token.precedesBlock (t brace : Token) : Bool :=
  t.kind.leadsBlock || brace.flags.afterBreak && t.endsAtBreak

/-- The lexer does not take the brace for one of a block, though it may be one. -/
def Token.hidesBlock (t brace : Token) : Bool :=
  t.precedesBlock brace && !Lookbehind.opensBlock (some t.kind)

/-- The brace at a place may be one of a block, and the lexer does not take it for one: it stands behind
a colon, behind the word `catch`, or at a line end behind a statement without a semicolon. -/
def hiddenBlock (ts : List Token) (place : Nat) : Bool :=
  (tokenBefore ts place).any fun t => ts[place]?.any t.hidesBlock

/-- A slash that divides. -/
def Token.divides (t : Token) : Bool := t.kind == .operator && t.beginsWithSlash

theorem Token.divides_of_kind {t : Token} (h : t.kind ≠ .operator) : t.divides = false := by
  simp [divides, h]

/-- No operand begins with a division. -/
theorem Token.divides_of_startsOperand {t : Token} (h : t.startsOperand = true) :
    t.divides = false := by
  unfold startsOperand at h
  unfold divides beginsWithSlash
  split at h
  all_goals try simp_all
  all_goals
    rcases h with ((same | same) | same) | same <;> rw [same] <;> decide

namespace Builder

/-- By the token before it, the brace at a place may be one of a block. -/
def Context.Grounded (c : Context) (place : Nat) : Prop :=
  (c.before? place).all (·.precedesBlock (c.token place)) = true

/-- Where a closing brace stands with a division behind it, its partner is grounded. -/
def Context.Sealed (c : Context) (place : Nat) : Prop :=
  (c.token place).isPunct .closeBrace = true → (c.token (place + 1)).divides = true →
    ∃ first, (c.token first).isPunct .openBrace = true ∧ c.partner? first = some place ∧
      c.Grounded first

/-- What opens a scope, if it is a brace, is grounded. -/
def Context.Founds (c : Context) : Opener → Prop
  | .brace place => (c.token place).isPunct .openBrace = true ∧ c.Grounded place
  | .root | .header | .statement => True

/-- Open braces are grounded, and scopes that have ended did so at sealed places. -/
structure Orderly (c : Context) (s : State) : Prop where
  prev : s.prev = c.before? s.pos
  founded : ∀ f ∈ s.frames, c.Founds f.opener
  ends : ∀ i < s.scopes.size, ¬ s.Open i → ∃ place < s.pos,
    (rangeIn s.scopes i).stop = (c.token place).span.stop ∧ c.Sealed place

namespace Orderly

variable {c : Context} {s t : State}

theorem start : Orderly c .start where
  prev := rfl
  founded f mem := by
    rw [start_frames, List.mem_singleton] at mem
    rw [mem]
    exact trivial
  ends i lt notOpen := by
    have lt : i < 1 := lt
    obtain rfl : i = 0 := by omega
    exact absurd ⟨_, List.mem_singleton_self _, rfl⟩ notOpen

variable (h : Orderly c s)
include h

/-- The token consumed last stands before the cursor. -/
theorem token_prev {p : Token} (prev : s.prev = some p) :
    ∃ n, s.pos = n + 1 ∧ c.token n = p := by
  have before := h.prev
  rw [prev] at before
  cases pos : s.pos with
  | zero => rw [pos] at before; cases before
  | succ n =>
    rw [pos] at before
    exact ⟨n, rfl, (Option.some.inj before).symm⟩

theorem still (still : Still s t) (prev : t.prev = s.prev) (frames : t.frames = s.frames) :
    Orderly c t where
  prev := by rw [prev, h.prev, still.pos]
  founded := frames ▸ h.founded
  ends i lt notOpen := by
    rw [still.open_iff] at notOpen
    rw [still.pos, still.range]
    exact h.ends i (still.shape.size_eq ▸ lt) notOpen

theorem behind (notEnd : (c.token s.pos).isEnd = false) : Orderly c (c.behind s) where
  prev := by rw [behind_pos notEnd]; rfl
  founded := h.founded
  ends i lt notOpen := by
    obtain ⟨place, before, ends⟩ := h.ends i lt notOpen
    exact ⟨place, by rw [behind_pos notEnd]; omega, ends⟩

theorem push (kind : ScopeKind) (label : String) (start : Nat) {opener : Opener}
    (founds : c.Founds opener) : Orderly c (s.pushScope kind label start opener) where
  prev := h.prev
  founded f mem := by
    rcases List.mem_cons.mp mem with rfl | mem
    · exact founds
    · exact h.founded f mem
  ends i lt notOpen := by
    rw [open_push, not_or] at notOpen
    rw [State.pushScope_size] at lt
    have old : i < s.scopes.size := by
      have := notOpen.1
      omega
    rw [rangeIn_push_old old]
    exact h.ends i old notOpen.2

theorem reopen {opener : Opener} (founds : c.Founds opener) : Orderly c (s.reopen opener) where
  prev := by rw [State.reopen_prev, State.reopen_pos, h.prev]
  founded f mem := by
    cases top : s.frames with
    | nil =>
      simp only [State.reopen, top] at mem
      cases mem
    | cons g rest =>
      rw [State.reopen_frames _ _ top] at mem
      rcases List.mem_cons.mp mem with rfl | mem
      · exact founds
      · exact h.founded f (top ▸ List.mem_cons_of_mem _ mem)
  ends i lt notOpen := by
    rw [(still_reopen s opener).open_iff] at notOpen
    rw [State.reopen_scopes] at lt ⊢
    rw [State.reopen_pos]
    exact h.ends i lt notOpen

/-- A scope that ends with the token consumed last, at a sealed place. -/
theorem pop {f : Frame} {rest : List Frame} {n : Nat} (top : s.frames = f :: rest)
    (pos : s.pos = n + 1) (sealed : c.Sealed n) : Orderly c (s.popScope f.scope s.prevEnd) where
  prev := h.prev
  founded g mem := by
    rw [State.popScope_frames, top] at mem
    exact h.founded g (top ▸ List.mem_cons_of_mem _ mem)
  ends i lt notOpen := by
    rw [State.popScope_size] at lt
    rw [State.popScope_pos]
    by_cases same : i = f.scope
    · subst same
      have prevEnd : s.prevEnd = (c.token n).span.stop := by
        rw [State.prevEnd, h.prev, pos]
        rfl
      refine ⟨n, by omega, ?_, sealed⟩
      rw [rangeIn_pop_self lt, prevEnd]
    · rw [rangeIn_pop_other same]
      refine h.ends i lt ?_
      rintro ⟨g, mem, isScope⟩
      refine notOpen ⟨g, ?_, isScope⟩
      rw [State.popScope_frames, top]
      rw [top] at mem
      rcases List.mem_cons.mp mem with rfl | mem
      · exact absurd isScope.symm same
      · exact mem

end Orderly

theorem exists_of_any {o : Option Token} {q : Token → Bool} (h : o.any q = true) :
    ∃ t, o = some t ∧ q t = true := by
  cases o with
  | none => cases h
  | some t => exact ⟨t, rfl, h⟩

/-! ## What the token before the cursor shows -/

/-- A brace under the cursor may be one of a block. -/
def Begins (c : Context) (s : State) : Prop :=
  (c.token s.pos).isPunct .openBrace = true → c.Grounded s.pos

/-- A scope may end here, and a statement begin. -/
structure Ended (c : Context) (s : State) : Prop where
  begins : Begins c s
  sealed : ∀ n, s.pos = n + 1 → c.Sealed n

/-- A statement may end here, with a semicolon or at a line end. -/
structure MayEnd (c : Context) (s : State) : Prop where
  atBreak : (c.token s.pos).flags.afterBreak = true → Begins c s
  sealed : ∀ n, s.pos = n + 1 → c.Sealed n

/-- What an expression stops at: no division, and a brace only at a line end behind an operand. -/
structure Halts (c : Context) (s : State) : Prop where
  brace : (c.token s.pos).isPunct .openBrace = true →
    (c.token s.pos).flags.afterBreak = true ∧ s.prev.any (·.endsExpression) = true
  noDivision : (c.token s.pos).divides = false

section
variable {c : Context} {s t : State} {kind : TokenKind}

/-- All three are about the place of the cursor. -/
theorem Begins.at_pos (begins : Begins c s) (same : t.pos = s.pos) : Begins c t := by
  unfold Begins
  rw [same]
  exact begins

theorem Ended.at_pos (ended : Ended c s) (same : t.pos = s.pos) : Ended c t :=
  ⟨ended.begins.at_pos same, fun n pos => ended.sealed n (same ▸ pos)⟩

variable (h : Orderly c s)
include h

theorem begins_at_break (prev : s.prev.any (·.endsAtBreak) = true)
    (afterBreak : (c.token s.pos).flags.afterBreak = true) : Begins c s := by
  intro _
  obtain ⟨p, prev, ends⟩ := exists_of_any prev
  rw [Context.Grounded, ← h.prev, prev, Option.all_some, Token.precedesBlock, afterBreak, ends]
  simp

theorem sealed_of_prev (prev : s.prev.any (·.kind == kind) = true)
    (notBrace : kind ≠ .punctuation .closeBrace) : ∀ n, s.pos = n + 1 → c.Sealed n := by
  intro n pos closes
  obtain ⟨p, prev, same⟩ := exists_of_any prev
  obtain ⟨m, pos', token⟩ := h.token_prev prev
  obtain rfl : n = m := by omega
  rw [token, Token.isPunct, eq_of_beq same, beq_iff_eq] at closes
  exact absurd closes notBrace

theorem begins_of_prev (prev : s.prev.any (·.kind == kind) = true)
    (leads : kind.leadsBlock = true) : Begins c s := by
  intro _
  obtain ⟨p, prev, same⟩ := exists_of_any prev
  rw [Context.Grounded, ← h.prev, prev, Option.all_some, Token.precedesBlock, eq_of_beq same,
    leads, Bool.true_or]

/-- A statement may end behind an expression. -/
theorem Halts.mayEnd (halts : Halts c s) : MayEnd c s where
  atBreak afterBreak brace := by
    obtain ⟨p, prev, ends⟩ := exists_of_any (halts.brace brace).2
    exact begins_at_break h (by simp [prev, Token.endsAtBreak, ends]) afterBreak brace
  sealed n pos _ divides := by
    rw [← pos, halts.noDivision] at divides
    cases divides

/-- A statement may end behind a name, and behind a word that is one by itself. -/
theorem mayEnd_of_prev (prev : s.prev.any (·.kind == kind) = true)
    (ends : ∀ t : Token, t.kind = kind → t.endsAtBreak = true)
    (notBrace : kind ≠ .punctuation .closeBrace) : MayEnd c s where
  atBreak := begins_at_break h <| by
    obtain ⟨p, prev, same⟩ := exists_of_any prev
    rw [prev]
    exact ends p (eq_of_beq same)
  sealed := sealed_of_prev h prev notBrace

theorem mayEnd_of_name (prev : s.prev.any (·.kind == .identifier) = true) : MayEnd c s :=
  mayEnd_of_prev h prev (fun t name => by simp [Token.endsAtBreak, Token.endsExpression, name]) (by decide)

theorem mayEnd_of_word {w : Keyword} (alone : w.endsAlone = true)
    (prev : s.prev.any (·.kind == .keyword w) = true) : MayEnd c s :=
  mayEnd_of_prev h prev (fun t word => by simp [Token.endsAtBreak, word, alone]) (by simp)

end

/-! ## Runs that keep order -/

/-- If `m` succeeds it leaves an orderly state behind, not before the first, in which `Q` holds. -/
def Keeps {α : Type} (c : Context) (Q : α → State → Prop) (m : Build α) (s : State) : Prop :=
  Orderly c s → m.Ends c (fun _ => True) (fun a t => Orderly c t ∧ s.pos ≤ t.pos ∧ Q a t) s

namespace Keeps

variable {α β : Type} {c : Context} {s : State} {P : α → State → Prop} {Q : β → State → Prop}

theorem done {b : β} (h : Q b s) : Keeps c Q (pure b) s := fun orderly => ⟨orderly, Nat.le_refl _, h⟩

theorem mono {R : β → State → Prop} {m : Build β} (h : Keeps c Q m s)
    (weaker : ∀ b t, Orderly c t → s.pos ≤ t.pos → Q b t → R b t) : Keeps c R m s :=
  fun orderly => (h orderly).mono fun b t ⟨orderly, further, holds⟩ =>
    ⟨orderly, further, weaker b t orderly further holds⟩

/-- What comes next starts where the first action ends. -/
theorem andThen {m : Build α} {f : α → Build β} (first : Keeps c P m s)
    (next : ∀ a t, Orderly c t → s.pos ≤ t.pos → P a t → Keeps c Q (f a) t) :
    Keeps c Q (m >>= f) s := by
  intro orderly
  refine (first orderly).andThen fun a t ⟨orderly, further, holds⟩ => ?_
  exact (next a t orderly further holds orderly).mono fun _ _ ⟨orderly, further', holds⟩ =>
    ⟨orderly, Nat.le_trans further further', holds⟩

/-- Where nothing but order is asked. -/
theorem plain {m : Build β} (h : Keeps c Q m s) : Keeps c (fun _ _ => True) m s :=
  h.mono fun _ _ _ _ _ => trivial

theorem ite {p : Prop} [Decidable p] {m n : Build β} (yes : p → Keeps c Q m s)
    (no : ¬ p → Keeps c Q n s) : Keeps c Q (if p then m else n) s := by
  split
  · next h => exact yes h
  · next h => exact no h

theorem refuse (wanted : Expectation) : Keeps c Q (Builder.refuse wanted) s := fun _ => trivial

theorem refuseFeature (feature : Feature) : Keeps c Q (Builder.refuseFeature feature) s :=
  fun _ => trivial

theorem exhausted : Keeps c Q Builder.exhausted s := fun _ => trivial

/-! Looking at tokens moves nothing. -/

theorem read {f : Context → Build β} (h : Keeps c Q (f c) s) :
    Keeps c Q (MonadReader.read >>= f) s := h

theorem get {f : State → Build β} (h : Keeps c Q (f s) s) :
    Keeps c Q (MonadState.get >>= f) s := h

theorem current {f : Token → Build β} (h : Keeps c Q (f (c.token s.pos)) s) :
    Keeps c Q (Builder.current >>= f) s := h

theorem peek {n : Nat} {f : Token → Build β} (h : Keeps c Q (f (c.token (s.pos + n))) s) :
    Keeps c Q (Builder.peek n >>= f) s := h

theorem here {p : Punctuation} {f : Bool → Build β}
    (h : Keeps c Q (f ((c.token s.pos).isPunct p)) s) : Keeps c Q (Builder.here p >>= f) s := h

theorem hereWord {w : Keyword} {f : Bool → Build β}
    (h : Keeps c Q (f ((c.token s.pos).isKeyword w)) s) :
    Keeps c Q (Builder.hereWord w >>= f) s := h

/-- Behind a test that refuses, the test is known to have failed. -/
theorem guard {p : Prop} [Decidable p] {wanted : Expectation} {f : Unit → Build β}
    (h : ¬ p → Keeps c Q (f ()) s) :
    Keeps c Q ((if p then Builder.refuse wanted else pure ()) >>= f) s := by
  intro orderly
  split
  · exact trivial
  · next no => exact h no orderly

/-! The cursor moves ahead over tokens that are not the end. -/

section
variable {R : Unit → State → Prop}

theorem pass (notEnd : (c.token s.pos).isEnd = false) (h : R () (c.behind s)) :
    Keeps c R advance s := by
  intro orderly
  have pos := behind_pos notEnd
  exact ⟨orderly.behind notEnd, by show s.pos ≤ (c.behind s).pos; omega, h⟩

theorem passThen {f : Unit → Build β} (notEnd : (c.token s.pos).isEnd = false)
    (next : Orderly c (c.behind s) → (c.behind s).pos = s.pos + 1 →
      Keeps c Q (f ()) (c.behind s)) : Keeps c Q (advance >>= f) s :=
  (pass (R := fun _ t => t = c.behind s) notEnd rfl).andThen fun _ _ orderly _ e => by
    subst e
    exact next orderly (behind_pos notEnd)

/-- What is expected is consumed. -/
theorem expect {p : Punctuation} (h : (c.token s.pos).isPunct p = true → R () (c.behind s)) :
    Keeps c R (Builder.expect p) s := by
  intro orderly
  rw [Build.ends_expect]
  split
  · next there => exact pass (Token.isEnd_of_isPunct there) (h there) orderly
  · exact trivial

theorem expectThen {p : Punctuation} {f : Unit → Build β}
    (next : (c.token s.pos).isPunct p = true → Orderly c (c.behind s) →
      (c.behind s).pos = s.pos + 1 → Keeps c Q (f ()) (c.behind s)) :
    Keeps c Q (Builder.expect p >>= f) s :=
  (expect (R := fun _ t => (c.token s.pos).isPunct p = true ∧ t = c.behind s)
    fun there => ⟨there, rfl⟩).andThen fun _ _ orderly _ ⟨there, e⟩ => by
      subst e
      exact next there orderly (behind_pos (Token.isEnd_of_isPunct there))

theorem expectArrow (h : (c.token s.pos).isPunct .arrow = true → R () (c.behind s)) :
    Keeps c R Builder.expectArrow s := by
  intro orderly
  rw [Build.ends_expectArrow]
  split
  · next there => exact pass (Token.isEnd_of_isPunct there) (h there) orderly
  · exact trivial

/-- A mark that may stand here is consumed if it does. -/
theorem skip {p : Punctuation} :
    Keeps c (fun _ _ => True) (if (c.token s.pos).isPunct p = true then advance else pure ()) s :=
  ite (fun there => pass (Token.isEnd_of_isPunct there) trivial) fun _ => done trivial

/-! The other changes of the state. -/

theorem enterThen {f : Unit → Build β} (h : Keeps c Q (f ()) s.deepen) :
    Keeps c Q (enter >>= f) s := by
  intro orderly
  rw [Build.ends_bind, Build.ends_enter]
  split
  · exact trivial
  · exact h (orderly.still (still_level s _) rfl rfl)

theorem leave (h : R () s.rise) : Keeps c R leave s :=
  fun orderly => ⟨orderly.still (still_level s _) rfl rfl, Nat.le_refl _, h⟩

theorem openScope {kind : ScopeKind} {label : String} {start : Nat} {opener : Opener}
    {f : ScopeId → Build β}
    (founds : c.Founds opener)
    (h : Keeps c Q (f s.scopes.size) (s.deepen.pushScope kind label start opener)) :
    Keeps c Q (Builder.openScope kind label start opener >>= f) s := by
  intro orderly
  rw [Build.ends_bind, Build.ends_openScope]
  split
  · exact trivial
  · have deeper : Orderly c s.deepen := orderly.still (still_level s (s.depth + 1)) rfl rfl
    exact h (deeper.push kind label start founds)

theorem refer (name : Token) (h : R () (s.refer name)) : Keeps c R (Builder.refer name) s :=
  fun orderly => ⟨orderly.still (still_refer s name) rfl rfl, Nat.le_refl _, h⟩

theorem declare {name : Token} {kind : BindingKind} (h : R () (s.declare name kind)) :
    Keeps c R (Builder.declare name kind) s := by
  intro orderly
  rw [Build.ends_declare]
  exact ⟨orderly.still (still_declare s name kind) (State.declare_prev ..)
    (State.declare_frames ..), Nat.le_of_eq (State.declare_pos ..).symm, h⟩

/-- The scope on top goes on into the brace under the cursor. -/
theorem attachBrace (opens : (c.token s.pos).isPunct .openBrace = true) (begins : Begins c s) :
    Keeps c (fun _ t => t.pos = s.pos) Builder.attachBrace s := by
  intro orderly
  exact ⟨orderly.reopen ⟨opens, begins opens⟩, Nat.le_of_eq (State.reopen_pos ..).symm,
    State.reopen_pos ..⟩

/-- The scope on top goes on into a single statement. -/
theorem reopenStatement : Keeps c (fun _ t => t.pos = s.pos) (modify (·.reopen .statement)) s :=
  fun orderly => ⟨orderly.reopen trivial, Nat.le_of_eq (State.reopen_pos ..).symm,
    State.reopen_pos ..⟩

/-- A scope ends behind the last token. -/
theorem closeScope (id : ScopeId) (some : 0 < s.pos) (sealed : ∀ n, s.pos = n + 1 → c.Sealed n) :
    Keeps c (fun _ t => t.pos = s.pos) (Builder.closeScope id s.prevEnd) s := by
  intro orderly
  rw [Build.ends_closeScope]
  cases top : s.frames with
  | nil => exact trivial
  | cons f rest =>
    rw [List.head?_cons]
    dsimp only
    split
    · next same =>
      subst same
      have pos : s.pos = (s.pos - 1) + 1 := by omega
      have popped := orderly.pop top pos (sealed _ pos)
      exact ⟨popped.still (still_level _ _) rfl rfl, Nat.le_refl _, rfl⟩
    · exact trivial

/-- A scope ends with the brace under the cursor. -/
theorem closeBraceScope (id : ScopeId) :
    Keeps c (fun _ t => Ended c t) (Builder.closeBraceScope id) s := by
  intro orderly
  rw [Build.ends_closeBraceScope]
  split
  · next there =>
    split
    · next closes =>
      obtain ⟨f, rest, place, top, opener, partner⟩ := closesTop_iff.mp closes
      have founded := orderly.founded f (top ▸ List.mem_cons_self)
      rw [opener] at founded
      obtain ⟨opens, grounded⟩ : _ ∧ c.Grounded place := founded
      have notEnd := Token.isEnd_of_isPunct there
      have pos := behind_pos notEnd
      -- The brace that is consumed is the partner of the one that opened the scope on top.
      have sealed : ∀ n, (c.behind s).pos = n + 1 → c.Sealed n := by
        intro n at_n
        obtain rfl : n = s.pos := by omega
        exact fun _ _ => ⟨place, opens, partner, grounded⟩
      have ended := closeScope id (s := c.behind s) (by omega) sealed (orderly.behind notEnd)
      refine ended.mono fun _ t ⟨orderly, further, same⟩ => ⟨orderly, by omega, ?_⟩
      have prev : t.prev.any (·.isPunct .closeBrace) = true := by
        rw [orderly.prev, same, pos]
        exact there
      exact ⟨begins_of_prev orderly prev rfl, fun n at_n => sealed n (same ▸ at_n)⟩
    · exact trivial
  · exact trivial

end

end Keeps

end Builder

end Scoping
