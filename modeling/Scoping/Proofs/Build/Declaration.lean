import Scoping.Proofs.Build.Production

/-!
# Functions declared by statements

Whether a function is declared where it stands or only has a name of its own is decided by who reads
it: a statement that begins with the function declares it, and everywhere else it is an expression. The
tokens alone do not tell; behind a brace or a line end both are possible. So a function counts as
declared (`Context.DeclaresFunction`) where a call of a statement that the run makes begins at labels
and words that lead to its name (`Context.Heads`).

Of a run that succeeds this tells both ways. Each binding of a function is from a declared one, or it is
in the scope that begins right behind the name (`run_attested`). And the name of a declared one is bound
in a scope that began before (`Context.DeclaresFunction.recorded`), which is not that of the function.
-/

namespace Scoping

open Builder Grammar

namespace Builder

/-! ## What begins with a function -/

namespace Context

/-- Where the name of a function stands, if it has one, whose first word stands at a place. -/
def nameBehind (c : Context) (place : Nat) : Nat :=
  if (c.token (place + 1)).isOperator "*" then place + 2 else place + 1

/-- A statement that begins at a place begins with a function whose name stands at `n`. -/
inductive Heads (c : Context) : (n place : Nat) → Prop
  | word {place : Nat} : (c.token place).isKeyword .function = true →
    (c.token (c.nameBehind place)).isIdentifier = true → Heads c (c.nameBehind place) place
  | async {place : Nat} : (c.token place).isContextual "async" = true →
    (c.token (place + 1)).isKeyword .function = true →
    (c.token (place + 1)).flags.afterBreak = false →
    (c.token (c.nameBehind (place + 1))).isIdentifier = true →
    Heads c (c.nameBehind (place + 1)) place
  | label {n place : Nat} : (c.token place).isIdentifier = true →
    (c.token (place + 1)).isPunct .colon = true → Heads c n (place + 2) → Heads c n place

/-- The token at `n` is the name of a function that is declared: a run over the tokens reads a statement
that begins with that function. -/
def DeclaresFunction (c : Context) (n : Nat) : Prop :=
  ∃ level place u, Reached c c.levels level (.statement place) u ∧ c.Heads n u.pos

end Context

variable {c : Context} {g : Grammar} {level top n : Nat} {call : Call} {s t u v : State}

/-- A label stands at a place. -/
def Context.isLabel (c : Context) (place : Nat) : Bool :=
  (c.token place).isIdentifier && (c.token (place + 1)).isPunct .colon

theorem Context.lt_nameBehind (place : Nat) : place < c.nameBehind place := by
  unfold Context.nameBehind
  split <;> omega

namespace Context.Heads

theorem lt {place : Nat} (heads : c.Heads n place) : place < n := by
  induction heads with
  | word _ _ => exact c.lt_nameBehind _
  | async _ _ _ _ => exact Nat.lt_of_succ_lt (c.lt_nameBehind _)
  | label _ _ _ ih => omega

theorem isIdentifier {place : Nat} (heads : c.Heads n place) : (c.token n).isIdentifier = true := by
  induction heads with
  | word _ name => exact name
  | async _ _ _ name => exact name
  | label _ _ _ ih => exact ih

/-- A label is passed over on the way to the name. -/
theorem label_iff {place : Nat} (label : c.isLabel place = true) :
    c.Heads n place ↔ c.Heads n (place + 2) := by
  obtain ⟨name, colon⟩ := Bool.and_eq_true_iff.mp label
  refine ⟨fun heads => ?_, .label name colon⟩
  cases heads with
  | word word _ =>
    rw [Token.isIdentifier, eq_of_beq word] at name
    cases name
  | async _ word _ _ =>
    rw [Token.isPunct, eq_of_beq word] at colon
    cases colon
  | label _ _ inner => exact inner

/-- A statement begins with one function at most. -/
theorem unique {m place : Nat} (heads : c.Heads m place) (other : c.Heads n place) : m = n := by
  induction heads with
  | word word _ =>
    cases other with
    | word _ _ => rfl
    | async async _ _ _ =>
      have name := Token.isIdentifier_of_isContextual async
      rw [Token.isIdentifier, eq_of_beq word] at name
      cases name
    | label name _ _ =>
      rw [Token.isIdentifier, eq_of_beq word] at name
      cases name
  | async async word _ _ =>
    cases other with
    | word word' _ =>
      have name := Token.isIdentifier_of_isContextual async
      rw [Token.isIdentifier, eq_of_beq word'] at name
      cases name
    | async _ _ _ _ => rfl
    | label _ colon _ =>
      rw [Token.isPunct, eq_of_beq word] at colon
      cases colon
  | label name colon _ ih =>
    exact ih ((label_iff (by rw [Context.isLabel, name, colon]; rfl)).mp other)

end Context.Heads

/-! ## Where only the cursor moves -/

/-- The states differ in nothing but the cursor. -/
def Ahead (s t : State) : Prop := t = { s with pos := t.pos, prev := t.prev }

namespace Ahead

theorem refl (s : State) : Ahead s s := rfl

theorem trans (h : Ahead s t) (k : Ahead t u) : Ahead s u := by
  unfold Ahead at h k ⊢
  rw [k, h]

theorem behind (s : State) : Ahead s (c.behind s) := rfl

theorem bindings (h : Ahead s t) : t.bindings = s.bindings := by rw [h]

theorem scopes (h : Ahead s t) : t.scopes = s.scopes := by rw [h]

theorem depth (h : Ahead s t) : t.depth = s.depth := by rw [h]

theorem target (h : Ahead s t) (kind : BindingKind) : t.target kind = s.target kind := by
  rw [h]
  rfl

theorem grows (h : Ahead s t) : s.Grows t := by
  rw [h]
  exact .of_eq rfl rfl rfl

end Ahead

/-- Labels are passed over, to what they lead to. -/
theorem labelsFor_ends {rounds : Nat} : (labelsFor rounds).Ends c (fun _ => True)
    (fun _ t => Ahead s t ∧ c.isLabel t.pos = false ∧ ∀ n, c.Heads n s.pos ↔ c.Heads n t.pos) s := by
  induction rounds generalizing s with
  | zero => trivial
  | succ rounds ih =>
    unfold labelsFor
    rw [Build.ends_bind, Build.ends_current, Build.ends_bind]
    show (if c.isLabel s.pos = true then _ else _ : Build Unit).Ends c _ _ s
    split
    · next label =>
      obtain ⟨name, colon⟩ := Bool.and_eq_true_iff.mp label
      have first : (c.behind s).pos = s.pos + 1 := behind_pos (Token.isEnd_of_isIdentifier name)
      have second : (c.behind (c.behind s)).pos = s.pos + 2 := by
        rw [← first] at colon
        rw [behind_pos (Token.isEnd_of_isPunct colon), first]
      refine (ih (s := c.behind (c.behind s))).mono fun _ t reached => ?_
      obtain ⟨ahead, passed, same⟩ := reached
      refine ⟨(Ahead.behind s).trans ((Ahead.behind _).trans ahead), passed, fun n => ?_⟩
      rw [Context.Heads.label_iff label, ← second, same]
    · next passed => exact ⟨.refl s, by simpa using passed, fun _ => Iff.rfl⟩

/-- Where the cursor is led behind the first word and a star, a name is read if there is one. -/
theorem functionName_ends {E : Failure → Prop} : functionName.Ends c E (fun name? t => Ahead s t ∧
    ∃ n, ((c.token s.pos).isEnd = false → n = c.nameBehind s.pos) ∧
      if (c.token n).isIdentifier = true then name? = some (c.token n) ∧ t.pos = n + 1
      else name? = none) s := by
  have led {t : State} (ahead : Ahead s t)
      (pos : (c.token s.pos).isEnd = false → t.pos = c.nameBehind s.pos) :
      (current >>= fun name => if name.isIdentifier = true then
        advance >>= fun _ => pure (some name) else pure none : Build (Option Token)).Ends c E
        (fun name? t => Ahead s t ∧ ∃ n, ((c.token s.pos).isEnd = false → n = c.nameBehind s.pos) ∧
          if (c.token n).isIdentifier = true then name? = some (c.token n) ∧ t.pos = n + 1
          else name? = none) t := by
    rw [Build.ends_bind, Build.ends_current]
    split
    · next name =>
      refine ⟨ahead.trans (.behind t), t.pos, pos, ?_⟩
      rw [if_pos name]
      exact ⟨rfl, behind_pos (Token.isEnd_of_isIdentifier name)⟩
    · next other => exact ⟨ahead, t.pos, pos, by rw [if_neg other]⟩
  have first (notEnd : (c.token s.pos).isEnd = false) : (c.behind s).pos = s.pos + 1 :=
    behind_pos notEnd
  simp only [functionName, Build.join]
  rw [Build.ends_bind, Build.ends_advance, Build.ends_bind, Build.ends_current, Build.ends_bind]
  show (if (c.token (c.behind s).pos).isOperator "*" = true then _ else _ : Build Unit).Ends c E _
    (c.behind s)
  split
  · next star =>
    refine led ((Ahead.behind s).trans (.behind _)) fun notEnd => ?_
    have second := behind_pos (Token.isEnd_of_isOperator star)
    rw [first notEnd] at star second
    rw [Context.nameBehind, if_pos star]
    exact second
  · next plain =>
    refine led (.behind s) fun notEnd => ?_
    rw [first notEnd] at plain
    rw [Context.nameBehind, if_neg plain]
    exact first notEnd

/-! ## How a statement goes on -/

/-- Over every grammar alike, the run of `m` from `s` goes on as that of `n` from `t`. -/
def GoesOn (c : Context) (m : Grammar → Build Unit) (s : State) (n : Grammar → Build Unit)
    (t : State) : Prop :=
  ∀ g, ((m g).run c).run s = ((n g).run c).run t

theorem run_current {f : Token → Build Unit} :
    ((current >>= f).run c).run s = ((f (c.token s.pos)).run c).run s :=
  rfl

/-- A declared function: its name is bound, and its parameters and body follow. -/
theorem functionLiteral_cases (word : (c.token s.pos).isKeyword .function = true) :
    (∃ e, ∀ g, ((functionLiteral g .declaration).run c).run s = .error e) ∨
      (c.token (c.nameBehind s.pos)).isIdentifier = true ∧ ∃ t, Ahead s t ∧
        GoesOn c (fun g => functionLiteral g .declaration) s
          (fun g => functionTail g (c.token (c.nameBehind s.pos)).lexeme none)
          (t.declare (c.token (c.nameBehind s.pos)) .function) := by
  have read := functionName_ends (c := c) (s := s) (E := fun _ => False)
  unfold Build.Ends at read
  split at read
  · next name? t ran =>
    obtain ⟨ahead, n, place, rest⟩ := read
    obtain rfl := place (Token.isEnd_of_isKeyword word)
    split at rest
    · next name =>
      obtain ⟨rfl, _⟩ := rest
      refine .inr ⟨name, t, ahead, fun g => ?_⟩
      show ((functionLiteral g .declaration).run c).run s = _
      rw [functionLiteral, ReaderT.run_bind, StateT.run_bind, ran]
      rfl
    · subst rest
      refine .inl ⟨.rejected (c.unexpected t .functionName), fun g => ?_⟩
      rw [functionLiteral, ReaderT.run_bind, StateT.run_bind, ran]
      rfl
  · exact read.elim

/-- What begins with a function behind its labels. -/
theorem Context.Heads.unlabeled {place : Nat} (passed : c.isLabel place = false)
    (heads : c.Heads n place) : (c.token place).isKeyword .function = true ∨
      (c.token place).isContextual "async" = true ∧ (c.token (place + 1)).isKeyword .function = true ∧
        (c.token (place + 1)).flags.afterBreak = false := by
  cases heads with
  | word word _ => exact .inl word
  | async async word sameLine _ => exact .inr ⟨async, word, sameLine⟩
  | label name colon _ =>
    rw [Context.isLabel, name, colon] at passed
    cases passed

section
variable {T : State → State → Prop} (permits : Permits T)
include permits

/-- Behind labels a statement fails before any call; or it begins with no function, and declares none
outside of calls; or it begins with a function, which it declares before all else. -/
theorem unlabeled_cases (place : StatementPlace) (passed : c.isLabel s.pos = false) :
    (∃ e, ∀ g : Grammar, ((unlabeled g place).run c).run s = .error e) ∨
    (∃ m, Composed c T 0 0 m ∧ (∀ n, ¬ c.Heads n s.pos) ∧
      GoesOn c (fun g => unlabeled g place) s m s) ∨
    ∃ n t, c.Heads n s.pos ∧ Ahead s t ∧ GoesOn c (fun g => unlabeled g place) s
      (fun g => functionTail g (c.token n).lexeme none) (t.declare (c.token n) .function) := by
  have other {m : Grammar → Build Unit} (composed : Composed c T 0 0 m)
      (plain : (c.token s.pos).kind ≠ .keyword .function) (noName : (c.token s.pos).kind ≠ .identifier)
      (goesOn : GoesOn c (fun g => unlabeled g place) s m s) :
      ∃ m, Composed c T 0 0 m ∧ (∀ n, ¬ c.Heads n s.pos) ∧
        GoesOn c (fun g => unlabeled g place) s m s := by
    refine ⟨m, composed, fun n heads => ?_, goesOn⟩
    rcases heads.unlabeled passed with word | ⟨async, _⟩
    · exact plain (eq_of_beq word)
    · exact noName (Token.kind_of_isIdentifier (Token.isIdentifier_of_isContextual async))
  cases kind : (c.token s.pos).kind with
  | punctuation p =>
    have branch : ∃ m, Composed c T 0 0 m ∧ GoesOn c (fun g => unlabeled g place) s m s := by
      unfold GoesOn
      simp only [unlabeled, run_current, kind]
      cases p with
      | openBrace => exact ⟨_, block_composed permits _ _, fun _ => rfl⟩
      | semicolon => exact ⟨_, .advance permits, fun _ => rfl⟩
      | closeBrace | closeParen | closeBracket => exact ⟨_, .refuse _, fun _ => rfl⟩
      | _ => exact ⟨_, expressionStatement_composed permits, fun _ => rfl⟩
    obtain ⟨m, composed, goesOn⟩ := branch
    exact .inr (.inl (other composed (by simp [kind]) (by simp [kind]) goesOn))
  | keyword k =>
    have at_k : GoesOn c (fun g => unlabeled g place) s (fun g => keywordStatement g place k) s := by
      intro g
      simp only [unlabeled, run_current, kind]
    by_cases function : k = .function
    · subst function
      have word : (c.token s.pos).isKeyword .function = true := by rw [Token.isKeyword, kind]; rfl
      rcases functionLiteral_cases word with ⟨e, failed⟩ | ⟨name, t, ahead, goesOn⟩
      · exact .inl ⟨e, fun g => (at_k g).trans (failed g)⟩
      · exact .inr (.inr ⟨_, t, .word word name, ahead, fun g => (at_k g).trans (goesOn g)⟩)
    · exact .inr (.inl (other (keywordStatement_composed permits place k fun same =>
        absurd same function) (by simp [kind, function]) (by simp [kind]) at_k))
  | identifier =>
    have name : (c.token s.pos).isIdentifier = true := by rw [Token.isIdentifier, kind]; rfl
    have pos : (c.behind s).pos = s.pos + 1 := behind_pos (Token.isEnd_of_isIdentifier name)
    by_cases begins : ((c.token s.pos).isContextual "async" &&
        (c.token (s.pos + 1)).isKeyword .function &&
        !(c.token (s.pos + 1)).flags.afterBreak) = true
    · have at_word : GoesOn c (fun g => unlabeled g place) s
          (fun g => functionLiteral g .declaration) (c.behind s) := by
        intro g
        simp only [unlabeled, run_current, kind]
        show ((if _ then _ else _ : Build Unit).run c).run s = _
        rw [if_pos begins]
        rfl
      simp only [Bool.and_eq_true, Bool.not_eq_true'] at begins
      obtain ⟨⟨async, word⟩, sameLine⟩ := begins
      rcases functionLiteral_cases (pos ▸ word) with ⟨e, failed⟩ | ⟨name, t, ahead, goesOn⟩
      · exact .inl ⟨e, fun g => (at_word g).trans (failed g)⟩
      · rw [pos] at name goesOn
        exact .inr (.inr ⟨_, t, .async async word sameLine name, (Ahead.behind s).trans ahead,
          fun g => (at_word g).trans (goesOn g)⟩)
    · refine .inr (.inl ⟨_, expressionStatement_composed permits, fun n heads => ?_, fun g => ?_⟩)
      · rcases heads.unlabeled passed with word | ⟨async, word, sameLine⟩
        · rw [Token.isKeyword, kind] at word
          cases word
        · rw [async, word, sameLine] at begins
          exact begins rfl
      · simp only [unlabeled, run_current, kind]
        show ((if _ then _ else _ : Build Unit).run c).run s = _
        rw [if_neg begins]
  | _ =>
    refine .inr (.inl (other (expressionStatement_composed permits) (by simp [kind])
      (by simp [kind]) fun g => ?_))
    simp only [unlabeled, run_current, kind]

/-- A statement fails before any call; or it begins with no function, and declares none outside of
calls; or it begins with a function, which it declares before all else. -/
theorem statement_cases (place : StatementPlace) (s : State) :
    (∃ e, ∀ g : Grammar, ((Builder.statement g place).run c).run s = .error e) ∨
    (∃ m t, Composed c T 0 0 m ∧ Ahead s t ∧ (∀ n, ¬ c.Heads n s.pos) ∧
      GoesOn c (fun g => Builder.statement g place) s m t) ∨
    ∃ n t, c.Heads n s.pos ∧ Ahead s t ∧ GoesOn c (fun g => Builder.statement g place) s
      (fun g => functionTail g (c.token n).lexeme none) (t.declare (c.token n) .function) := by
  have labels : (labelsFor c.rounds).Ends c (fun _ => True) _ s := labelsFor_ends
  unfold Build.Ends at labels
  split at labels
  case h_1 t ran =>
    obtain ⟨ahead, passed, same⟩ := labels
    have behind : GoesOn c (fun g => Builder.statement g place) s (fun g => unlabeled g place) t := by
      intro g
      show ((labelsFor c.rounds >>= fun _ => unlabeled g place : Build Unit).run c).run s = _
      rw [ReaderT.run_bind, StateT.run_bind, ran]
      rfl
    rcases unlabeled_cases permits place passed with
      ⟨e, failed⟩ | ⟨m, composed, plain, goesOn⟩ | ⟨n, u, heads, ahead', goesOn⟩
    · exact .inl ⟨e, fun g => (behind g).trans (failed g)⟩
    · exact .inr (.inl ⟨m, t, composed, ahead, fun n heads => plain n ((same n).mp heads),
        fun g => (behind g).trans (goesOn g)⟩)
    · exact .inr (.inr ⟨n, u, (same n).mpr heads, ahead.trans ahead',
        fun g => (behind g).trans (goesOn g)⟩)
  case h_2 e failed =>
    refine .inl ⟨e, fun g => ?_⟩
    show ((labelsFor c.rounds >>= fun _ => unlabeled g place : Build Unit).run c).run s = _
    rw [ReaderT.run_bind, StateT.run_bind, failed]
    rfl

end

/-! ## From a state to a later one -/

/-- Nothing is lost from `s` to `t`, and no declaration forgotten. -/
structure Later (s t : State) : Prop where
  grows : s.Grows t
  listed : Listed s → Listed t
  recalls : ∀ (b : Nat) (x : Binding), s.bindings[b]? = some x →
    ∃ y, t.bindings[b]? = some y ∧ ∀ span ∈ x.declarations, span ∈ y.declarations

namespace Later

theorem trans (h : Later s t) (k : Later t u) : Later s u where
  grows := h.grows.trans k.grows
  listed := k.listed ∘ h.listed
  recalls b x at_s := by
    obtain ⟨y, at_t, first⟩ := h.recalls b x at_s
    obtain ⟨z, at_u, second⟩ := k.recalls b y at_t
    exact ⟨z, at_u, fun span mem => second span (first span mem)⟩

theorem declare (s : State) (name : Token) (kind : BindingKind) : Later s (s.declare name kind) where
  grows := .declare s name kind
  listed listed := listed.declare name kind
  recalls b x at_b := by
    rcases s.declare_cases name kind with ⟨known, _, e⟩ | ⟨_, e⟩
    · rw [e]
      simp only [Array.getElem?_modify, at_b]
      split
      · exact ⟨_, rfl, fun span mem => by simp [mem]⟩
      · exact ⟨x, rfl, fun _ => id⟩
    · have inside : b < s.bindings.size := (Array.getElem?_eq_some_iff.mp at_b).1
      refine ⟨x, ?_, fun _ => id⟩
      rw [e]
      simp only [Array.getElem?_push, if_neg (Nat.ne_of_lt inside), at_b]

theorem permits : Permits Later :=
  .of_still
    (fun grows bindings declarations => ⟨grows, fun listed => listed.of_eq bindings declarations,
      fun _ x at_b => ⟨x, bindings ▸ at_b, fun _ => id⟩⟩)
    fun s name kind _ => .declare s name kind

end Later

/-- The productions only go on to later states. -/
theorem next_later (call : Call) : Composed c Later 0 0 fun g => g.next.call call :=
  next_composed Later.permits (fun s name => .declare s name .function) call

/-- A call that returns does so in a later state. -/
theorem level_later (ran : (((Grammar.level level).call call).run c).run u = .ok ((), v)) :
    Later u v := by
  induction level generalizing call u v with
  | zero => cases call <;> cases ran
  | succ level ih =>
    rw [Grammar.level_succ] at ran
    exact (next_later call).follows Later.trans ran fun _ _ _ _ => ih

/-- A call that a run makes is made in a state later than its start. -/
theorem Reached.later (reached : Reached c top level call u) : Later .start u := by
  induction reached with
  | outermost gets =>
    exact (program_composed Later.permits).reaches Later.trans Later.permits.refl gets
      fun _ _ _ => level_later
  | inside _ gets ih =>
    have inside := (next_later _).reaches Later.trans Later.permits.refl gets
      fun _ _ _ => level_later
    exact ih.trans inside

/-- A call that a run makes has returned when the run has come to its end, which is later. -/
theorem Reached.returned (reached : Reached c top level call u) (ran : run top c = .ok s) :
    ∃ v, (((Grammar.level level).call call).run c).run u = .ok ((), v) ∧ Later v s := by
  induction reached with
  | outermost gets =>
    exact (program_composed Later.permits).returned Later.trans Later.permits.refl
      (Build.ends_iff_run.mp (run_ok_iff_ends.mp ran)) gets fun _ _ _ => level_later
  | inside _ gets ih =>
    obtain ⟨t, ran, later⟩ := ih
    obtain ⟨v, made, inside⟩ := (next_later _).returned Later.trans Later.permits.refl ran gets
      fun _ _ _ => level_later
    exact ⟨v, made, inside.trans later⟩

/-! ## Declared functions are bound outside -/

/-- The scope `i` is that of a function which begins right behind the token at `n`. -/
structure OwnScope (c : Context) (s : State) (n : Nat) (i : ScopeId) : Prop where
  before : n + 1 < c.tokens.size
  begins : ∃ x, s.scopes[i]? = some x ∧ x.kind = .function ∧
    x.range.start = (c.token (n + 1)).span.start

/-- A declaration is recorded with the scope where it ends up. -/
theorem Listed.declared (listed : Listed s) (name : Token) (kind : BindingKind) :
    ∃ (b : Nat) (x : Binding), (s.declare name kind).bindings[b]? = some x ∧
      x.scope = s.target kind ∧ name.span ∈ x.declarations := by
  rcases s.declare_cases name kind with ⟨known, found, e⟩ | ⟨_, e⟩
  · obtain ⟨x, at_known, _, owner⟩ := listed.boundIn found
    refine ⟨known, x.redeclare kind name.span, ?_, owner, by simp⟩
    rw [e]
    simp only [Array.getElem?_modify, at_known, ↓reduceIte, Option.map_some]
  · refine ⟨s.bindings.size, ⟨s.bindings.size, name.lexeme, kind, name.span, #[], s.target kind⟩, ?_, rfl, ?_⟩
    · rw [e]
      simp only [Array.getElem?_push_size]
    · simp [Binding.declarations]

/-- What leaves blocks ends up in the global scope or in one that begins where the cursor has been. -/
theorem Ready.target_starts {k : Nat} {kind : BindingKind} (ready : Ready c k s)
    (hoists : kind.hoists = true) : s.target kind = globalScope ∨
      ∃ first ≤ s.pos, ∃ x, s.scopes[s.target kind]? = some x ∧
        x.range.start = (c.token first).span.start := by
  unfold State.target
  rw [if_pos hoists]
  split
  · next f found =>
    by_cases root : f.scope = globalScope
    · exact .inl root
    · obtain ⟨first, reached, start, x, at_f, begins⟩ :=
        ready.frames f (List.mem_of_find?_eq_some found) root
      exact .inr ⟨first, reached, x, at_f, begins.trans start⟩
  · exact .inl rfl

/-- A declared function is bound in a scope other than its own. -/
theorem Context.DeclaresFunction.recorded (declares : c.DeclaresFunction n) (formed : c.Formed)
    (spaced : c.Spaced) (ran : run c.levels c = .ok s) (shaped : Shaped c s) :
    ∃ (b : Nat) (x : Binding), s.bindings[b]? = some x ∧ (c.token n).span ∈ x.declarations ∧
      ¬ OwnScope c s n x.scope := by
  obtain ⟨level, place, u, reached, heads⟩ := declares
  have ready := reached.ready formed (Nat.le_refl _)
  obtain ⟨v, made, later⟩ := reached.returned ran
  cases level with
  | zero => cases made
  | succ level =>
    have made : ((Builder.statement (Grammar.level level) place).run c).run u = .ok ((), v) := made
    rcases statement_cases Later.permits place u with
      ⟨e, failed⟩ | ⟨m, t, _, _, plain, _⟩ | ⟨m, t, heads', ahead, goesOn⟩
    · rw [failed] at made
      cases made
    · exact absurd heads (plain n)
    · obtain rfl : m = n := heads'.unique heads
      have further : Later (t.declare (c.token m) .function) v := by
        have made := (goesOn _).symm.trans made
        exact (unnamedTail_composed (a := 0) Later.permits _).follows Later.trans made
          fun _ _ _ _ => level_later
      have rest := further.trans later
      have listed : Listed t :=
        (reached.later.listed listed_start).of_eq ahead.bindings fun _ => by rw [ahead.scopes]
      obtain ⟨b, x, at_b, owner, mem⟩ := listed.declared (c.token m) .function
      obtain ⟨y, at_b', mems⟩ := rest.recalls b x at_b
      obtain ⟨z, at_b'', keeps⟩ := rest.grows.binding b x at_b
      obtain rfl : y = z := Option.some.inj (at_b'.symm.trans at_b'')
      refine ⟨b, y, at_b', mems _ mem, fun own => ?_⟩
      obtain ⟨inside, o, at_own, function, begins⟩ := own
      rw [keeps.scope, owner, ahead.target] at at_own
      have hoists : BindingKind.function.hoists = true := rfl
      rcases ready.target_starts hoists with root | ⟨first, reached, x, at_x, start⟩
      · obtain ⟨r, at_root, isGlobal, _⟩ := shaped.rooted.root
        rw [root, at_root] at at_own
        cases at_own
        rw [isGlobal] at function
        cases function
      · -- The scope around the statement began before the name.
        have grows := (ahead.grows.trans (.declare t _ _)).trans rest.grows
        obtain ⟨x', at_x', keeps⟩ := grows.scope _ _ at_x
        rw [at_own] at at_x'
        cases at_x'
        have before : first < m + 1 := by
          have := heads.lt
          omega
        have wide := spaced.wide first (by omega)
        have apart := spaced.stop_le_start before inside
        rw [← begins, keeps.start, start] at apart
        omega

/-! ## What is bound as a function is declared, or bound inside -/

/-- Each binding of a function is from one that is declared, or in the scope behind its name. -/
structure Attested (c : Context) (s : State) : Prop where
  listed : Listed s
  functions : ∀ (b : Nat) (x : Binding), s.bindings[b]? = some x → x.kind = .function →
    ∃ n, (c.token n).span = x.declaredAt ∧ (c.DeclaresFunction n ∨ OwnScope c s n x.scope)

theorem OwnScope.grows {i : ScopeId} (own : OwnScope c s n i) (grows : s.Grows t) :
    OwnScope c t n i := by
  obtain ⟨before, x, at_i, function, begins⟩ := own
  obtain ⟨y, at_i', keeps⟩ := grows.scope _ _ at_i
  exact ⟨before, y, at_i', keeps.kind.trans function, keeps.start.trans begins⟩

namespace Attested

theorem start : Attested c .start := ⟨listed_start, nofun⟩

theorem still (attested : Attested c s) (grows : s.Grows t) (bindings : t.bindings = s.bindings)
    (declarations : ∀ i, declarationsIn t.scopes i = declarationsIn s.scopes i) : Attested c t where
  listed := attested.listed.of_eq bindings declarations
  functions b x at_b function := by
    obtain ⟨n, place, attests⟩ := attested.functions b x (bindings ▸ at_b) function
    exact ⟨n, place, attests.imp_right fun own => own.grows grows⟩

/-- A declaration has to be attested where it is one of a function. -/
theorem declare (attested : Attested c s) (name : Token) (kind : BindingKind)
    (new : kind = .function → ∃ n, (c.token n).span = name.span ∧
      (c.DeclaresFunction n ∨ OwnScope c (s.declare name kind) n (s.target kind))) :
    Attested c (s.declare name kind) where
  listed := attested.listed.declare name kind
  functions b x at_b function := by
    rcases declare_binding_cases attested.listed at_b with old | ⟨_, rfl⟩ | ⟨y, _, _, owner, rfl⟩
    · obtain ⟨n, place, attests⟩ := attested.functions b x old function
      exact ⟨n, place, attests.imp_right fun own => own.grows (.declare s name kind)⟩
    · exact new function
    · obtain ⟨n, place, attests⟩ := new function
      exact ⟨n, place, owner ▸ attests⟩

theorem permits : Permits fun s t => Attested c s → Attested c t :=
  .of_still (fun grows bindings declarations attested => attested.still grows bindings declarations)
    fun _ name kind other attested => attested.declare name kind fun same => absurd same other

end Attested

/-- The head of a function expression: its name is bound in the scope that begins behind it. -/
def functionHead : Build ScopeId := do
  let name? ← functionName
  if !(← here .openParen) then refuse (.punct .openParen)
  let start := (← current).span.start
  match name? with
  | some name =>
    let id ← openScope .function name.lexeme start .header
    declare name .function
    return id
  | none => openScope .function "anonymous" start .header

/-- A function expression is its head, and then its parameters and its body. -/
theorem functionLiteral_expression : functionLiteral g .expression = (do
    let id ← functionHead
    parameters g
    braceBody g id) := by
  simp only [functionLiteral, functionHead, functionTail, Build.join, bind_assoc]
  congr 1
  funext name?
  cases name? with
  | none => rfl
  | some name => simp only [bind_assoc, pure_bind]

/-- The name that a function expression has is bound in its own scope. -/
theorem functionHead_ends {a : Nat} (formed : c.Formed) : functionHead.Ends c (fun _ => True)
    (fun _ t => Levels (fun s t => Attested c s → Attested c t) a (a + 1) s t) s := by
  simp only [functionHead, Build.join]
  rw [Build.ends_bind]
  refine functionName_ends.mono fun name? t ⟨ahead, n, _, rest⟩ => ?_
  have opened (label : String) (attested : Attested c s) : Attested c
      (t.deepen.pushScope .function label (c.token t.pos).span.start .header) :=
    attested.still ((ahead.grows.trans (.deepen t)).trans (.push _ _ _ _ _)) ahead.bindings
      fun _ => by rw [declarationsIn_push, State.deepen_scopes, ahead.scopes]
  have deeper : t.depth + 1 + a = s.depth + (a + 1) := by
    rw [ahead.depth]
    omega
  rw [Build.ends_bind, Build.ends_here, Build.ends_bind, Build.ends_ite]
  split
  · trivial
  · rw [Build.ends_pure, Build.ends_bind, Build.ends_current]
    cases name? with
    | none =>
      rw [Build.ends_openScope]
      split
      · trivial
      · exact ⟨opened _, fun _ => deeper⟩
    | some name =>
      split at rest
      case isFalse => cases rest
      case isTrue identifier =>
      obtain ⟨⟨⟩, place⟩ := rest
      rw [Build.ends_bind, Build.ends_openScope]
      split
      · trivial
      · refine ⟨fun attested => ?_, fun _ => by rw [State.declare_depth]; exact deeper⟩
        refine (opened (c.token n).lexeme attested).declare (c.token n) .function fun _ => ⟨n, rfl, .inr ?_⟩
        rw [target_push_function]
        have new := t.deepen.pushScope_scope_new .function (c.token n).lexeme
          (c.token t.pos).span.start .header
        have own : OwnScope c (t.deepen.pushScope .function (c.token n).lexeme
            (c.token t.pos).span.start .header) n t.scopes.size :=
          ⟨(formed.token_at (Token.isEnd_of_isIdentifier identifier)).2, _, new, rfl, place ▸ rfl⟩
        exact own.grows (.declare _ _ _)

/-- A call that a run makes leaves functions attested: the one that a statement begins with is declared,
and all others are expressions or inside further calls. -/
theorem Reached.attested (formed : c.Formed) (reached : Reached c c.levels level call u)
    (ran : (((Grammar.level level).call call).run c).run u = .ok ((), v)) (attested : Attested c u) :
    Attested c v := by
  induction level generalizing call u v with
  | zero => cases call <;> cases ran
  | succ level ih =>
    have permits : Permits fun s t => Attested c s → Attested c t := Attested.permits
    rw [Grammar.level_succ] at ran
    cases call with
    | expression mode =>
      have inner : Composed c (fun s t => Attested c s → Attested c t) 0 0
          fun g => functionLiteral g .expression := by
        simp only [functionLiteral_expression]
        exact .bind (.act fun _ => functionHead_ends formed) fun id =>
          .bind (parameters_composed permits) fun _ => braceBody_composed permits id
      exact (expression_composed permits inner mode).follows (fun first second => second ∘ first) ran
        (fun _ _ _ gets ran attested => ih (.inside reached gets) ran attested) attested
    | statement place =>
      have inside {m : Grammar → Build Unit} {s : State}
          (goesOn : GoesOn c (fun g => Builder.statement g place) u m s)
          (composed : Composed c (fun s t => Attested c s → Attested c t) 0 0 m) :
          Attested c s → Attested c v := by
        refine composed.follows (fun first second => second ∘ first) ((goesOn _).symm.trans ran)
          fun call w _ gets ran attested => ih (.inside reached (fun e => ?_)) ran attested
        exact (goesOn _).trans (gets e)
      have ahead {t : State} (h : Ahead u t) : Attested c t :=
        attested.still h.grows h.bindings fun _ => by rw [h.scopes]
      rcases statement_cases permits place u with
        ⟨e, failed⟩ | ⟨m, t, composed, moved, _, goesOn⟩ | ⟨n, t, heads, moved, goesOn⟩
      · exact absurd ((failed _).symm.trans ran) nofun
      · exact inside goesOn composed (ahead moved)
      · refine inside goesOn (unnamedTail_composed permits _) ((ahead moved).declare _ _ fun _ => ?_)
        exact ⟨n, rfl, .inl ⟨level + 1, place, u, reached, heads⟩⟩

/-- Behind a run each binding of a function is from one that is declared, or in the scope behind its
name. -/
theorem run_attested (formed : c.Formed) (ran : run c.levels c = .ok s) : Attested c s := by
  refine (program_composed Attested.permits).follows (fun first second => second ∘ first)
    (Build.ends_iff_run.mp (run_ok_iff_ends.mp ran)) (fun _ _ _ gets ran attested => ?_) .start
  exact Reached.attested formed (.outermost gets) ran attested

end Builder

end Scoping
