import Scoping.Build.Statement
import Scoping.Proofs.Build.Expression

/-!
# Statements read

Each production of statements reads, over a grammar whose statements read one scope deeper and whose
expressions read where the statement stands. A statement consumes a token before the scope of its
body begins, so the body has less left even where it is no block.
-/

namespace Scoping

open Builder

/-- Expressions that read where a statement stands read inside its scopes too. -/
theorem Grammar.Serves.inner {c : Context} {g : Grammar} {k : Nat} (serves : g.Serves c k (k + 1)) :
    g.Serves c k k :=
  ⟨serves.statement, fun mode s => (serves.expression mode s).shallow⟩

namespace Builder

variable {c : Context} {g : Grammar} {k : Nat} {s t : State}

/-! ## Simple statements -/

theorem semicolon_reads : Reads c k (fun _ => s.pos) semicolon s := by
  simp only [semicolon, atStatementEnd, bind_assoc, pure_bind]
  refine .here (.ite (fun mark => ?_) fun _ => ?_)
  · exact .pass (passes_of_isPunct mark rfl) (Nat.le_succ _)
  · exact .current (.ite (fun _ => .refuse _) fun _ => .done (Nat.le_refl _))

/-- A keyword and an end of the statement. -/
theorem bareStatement_reads {w : Keyword} (word : (c.token s.pos).isKeyword w = true) :
    Reads c k (fun _ => s.pos + 1) (advance >>= fun _ => semicolon) s :=
  .passThen (passes_of_isKeyword word) fun pos => semicolon_reads.mono fun _ => by omega

theorem expressionStatement_reads {a : Nat} (serves : g.Serves c a k) :
    Reads c k (fun _ => s.pos + 1) (expressionStatement g) s := by
  simp only [expressionStatement, Build.join]
  refine .get (.andThen (serves.expression .statement s) fun _ t _ reached =>
    .get (.guard fun moved => semicolon_reads.mono fun _ => ?_))
  have moved : t.pos ≠ s.pos := by simpa using moved
  have reached : s.pos ≤ t.pos := reached
  omega

theorem operandStatement_reads {a : Nat} {w : Keyword} (serves : g.Serves c a k)
    (word : (c.token s.pos).isKeyword w = true) :
    Reads c k (fun _ => s.pos + 1) (operandStatement g) s := by
  simp only [operandStatement, atStatementEnd, Build.join, bind_assoc, pure_bind]
  refine .passThen (passes_of_isKeyword word) fun pos => .current ?_
  refine .andThen (n := fun _ => s.pos + 1) ?_ fun _ t _ reached =>
    semicolon_reads.mono fun _ => reached
  exact .ite (fun _ => (serves.expression .statement _).mono fun _ => by omega)
    fun _ => .done (by omega)

/-- The word before the label says that the label is no use of a name. -/
theorem jumpStatement_reads
    (word : (c.token s.pos).isKeyword .break_ = true ∨
      (c.token s.pos).isKeyword .continue_ = true) :
    Reads c k (fun _ => s.pos + 1) jumpStatement s := by
  have passes : Passes c s := word.elim passes_of_isKeyword passes_of_isKeyword
  simp only [jumpStatement, Build.join]
  refine .passThen passes fun pos => .current ?_
  refine .andThen (n := fun _ => s.pos + 1) ?_ fun _ t _ reached =>
    semicolon_reads.mono fun _ => reached
  refine .ite (fun label => ?_) fun _ => .done (by omega)
  simp only [Bool.and_eq_true] at label
  exact .pass (.inr ⟨label.1, .inr (.inr (.inr (by simpa using word)))⟩) (by omega)

/-! ## Declarations -/

theorem declaratorsFor_reads {a rounds : Nat} {kind : BindingKind} (serves : g.Serves c a k)
    (can : ∀ t, Declares t kind) (mode : ExpressionMode) (enough : c.tokens.size - s.pos < rounds) :
    Reads c k (fun _ => s.pos) (declaratorsFor g kind mode rounds) s := by
  induction rounds generalizing s with
  | zero => omega
  | succ rounds ih =>
    simp only [declaratorsFor, Build.join₂]
    refine .of_inside fun inside => .andThen (declareHere_reads _ (can s)) fun _ t _ atName => ?_
    refine .here (.andThen (n := fun _ => t.pos) ?_ fun _ u _ atValue => .here ?_)
    · refine .ite (fun equals => ?_) fun _ => .done (Nat.le_refl _)
      refine .passThen (passes_of_isPunct equals rfl) fun pos => ?_
      exact (serves.expression _ _).mono fun _ => by omega
    · refine .ite (fun comma => ?_) fun _ => .done (by omega)
      refine .passThen (passes_of_isPunct comma rfl) fun pos => ?_
      exact (ih (by omega)).mono fun _ => by omega

theorem declarators_reads {a : Nat} {kind : BindingKind} {w : Keyword} (serves : g.Serves c a k)
    (can : ∀ t, Declares t kind) (mode : ExpressionMode)
    (word : (c.token s.pos).isKeyword w = true) :
    Reads c k (fun _ => s.pos + 1) (declarators g kind mode) s := by
  unfold declarators
  refine .passThen (passes_of_isKeyword word) fun pos => .read ?_
  refine (declaratorsFor_reads serves can mode ?_).mono fun _ => by omega
  unfold Context.rounds
  omega

theorem declaration_reads {a : Nat} {kind : BindingKind} {w : Keyword} (serves : g.Serves c a k)
    (can : ∀ t, Declares t kind) (word : (c.token s.pos).isKeyword w = true) :
    Reads c k (fun _ => s.pos + 1) (declaration g kind) s :=
  .andThen (declarators_reads serves can .statement word) fun _ _ _ reached =>
    semicolon_reads.mono fun _ => reached

theorem lexicalDeclaration_reads {a : Nat} {kind : BindingKind} {w : Keyword}
    (serves : g.Serves c a k) (can : ∀ t, Declares t kind)
    (word : (c.token s.pos).isKeyword w = true) (place : StatementPlace) :
    Reads c k (fun _ => s.pos + 1) (lexicalDeclaration g kind place) s := by
  cases place with
  | body => exact .current fun ready => ready.sound_here trivial
  | list => exact declaration_reads serves can word

/-! ## Bodies -/

theorem condition_reads (serves : g.Serves c k k) :
    Reads c (k + 1) (fun _ => s.pos + 1) (condition g) s :=
  .expect fun there =>
    (grouped_reads serves (opens?_of_isPunct there) rfl).mono fun _ => Nat.le_succ _

theorem statementBody_ends {b : Nat} {f : Frame} {rest : List Frame} (serves : g.Serves c k b)
    (ready : Ready c k s) (top : s.frames = f :: rest) :
    (statementBody g f.scope).Ends c (Failure.Sound c)
      (fun _ t => Closes c f.scope (s.pos + 1) s t) s := by
  refine (serves.statement .body s ready).andThen fun _ u ⟨w, reached⟩ => ?_
  exact (closeScope_ends (w.frames_eq.trans top)).mono fun _ t e => ⟨u, w, reached, e⟩

/-- A body behind at least one token of its statement. -/
theorem body_reads {b : Nat} {first : State} {kind : ScopeKind} (serves : g.Serves c k b)
    (begun : Ready c (k + 1) first) (w : Walk c first s) (further : first.pos < s.pos)
    (notGlobal : kind ≠ .global) (label : String) :
    Reads c (k + 1) (fun _ => s.pos + 1) (body g kind label) s := by
  unfold body
  refine .here (.ite (fun _ => block_reads serves notGlobal label) fun _ => .current ?_)
  refine .opening fun ready allowed => ?_
  have opening : Opening c s (s.deepen.pushScope kind label (c.token s.pos).span.start
    .statement) := .plain notGlobal
  have ready' : Ready c k (s.deepen.pushScope kind label (c.token s.pos).span.start
      .statement) := by
    refine begun.deeper (w.depth_eq ▸ allowed) ready.inside further ?_
      (w.grows.trans opening.grows) fun f mem => ?_
    · simp [w.depth_eq]
    · rcases List.mem_cons.mp mem with rfl | mem
      · exact .inr opening.startsAtToken
      · exact .inl (w.frames_eq ▸ mem)
  refine (statementBody_ends serves ready' rfl).mono fun _ t closes => ?_
  exact Closes.straight allowed opening (.stay _) (Nat.lt_succ_self _) closes

theorem loopBody_ends {b : Nat} {f : Frame} {rest : List Frame} (serves : g.Serves c k b)
    (ready : Ready c k s) (top : s.frames = f :: rest) :
    (loopBody g f.scope).Ends c (Failure.Sound c)
      (fun _ t => ∃ opener, Closes c f.scope (s.pos + 1) (s.reopen opener) t) s := by
  unfold loopBody
  rw [Build.ends_bind, Build.ends_here, Build.ends_ite]
  split
  · exact braceBody_ends serves ready top
  · rw [Build.ends_bind, Build.ends_modify]
    refine (statementBody_ends serves (ready.reopen .statement)
      (State.reopen_frames _ _ top)).mono fun _ t closes => ⟨.statement, ?_⟩
    rw [State.reopen_pos] at closes
    exact closes

/-! ## Control statements -/

theorem conditionsFor_reads {rounds : Nat} (serves : g.Serves c k k)
    (word : (c.token s.pos).isKeyword .if_ = true) (enough : c.tokens.size - s.pos < rounds) :
    Reads c (k + 1) (fun _ => s.pos + 1) (conditionsFor g rounds) s := by
  induction rounds generalizing s with
  | zero => omega
  | succ rounds ih =>
    unfold conditionsFor
    refine .of_ready fun begun => ?_
    have inside := begun.inside
    have passes : Passes c s := passes_of_isKeyword word
    refine .passThen passes fun pos => .andThen (condition_reads serves) fun _ t test atTest => ?_
    have test : Walk c s t := (Walk.pass passes).trans test
    have atTest : s.pos + 2 ≤ t.pos := by omega
    have yes := body_reads serves begun test (by omega) (by decide : ScopeKind.block ≠ .global)
      "if-block"
    refine .andThen yes fun _ u body atBody => .hereWord (.ite (fun otherwise => ?_) fun _ => ?_)
    · have passes' : Passes c u := passes_of_isKeyword otherwise
      have far : Walk c s (c.behind u) := (test.trans body).trans (.pass passes')
      refine .passThen passes' fun pos' => .hereWord (.ite (fun word' => ?_) fun _ => ?_)
      · exact (ih word' (by omega)).mono fun _ => by omega
      · exact (body_reads serves begun far (by omega) (by decide) _).mono fun _ => by omega
    · exact .done (by omega)

theorem whileStatement_reads (serves : g.Serves c k k)
    (word : (c.token s.pos).isKeyword .while_ = true) :
    Reads c (k + 1) (fun _ => s.pos + 1)
      (advance >>= fun _ => condition g >>= fun _ => body g .loop "while-block") s := by
  have passes : Passes c s := passes_of_isKeyword word
  refine .of_ready fun begun => .passThen passes fun pos =>
    .andThen (condition_reads serves) fun _ t test atTest => ?_
  refine (body_reads serves begun ((Walk.pass passes).trans test) ?_ (by decide) _).mono fun _ => ?_
  · omega
  · omega

theorem doStatement_reads (serves : g.Serves c k k)
    (word : (c.token s.pos).isKeyword .do_ = true) :
    Reads c (k + 1) (fun _ => s.pos + 1) (doStatement g) s := by
  have passes : Passes c s := passes_of_isKeyword word
  simp only [doStatement, Build.join]
  refine .of_ready fun begun => .passThen passes fun pos => ?_
  refine .andThen (body_reads serves begun (.pass passes) (by omega) (by decide) _)
    fun _ t _ atBody => .hereWord (.guard fun word' => ?_)
  refine .passThen (passes_of_isKeyword (by simpa using word')) fun pos' => ?_
  refine .andThen (condition_reads serves) fun _ u _ atTest => .here ?_
  exact (skip_reads rfl).mono fun _ => by omega

/-- A scope that begins at a parenthesis, with its header between that and the closing one. -/
theorem headedScope_reads {m : Build Unit} {n : ScopeId → Build Unit} {kind : ScopeKind}
    (notGlobal : kind ≠ .global) (label : String)
    (there : (c.token s.pos).isPunct .openParen = true)
    (header : ∀ t, Reads c k (fun _ => t.pos) m t)
    (body : ∀ (t : State) (f : Frame) (rest : List Frame), Ready c k t → t.frames = f :: rest →
      (n f.scope).Ends c (Failure.Sound c)
        (fun _ u => ∃ opener, Closes c f.scope (t.pos + 1) (t.reopen opener) u) t) :
    Reads c (k + 1) (fun _ => s.pos + 1)
      (openScope kind label (c.token s.pos).span.start .header >>= fun id =>
        advance >>= fun _ => m >>= fun _ => expect .closeParen >>= fun _ => n id) s := by
  refine .opening fun ready allowed => ?_
  have opening : Opening c s (s.deepen.pushScope kind label (c.token s.pos).span.start .header) :=
    .plain notGlobal
  generalize e : s.deepen.pushScope kind label (c.token s.pos).span.start .header = o at opening ⊢
  have at_o : o.pos = s.pos := by rw [← e]; rfl
  have top : o.frames = ⟨s.scopes.size, .header, (c.token s.pos).span.start⟩ :: s.frames := by
    rw [← e]; rfl
  have opens : (c.token o.pos).opens? = some .paren := opens?_of_isPunct (at_o ▸ there)
  have pos := behind_pos (Token.isEnd_of_opens? opens)
  have ready' : Ready c k (c.behind o) :=
    ready.opened allowed opening (ready.formed.inside_behind (Token.isEnd_of_opens? opens))
      (by omega) rfl rfl (.consume _ _) (by omega)
  have through : ReadsThrough c k .paren (m >>= fun _ => expect .closeParen) (c.behind o) :=
    .of_expect rfl (header _)
  rw [Build.ends_bind, Build.ends_advance, ← bind_assoc]
  refine (through ready').andThen fun _ t ⟨u, w, closes, e⟩ => ?_
  have walk : Walk c o t := e ▸ .pair opens w closes
  have reached : s.pos < t.pos := by
    have := w.pos_le
    rw [e, behind_pos (Token.isEnd_of_closes? closes)]
    omega
  refine (body t _ _ (ready.headed allowed opening walk reached)
    (walk.frames_eq.trans top)).mono fun _ v ⟨opener, closes⟩ => ?_
  obtain ⟨w, reached'⟩ := Closes.walk allowed opening walk (by omega) closes
  exact ⟨w, by omega⟩

theorem catchClause_reads {b : Nat} (serves : g.Serves c k b)
    (word : (c.token s.pos).isKeyword .catch_ = true) :
    Reads c (k + 1) (fun _ => s.pos + 1) (catchClause g) s := by
  unfold catchClause
  refine .passThen (passes_of_isKeyword word) fun pos => .here (.ite (fun paren => ?_) fun _ => ?_)
  · refine (Reads.current (headedScope_reads (by decide) _ paren (fun t => ?_) fun t f rest ready top =>
      braceBody_ends serves ready top)).mono fun _ => by omega
    have can : Declares t .catchParam := trivial
    exact (declareHere_reads _ can).mono fun _ => Nat.le_succ _
  · exact (block_reads serves (by decide) _).mono fun _ => by omega

theorem tryStatement_reads {b : Nat} (serves : g.Serves c k b)
    (word : (c.token s.pos).isKeyword .try_ = true) :
    Reads c (k + 1) (fun _ => s.pos + 1) (tryStatement g) s := by
  simp only [tryStatement, Build.join, Build.join₂]
  refine .passThen (passes_of_isKeyword word) fun pos =>
    .andThen (block_reads serves (by decide) _) fun _ t _ atTry => .hereWord ?_
  refine .andThen (n := fun _ => t.pos) ?_ fun _ u _ atCatch => .hereWord ?_
  · exact .ite (fun caught => (catchClause_reads serves caught).mono fun _ => Nat.le_succ _)
      fun _ => .done (Nat.le_refl _)
  · refine .andThen (n := fun _ => u.pos) ?_ fun _ v _ atFinally =>
      .ite (fun _ => .refuse _) fun _ => .done (by omega)
    refine .ite (fun finished => ?_) fun _ => .done (Nat.le_refl _)
    refine .passThen (passes_of_isKeyword finished) fun pos' => ?_
    exact (block_reads serves (by decide) _).mono fun _ => by omega

/-! ## Loops with a header -/

theorem headerStart_reads {a : Nat} (serves : g.Serves c a k) :
    Reads c k (fun _ => s.pos) (headerStart g) s := by
  have declared {w : Keyword} {kind : BindingKind} (word : (c.token s.pos).kind = .keyword w)
      (can : ∀ t, Declares t kind) :
      Reads c k (fun _ => s.pos) (declarators g kind .header) s :=
    (declarators_reads (w := w) serves can _ (by simp [Token.isKeyword, word])).mono
      fun _ => Nat.le_succ _
  unfold headerStart
  refine .current ?_
  split
  · exact .done (Nat.le_refl _)
  · next word => exact declared word fun _ => trivial
  · next word => exact declared word fun _ => trivial
  · next word => exact declared word fun _ => trivial
  · exact serves.expression _ _

/-- The rest of a loop header before its closing parenthesis. -/
def headerRange (g : Grammar) : Build Unit := do
  if (← hereWord .in_) || (← current).isContextual "of" then
    advance
    g.expression .nested
  else
    expect .semicolon
    if !(← here .semicolon) then g.expression .nested
    expect .semicolon
    if !(← here .closeParen) then g.expression .nested

theorem headerRest_eq : headerRest g = headerRange g >>= fun _ => expect .closeParen := by
  simp only [headerRest, headerRange, Build.ite_bind, bind_assoc, pure_bind]

theorem headerRange_reads {a : Nat} (serves : g.Serves c a k) :
    Reads c k (fun _ => s.pos) (headerRange g) s := by
  have clause {t : State} {p : Punctuation} : Reads c k (fun _ => t.pos)
      (if (!(c.token t.pos).isPunct p) = true then g.expression .nested else pure ()) t :=
    .ite (fun _ => serves.expression _ _) fun _ => .done (Nat.le_refl _)
  simp only [headerRange, Build.join]
  refine .hereWord (.current (.ite (fun iterates => ?_) fun _ => .expect fun mark => ?_))
  · have passes : Passes c s := by
      simp only [Bool.or_eq_true] at iterates
      rcases iterates with word | word
      · exact passes_of_isKeyword word
      · exact passes_of_isContextual word (by decide)
    exact .passThen passes fun pos => (serves.expression _ _).mono fun _ => by omega
  · refine .passThen (passes_of_isPunct mark rfl) fun pos => .here (.andThen clause ?_)
    refine fun _ t _ atTest => .expect fun mark' => ?_
    refine .passThen (passes_of_isPunct mark' rfl) fun pos' => .here (clause.mono fun _ => ?_)
    omega

theorem forStatement_reads (serves : g.Serves c k k)
    (word : (c.token s.pos).isKeyword .for_ = true) :
    Reads c (k + 1) (fun _ => s.pos + 1) (forStatement g) s := by
  have loop {t : State} (there : (c.token t.pos).isPunct .openParen = true) :=
    headedScope_reads (m := headerStart g >>= fun _ => headerRange g) (n := loopBody g) (k := k)
      (by decide : ScopeKind.loop ≠ .global) "for-block" there
      (fun t => .andThen (headerStart_reads serves) fun _ u _ reached =>
        (headerRange_reads serves).mono fun _ => reached)
      fun t f rest ready top => loopBody_ends serves ready top
  simp only [forStatement, headerRest_eq, Build.join, bind_assoc]
  simp only [bind_assoc] at loop
  refine .passThen (passes_of_isKeyword word) fun pos => .hereWord ?_
  refine .andThen (n := fun _ => (c.behind s).pos) ?_ fun _ t _ reached =>
    .here (.guard fun there => .current ?_)
  · exact .ite (fun await => .pass (passes_of_isKeyword await) (Nat.le_succ _))
      fun _ => .done (Nat.le_refl _)
  · exact (loop (by simpa using there)).mono fun _ => by omega

/-! ## Switches -/

theorem clausesFor_reads {rounds : Nat} (serves : g.Serves c k k)
    (enough : c.tokens.size - s.pos < rounds) :
    Reads c k (fun _ => s.pos) (clausesFor g rounds) s := by
  induction rounds generalizing s with
  | zero => omega
  | succ rounds ih =>
    have more {t : State} (inside : s.pos < c.tokens.size) (further : s.pos + 1 ≤ t.pos) :
        Reads c k (fun _ => s.pos) (clausesFor g rounds) t :=
      (ih (by omega)).mono fun _ => by omega
    simp only [clausesFor, Build.join]
    refine .of_inside fun inside => .here (.ite (fun _ => .done (Nat.le_refl _)) fun _ => ?_)
    refine .current (.guard fun _ => .hereWord (.ite (fun word => ?_) fun _ => ?_))
    · refine .passThen (passes_of_isKeyword word) fun pos => ?_
      refine .andThen (serves.expression .nested _) fun _ t _ reached => .expect fun colon => ?_
      exact .passThen (passes_of_isPunct colon rfl) fun pos' => more inside (by omega)
    · refine .hereWord (.ite (fun word => ?_) fun _ => ?_)
      · refine .passThen (passes_of_isKeyword word) fun pos => .expect fun colon => ?_
        exact .passThen (passes_of_isPunct colon rfl) fun pos' => more inside (by omega)
      · exact .andThen (serves.statement .list s) fun _ t _ further => more inside further

theorem switchStatement_reads (serves : g.Serves c k k)
    (word : (c.token s.pos).isKeyword .switch = true) :
    Reads c (k + 1) (fun _ => s.pos + 1) (switchStatement g) s := by
  have clauses (t : State) : Reads c k (fun _ => t.pos)
      (MonadReader.read >>= fun c => clausesFor g c.rounds) t :=
    .read (clausesFor_reads serves (by unfold Context.rounds; omega))
  simp only [switchStatement, Build.join]
  refine .passThen (passes_of_isKeyword word) fun pos =>
    .andThen (condition_reads serves) fun _ t _ atTest => .here (.guard fun there => ?_)
  have braces := bracedScope_reads (by decide : ScopeKind.block ≠ .global) "switch-block"
    (by simpa using there) clauses
  simp only [bind_assoc] at braces
  exact .current (.get (braces.mono fun _ => by omega))

/-! ## Statements -/

theorem keywordStatement_reads {w : Keyword} (serves : g.Serves c k (k + 1))
    (word : (c.token s.pos).isKeyword w = true) (place : StatementPlace) :
    Reads c (k + 1) (fun _ => s.pos + 1) (keywordStatement g place w) s := by
  have inner := serves.inner
  unfold keywordStatement
  split
  · exact declaration_reads serves (fun _ => trivial) word
  · exact lexicalDeclaration_reads serves (fun _ => show Declares _ .let_ from trivial) word place
  · exact lexicalDeclaration_reads serves (fun _ => show Declares _ .const from trivial) word place
  · exact functionLiteral_reads inner _ word
  · exact .read (conditionsFor_reads inner word (by unfold Context.rounds; omega))
  · exact forStatement_reads inner word
  · exact whileStatement_reads inner word
  · exact doStatement_reads inner word
  · exact tryStatement_reads inner word
  · exact switchStatement_reads inner word
  · exact operandStatement_reads serves word
  · exact operandStatement_reads serves word
  · exact jumpStatement_reads (.inl word)
  · exact jumpStatement_reads (.inr word)
  · exact bareStatement_reads word
  · exact .refuseFeature _
  · exact .refuseFeature _
  · exact .refuseFeature _
  · exact .refuseFeature _
  · exact .refuse _
  · exact .refuse _
  · exact .refuse _
  · exact .refuse _
  · exact .refuse _
  · exact expressionStatement_reads serves

/-- A label is known by the colon behind it. -/
theorem labelsFor_reads {rounds : Nat} (enough : c.tokens.size - s.pos < rounds) :
    Reads c k (fun _ => s.pos) (labelsFor rounds) s := by
  induction rounds generalizing s with
  | zero => omega
  | succ rounds ih =>
    unfold labelsFor
    refine .of_inside fun inside => .current (.peek (.ite (fun label => ?_) fun _ =>
      .done (Nat.le_refl _)))
    simp only [Bool.and_eq_true] at label
    refine .passThen (.inr ⟨label.1, .inr (.inl label.2)⟩) fun pos => ?_
    refine .passThen (passes_of_isPunct (pos ▸ label.2) rfl) fun pos' => ?_
    exact (ih (by omega)).mono fun _ => by omega

/-- A statement reads over a grammar whose statements read a scope deeper. -/
theorem statement_reads (serves : g.Serves c k (k + 1)) (place : StatementPlace) :
    Reads c (k + 1) (fun _ => s.pos + 1) (statement g place) s := by
  unfold statement unlabeled
  refine .read (.andThen (labelsFor_reads (by unfold Context.rounds; omega))
    fun _ t _ reached => .current ?_)
  have reached : s.pos ≤ t.pos := reached
  refine Reads.mono (?_ : Reads c (k + 1) (fun _ => t.pos + 1) _ t)
    fun _ => Nat.succ_le_succ reached
  split
  · exact block_reads serves (by decide) _
  · next mark =>
    exact .pass (passes_of_isPunct (isPunct_of_kind mark) rfl) (Nat.le_refl _)
  · exact .refuse _
  · exact .refuse _
  · exact .refuse _
  · next word => exact keywordStatement_reads serves (by simp [Token.isKeyword, word]) place
  · refine .peek (.ite (fun async => ?_) fun _ => expressionStatement_reads serves)
    simp only [Bool.and_eq_true] at async
    refine .passThen (passes_of_isContextual async.1.1 (by decide)) fun pos => ?_
    exact (functionLiteral_reads serves.inner _ (pos ▸ async.1.2)).mono fun _ => by omega
  · exact expressionStatement_reads serves

end Builder

end Scoping
