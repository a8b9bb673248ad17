import Scoping.Proofs.Build.Halt

/-!
# Order kept by statements

Each production of statements keeps a run orderly. A statement begins where a brace may be one of a
block, and ends where a scope may end and the next statement begin. What the body of a control
statement asks is what the tokens before it show: the closing parenthesis of a condition, or a word
such as `else`. Only behind `catch`, behind the colon of a label or a clause, and at a line end does the
builder begin blocks where the lexer would not know them.
-/

namespace Scoping

open Builder

namespace Builder

variable {c : Context} {g : Grammar} {s t : State}

/-! ## Simple statements -/

/-- A statement ends with its semicolon. -/
theorem mark_keeps (mark : (c.token s.pos).isPunct .semicolon = true) :
    Keeps c (fun _ t => Ended c t) advance s :=
  (Keeps.pass (R := fun _ t => t.prev.any (·.kind == .punctuation .semicolon) = true)
    (Token.isEnd_of_isPunct mark) mark).mono fun _ _ orderly _ prev =>
      ⟨begins_of_prev orderly prev rfl, sealed_of_prev orderly prev (by decide)⟩

theorem semicolon_keeps (mayEnd : MayEnd c s) : Keeps c (fun _ t => Ended c t) semicolon s := by
  simp only [semicolon, atStatementEnd, bind_assoc, pure_bind]
  refine .here (.ite (fun mark => mark_keeps mark) fun _ => .current (.ite (fun _ => .refuse _)
    fun ends => .done ⟨fun brace => mayEnd.atBreak ?_ brace, mayEnd.sealed⟩))
  -- A brace ends no statement, so the semicolon is left out because of a line end.
  have kind := eq_of_beq brace
  simpa [Token.isEnd, Token.isPunct, kind] using ends

theorem expressionStatement_keeps (minds : g.Minds c) :
    Keeps c (fun _ t => Ended c t) (expressionStatement g) s := by
  simp only [expressionStatement, Build.join]
  exact .get (.andThen (minds.expression _ _) fun _ _ orderly _ halts =>
    .get (.guard fun _ => semicolon_keeps (halts.mayEnd orderly)))

theorem operandStatement_keeps (minds : g.Minds c) {w : Keyword}
    (word : (c.token s.pos).isKeyword w = true) (alone : w.endsAlone = true) :
    Keeps c (fun _ t => Ended c t) (operandStatement g) s := by
  simp only [operandStatement, atStatementEnd, Build.join, bind_assoc, pure_bind]
  refine .passThen (Token.isEnd_of_isKeyword word) fun orderly _ => .current ?_
  refine .andThen (P := fun _ t => MayEnd c t) ?_ fun _ _ _ _ mayEnd => semicolon_keeps mayEnd
  exact .ite (fun _ => (minds.expression _ _).mono fun _ _ orderly _ halts => halts.mayEnd orderly)
    fun _ => .done (mayEnd_of_word orderly alone word)

theorem jumpStatement_keeps {w : Keyword} (word : (c.token s.pos).isKeyword w = true)
    (alone : w.endsAlone = true) : Keeps c (fun _ t => Ended c t) jumpStatement s := by
  simp only [jumpStatement, Build.join]
  refine .passThen (Token.isEnd_of_isKeyword word) fun orderly _ => .current ?_
  refine .andThen (P := fun _ t => MayEnd c t) ?_ fun _ _ _ _ mayEnd => semicolon_keeps mayEnd
  refine .ite (fun label => ?_) fun _ => .done (mayEnd_of_word orderly alone word)
  simp only [Bool.and_eq_true] at label
  refine (Keeps.pass (R := fun _ t => t.prev.any (·.kind == .identifier) = true)
    (Token.isEnd_of_isIdentifier label.1) label.1).mono fun _ t orderly _ prev => ?_
  exact mayEnd_of_name orderly prev

/-! ## Declarations -/

theorem declaratorsFor_keeps (minds : g.Minds c) (kind : BindingKind) (mode : ExpressionMode)
    {rounds : Nat} :
    Keeps c (fun _ t => MayEnd c t) (declaratorsFor g kind mode rounds) s := by
  induction rounds generalizing s with
  | zero => exact .exhausted
  | succ rounds ih =>
    simp only [declaratorsFor, Build.join₂]
    refine .andThen (declareHere_keeps _) fun _ t _ _ mayEnd => .here ?_
    refine .andThen (value_keeps minds mayEnd _) fun _ u _ _ mayEnd => .here ?_
    exact .ite (fun comma => .passThen (Token.isEnd_of_isPunct comma) fun _ _ => ih)
      fun _ => .done mayEnd

theorem declarators_keeps (minds : g.Minds c) {w : Keyword}
    (word : (c.token s.pos).isKeyword w = true) (kind : BindingKind) (mode : ExpressionMode) :
    Keeps c (fun _ t => MayEnd c t) (declarators g kind mode) s :=
  .passThen (Token.isEnd_of_isKeyword word) fun _ _ =>
    .read (declaratorsFor_keeps minds kind mode)

theorem declaration_keeps (minds : g.Minds c) {w : Keyword}
    (word : (c.token s.pos).isKeyword w = true) (kind : BindingKind) :
    Keeps c (fun _ t => Ended c t) (declaration g kind) s :=
  .andThen (declarators_keeps minds word kind .statement) fun _ _ _ _ mayEnd =>
    semicolon_keeps mayEnd

theorem lexicalDeclaration_keeps (minds : g.Minds c) {w : Keyword}
    (word : (c.token s.pos).isKeyword w = true) (kind : BindingKind) (place : StatementPlace) :
    Keeps c (fun _ t => Ended c t) (lexicalDeclaration g kind place) s := by
  cases place with
  | body => exact fun _ => trivial
  | list => exact declaration_keeps minds word kind

/-! ## Bodies -/

theorem condition_keeps (minds : g.Minds c) :
    Keeps c (fun _ t => t.prev.any (·.kind == .punctuation .closeParen) = true)
      (condition g) s :=
  .expectThen fun _ _ _ => grouped_keeps minds .closeParen

/-- The scope of a single statement ends with it. -/
theorem statementBody_keeps (minds : g.Minds c) (begins : Begins c s) (some : 0 < s.pos)
    (id : ScopeId) : Keeps c (fun _ t => Ended c t) (statementBody g id) s := by
  refine .andThen (minds.statement .body s begins) fun _ t _ further ended => .get ?_
  exact (Keeps.closeScope id (by omega) ended.sealed).mono fun _ _ _ _ same => ended.at_pos same

theorem body_keeps (minds : g.Minds c) (begins : Begins c s) (some : 0 < s.pos)
    (kind : ScopeKind) (label : String) : Keeps c (fun _ t => Ended c t) (body g kind label) s :=
  .here (.ite (fun _ => block_keeps minds begins kind label) fun _ => .current
    (.openScope trivial (statementBody_keeps (s := s.deepen.pushScope kind label
      (c.token s.pos).span.start .statement) minds begins some _)))

theorem loopBody_keeps (minds : g.Minds c) (begins : Begins c s) (some : 0 < s.pos)
    (id : ScopeId) : Keeps c (fun _ t => Ended c t) (loopBody g id) s :=
  .here (.ite (fun _ => braceBody_keeps minds begins id) fun _ =>
    .andThen .reopenStatement fun _ _ _ _ same =>
      statementBody_keeps minds (begins.at_pos same) (same ▸ some) id)

/-! ## Control statements -/

/-- Behind a mark or a word that leads a block, a body may begin. -/
theorem conditionsFor_keeps (minds : g.Minds c) {rounds : Nat}
    (word : (c.token s.pos).isKeyword .if_ = true) :
    Keeps c (fun _ t => Ended c t) (conditionsFor g rounds) s := by
  induction rounds generalizing s with
  | zero => exact .exhausted
  | succ rounds ih =>
    unfold conditionsFor
    refine .passThen (Token.isEnd_of_isKeyword word) fun _ pos => ?_
    refine .andThen (condition_keeps minds) fun _ t orderly further prev => ?_
    refine .andThen (body_keeps minds (begins_of_prev orderly prev rfl) (by omega) _ _)
      fun _ u _ _ ended => .hereWord (.ite (fun other => ?_) fun _ => .done ended)
    refine .passThen (Token.isEnd_of_isKeyword other) fun orderly pos' => .hereWord ?_
    -- Another condition goes on with the chain; anything else is the last body of it.
    exact .ite (fun word => ih word) fun _ =>
      body_keeps minds (begins_of_prev orderly other rfl) (by omega) _ _

theorem whileStatement_keeps (minds : g.Minds c)
    (word : (c.token s.pos).isKeyword .while_ = true) :
    Keeps c (fun _ t => Ended c t)
      (advance >>= fun _ => condition g >>= fun _ => body g .loop "while-block") s :=
  .passThen (Token.isEnd_of_isKeyword word) fun _ pos =>
    .andThen (condition_keeps minds) fun _ _ orderly further prev =>
      body_keeps minds (begins_of_prev orderly prev rfl) (by omega) _ _

theorem doStatement_keeps (minds : g.Minds c) (word : (c.token s.pos).isKeyword .do_ = true) :
    Keeps c (fun _ t => Ended c t) (doStatement g) s := by
  simp only [doStatement, Build.join]
  refine .passThen (Token.isEnd_of_isKeyword word) fun orderly pos => ?_
  refine .andThen (body_keeps minds (begins_of_prev orderly word rfl) (by omega) _ _)
    fun _ t _ _ _ => .hereWord (.guard fun test => ?_)
  refine .passThen (Token.isEnd_of_isKeyword (by simpa using test)) fun _ _ => ?_
  exact .andThen (condition_keeps minds) fun _ _ orderly _ prev => .here (.ite mark_keeps
    fun _ => .done ⟨begins_of_prev orderly prev rfl, sealed_of_prev orderly prev (by decide)⟩)

theorem catchClause_keeps (minds : g.Minds c) (word : (c.token s.pos).isKeyword .catch_ = true) :
    Keeps c (fun _ t => Ended c t) (catchClause g) s := by
  unfold catchClause
  refine .passThen (Token.isEnd_of_isKeyword word) fun orderly _ => .here (.ite (fun paren => ?_)
    fun _ => block_keeps minds (begins_of_prev orderly word rfl) _ _)
  refine .current (.openScope trivial (.passThen (Token.isEnd_of_isPunct paren) fun _ _ => ?_))
  exact .andThen (declareHere_keeps _) fun _ _ _ _ _ => .expectThen fun close orderly _ =>
    braceBody_keeps minds (begins_of_prev orderly close rfl) _

theorem tryStatement_keeps (minds : g.Minds c) (word : (c.token s.pos).isKeyword .try_ = true) :
    Keeps c (fun _ t => Ended c t) (tryStatement g) s := by
  simp only [tryStatement, Build.join, Build.join₂]
  refine .passThen (Token.isEnd_of_isKeyword word) fun orderly _ =>
    .andThen (block_keeps minds (begins_of_prev orderly word rfl) _ _)
      fun _ t _ _ ended => .hereWord ?_
  refine .andThen (P := fun _ t => Ended c t) ?_ fun _ u _ _ ended => .hereWord ?_
  · exact .ite (fun caught => catchClause_keeps minds caught) fun _ => .done ended
  · refine .andThen (P := fun _ t => Ended c t) ?_ fun _ v _ _ ended =>
      .ite (fun _ => .refuse _) fun _ => .done ended
    refine .ite (fun finished => ?_) fun _ => .done ended
    exact .passThen (Token.isEnd_of_isKeyword finished) fun orderly _ =>
      block_keeps minds (begins_of_prev orderly finished rfl) _ _

/-! ## Loops with a header -/

theorem headerStart_keeps (minds : g.Minds c) : Keeps c (fun _ _ => True) (headerStart g) s := by
  have declared {w : Keyword} {kind : BindingKind} (word : (c.token s.pos).kind = .keyword w) :
      Keeps c (fun _ _ => True) (declarators g kind .header) s :=
    (declarators_keeps minds (w := w) (by simp [Token.isKeyword, word]) kind .header).plain
  unfold headerStart
  refine .current ?_
  split
  · exact .done trivial
  · next word => exact declared word
  · next word => exact declared word
  · next word => exact declared word
  · exact (minds.expression _ _).plain

theorem headerRange_keeps (minds : g.Minds c) : Keeps c (fun _ _ => True) (headerRange g) s := by
  have clause {t : State} {p : Punctuation} : Keeps c (fun _ _ => True)
      (if (!(c.token t.pos).isPunct p) = true then g.expression .nested else pure ()) t :=
    .ite (fun _ => (minds.expression _ _).plain) fun _ => .done trivial
  simp only [headerRange, Build.join]
  refine .hereWord (.current (.ite (fun iterates => ?_) fun _ => ?_))
  · have notEnd : (c.token s.pos).isEnd = false := by
      simp only [Bool.or_eq_true, Token.isContextual, Bool.and_eq_true] at iterates
      rcases iterates with word | word
      · exact Token.isEnd_of_isKeyword word
      · exact Token.isEnd_of_isIdentifier word.1
    exact .passThen notEnd fun _ _ => (minds.expression _ _).plain
  · exact .expectThen fun _ _ _ => .here (.andThen clause fun _ _ _ _ _ =>
      .expectThen fun _ _ _ => .here clause)

theorem forStatement_keeps (minds : g.Minds c) (word : (c.token s.pos).isKeyword .for_ = true) :
    Keeps c (fun _ t => Ended c t) (forStatement g) s := by
  simp only [forStatement, headerRest_eq, Build.join, bind_assoc]
  refine .passThen (Token.isEnd_of_isKeyword word) fun _ _ => .hereWord ?_
  refine .andThen (P := fun _ _ => True) ?_ fun _ t _ _ _ => .here (.guard fun there =>
    .current (.openScope trivial ?_))
  · exact .ite (fun await => .pass (Token.isEnd_of_isKeyword await) trivial) fun _ => .done trivial
  · refine .passThen (Token.isEnd_of_isPunct (by simpa using there)) fun _ pos => ?_
    exact .andThen (headerStart_keeps minds) fun _ _ _ _ _ =>
      .andThen (headerRange_keeps minds) fun _ _ _ _ _ => .expectThen fun close orderly pos' =>
        loopBody_keeps minds (begins_of_prev orderly close rfl) (by omega) _

/-! ## Switches -/

theorem clausesFor_keeps (minds : g.Minds c) {rounds : Nat} (begins : Begins c s) :
    Keeps c (fun _ _ => True) (clausesFor g rounds) s := by
  induction rounds generalizing s with
  | zero => exact .exhausted
  | succ rounds ih =>
    -- Behind the colon of a clause, where the lexer expects no block, a statement begins.
    have clause {t : State} : Keeps c (fun _ _ => True)
        (expect .colon >>= fun _ => clausesFor g rounds) t :=
      .expectThen fun colon orderly _ => ih (begins_of_prev orderly colon rfl)
    simp only [clausesFor, Build.join]
    refine .here (.ite (fun _ => .done trivial) fun _ => .current (.guard fun _ => .hereWord
      (.ite (fun word => ?_) fun _ => .hereWord (.ite (fun word => ?_) fun _ => ?_))))
    · exact .passThen (Token.isEnd_of_isKeyword word) fun _ _ =>
        .andThen (minds.expression _ _) fun _ _ _ _ _ => clause
    · exact .passThen (Token.isEnd_of_isKeyword word) fun _ _ => clause
    · exact .andThen (minds.statement .list s begins) fun _ _ _ _ ended => ih ended.begins

theorem switchStatement_keeps (minds : g.Minds c)
    (word : (c.token s.pos).isKeyword .switch = true) :
    Keeps c (fun _ t => Ended c t) (switchStatement g) s := by
  simp only [switchStatement, Build.join]
  refine .passThen (Token.isEnd_of_isKeyword word) fun _ _ =>
    .andThen (condition_keeps minds) fun _ t orderly _ prev => .here (.guard fun there => ?_)
  have there : (c.token t.pos).isPunct .openBrace = true := by simpa using there
  refine .current (.get (.openScope ⟨there, begins_of_prev orderly prev rfl there⟩ ?_))
  have braces := braced_keeps (m := MonadReader.read >>= fun c => clausesFor g c.rounds)
    t.scopes.size
    (s := t.deepen.pushScope .block "switch-block" (c.token t.pos).span.start (.brace t.pos))
    there fun u begins => .read (clausesFor_keeps minds begins)
  simpa only [bind_assoc] using braces

/-! ## Statements -/

theorem keywordStatement_keeps (minds : g.Minds c) {w : Keyword}
    (word : (c.token s.pos).isKeyword w = true) (place : StatementPlace) :
    Keeps c (fun _ t => Ended c t) (keywordStatement g place w) s := by
  unfold keywordStatement
  split
  · exact declaration_keeps minds word _
  · exact lexicalDeclaration_keeps minds word _ _
  · exact lexicalDeclaration_keeps minds word _ _
  · exact functionLiteral_keeps minds _ word
  · exact .read (conditionsFor_keeps minds word)
  · exact forStatement_keeps minds word
  · exact whileStatement_keeps minds word
  · exact doStatement_keeps minds word
  · exact tryStatement_keeps minds word
  · exact switchStatement_keeps minds word
  · exact operandStatement_keeps minds word rfl
  · exact operandStatement_keeps minds word rfl
  · exact jumpStatement_keeps word rfl
  · exact jumpStatement_keeps word rfl
  · exact .passThen (Token.isEnd_of_isKeyword word) fun orderly _ =>
      semicolon_keeps (mayEnd_of_word orderly rfl word)
  · exact .refuseFeature _
  · exact .refuseFeature _
  · exact .refuseFeature _
  · exact .refuseFeature _
  · exact .refuse _
  · exact .refuse _
  · exact .refuse _
  · exact .refuse _
  · exact .refuse _
  · exact expressionStatement_keeps minds

/-- Behind a label a statement begins, as it did before it. -/
theorem labelsFor_keeps {rounds : Nat} (begins : Begins c s) :
    Keeps c (fun _ t => Begins c t) (labelsFor rounds) s := by
  induction rounds generalizing s with
  | zero => exact .exhausted
  | succ rounds ih =>
    unfold labelsFor
    refine .current (.peek (.ite (fun label => ?_) fun _ => .done begins))
    simp only [Bool.and_eq_true] at label
    refine .passThen (Token.isEnd_of_isIdentifier label.1) fun _ pos => ?_
    have colon : (c.token (c.behind s).pos).isPunct .colon = true := pos ▸ label.2
    exact .passThen (Token.isEnd_of_isPunct colon) fun orderly _ =>
      ih (begins_of_prev orderly colon rfl)

theorem statement_keeps (minds : g.Minds c) (begins : Begins c s) (place : StatementPlace) :
    Keeps c (fun _ t => Ended c t) (statement g place) s := by
  unfold statement unlabeled
  refine .read (.andThen (labelsFor_keeps begins) fun _ t _ _ begins => .current ?_)
  split
  · exact block_keeps minds begins _ _
  · next mark => exact mark_keeps (isPunct_of_kind mark)
  · exact .refuse _
  · exact .refuse _
  · exact .refuse _
  · next word => exact keywordStatement_keeps minds (by simp [Token.isKeyword, word]) place
  · refine .peek (.ite (fun async => ?_) fun _ => expressionStatement_keeps minds)
    simp only [Bool.and_eq_true, Token.isContextual] at async
    exact .passThen (Token.isEnd_of_isIdentifier async.1.1.1) fun _ pos =>
      functionLiteral_keeps minds _ (pos ▸ async.1.2)
  · exact expressionStatement_keeps minds

/-! ## Programs -/

theorem level_minds (c : Context) (level : Nat) : (Grammar.level level).Minds c := by
  induction level with
  | zero => exact ⟨fun _ _ _ => .exhausted, fun _ _ => .exhausted⟩
  | succ level ih =>
    exact ⟨fun place _ begins => statement_keeps ih begins place, fun mode _ => expression_keeps ih mode⟩

theorem programFor_keeps (minds : g.Minds c) {rounds : Nat} (begins : Begins c s) :
    Keeps c (fun _ _ => True) (programFor g rounds) s := by
  induction rounds generalizing s with
  | zero => exact .exhausted
  | succ rounds ih =>
    unfold programFor
    refine .current (.ite (fun _ => .done trivial) fun _ => ?_)
    exact .andThen (minds.statement .list s begins) fun _ _ _ _ ended => ih ended.begins

/-- A run that succeeds is orderly from end to end. -/
theorem run_orderly {level : Nat} (ran : run level c = .ok s) : Orderly c s := by
  have keeps : Keeps c (fun _ _ => True) (program (Grammar.level level)) .start := by
    refine .read (.andThen (programFor_keeps (level_minds c level) ?_) fun _ t _ _ _ => .get ?_)
    · intro _
      rfl
    · split
      · exact fun _ => trivial
      · exact .done trivial
  have ends := keeps .start
  unfold Build.Ends at ends
  unfold run at ran
  revert ends ran
  cases ((program (Grammar.level level)).run c).run State.start with
  | ok out =>
    rintro ⟨⟩ ends
    exact ends.1
  | error e => exact nofun

end Builder

end Scoping
