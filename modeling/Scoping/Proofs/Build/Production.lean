import Scoping.Proofs.Build.Compose

/-!
# What each production is put together from

One lemma for each production: it is made of single changes of the state and of calls of the grammar
(`Composed`), and ends at the level at which it begins. The steps may be any that allow all changes but
the declaration of a function (`Permits`). Where a function is read is left open as long as it can be, so
that what declares functions can be looked at on its own.
-/

namespace Scoping

open Builder Grammar

namespace Builder

variable {α : Type} {c : Context} {T : State → State → Prop} {a : Nat}

/-! ## Productions -/

section
variable (permits : Permits T)
include permits

/-! ### Lists, blocks and groups -/

theorem statementsFor_composed (rounds : Nat) : Composed c T a a fun g => statementsFor g rounds := by
  induction rounds with
  | zero => exact .exhausted
  | succ rounds ih =>
    simp only [statementsFor, Build.join]
    exact .bind (.here permits _) fun _ => .ite (fun _ => .pure permits ()) fun _ =>
      .bind (.current permits) fun _ => .bind (.guard permits _) fun _ =>
        .bind (.statement .list) fun _ => ih

theorem statements_composed : Composed c T a a statements :=
  .bind (.read permits) fun _ => statementsFor_composed permits _

theorem block_composed (kind : ScopeKind) (label : String) :
    Composed c T a a fun g => block g kind label := by
  simp only [block, Build.join]
  exact .bind (.here permits _) fun _ => .bind (.guard permits _) fun _ =>
    .bind (.current permits) fun _ => .bind (.get permits) fun _ =>
      .bind (.openScope permits _ _ _ _) fun id => .bind (.advance permits) fun _ =>
        .bind (statements_composed permits) fun _ => .closeBraceScope permits id

theorem braceBody_composed (id : ScopeId) : Composed c T (a + 1) a fun g => braceBody g id := by
  simp only [braceBody, Build.join]
  exact .bind (.here permits _) fun _ => .bind (.guard permits _) fun _ =>
    .bind (.attachBrace permits) fun _ => .bind (.advance permits) fun _ =>
      .bind (statements_composed permits) fun _ => .closeBraceScope permits id

theorem grouped_composed (close : Punctuation) : Composed c T a a fun g => grouped g close :=
  .bind (.enter permits) fun _ => .bind (.expression .nested) fun _ =>
    .bind (.expect permits close) fun _ => .leave permits

/-! ### Functions and members -/

/-- An initial value behind an equals sign. -/
theorem value_composed {p : Prop} [Decidable p] (mode : ExpressionMode) :
    Composed c T a a fun g =>
      if p then advance >>= fun _ => g.expression mode else pure () :=
  .ite (fun _ => .bind (.advance permits) fun _ => .expression mode) fun _ => .pure permits ()

theorem parametersFor_composed (rounds : Nat) : Composed c T a a fun g => parametersFor g rounds := by
  induction rounds with
  | zero => exact .exhausted
  | succ rounds ih =>
    simp only [parametersFor, Build.join, Build.join₂]
    exact .bind (.here permits _) fun _ => .ite (fun _ => .pure permits ()) fun _ =>
      .bind (.here permits _) fun _ => .bind (.skip permits) fun _ =>
        .bind (.declareHere permits (by decide) _) fun _ => .bind (.here permits _) fun _ =>
          .bind (value_composed permits _) fun _ => .bind (.here permits _) fun _ =>
            .ite (fun _ => .bind (.advance permits) fun _ => ih) fun _ => .pure permits ()

theorem parameters_composed : Composed c T a a parameters :=
  .bind (.advance permits) fun _ => .bind (.enter permits) fun _ => .bind (.read permits) fun _ =>
    .bind (parametersFor_composed permits _) fun _ =>
      .bind (.expect permits _) fun _ => .leave permits

/-- What an arrow function is made of behind its parameters. -/
theorem arrowBody_composed (id : ScopeId) (mode : ExpressionMode) :
    Composed c T (a + 1) a fun g => expectArrow >>= fun _ => here .openBrace >>= fun braces =>
      if braces = true then braceBody g id
      else g.expression mode >>= fun _ => get >>= fun s => closeScope id s.prevEnd :=
  .bind (.expectArrow permits) fun _ => .bind (.here permits _) fun _ =>
    .ite (fun _ => braceBody_composed permits id) fun _ => .bind (.expression mode) fun _ =>
      .bind (.get permits) fun _ => .closeScope permits _ _

theorem arrowFunction_composed (mode : ExpressionMode) :
    Composed c T a a fun g => arrowFunction g mode :=
  .bind (.current permits) fun _ => .bind (.openScope permits _ _ _ _) fun id =>
    .bind (.here permits _) fun _ => .ite
      (fun _ => .bind (parameters_composed permits) fun _ => arrowBody_composed permits id _)
      fun _ => .bind (.current permits) fun _ => .bind (.declare permits _ (by decide)) fun _ =>
        .bind (.advance permits) fun _ => arrowBody_composed permits id _

/-- The parameters and body of a function, and what declares a name of its own. -/
theorem functionTail_composed (label : String) {ownName : Option Token}
    (named : ∀ name ∈ ownName, Composed c T (a + 1) (a + 1) fun _ => declare name .function) :
    Composed c T a a fun g => functionTail g label ownName := by
  have rest (id : ScopeId) : Composed c T (a + 1) a fun g => parameters g >>= fun _ => braceBody g id :=
    .bind (parameters_composed permits) fun _ => braceBody_composed permits id
  simp only [functionTail, Build.join]
  refine .bind (.here permits _) fun _ => .bind (.guard permits _) fun _ =>
    .bind (.current permits) fun _ => .bind (.openScope permits _ _ _ _) fun id => ?_
  cases ownName with
  | none => exact rest id
  | some name => exact .bind (named name rfl) fun _ => rest id

theorem unnamedTail_composed (label : String) : Composed c T a a fun g => functionTail g label none :=
  functionTail_composed permits label nofun

theorem functionName_composed : Composed c T a a fun _ => functionName := by
  simp only [functionName, Build.join]
  exact .bind (.advance permits) fun _ => .bind (.current permits) fun _ =>
    .bind (.skip permits) fun _ => .bind (.current permits) fun _ =>
      .ite (fun _ => .bind (.advance permits) fun _ => .pure permits _) fun _ => .pure permits _

theorem methodMarks_composed : Composed c T a a fun _ => methodMarks := by
  simp only [methodMarks, Build.join]
  exact .bind (.current permits) fun _ =>
    .ite (fun _ => .bind (.advance permits) fun _ => .pure permits _) fun _ =>
      .bind (.peek permits 1) fun _ => .ite
        (fun _ => .bind (.advance permits) fun _ => .bind (.current permits) fun _ =>
          .bind (.skip permits) fun _ => .pure permits _)
        fun _ => .pure permits _

theorem memberKey_composed : Composed c T a a memberKey := by
  refine .bind (.current permits) fun key => ?_
  split
  · exact .bind (.advance permits) fun _ => .pure permits _
  · exact .bind (.advance permits) fun _ => .pure permits _
  · exact .bind (.advance permits) fun _ => .pure permits _
  · exact .bind (.advance permits) fun _ => .pure permits _
  · exact .bind (.advance permits) fun _ => .bind (grouped_composed permits _) fun _ =>
      .pure permits _
  · exact .refuse _

theorem member_composed : Composed c T a a member := by
  refine .bind (.here permits _) fun _ => .ite
    (fun _ => .bind (.advance permits) fun _ => .expression .item) fun _ => ?_
  refine .bind (methodMarks_composed permits) fun _ => .bind (memberKey_composed permits) fun key => ?_
  refine .bind (.here permits _) fun _ => .ite (fun _ => unnamedTail_composed permits _) fun _ => ?_
  refine .ite (fun _ => .refuse _) fun _ => .bind (.current permits) fun _ => ?_
  split
  · exact .bind (.advance permits) fun _ => .expression .item
  · exact .ite (fun _ => .refer permits _) fun _ => .pure permits ()
  · exact .ite (fun _ => .refer permits _) fun _ => .pure permits ()
  · exact .refuseFeature _
  · exact .refuse _

theorem membersFor_composed (rounds : Nat) : Composed c T a a fun g => membersFor g rounds := by
  induction rounds with
  | zero => exact .exhausted
  | succ rounds ih =>
    simp only [membersFor, Build.join]
    exact .bind (.here permits _) fun _ => .ite (fun _ => .pure permits ()) fun _ =>
      .bind (member_composed permits) fun _ => .bind (.here permits _) fun _ =>
        .ite (fun _ => .bind (.advance permits) fun _ => ih) fun _ =>
          .bind (.here permits _) fun _ => .bind (.guard permits _) fun _ => ih

theorem objectLiteral_composed : Composed c T a a objectLiteral :=
  .bind (.advance permits) fun _ => .bind (.enter permits) fun _ => .bind (.read permits) fun _ =>
    .bind (membersFor_composed permits _) fun _ => .bind (.advance permits) fun _ => .leave permits

/-- A function where `T` allows functions to be declared as well. -/
theorem functionLiteral_composed
    (functions : ∀ (s : State) (name : Token), T s (s.declare name .function))
    (form : FunctionForm) : Composed c T a a fun g => functionLiteral g form := by
  have named {a : Nat} (name : Token) : Composed c T a a fun _ => declare name .function :=
    .act fun s => ⟨functions s name, fun _ => by rw [s.declare_depth]⟩
  refine .bind (functionName_composed permits) fun name? => ?_
  cases form <;> cases name?
  · exact .refuse _
  · exact .bind (named _) fun _ => unnamedTail_composed permits _
  · exact unnamedTail_composed permits _
  · exact functionTail_composed permits _ fun name _ => named name

/-! ### Expressions, given what functions in them are made of -/

theorem expressionMark_composed (mode : ExpressionMode) (colons : Nat) (p : Punctuation) :
    Composed c T a a fun g => expressionMark g mode colons p := by
  have passed (colons : Nat) : Composed c T a a fun _ => advance >>= fun _ => pure (some colons) :=
    .bind (.advance permits) fun _ => .pure permits _
  have ended : Composed (α := Option Nat) c T a a fun _ => pure none := .pure permits none
  cases p with
  | semicolon | closeBrace | closeParen | closeBracket => exact ended
  | comma => exact .ite (fun _ => ended) fun _ => passed _
  | question | ellipsis | equals => exact passed _
  | colon => exact .ite (fun _ => ended) fun _ => passed _
  | openParen =>
    refine .bind (.read permits) fun _ => .bind (.get permits) fun _ => .ite ?_ fun _ => ?_
    · exact fun _ => .bind (arrowFunction_composed permits mode) fun _ => .pure permits _
    · exact .bind (.advance permits) fun _ => .bind (grouped_composed permits _) fun _ =>
        .pure permits _
  | openBracket =>
    exact .bind (.advance permits) fun _ => .bind (grouped_composed permits _) fun _ =>
      .pure permits _
  | openBrace => exact .bind (objectLiteral_composed permits) fun _ => .pure permits _
  | dot | questionDot =>
    exact .bind (.advance permits) fun _ => .bind (.current permits) fun _ =>
      .ite (fun _ => passed _) fun _ => .pure permits _
  | arrow => exact .refuse _

section
variable (inner : Composed c T a a fun g => functionLiteral g .expression)
include inner

theorem identifierOperand_composed (mode : ExpressionMode) :
    Composed c T a a fun g => identifierOperand g mode := by
  simp only [identifierOperand]
  refine .bind (.current permits) fun _ => .bind (.peek permits 1) fun _ =>
    .ite (fun _ => arrowFunction_composed permits mode) fun _ =>
      .ite (fun _ => .bind (.advance permits) fun _ => inner) fun _ =>
        .bind (.peek permits 2) fun _ => .bind (.read permits) fun _ =>
          .bind (.get permits) fun _ => .ite ?_ fun _ => ?_
  · exact fun _ => .bind (.advance permits) fun _ => arrowFunction_composed permits mode
  · exact .bind (.refer permits _) fun _ => .advance permits

theorem expressionWord_composed (colons : Nat) (k : Keyword) :
    Composed c T a a fun g => expressionWord g colons k := by
  simp only [expressionWord]
  split
  · exact .bind inner fun _ => .pure permits _
  · exact .refuseFeature _
  · exact .refuseFeature _
  · exact .ite (fun _ => .pure permits _) fun _ => .bind (.advance permits) fun _ => .pure permits _

theorem expressionStep_composed (mode : ExpressionMode) (first colons : Nat) :
    Composed c T a a fun g => expressionStep g mode first colons := by
  refine .bind (.current permits) fun t => .bind (.get permits) fun _ => .ite
    (fun _ => .bind (.act permits.stays) fun _ => .ite (fun _ => .pure permits none) fun _ => ?_)
    fun _ => ?_
  all_goals
    split
    · exact .pure permits none
    · exact expressionMark_composed permits mode colons _
    · exact .bind (identifierOperand_composed permits inner mode) fun _ => .pure permits _
    · exact expressionWord_composed permits inner colons _
    · exact .bind (.advance permits) fun _ => .pure permits _

theorem expressionFor_composed (mode : ExpressionMode) (first rounds colons : Nat) :
    Composed c T a a fun g => expressionFor g mode first rounds colons := by
  induction rounds generalizing colons with
  | zero => exact .exhausted
  | succ rounds ih =>
    refine .bind (expressionStep_composed permits inner mode first colons) fun more => ?_
    split
    · exact .pure permits ()
    · exact ih _

theorem expression_composed (mode : ExpressionMode) : Composed c T a a fun g => Builder.expression g mode :=
  .bind (.get permits) fun _ => .bind (.read permits) fun _ =>
    expressionFor_composed permits inner mode _ _ _

end

/-! ### Statements -/

theorem semicolon_composed : Composed c T a a fun _ => semicolon :=
  .bind (.here permits _) fun _ => .ite (fun _ => .advance permits) fun _ =>
    .bind (.act permits.stays) fun _ => .guard permits _

theorem expressionStatement_composed : Composed c T a a fun g => expressionStatement g := by
  simp only [expressionStatement, Build.join]
  exact .bind (.get permits) fun _ => .bind (.expression .statement) fun _ =>
    .bind (.get permits) fun _ => .bind (.guard permits _) fun _ => semicolon_composed permits

theorem condition_composed : Composed c T a a condition :=
  .bind (.expect permits _) fun _ => grouped_composed permits _

theorem statementBody_composed (id : ScopeId) : Composed c T (a + 1) a fun g => statementBody g id :=
  .bind (.statement .body) fun _ => .bind (.get permits) fun _ => .closeScope permits id _

theorem body_composed (kind : ScopeKind) (label : String) :
    Composed c T a a fun g => body g kind label :=
  .bind (.here permits _) fun _ => .ite (fun _ => block_composed permits kind label) fun _ =>
    .bind (.current permits) fun _ => .bind (.openScope permits _ _ _ _) fun id =>
      statementBody_composed permits id

theorem loopBody_composed (id : ScopeId) : Composed c T (a + 1) a fun g => loopBody g id :=
  .bind (.here permits _) fun _ => .ite (fun _ => braceBody_composed permits id) fun _ =>
    .bind (.act fun s => permits.keeps (.reopen s _) (s.reopen_depth _)) fun _ => statementBody_composed permits id

theorem declaratorsFor_composed {kind : BindingKind} (other : kind ≠ .function)
    (mode : ExpressionMode) (rounds : Nat) :
    Composed c T a a fun g => declaratorsFor g kind mode rounds := by
  induction rounds with
  | zero => exact .exhausted
  | succ rounds ih =>
    simp only [declaratorsFor, Build.join₂]
    exact .bind (.declareHere permits other _) fun _ => .bind (.here permits _) fun _ =>
      .bind (value_composed permits _) fun _ => .bind (.here permits _) fun _ =>
        .ite (fun _ => .bind (.advance permits) fun _ => ih) fun _ => .pure permits ()

theorem declarators_composed {kind : BindingKind} (other : kind ≠ .function)
    (mode : ExpressionMode) : Composed c T a a fun g => declarators g kind mode :=
  .bind (.advance permits) fun _ => .bind (.read permits) fun _ =>
    declaratorsFor_composed permits other mode _

theorem declaration_composed {kind : BindingKind} (other : kind ≠ .function) :
    Composed c T a a fun g => declaration g kind :=
  .bind (declarators_composed permits other _) fun _ => semicolon_composed permits

theorem lexicalDeclaration_composed {kind : BindingKind} (other : kind ≠ .function)
    (place : StatementPlace) : Composed c T a a fun g => lexicalDeclaration g kind place := by
  cases place with
  | body => exact .bind (.current permits) fun _ => .act fun _ => trivial
  | list => exact declaration_composed permits other

theorem conditionsFor_composed (rounds : Nat) : Composed c T a a fun g => conditionsFor g rounds := by
  induction rounds with
  | zero => exact .exhausted
  | succ rounds ih =>
    refine .bind (.advance permits) fun _ => .bind (condition_composed permits) fun _ =>
      .bind (body_composed permits _ _) fun _ => .bind (.hereWord permits _) fun _ =>
        .ite (fun _ => ?_) fun _ => .pure permits ()
    exact .bind (.advance permits) fun _ => .bind (.hereWord permits _) fun _ =>
      .ite (fun _ => ih) fun _ => body_composed permits _ _

theorem headerStart_composed : Composed c T a a headerStart := by
  refine .bind (.current permits) fun _ => ?_
  split
  · exact .pure permits ()
  · exact declarators_composed permits (by decide) _
  · exact declarators_composed permits (by decide) _
  · exact declarators_composed permits (by decide) _
  · exact .expression .header

theorem headerRest_composed : Composed c T a a fun g => headerRest g := by
  have closed : Composed c T a a fun _ => expect .closeParen := .expect permits _
  have clause {p : Prop} [Decidable p] :
      Composed c T a a fun g => if p then g.expression .nested else pure () :=
    .ite (fun _ => .expression .nested) fun _ => .pure permits ()
  simp only [headerRest, Build.join]
  refine .bind (.hereWord permits _) fun _ => .bind (.current permits) fun _ => .ite (fun _ => ?_) fun _ => ?_
  · exact .bind (.advance permits) fun _ => .bind (.expression .nested) fun _ => closed
  · exact .bind (.expect permits _) fun _ => .bind (.here permits _) fun _ => .bind clause fun _ =>
      .bind (.expect permits _) fun _ => .bind (.here permits _) fun _ => .bind clause fun _ => closed

theorem forStatement_composed : Composed c T a a fun g => forStatement g := by
  simp only [forStatement, Build.join]
  exact .bind (.advance permits) fun _ => .bind (.hereWord permits _) fun _ =>
    .bind (.skip permits) fun _ => .bind (.here permits _) fun _ => .bind (.guard permits _) fun _ =>
      .bind (.current permits) fun _ => .bind (.openScope permits _ _ _ _) fun id =>
        .bind (.advance permits) fun _ => .bind (headerStart_composed permits) fun _ =>
          .bind (headerRest_composed permits) fun _ => loopBody_composed permits id

theorem doStatement_composed : Composed c T a a fun g => doStatement g := by
  simp only [doStatement, Build.join]
  exact .bind (.advance permits) fun _ => .bind (body_composed permits _ _) fun _ =>
    .bind (.hereWord permits _) fun _ => .bind (.guard permits _) fun _ =>
      .bind (.advance permits) fun _ => .bind (condition_composed permits) fun _ =>
        .bind (.here permits _) fun _ => .skip permits

theorem catchClause_composed : Composed c T a a catchClause :=
  .bind (.advance permits) fun _ => .bind (.here permits _) fun _ => .ite
    (fun _ => .bind (.current permits) fun _ => .bind (.openScope permits _ _ _ _) fun id =>
      .bind (.advance permits) fun _ => .bind (.declareHere permits (by decide) _) fun _ =>
        .bind (.expect permits _) fun _ => braceBody_composed permits id)
    fun _ => block_composed permits _ _

theorem tryStatement_composed : Composed c T a a fun g => tryStatement g := by
  have last (caught finished : Bool) : Composed c T a a fun _ =>
      if (!caught && !finished) = true then refuse .catchOrFinally else pure () :=
    .guard permits _
  simp only [tryStatement, Build.join, Build.join₂]
  exact .bind (.advance permits) fun _ => .bind (block_composed permits _ _) fun _ =>
    .bind (.hereWord permits _) fun caught => .bind
      (.ite (fun _ => catchClause_composed permits) fun _ => .pure permits ()) fun _ =>
        .bind (.hereWord permits _) fun finished => .bind
          (.ite (fun _ => .bind (.advance permits) fun _ => block_composed permits _ _)
            fun _ => .pure permits ())
          fun _ => last caught finished

theorem clausesFor_composed (rounds : Nat) : Composed c T a a fun g => clausesFor g rounds := by
  induction rounds with
  | zero => exact .exhausted
  | succ rounds ih =>
    simp only [clausesFor, Build.join]
    refine .bind (.here permits _) fun _ => .ite (fun _ => .pure permits ()) fun _ =>
      .bind (.current permits) fun _ => .bind (.guard permits _) fun _ =>
        .bind (.hereWord permits _) fun _ => .ite (fun _ => ?_) fun _ =>
          .bind (.hereWord permits _) fun _ => .ite (fun _ => ?_) fun _ =>
            .bind (.statement .list) fun _ => ih
    · exact .bind (.advance permits) fun _ => .bind (.expression .nested) fun _ =>
        .bind (.expect permits _) fun _ => ih
    · exact .bind (.advance permits) fun _ => .bind (.expect permits _) fun _ => ih

theorem switchStatement_composed : Composed c T a a fun g => switchStatement g := by
  simp only [switchStatement, Build.join]
  exact .bind (.advance permits) fun _ => .bind (condition_composed permits) fun _ =>
    .bind (.here permits _) fun _ => .bind (.guard permits _) fun _ =>
      .bind (.current permits) fun _ => .bind (.get permits) fun _ =>
        .bind (.openScope permits _ _ _ _) fun id => .bind (.advance permits) fun _ =>
          .bind (.read permits) fun _ => .bind (clausesFor_composed permits _) fun _ =>
            .closeBraceScope permits id

theorem operandStatement_composed : Composed c T a a fun g => operandStatement g := by
  simp only [operandStatement, Build.join]
  exact .bind (.advance permits) fun _ => .bind (.act permits.stays) fun _ =>
    .bind (.ite (fun _ => .expression .statement) fun _ => .pure permits ()) fun _ =>
      semicolon_composed permits

theorem jumpStatement_composed : Composed c T a a fun _ => jumpStatement := by
  simp only [jumpStatement, Build.join]
  exact .bind (.advance permits) fun _ => .bind (.current permits) fun _ =>
    .bind (.skip permits) fun _ => semicolon_composed permits

/-- A statement that begins with a keyword, given what a function declaration is made of. -/
theorem keywordStatement_composed (place : StatementPlace) (k : Keyword)
    (outer : k = .function → Composed c T a a fun g => functionLiteral g .declaration) :
    Composed c T a a fun g => keywordStatement g place k := by
  simp only [keywordStatement]
  split
  · exact declaration_composed permits (by decide)
  · exact lexicalDeclaration_composed permits (by decide) place
  · exact lexicalDeclaration_composed permits (by decide) place
  · exact outer rfl
  · exact .bind (.read permits) fun _ => conditionsFor_composed permits _
  · exact forStatement_composed permits
  · exact .bind (.advance permits) fun _ => .bind (condition_composed permits) fun _ =>
      body_composed permits _ _
  · exact doStatement_composed permits
  · exact tryStatement_composed permits
  · exact switchStatement_composed permits
  · exact operandStatement_composed permits
  · exact operandStatement_composed permits
  · exact jumpStatement_composed permits
  · exact jumpStatement_composed permits
  · exact .bind (.advance permits) fun _ => semicolon_composed permits
  · exact .refuseFeature _
  · exact .refuseFeature _
  · exact .refuseFeature _
  · exact .refuseFeature _
  · exact .refuse _
  · exact .refuse _
  · exact .refuse _
  · exact .refuse _
  · exact .refuse _
  · exact expressionStatement_composed permits

theorem labelsFor_composed (rounds : Nat) : Composed c T a a fun _ => labelsFor rounds := by
  induction rounds with
  | zero => exact .exhausted
  | succ rounds ih =>
    exact .bind (.current permits) fun _ => .bind (.peek permits 1) fun _ => .ite
      (fun _ => .bind (.advance permits) fun _ => .bind (.advance permits) fun _ => ih)
      fun _ => .pure permits ()

/-- A statement, given what a function declaration is made of. -/
theorem statement_composed (outer : Composed c T a a fun g => functionLiteral g .declaration)
    (place : StatementPlace) : Composed c T a a fun g => Builder.statement g place := by
  refine .bind (.read permits) fun _ => .bind (labelsFor_composed permits _) fun _ =>
    .bind (.current permits) fun _ => ?_
  split
  · exact block_composed permits _ _
  · exact .advance permits
  · exact .refuse _
  · exact .refuse _
  · exact .refuse _
  · exact keywordStatement_composed permits place _ fun _ => outer
  · exact .bind (.peek permits 1) fun _ => .ite
      (fun _ => .bind (.advance permits) fun _ => outer) fun _ => expressionStatement_composed permits
  · exact expressionStatement_composed permits

/-- The production behind a call. -/
theorem next_composed (functions : ∀ (s : State) (name : Token), T s (s.declare name .function))
    (call : Call) : Composed c T a a fun g => g.next.call call := by
  cases call with
  | statement place =>
    exact statement_composed permits (functionLiteral_composed permits functions _) place
  | expression mode =>
    exact expression_composed permits (functionLiteral_composed permits functions _) mode

/-! ### Programs -/

theorem programFor_composed (rounds : Nat) : Composed c T a a fun g => programFor g rounds := by
  induction rounds with
  | zero => exact .exhausted
  | succ rounds ih =>
    exact .bind (.current permits) fun _ => .ite (fun _ => .pure permits ()) fun _ =>
      .bind (.statement .list) fun _ => ih

theorem program_composed : Composed c T 0 0 program := by
  refine .bind (.read permits) fun _ => .bind (programFor_composed permits _) fun _ =>
    .bind (.get permits) fun _ => ?_
  split
  · exact .throw _
  · exact .pure permits ()

end

end Builder

end Scoping
