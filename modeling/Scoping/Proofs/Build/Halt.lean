import Scoping.Proofs.Build.Brace
import Scoping.Proofs.Build.Statement

/-!
# Order kept by expressions

Each production of expressions keeps a run orderly, and so do braces with statements. An expression
stops before no division, and before a brace only at a line end behind an operand. A scope inside it
ends with a brace of its own, or, being the body of an arrow function, where an expression stops.
-/

namespace Scoping

open Builder

/-- Statements and expressions keep a run orderly. -/
structure Grammar.Minds (c : Context) (g : Grammar) : Prop where
  statement : ∀ place s, Begins c s → Keeps c (fun _ t => Ended c t) (g.statement place) s
  expression : ∀ mode s, Keeps c (fun _ t => Halts c t) (g.expression mode) s

namespace Builder

variable {c : Context} {g : Grammar} {s t : State}

/-! ## Declared names -/

/-- A statement may end behind a declared name. -/
theorem declareHere_keeps {kind : BindingKind} (wanted : Expectation) :
    Keeps c (fun _ t => MayEnd c t) (declareHere kind wanted) s := by
  unfold declareHere
  refine .current ?_
  split
  · next name =>
    refine .andThen (P := fun _ t => t.pos = s.pos) (.declare (State.declare_pos ..))
      fun _ t _ _ same => ?_
    have name : (c.token t.pos).kind = .identifier := same ▸ name
    have prev : ((c.token t.pos).kind == .identifier) = true := by rw [name]; rfl
    refine (Keeps.pass (R := fun _ u => u.prev.any (·.kind == .identifier) = true)
      (by rw [Token.isEnd, name]; rfl) prev).mono fun _ u orderly _ prev => ?_
    exact mayEnd_of_name orderly prev
  · exact .refuseFeature _
  · exact .refuseFeature _
  · exact .refuse _

/-- The value that a declared name may have. -/
theorem value_keeps (minds : g.Minds c) (mayEnd : MayEnd c s) (mode : ExpressionMode) :
    Keeps c (fun _ t => MayEnd c t)
      (if (c.token s.pos).isPunct .equals = true then advance >>= fun _ => g.expression mode
        else pure ()) s :=
  .ite (fun equals => .passThen (Token.isEnd_of_isPunct equals) fun _ _ =>
    (minds.expression _ _).mono fun _ _ orderly _ halts => halts.mayEnd orderly)
    fun _ => .done mayEnd

/-! ## Braces with statements -/

theorem statementsFor_keeps (minds : g.Minds c) {rounds : Nat} (begins : Begins c s) :
    Keeps c (fun _ _ => True) (statementsFor g rounds) s := by
  induction rounds generalizing s with
  | zero => exact .exhausted
  | succ rounds ih =>
    simp only [statementsFor, Build.join]
    refine .here (.ite (fun _ => .done trivial) fun _ => .current (.guard fun _ => ?_))
    exact .andThen (minds.statement .list s begins) fun _ t _ _ ended => ih ended.begins

/-- A scope that the brace under the cursor opened ends with its braces. -/
theorem braced_keeps {m : Build Unit} (id : ScopeId)
    (there : (c.token s.pos).isPunct .openBrace = true)
    (inner : ∀ t, Begins c t → Keeps c (fun _ _ => True) m t) :
    Keeps c (fun _ t => Ended c t) (advance >>= fun _ => m >>= fun _ => closeBraceScope id) s :=
  .passThen (Token.isEnd_of_isPunct there) fun orderly _ =>
    .andThen (inner _ (begins_of_prev orderly there rfl)) fun _ _ _ _ _ => .closeBraceScope id

theorem block_keeps (minds : g.Minds c) (begins : Begins c s) (kind : ScopeKind) (label : String) :
    Keeps c (fun _ t => Ended c t) (block g kind label) s := by
  simp only [block, statements, Build.join]
  refine .here (.guard fun there => ?_)
  have there : (c.token s.pos).isPunct .openBrace = true := by simpa using there
  exact .current (.get (.openScope ⟨there, begins there⟩ (braced_keeps _ there fun t begins =>
    .read (statementsFor_keeps minds begins))))

theorem braceBody_keeps (minds : g.Minds c) (begins : Begins c s) (id : ScopeId) :
    Keeps c (fun _ t => Ended c t) (braceBody g id) s := by
  simp only [braceBody, statements, Build.join]
  refine .here (.guard fun there => ?_)
  have there : (c.token s.pos).isPunct .openBrace = true := by simpa using there
  refine .andThen (.attachBrace there begins) fun _ t _ _ same => ?_
  exact braced_keeps _ (same ▸ there) fun t begins => .read (statementsFor_keeps minds begins)

/-! ## Expressions -/

theorem grouped_keeps (minds : g.Minds c) (close : Punctuation) :
    Keeps c (fun _ t => t.prev.any (·.kind == .punctuation close) = true) (grouped g close) s :=
  .enterThen (.andThen (minds.expression .nested _) fun _ _ _ _ _ =>
    .expectThen fun there _ _ => .leave there)

/-! ### Functions -/

theorem parametersFor_keeps (minds : g.Minds c) {rounds : Nat} :
    Keeps c (fun _ _ => True) (parametersFor g rounds) s := by
  induction rounds generalizing s with
  | zero => exact .exhausted
  | succ rounds ih =>
    simp only [parametersFor, Build.join, Build.join₂]
    refine .here (.ite (fun _ => .done trivial) fun _ => .here ?_)
    refine .andThen .skip fun _ t _ _ _ => .andThen (declareHere_keeps _) fun _ u _ _ mayEnd => ?_
    refine .here (.andThen (value_keeps minds mayEnd _) fun _ v _ _ _ => .here ?_)
    exact .ite (fun comma => .passThen (Token.isEnd_of_isPunct comma) fun _ _ => ih)
      fun _ => .done trivial

theorem parameters_keeps (minds : g.Minds c) (there : (c.token s.pos).isPunct .openParen = true) :
    Keeps c (fun _ t => t.prev.any (·.kind == .punctuation .closeParen) = true) (parameters g) s :=
  .passThen (Token.isEnd_of_isPunct there) fun _ _ => .enterThen (.read
    (.andThen (parametersFor_keeps minds) fun _ _ _ _ _ =>
      .expectThen fun there _ _ => .leave there))

/-- The body of a function begins behind the parenthesis of its parameters. -/
theorem functionTail_keeps (minds : g.Minds c) (label : String) (ownName : Option Token) :
    Keeps c (fun _ t => Ended c t) (functionTail g label ownName) s := by
  have rest {t : State} {id : ScopeId} (there : (c.token t.pos).isPunct .openParen = true) :
      Keeps c (fun _ t => Ended c t) (parameters g >>= fun _ => braceBody g id) t :=
    .andThen (parameters_keeps minds there) fun _ _ orderly _ prev =>
      braceBody_keeps minds (begins_of_prev orderly prev rfl) id
  simp only [functionTail, Build.join]
  refine .here (.guard fun there => .current (.openScope trivial ?_))
  have there : (c.token s.pos).isPunct .openParen = true := by simpa using there
  cases ownName with
  | none => exact rest there
  | some name =>
    exact .andThen (P := fun _ t => t.pos = s.pos) (.declare (State.declare_pos ..))
      fun _ _ _ _ same => rest (same ▸ there)

theorem functionName_keeps (word : (c.token s.pos).isKeyword .function = true) :
    Keeps c (fun _ _ => True) functionName s := by
  simp only [functionName, Build.join]
  refine .passThen (Token.isEnd_of_isKeyword word) fun _ _ => .current ?_
  refine .andThen (P := fun _ _ => True) ?_ fun _ _ _ _ _ => .current (.ite (fun name => ?_)
    fun _ => .done trivial)
  · exact .ite (fun star => .pass (Token.isEnd_of_isOperator star) trivial) fun _ => .done trivial
  · exact .passThen (Token.isEnd_of_isIdentifier name) fun _ _ => .done trivial

theorem functionLiteral_keeps (minds : g.Minds c) (form : FunctionForm)
    (word : (c.token s.pos).isKeyword .function = true) :
    Keeps c (fun _ t => Ended c t) (functionLiteral g form) s := by
  unfold functionLiteral
  refine .andThen (functionName_keeps word) fun name? t _ _ _ => ?_
  cases form <;> cases name?
  · exact .refuse _
  · exact .andThen (P := fun _ _ => True) (.declare trivial) fun _ _ _ _ _ =>
      functionTail_keeps minds _ _
  · exact functionTail_keeps minds _ _
  · exact functionTail_keeps minds _ _

/-- The body of an arrow function is a block behind the arrow, or ends where an expression does. -/
theorem arrowBody_keeps (minds : g.Minds c) (mode : ExpressionMode) (id : ScopeId) :
    Keeps c (fun _ _ => True) (arrowBody g mode id) s := by
  unfold arrowBody
  refine .andThen (P := fun _ t => t.prev.any (·.kind == .punctuation .arrow) = true)
    (.expectArrow fun there => there) fun _ t orderly _ prev => .here ?_
  refine .ite (fun _ => (braceBody_keeps minds (begins_of_prev orderly prev rfl) id).plain)
    fun _ => ?_
  refine .andThen (minds.expression _ _) fun _ u orderly' further halts => .get ?_
  -- The expression may be empty; at least the arrow stands before the end of the scope.
  obtain ⟨p, prev, _⟩ := exists_of_any prev
  obtain ⟨n, pos, _⟩ := orderly.token_prev prev
  exact (Keeps.closeScope id (by omega) (halts.mayEnd orderly').sealed).plain

theorem arrowFunction_keeps (minds : g.Minds c) (mode : ExpressionMode)
    (notEnd : (c.token s.pos).isEnd = false) :
    Keeps c (fun _ _ => True) (arrowFunction g mode) s := by
  rw [arrowFunction_eq]
  refine .current (.openScope trivial (.here (.andThen (P := fun _ _ => True) ?_
    fun _ _ _ _ _ => arrowBody_keeps minds mode _)))
  refine .ite (fun paren => (parameters_keeps minds paren).plain) fun _ => .current ?_
  refine .andThen (P := fun _ t => t.pos = s.pos) (.declare (State.declare_pos ..))
    fun _ _ _ _ same => .pass (same ▸ notEnd) trivial

/-! ### Object literals -/

theorem methodMarks_keeps : Keeps c (fun _ _ => True) methodMarks s := by
  simp only [methodMarks, Build.join]
  refine .current (.ite (fun star => ?_) fun _ => .peek (.ite (fun mark => ?_)
    fun _ => .done trivial))
  · exact .passThen (Token.isEnd_of_isOperator star) fun _ _ => .done trivial
  · have name : (c.token s.pos).isIdentifier = true := by
      simp only [Token.isContextual, Bool.and_eq_true, Bool.or_eq_true] at mark
      rcases mark.1 with (word | word) | word <;> exact word.1
    refine .passThen (Token.isEnd_of_isIdentifier name) fun _ _ => .current ?_
    refine .andThen (P := fun _ _ => True) ?_ fun _ _ _ _ _ => .done trivial
    exact .ite (fun star => .pass (Token.isEnd_of_isOperator star) trivial) fun _ => .done trivial

theorem memberKey_keeps (minds : g.Minds c) : Keeps c (fun _ _ => True) (memberKey g) s := by
  have key {kind : TokenKind} {x : Token × String} (is : (c.token s.pos).kind = kind)
      (notEnd : (kind == .endOfInput) = false) :
      Keeps c (fun _ _ => True) (advance >>= fun _ => pure x) s :=
    .passThen (by rw [Token.isEnd, is, notEnd]) fun _ _ => .done trivial
  unfold memberKey
  refine .current ?_
  split
  · next kind => exact key kind rfl
  · next kind => exact key kind rfl
  · next kind => exact key kind rfl
  · next kind => exact key kind rfl
  · next kind =>
    exact .passThen (Token.isEnd_of_isPunct (isPunct_of_kind kind)) fun _ _ =>
      .andThen (grouped_keeps minds _) fun _ _ _ _ _ => .done trivial
  · exact .refuse _

theorem memberValue_keeps (minds : g.Minds c) (methodOnly : Bool) (key : Token) (label : String) :
    Keeps c (fun _ _ => True) (memberValue g methodOnly key label) s := by
  have shorthand : Keeps c (fun _ _ => True)
      (if key.isIdentifier = true then refer key else pure ()) s :=
    .ite (fun _ => .refer key trivial) fun _ => .done trivial
  unfold memberValue
  refine .here (.ite (fun _ => (functionTail_keeps minds label none).plain) fun _ =>
    .ite (fun _ => .refuse _) fun _ => .current ?_)
  split
  · next colon =>
    exact .passThen (Token.isEnd_of_isPunct (isPunct_of_kind colon)) fun _ _ =>
      (minds.expression _ _).plain
  · exact shorthand
  · exact shorthand
  · exact .refuseFeature _
  · exact .refuse _

theorem member_keeps (minds : g.Minds c) : Keeps c (fun _ _ => True) (member g) s := by
  rw [member_eq]
  refine .here (.ite (fun dots => ?_) fun _ => ?_)
  · exact .passThen (Token.isEnd_of_isPunct dots) fun _ _ => (minds.expression _ _).plain
  · exact .andThen methodMarks_keeps fun _ _ _ _ _ => .andThen (memberKey_keeps minds)
      fun _ _ _ _ _ => memberValue_keeps minds _ _ _

theorem membersFor_keeps (minds : g.Minds c) {rounds : Nat} :
    Keeps c (fun _ t => (c.token t.pos).isPunct .closeBrace = true) (membersFor g rounds) s := by
  induction rounds generalizing s with
  | zero => exact .exhausted
  | succ rounds ih =>
    unfold membersFor
    refine .here (.ite (fun close => .done close) fun _ => .andThen (member_keeps minds)
      fun _ t _ _ _ => .here (.ite (fun comma => ?_) fun _ => .here (.ite (fun _ => .refuse _)
        fun _ => ih)))
    exact .passThen (Token.isEnd_of_isPunct comma) fun _ _ => ih

theorem objectLiteral_keeps (minds : g.Minds c)
    (there : (c.token s.pos).isPunct .openBrace = true) :
    Keeps c (fun _ _ => True) (objectLiteral g) s :=
  .passThen (Token.isEnd_of_isPunct there) fun _ _ => .enterThen (.read
    (.andThen (membersFor_keeps minds) fun _ _ _ _ close =>
      .passThen (Token.isEnd_of_isPunct close) fun _ _ => .leave trivial))

/-! ### Steps -/

theorem identifierOperand_keeps (minds : g.Minds c) (mode : ExpressionMode)
    (name : (c.token s.pos).isIdentifier = true) :
    Keeps c (fun _ _ => True) (identifierOperand g mode) s := by
  have notEnd := Token.isEnd_of_isIdentifier name
  unfold identifierOperand
  refine .current (.peek (.ite (fun _ => arrowFunction_keeps minds mode notEnd) fun _ =>
    .ite (fun fn => ?_) fun _ => .peek (.read (.get (.ite (fun starts => ?_) fun _ => ?_)))))
  · simp only [Bool.and_eq_true] at fn
    exact .passThen notEnd fun _ pos => (functionLiteral_keeps minds _ (pos ▸ fn.2)).plain
  · simp only [Bool.and_eq_true, Bool.or_eq_true] at starts
    refine .passThen notEnd fun _ pos => arrowFunction_keeps minds mode ?_
    rw [pos]
    rcases starts.2 with ⟨parameter, _⟩ | ⟨paren, _⟩
    · exact Token.isEnd_of_isIdentifier parameter
    · exact Token.isEnd_of_isPunct paren
  · exact .andThen (P := fun _ t => t.pos = s.pos) (.refer _ rfl) fun _ _ _ _ same =>
      .pass (same ▸ notEnd) trivial

/-- What holds where a step over an expression ends it. -/
def AtHalt (c : Context) (next : Option Nat) (s : State) : Prop :=
  next = none → Halts c s

theorem Keeps.going {m : Build Unit} {Q : Unit → State → Prop} (colons : Nat)
    (h : Keeps c Q m s) : Keeps c (AtHalt c) (m >>= fun _ => pure (some colons)) s :=
  .andThen h fun _ _ _ _ _ => .done fun same => absurd same (Option.some_ne_none _)

/-- An expression ends before a token that is no division and no brace. -/
theorem Keeps.halt (noBrace : (c.token s.pos).kind ≠ .punctuation .openBrace)
    (noDivision : (c.token s.pos).kind ≠ .operator) : Keeps c (AtHalt c) (pure none) s :=
  .done fun _ => ⟨fun brace => absurd (eq_of_beq brace) noBrace, Token.divides_of_kind noDivision⟩

theorem expressionMark_keeps (minds : g.Minds c) (mode : ExpressionMode) (colons : Nat)
    {p : Punctuation} (there : (c.token s.pos).kind = .punctuation p) :
    Keeps c (AtHalt c) (expressionMark g mode colons p) s := by
  have notEnd := Token.isEnd_of_isPunct (isPunct_of_kind there)
  have stop (noBrace : p ≠ .openBrace) : Keeps c (AtHalt c) (pure none) s :=
    .halt (by simpa [there] using noBrace) (by simp [there])
  have go (n : Nat) : Keeps c (AtHalt c) (advance >>= fun _ => pure (some n)) s :=
    .going n (.pass (R := fun _ _ => True) notEnd trivial)
  have group (close : Punctuation) : Keeps c (AtHalt c)
      (advance >>= fun _ => grouped g close >>= fun _ => pure (some colons)) s :=
    .passThen notEnd fun _ _ => .going _ (grouped_keeps minds close)
  have select : Keeps c (AtHalt c) (advance >>= fun _ => current >>= fun t =>
      (if t.isWord then advance else pure ()) >>= fun _ => pure (some colons)) s := by
    refine .passThen notEnd fun _ _ => .current (.going (Q := fun _ _ => True) _ ?_)
    refine .ite (fun word => ?_) fun _ => .done trivial
    exact .pass (Token.isEnd_of_isWord word) trivial
  cases p with
  | semicolon => exact stop (by decide)
  | closeBrace => exact stop (by decide)
  | closeParen => exact stop (by decide)
  | closeBracket => exact stop (by decide)
  | comma => exact .ite (fun _ => stop (by decide)) fun _ => go _
  | question => exact go _
  | colon => exact .ite (fun _ => stop (by decide)) fun _ => go _
  | openParen =>
    exact .read (.get (.ite (fun _ => .going _ (arrowFunction_keeps minds mode notEnd))
      fun _ => group _))
  | openBracket => exact group _
  | openBrace => exact .going _ (objectLiteral_keeps minds (isPunct_of_kind there))
  | dot =>
    simp only [expressionMark, Build.join]
    exact select
  | questionDot =>
    simp only [expressionMark, Build.join]
    exact select
  | ellipsis => exact go _
  | equals => exact go _
  | arrow => exact .refuse _

theorem expressionWord_keeps (minds : g.Minds c) (colons : Nat) {w : Keyword}
    (there : (c.token s.pos).kind = .keyword w) :
    Keeps c (AtHalt c) (expressionWord g colons w) s := by
  have word : (c.token s.pos).isKeyword w = true := by simp [Token.isKeyword, there]
  unfold expressionWord
  split
  · exact .going _ (functionLiteral_keeps minds _ word)
  · exact .refuseFeature _
  · exact .refuseFeature _
  · exact .ite (fun _ => .halt (by simp [there]) (by simp [there])) fun _ =>
      .going _ (.pass (R := fun _ _ => True) (Token.isEnd_of_isKeyword word) trivial)

/-- By its mode an expression ends at a line end before an operand, or at the words of a header. -/
theorem halts_of_mode {mode : ExpressionMode}
    (ends : (mode.insertSemicolons && (c.token s.pos).flags.afterBreak &&
        s.prev.any (·.endsExpression) && (c.token s.pos).startsOperand ||
      mode.inHeader && ((c.token s.pos).isKeyword .in_ ||
        (c.token s.pos).isContextual "of" && s.prev.any (·.endsExpression))) = true) :
    Halts c s := by
  simp only [Bool.or_eq_true, Bool.and_eq_true] at ends
  rcases ends with ⟨⟨⟨_, afterBreak⟩, operand⟩, starts⟩ | ⟨_, word | ⟨word, _⟩⟩
  · exact ⟨fun _ => ⟨afterBreak, operand⟩, Token.divides_of_startsOperand starts⟩
  · have kind := eq_of_beq word
    exact ⟨fun brace => by simp [Token.isPunct, kind] at brace,
      Token.divides_of_kind (by simp [kind])⟩
  · have kind := eq_of_beq (Bool.and_eq_true_iff.mp word).1
    exact ⟨fun brace => by simp [Token.isPunct, kind] at brace,
      Token.divides_of_kind (by simp [kind])⟩

theorem expressionStep_keeps (minds : g.Minds c) (mode : ExpressionMode) (first colons : Nat) :
    Keeps c (AtHalt c) (expressionStep g mode first colons) s := by
  unfold expressionStep
  simp only [endsByMode, prevEndsExpression, bind_assoc, pure_bind]
  refine .current (.get (.ite (fun _ => .get (.ite (fun ends => .done fun _ => halts_of_mode ends)
    fun _ => ?_)) fun _ => ?_))
  -- What does not end by its mode goes on by the kind of the token, at the beginning and later.
  all_goals
    split
    · next kind => exact .halt (by simp [kind]) (by simp [kind])
    · next kind => exact expressionMark_keeps minds mode colons kind
    · next kind =>
      exact .going _ (identifierOperand_keeps minds mode (by simp [Token.isIdentifier, kind]))
    · next kind => exact expressionWord_keeps minds colons kind
    · next notEnd _ _ _ =>
      exact .going _ (.pass (R := fun _ _ => True) (by simpa [Token.isEnd] using notEnd) trivial)

theorem expressionFor_keeps (minds : g.Minds c) (mode : ExpressionMode) (first : Nat)
    {rounds : Nat} (colons : Nat) :
    Keeps c (fun _ t => Halts c t) (expressionFor g mode first rounds colons) s := by
  induction rounds generalizing s colons with
  | zero => exact .exhausted
  | succ rounds ih =>
    unfold expressionFor
    refine .andThen (expressionStep_keeps minds mode first colons) fun next t _ _ halts => ?_
    cases next with
    | none => exact .done (halts rfl)
    | some colons => exact ih colons

theorem expression_keeps (minds : g.Minds c) (mode : ExpressionMode) :
    Keeps c (fun _ t => Halts c t) (expression g mode) s :=
  .get (.read (expressionFor_keeps minds mode _ _))

end Builder

end Scoping
