import Scoping.Proofs.Build.Walk
import Scoping.Proofs.Build.Outcome

/-!
# Two runs in step

Two runs of the builder over two lists of tokens are compared by a `Simulation`: a relation between
their states that every action of the builder keeps, and a relation between the errors that they may
end in. The tokens under the two cursors need not be equal, nor stand at the same place. They have to
be `Alike`, which is all that the grammar asks of a token; where they are the same name, and what the
same error is, the simulation says. At the `Edge` of a text that is read inside another, the input ends
in the first run where a brace is closed in the second; there the two may part when the first one fails.

`S.InStep A m m' s s'` is the judgement. From related states the run of `m'` does what the run of `m`
does: it ends in a state that is related again and an answer related by `A`, or in the error that is
related to the one of `m`. A run that fails a check of the builder on itself, uses up a budget or ends
in an error that the simulation does not follow is compared with nothing.

As with `Reads`, there is one rule for each thing that a production can do.
-/

namespace Scoping

open Builder

/-- A token that is neither a selector nor the end of input. -/
def Token.isOrdinary (t : Token) : Bool := !t.isEnd && !t.isSelector

namespace Token

variable {t : Token}

theorem isOrdinary.notEnd (h : t.isOrdinary = true) : t.isEnd = false := by
  simp only [isOrdinary, Bool.and_eq_true, Bool.not_eq_true'] at h
  exact h.1

theorem isOrdinary_of_kind (h : t.kind ≠ .endOfInput ∧ t.kind ≠ .punctuation .dot ∧
    t.kind ≠ .punctuation .questionDot) : t.isOrdinary = true := by
  simpa [isOrdinary, isEnd, isSelector, isPunct] using h

theorem isOrdinary_of_isPunct {p : Punctuation} (h : t.isPunct p = true)
    (plain : p ≠ .dot ∧ p ≠ .questionDot) : t.isOrdinary = true := by
  refine isOrdinary_of_kind ?_
  rw [eq_of_beq h]
  simpa using plain

theorem isOrdinary_of_isKeyword {k : Keyword} (h : t.isKeyword k = true) : t.isOrdinary = true := by
  refine isOrdinary_of_kind ?_
  rw [eq_of_beq h]
  simp

theorem isOrdinary_of_isIdentifier (h : t.isIdentifier = true) : t.isOrdinary = true := by
  refine isOrdinary_of_kind ?_
  rw [eq_of_beq h]
  simp

theorem isIdentifier_of_isContextual {word : String} (h : t.isContextual word = true) :
    t.isIdentifier = true :=
  (Bool.and_eq_true_iff.mp h).1

theorem isOrdinary_of_isOperator {text : String} (h : t.isOperator text = true) :
    t.isOrdinary = true := by
  refine isOrdinary_of_kind ?_
  rw [eq_of_beq (Bool.and_eq_true_iff.mp h).1]
  simp

theorem kind_of_isEnd (h : t.isEnd = true) : t.kind = .endOfInput := eq_of_beq h

theorem isPunct_of_isEnd {p : Punctuation} (h : t.isEnd = true) : t.isPunct p = false := by
  rw [isPunct, kind_of_isEnd h]
  rfl

theorem isKeyword_of_isEnd {k : Keyword} (h : t.isEnd = true) : t.isKeyword k = false := by
  rw [isKeyword, kind_of_isEnd h]
  rfl

theorem isIdentifier_of_isEnd (h : t.isEnd = true) : t.isIdentifier = false := by
  rw [isIdentifier, kind_of_isEnd h]
  rfl

end Token

/-- The input ends in the first run where a brace is closed in the second. -/
structure Token.Edge (t t' : Token) : Prop where
  isEnd : t.isEnd = true
  closes : t'.isPunct .closeBrace = true

/-- The words that the grammar knows although they are identifiers. -/
def contextualWords : List String := ["of", "async", "get", "set"]

/-- The grammar cannot tell the tokens apart. -/
structure Token.Alike (t t' : Token) : Prop where
  kind : t'.kind = t.kind
  afterBreak : t'.flags.afterBreak = t.flags.afterBreak
  operator : t.kind = .operator → t'.lexeme = t.lexeme
  word : t.kind = .identifier → ∀ w ∈ contextualWords, t'.lexeme = w ↔ t.lexeme = w

namespace Token.Alike

variable {t t' : Token}

theorem refl (t : Token) : t.Alike t := ⟨rfl, rfl, fun _ => rfl, fun _ _ _ => Iff.rfl⟩

variable (h : t.Alike t')
include h

theorem isPunct (p : Punctuation) : t'.isPunct p = t.isPunct p := by
  rw [Token.isPunct, Token.isPunct, h.kind]

theorem isKeyword (k : Keyword) : t'.isKeyword k = t.isKeyword k := by
  rw [Token.isKeyword, Token.isKeyword, h.kind]

theorem isIdentifier : t'.isIdentifier = t.isIdentifier := by
  rw [Token.isIdentifier, Token.isIdentifier, h.kind]

theorem isEnd : t'.isEnd = t.isEnd := by rw [Token.isEnd, Token.isEnd, h.kind]

theorem isOperator (text : String) : t'.isOperator text = t.isOperator text := by
  rw [Token.isOperator, Token.isOperator, h.kind]
  cases kind : t.kind == .operator with
  | false => rfl
  | true => rw [h.operator (eq_of_beq kind)]

theorem isContextual {word : String} (known : word ∈ contextualWords) :
    t'.isContextual word = t.isContextual word := by
  rw [Token.isContextual, Token.isContextual, h.isIdentifier]
  cases kind : t.isIdentifier with
  | false => rfl
  | true =>
    have same := h.word (Token.kind_of_isIdentifier kind) word known
    rw [Bool.true_and, Bool.true_and, Bool.eq_iff_iff, beq_iff_eq, beq_iff_eq]
    exact same

theorem startsOperand : t'.startsOperand = t.startsOperand := by
  unfold Token.startsOperand
  rw [h.kind]
  split
  all_goals first | rfl | next kind => rw [h.operator kind]

theorem startsKey : t'.startsKey = t.startsKey := by
  unfold Token.startsKey
  rw [h.kind]
  split
  all_goals first | rfl | exact h.isOperator "*"

end Token.Alike

namespace Token.Edge

variable {t t' : Token} (h : t.Edge t')
include h

theorem kind : t.kind = .endOfInput := kind_of_isEnd h.isEnd

theorem kind' : t'.kind = .punctuation .closeBrace := eq_of_beq h.closes

theorem isPunct {p : Punctuation} (other : p ≠ .closeBrace) : t'.isPunct p = t.isPunct p := by
  rw [Token.isPunct, Token.isPunct, h.kind, h.kind']
  cases p <;> first | rfl | exact absurd rfl other

theorem isKeyword (k : Keyword) : t'.isKeyword k = t.isKeyword k := by
  rw [Token.isKeyword, Token.isKeyword, h.kind, h.kind']
  rfl

theorem isIdentifier : t'.isIdentifier = t.isIdentifier := by
  rw [Token.isIdentifier, Token.isIdentifier, h.kind, h.kind']
  rfl

theorem isOperator (text : String) : t'.isOperator text = t.isOperator text := by
  rw [Token.isOperator, Token.isOperator, h.kind, h.kind']
  rfl

theorem isContextual (word : String) : t'.isContextual word = t.isContextual word := by
  rw [Token.isContextual, Token.isContextual, Token.isIdentifier, Token.isIdentifier, h.kind, h.kind']
  rfl

theorem startsOperand : t'.startsOperand = t.startsOperand := by
  rw [Token.startsOperand, Token.startsOperand, h.kind, h.kind']
  rfl

theorem startsKey : t'.startsKey = t.startsKey := by
  simp only [Token.startsKey, Token.isOperator, h.kind, h.kind']
  rfl

end Token.Edge

/-- The same opener, where so many tokens more stand before it. -/
def Opener.moved (shift : Nat) : Opener → Opener
  | .brace place => .brace (place + shift)
  | opener => opener

theorem Opener.moved_zero (opener : Opener) : opener.moved 0 = opener := by
  cases opener <;> rfl

namespace Builder

/-- The names of scopes that no token gives one. -/
def scopeWords : List String :=
  ["Global", "block", "arrow", "anonymous", "if-block", "else-block", "for-block", "while-block",
    "do-block", "switch-block", "try-block", "catch-block", "finally-block"]

/-- The token names a function by its own text: it is a word or a number. -/
def spellsName (t : Token) : Bool := t.isWord || t.kind == .number

theorem spellsName_of_isIdentifier {t : Token} (h : t.isIdentifier = true) : spellsName t = true := by
  rw [spellsName, Token.isWord_of_isIdentifier h, Bool.true_or]

theorem isEnd_of_spellsName {t : Token} (h : spellsName t = true) : t.isEnd = false := by
  rcases Bool.or_eq_true _ _ ▸ h with word | number
  · exact Token.isEnd_of_isWord word
  · rw [Token.isEnd, eq_of_beq number]
    rfl

/-- Names of scopes in two runs: a fixed one, or what tokens that are the same in both spell. -/
inductive Labels (same : Token → Token → Prop) : String → String → Prop
  | fixed {label : String} : label ∈ scopeWords → Labels same label label
  | name {t t' : Token} : same t t' → spellsName t = true → Labels same t.lexeme t'.lexeme
  | key {t t' : Token} : same t t' → t.kind = .string →
    Labels same (keyText t.lexeme) (keyText t'.lexeme)

/-- Where the tokens are the same one, so are the names. -/
theorem Labels.eq {same : Token → Token → Prop} {label label' : String}
    (one : ∀ t t', same t t' → t = t') (h : Labels same label label') : label' = label := by
  cases h with
  | fixed _ => rfl
  | name same _ => rw [one _ _ same]
  | key same _ => rw [one _ _ same]

/-- A relation between the states of two runs that every action of the builder keeps. -/
structure Simulation (c c' : Context) where
  /-- The runs have come to these states. -/
  rel : State → State → Prop
  /-- The tokens stand at one place of the two lists, and mean the same there. -/
  same : Token → Token → Prop
  /-- The error of the second run is that of the first. -/
  fails : ParseError → ParseError → Prop
  /-- Behind this error of the first run the second is not followed. -/
  lost : ParseError → Prop
  /-- The ids of one scope in the two runs. -/
  ids : ScopeId → ScopeId → Prop
  /-- So many tokens more stand before those of the second run. -/
  shift : Nat
  rounds : c.rounds ≤ c'.rounds
  arrows : ∀ {place}, (c.token place).isPunct .openParen = true →
    c'.startsArrow (place + shift) = c.startsArrow place
  alike : ∀ {t t'}, same t t' → t.Alike t' ∨ t.Edge t' ∧ ∀ e, lost e
  pos : ∀ {s s'}, rel s s' → s'.pos = s.pos + shift
  here : ∀ {s s'}, rel s s' → same (c.token s.pos) (c'.token s'.pos)
  next : ∀ {s s'}, rel s s' → (c.token s.pos).isIdentifier = true →
    same (c.token (s.pos + 1)) (c'.token (s'.pos + 1))
  afterNext : ∀ {s s'}, rel s s' → (c.token (s.pos + 1)).isIdentifier = true →
    same (c.token (s.pos + 2)) (c'.token (s'.pos + 2))
  operand : ∀ {s s'}, rel s s' →
    (c.token s.pos).flags.afterBreak = true ∧ (c.token s.pos).startsOperand = true ∨
      (c.token s.pos).isContextual "of" = true →
    s'.prev.any (·.endsExpression) = s.prev.any (·.endsExpression)
  closesTop : ∀ {s s'}, rel s s' → closesTop c s = true → closesTop c' s' = true
  behind : ∀ {s s'}, rel s s' → (c.token s.pos).isOrdinary = true →
    rel (c.behind s) (c'.behind s')
  select : ∀ {s s'}, rel s s' → (c.token s.pos).isSelector = true →
    rel (c.behindSelector s) (c'.behindSelector s')
  refer : ∀ {s s' t t'}, rel s s' → same t t' → t.isIdentifier = true →
    rel (s.refer t) (s'.refer t')
  declare : ∀ {s s' t t'} (kind : BindingKind), rel s s' → same t t' → t.isIdentifier = true →
    rel (s.declare t kind) (s'.declare t' kind)
  enter : ∀ {s s'}, rel s s' → s.depth < c.limit → s'.depth < c'.limit ∧ rel s.deepen s'.deepen
  tooDeep : ∀ {s s'}, rel s s' → c.limit ≤ s.depth →
    lost ⟨(c.token s.pos).span.start, .nestingTooDeep c.limit⟩ ∨
      c'.limit ≤ s'.depth ∧ fails ⟨(c.token s.pos).span.start, .nestingTooDeep c.limit⟩
        ⟨(c'.token s'.pos).span.start, .nestingTooDeep c'.limit⟩
  leave : ∀ {s s'}, rel s s' → rel s.rise s'.rise
  openScope : ∀ {s s' label label'} (kind : ScopeKind) (opener : Opener), rel s s' →
    (c.token s.pos).Alike (c'.token s'.pos) → Labels same label label' →
    ids s.scopes.size s'.scopes.size ∧
      rel (s.pushScope kind label (c.token s.pos).span.start opener)
        (s'.pushScope kind label' (c'.token s'.pos).span.start (opener.moved shift))
  reopen : ∀ {s s'} (opener : Opener), rel s s' →
    rel (s.reopen opener) (s'.reopen (opener.moved shift))
  closeScope : ∀ {s s' f id'}, rel s s' → s.frames.head? = some f → ids f.scope id' →
    ∃ f', s'.frames.head? = some f' ∧ f'.scope = id' ∧
      rel (s.popScope f.scope s.prevEnd) (s'.popScope id' s'.prevEnd)
  unexpected : ∀ {s s'} (wanted : Expectation), rel s s' →
    fails (c.unexpected s wanted) (c'.unexpected s' wanted)
  refused : ∀ {s s'} (reason : ParseReason), rel s s' →
    fails ⟨(c.token s.pos).span.start, reason⟩ ⟨(c'.token s'.pos).span.start, reason⟩

namespace Simulation

variable {c c' : Context} (S : Simulation c c') {α α' β β' : Type}

/-! ## Tokens at one place -/

section
variable {t t' : Token} (h : S.same t t')
include h

theorem alike_of_notEnd (notEnd : t.isEnd = false) : t.Alike t' := by
  rcases S.alike h with alike | ⟨edge, _⟩
  · exact alike
  · rw [edge.isEnd] at notEnd
    cases notEnd

theorem isPunct_eq {p : Punctuation} (other : p ≠ .closeBrace) : t'.isPunct p = t.isPunct p :=
  (S.alike h).elim (·.isPunct p) (·.1.isPunct other)

theorem isKeyword_eq (k : Keyword) : t'.isKeyword k = t.isKeyword k :=
  (S.alike h).elim (·.isKeyword k) (·.1.isKeyword k)

theorem isIdentifier_eq : t'.isIdentifier = t.isIdentifier :=
  (S.alike h).elim (·.isIdentifier) (·.1.isIdentifier)

theorem isOperator_eq (text : String) : t'.isOperator text = t.isOperator text :=
  (S.alike h).elim (·.isOperator text) (·.1.isOperator text)

theorem isContextual_eq {word : String} (known : word ∈ contextualWords) :
    t'.isContextual word = t.isContextual word :=
  (S.alike h).elim (·.isContextual known) (·.1.isContextual word)

theorem startsOperand_eq : t'.startsOperand = t.startsOperand :=
  (S.alike h).elim (·.startsOperand) (·.1.startsOperand)

theorem startsKey_eq : t'.startsKey = t.startsKey :=
  (S.alike h).elim (·.startsKey) (·.1.startsKey)

/-- A line end matters before what the grammar has a use for. -/
theorem afterBreak_and {b b' : Bool} (same : b' = b) (useless : t.isEnd = true → b = false) :
    (!t'.flags.afterBreak && b') = (!t.flags.afterBreak && b) := by
  cases atEnd : t.isEnd with
  | false => rw [(S.alike_of_notEnd h atEnd).afterBreak, same]
  | true => rw [same, useless atEnd, Bool.and_false, Bool.and_false]

/-- A statement may end before the token, semicolons apart. -/
theorem endsStatement_eq :
    (t'.isEnd || t'.isPunct .semicolon || t'.isPunct .closeBrace || t'.flags.afterBreak) =
      (t.isEnd || t.isPunct .semicolon || t.isPunct .closeBrace || t.flags.afterBreak) := by
  rcases S.alike h with alike | ⟨edge, _⟩
  · rw [alike.isEnd, alike.isPunct, alike.isPunct, alike.afterBreak]
  · simp only [edge.isEnd, edge.closes, Bool.true_or, Bool.or_true]

end

/-- What the second run comes to, when the first has come to this. -/
def Meets (A : α → α' → Prop) :
    Except Failure (α × State) → Except Failure (α' × State) → Prop
  | .ok (a, t), r' => ∃ a' t', r' = .ok (a', t') ∧ A a a' ∧ S.rel t t'
  | .error (.rejected e), r' => S.lost e ∨ ∃ e', r' = .error (.rejected e') ∧ S.fails e e'
  | .error _, _ => True

/-- From related states the run of `m'` does what the run of `m` does. -/
def InStep (A : α → α' → Prop) (m : Build α) (m' : Build α') (s s' : State) : Prop :=
  S.rel s s' → S.Meets A ((m.run c).run s) ((m'.run c').run s')

variable {S} {A : α → α' → Prop} {B : β → β' → Prop} {s s' : State}

namespace InStep

/-! ## Structure -/

theorem done {a : α} {a' : α'} (h : A a a') : S.InStep A (pure a) (pure a') s s' :=
  fun related => ⟨a', s', rfl, h, related⟩

theorem of_rel {m : Build α} {m' : Build α'} (h : S.rel s s' → S.InStep A m m' s s') :
    S.InStep A m m' s s' :=
  fun related => h related related

/-- What comes next starts from the states that the first two runs end in. -/
theorem andThen {m : Build α} {m' : Build α'} {f : α → Build β} {f' : α' → Build β'}
    (first : S.InStep A m m' s s')
    (next : ∀ a a' t t', A a a' → S.InStep B (f a) (f' a') t t') :
    S.InStep B (m >>= f) (m' >>= f') s s' := by
  intro related
  have meets := first related
  rw [ReaderT.run_bind, ReaderT.run_bind, StateT.run_bind, StateT.run_bind]
  revert meets
  cases (m.run c).run s with
  | ok out =>
    obtain ⟨a, t⟩ := out
    rintro ⟨a', t', ran, answers, behind⟩
    rw [ran]
    exact next a a' t t' answers behind
  | error e =>
    cases e with
    | rejected e =>
      rintro (lost | ⟨e', ran, fails⟩)
      · exact .inl lost
      · rw [ran]
        exact .inr ⟨e', rfl, fails⟩
    | inconsistent e => exact fun _ => trivial
    | exhausted => exact fun _ => trivial

/-- Between two actions without an answer. -/
theorem seq {m m' : Build Unit} {f : Unit → Build β} {f' : Unit → Build β'}
    (first : S.InStep Eq m m' s s') (next : ∀ t t', S.InStep B (f ()) (f' ()) t t') :
    S.InStep B (m >>= f) (m' >>= f') s s' :=
  first.andThen fun _ _ t t' _ => next t t'

theorem ite {p : Prop} [Decidable p] {m n : Build α} {m' n' : Build α'}
    (yes : p → S.InStep A m m' s s') (no : ¬ p → S.InStep A n n' s s') :
    S.InStep A (if p then m else n) (if p then m' else n') s s' := by
  split
  · next h => exact yes h
  · next h => exact no h

/-- An action that stands in a branch alone. -/
theorem whether {p : Prop} [Decidable p] {m m' : Build Unit} (yes : p → S.InStep Eq m m' s s') :
    S.InStep Eq (if p then m else pure ()) (if p then m' else pure ()) s s' :=
  ite yes fun _ => done rfl

theorem exhausted {m' : Build α'} : S.InStep (α := α) A Builder.exhausted m' s s' :=
  fun _ => trivial

theorem refuse (wanted : Expectation) :
    S.InStep A (Builder.refuse wanted) (Builder.refuse wanted) s s' :=
  fun related => .inr ⟨_, rfl, S.unexpected wanted related⟩

theorem refuseFeature (feature : Feature) :
    S.InStep A (Builder.refuseFeature feature) (Builder.refuseFeature feature) s s' :=
  fun related => .inr ⟨_, rfl, S.refused _ related⟩

/-- A run that only ends in failures need not be followed where none of its errors is. -/
theorem refused {m : Build α} {m' : Build α'} (all : ∀ e, S.lost e)
    (fails : m.Ends c (fun _ => True) (fun _ _ => False) s) : S.InStep A m m' s s' := by
  intro _
  unfold Build.Ends at fails
  revert fails
  cases (m.run c).run s with
  | ok out => exact False.elim
  | error e =>
    cases e with
    | rejected e => exact fun _ => .inl (all e)
    | inconsistent e => exact fun _ => trivial
    | exhausted => exact fun _ => trivial

/-- Where a text ends inside another, the first run has to fail if the second sees a difference. -/
theorem alikeOr {m : Build α} {m' : Build α'}
    (alike : (c.token s.pos).Alike (c'.token s'.pos) → S.InStep A m m' s s')
    (edge : (c.token s.pos).isEnd = true → m.Ends c (fun _ => True) (fun _ _ => False) s) :
    S.InStep A m m' s s' := by
  intro related
  rcases S.alike (S.here related) with same | ⟨ends, all⟩
  · exact alike same related
  · exact refused all (edge ends.isEnd) related

/-! ## Looking

What both runs see of the tokens is the same, so they go the same way. -/

section
variable {f : Context → Build β} {f' : Context → Build β'}

theorem read (h : S.InStep B (f c) (f' c') s s') :
    S.InStep B (MonadReader.read >>= f) (MonadReader.read >>= f') s s' := h

end

section
variable {f : State → Build β} {f' : State → Build β'}

theorem get (h : S.InStep B (f s) (f' s') s s') :
    S.InStep B (MonadState.get >>= f) (MonadState.get >>= f') s s' := h

end

section
variable {f : Token → Build β} {f' : Token → Build β'}

theorem current (h : S.same (c.token s.pos) (c'.token s'.pos) →
      S.InStep B (f (c.token s.pos)) (f' (c'.token s'.pos)) s s') :
    S.InStep B (Builder.current >>= f) (Builder.current >>= f') s s' :=
  fun related => h (S.here related) related

theorem peek {n : Nat} (h : S.InStep B (f (c.token (s.pos + n))) (f' (c'.token (s'.pos + n))) s s') :
    S.InStep B (Builder.peek n >>= f) (Builder.peek n >>= f') s s' := h

end

section
variable {f : Bool → Build β} {f' : Bool → Build β'}

theorem hereAlike {p : Punctuation}
    (same : S.rel s s' → (c'.token s'.pos).isPunct p = (c.token s.pos).isPunct p)
    (h : S.InStep B (f ((c.token s.pos).isPunct p)) (f' ((c.token s.pos).isPunct p)) s s') :
    S.InStep B (Builder.here p >>= f) (Builder.here p >>= f') s s' := by
  intro related
  have both : S.InStep B (f ((c.token s.pos).isPunct p)) (f' ((c'.token s'.pos).isPunct p)) s s' := by
    rw [same related]
    exact h
  exact both related

theorem here {p : Punctuation} (other : p ≠ .closeBrace)
    (h : S.InStep B (f ((c.token s.pos).isPunct p)) (f' ((c.token s.pos).isPunct p)) s s') :
    S.InStep B (Builder.here p >>= f) (Builder.here p >>= f') s s' :=
  hereAlike (fun related => S.isPunct_eq (S.here related) other) h

theorem hereWord {w : Keyword} (h : S.InStep B (f ((c.token s.pos).isKeyword w))
      (f' ((c.token s.pos).isKeyword w)) s s') :
    S.InStep B (Builder.hereWord w >>= f) (Builder.hereWord w >>= f') s s' := by
  intro related
  have both : S.InStep B (f ((c.token s.pos).isKeyword w))
      (f' ((c'.token s'.pos).isKeyword w)) s s' := by
    rw [S.isKeyword_eq (S.here related)]
    exact h
  exact both related

end

/-- Behind a test that refuses, the test is known to have failed. -/
theorem guard {p : Prop} [Decidable p] {wanted : Expectation} {f : Unit → Build β}
    {f' : Unit → Build β'} (h : ¬ p → S.InStep B (f ()) (f' ()) s s') :
    S.InStep B ((if p then Builder.refuse wanted else pure ()) >>= f)
      ((if p then Builder.refuse wanted else pure ()) >>= f') s s' := by
  split
  · exact fun related => .inr ⟨_, rfl, S.unexpected wanted related⟩
  · next no => exact h no

/-! ## Moving on -/

section
variable {f : Unit → Build β} {f' : Unit → Build β'}

theorem pass (ordinary : (c.token s.pos).isOrdinary = true) : S.InStep Eq advance advance s s' :=
  fun related => ⟨(), _, rfl, rfl, S.behind related ordinary⟩

/-- Behind a token that is passed over both runs go on. -/
theorem passThen (ordinary : (c.token s.pos).isOrdinary = true)
    (next : (c.behind s).pos = s.pos + 1 →
      S.InStep B (f ()) (f' ()) (c.behind s) (c'.behind s')) :
    S.InStep B (advance >>= f) (advance >>= f') s s' :=
  fun related => next (behind_pos (Token.isOrdinary.notEnd ordinary)) (S.behind related ordinary)

/-- What is expected is there in both runs, or it is refused in both. -/
theorem expect {p : Punctuation} (other : p ≠ .closeBrace) (h : (c.token s.pos).isPunct p = true →
      S.InStep B (advance >>= f) (advance >>= f') s s') :
    S.InStep B (Builder.expect p >>= f) (Builder.expect p >>= f') s s' := by
  simp only [Builder.expect, bind_assoc]
  refine here other ?_
  cases there : (c.token s.pos).isPunct p with
  | false => exact fun related => .inr ⟨_, rfl, S.unexpected _ related⟩
  | true => exact h there

/-- A mark that has to stand here, behind which nothing follows. -/
theorem expectMark {p : Punctuation} (other : p ≠ .closeBrace)
    (plain : p ≠ .dot ∧ p ≠ .questionDot) :
    S.InStep Eq (Builder.expect p) (Builder.expect p) s s' := by
  have whole : Builder.expect p = Builder.expect p >>= pure := (bind_pure _).symm
  rw [whole]
  refine expect other fun there => ?_
  exact seq (pass (Token.isOrdinary_of_isPunct there plain)) fun _ _ => done rfl

/-- A selector is consumed with the name of a property behind it, if one follows. -/
theorem select (point : (c.token s.pos).isSelector = true) :
    S.InStep Eq
      (advance >>= fun _ => Builder.current >>= fun t => if t.isWord then advance else pure ())
      (advance >>= fun _ => Builder.current >>= fun t => if t.isWord then advance else pure ())
      s s' := by
  have run (d : Context) (t : State) : ((advance >>= fun _ => Builder.current >>= fun t =>
      if t.isWord then advance else pure ()).run d).run t = .ok ((), d.behindSelector t) := by
    change ((if (d.token (d.behind t).pos).isWord then advance else pure () : Build Unit).run
      d).run (d.behind t) = _
    unfold Context.behindSelector
    split <;> rfl
  intro related
  rw [run, run]
  exact ⟨(), _, rfl, rfl, S.select related point⟩

theorem declare {t t' : Token} {kind : BindingKind} (same : S.same t t')
    (name : t.isIdentifier = true)
    (next : S.InStep B (f ()) (f' ()) (s.declare t kind) (s'.declare t' kind)) :
    S.InStep B (Builder.declare t kind >>= f) (Builder.declare t' kind >>= f') s s' :=
  fun related => next (S.declare kind related same name)

theorem refer {t t' : Token} (same : S.same t t') (name : t.isIdentifier = true)
    (next : S.InStep B (f ()) (f' ()) (s.refer t) (s'.refer t')) :
    S.InStep B (Builder.refer t >>= f) (Builder.refer t' >>= f') s s' :=
  fun related => next (S.refer related same name)

theorem enter (next : S.InStep B (f ()) (f' ()) s.deepen s'.deepen) :
    S.InStep B (Builder.enter >>= f) (Builder.enter >>= f') s s' := by
  intro related
  have first := Build.ends_enter.mp (Build.ends_run (m := Builder.enter) (c := c) (s := s))
  have second := Build.ends_enter.mp (Build.ends_run (m := Builder.enter) (c := c') (s := s'))
  rw [ReaderT.run_bind, ReaderT.run_bind, StateT.run_bind, StateT.run_bind]
  by_cases allowed : s.depth < c.limit
  · obtain ⟨allowed', deeper⟩ := S.enter related allowed
    rw [if_neg (by omega)] at first second
    rw [first, second]
    exact next deeper
  · rw [if_pos (by omega)] at first
    rw [first]
    rcases S.tooDeep related (by omega) with lost | ⟨allowed', fails⟩
    · exact .inl lost
    · rw [if_pos (by omega)] at second
      rw [second]
      exact .inr ⟨_, rfl, fails⟩

end

theorem leave : S.InStep Eq Builder.leave Builder.leave s s' :=
  fun related => ⟨(), _, rfl, rfl, S.leave related⟩

/-! ## Scopes -/

/-- A scope begins at the cursor. -/
theorem opening {kind : ScopeKind} {label label' : String} {opener opener' : Opener}
    {f : ScopeId → Build β} {f' : ScopeId → Build β'}
    (alike : (c.token s.pos).Alike (c'.token s'.pos)) (labels : Labels S.same label label')
    (openers : opener' = opener.moved S.shift)
    (next : ∀ id', S.ids s.scopes.size id' → S.InStep B (f s.scopes.size) (f' id')
      (s.deepen.pushScope kind label (c.token s.pos).span.start opener)
      (s'.deepen.pushScope kind label' (c'.token s'.pos).span.start opener')) :
    S.InStep B (Builder.openScope kind label (c.token s.pos).span.start opener >>= f)
      (Builder.openScope kind label' (c'.token s'.pos).span.start opener' >>= f') s s' := by
  subst openers
  simp only [Builder.openScope, bind_assoc]
  refine enter (get fun related => ?_)
  obtain ⟨ids, pushed⟩ := S.openScope kind opener related alike labels
  exact next _ ids pushed

theorem reopen (opener : Opener) {f : Unit → Build β} {f' : Unit → Build β'}
    (next : S.InStep B (f ()) (f' ()) (s.reopen opener) (s'.reopen (opener.moved S.shift))) :
    S.InStep B (modify (·.reopen opener) >>= f) (modify (·.reopen (opener.moved S.shift)) >>= f')
      s s' :=
  fun related => next (S.reopen opener related)

theorem attachBrace {f : Unit → Build β} {f' : Unit → Build β'}
    (next : S.InStep B (f ()) (f' ()) (s.reopen (.brace s.pos)) (s'.reopen (.brace s'.pos))) :
    S.InStep B (Builder.attachBrace >>= f) (Builder.attachBrace >>= f') s s' := by
  intro related
  have reopened := S.reopen (.brace s.pos) related
  rw [Opener.moved, ← S.pos related] at reopened
  exact next reopened

/-- The scope on top ends where the last token does. -/
theorem closing {id id' : ScopeId} (ids : S.ids id id') {stop stop' : Nat} (ends : stop = s.prevEnd)
    (ends' : stop' = s'.prevEnd) : S.InStep Eq (Builder.closeScope id stop)
      (Builder.closeScope id' stop') s s' := by
  subst ends ends'
  intro related
  have first := Build.ends_closeScope.mp
    (Build.ends_run (m := Builder.closeScope id s.prevEnd) (c := c) (s := s))
  have second := Build.ends_closeScope.mp
    (Build.ends_run (m := Builder.closeScope id' s'.prevEnd) (c := c') (s := s'))
  cases top : s.frames.head? with
  | none =>
    rw [top] at first
    rw [first]
    trivial
  | some f =>
    rw [top] at first
    by_cases same : f.scope = id
    · subst same
      obtain ⟨f', top', own, closed⟩ := S.closeScope related top ids
      rw [top'] at second
      simp only [↓reduceIte] at first
      simp only [own, ↓reduceIte] at second
      rw [first, second]
      exact ⟨(), _, rfl, rfl, S.leave closed⟩
    · simp only [same, ↓reduceIte] at first
      rw [first]
      trivial

/-- The scope on top ends with its brace. -/
theorem closingBrace {id id' : ScopeId} (ids : S.ids id id') :
    S.InStep Eq (closeBraceScope id) (closeBraceScope id') s s' := by
  refine alikeOr (fun alike => ?_) fun atEnd => ?_
  · unfold closeBraceScope
    refine hereAlike (fun _ => alike.isPunct _) ?_
    cases there : (c.token s.pos).isPunct .closeBrace with
    | false => exact fun related => .inr ⟨_, rfl, S.unexpected _ related⟩
    | true =>
      refine current fun _ => read (get fun related => ?_)
      cases closes : Builder.closesTop c s with
      | false => trivial
      | true =>
        have rest : S.InStep Eq
            (advance >>= fun _ => Builder.closeScope id (c.token s.pos).span.stop)
            (advance >>= fun _ => Builder.closeScope id' (c'.token s'.pos).span.stop) s s' :=
          passThen (Token.isOrdinary_of_isPunct there (by decide)) fun _ => closing ids rfl rfl
        simp only [S.closesTop related closes]
        exact rest related
  · rw [Build.ends_closeBraceScope, Token.isPunct_of_isEnd atEnd]
    trivial

/-- Only a run whose arrow is there is followed. -/
theorem expectArrow {f : Unit → Build β} {f' : Unit → Build β'}
    (next : S.InStep B (f ()) (f' ()) (c.behind s) (c'.behind s')) :
    S.InStep B (Builder.expectArrow >>= f) (Builder.expectArrow >>= f') s s' := by
  simp only [Builder.expectArrow, bind_assoc]
  refine here (by decide) ?_
  cases there : (c.token s.pos).isPunct .arrow with
  | false => exact fun _ => trivial
  | true => exact passThen (Token.isOrdinary_of_isPunct there (by decide)) fun _ => next

end InStep

end Simulation

end Builder

end Scoping
