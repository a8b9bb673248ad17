import Scoping.Build.Run
import Scoping.Proofs.Build.Partner
import Scoping.Proofs.Build.State

/-!
# Walks of the builder

`Walk c s t` is what every production has in common when it succeeds: between `s` and `t` the cursor
has passed over tokens, names have been recorded, and brackets, levels and scopes were entered and
left in proper order, each inside the ones entered before. It says nothing of the grammar; which
walks the productions make is told elsewhere, and what holds along all walks is told here and in
what builds on this: a walk leaves the open scopes and the depth as it found them
(`Walk.frames_eq`, `Walk.depth_eq`), moves the cursor forwards, loses nothing that was recorded
(`Walk.grows`), and reads its brackets in pairs (`Walk.opened_eq`, `Walk.partner_of_pair`).
-/

namespace Scoping

/-- A token of no weight for scopes: no name, bracket or selector, and not the end. -/
def TokenKind.isPlain : TokenKind → Bool
  | .keyword _ | .operator | .string | .number | .regex | .comment => true
  | .punctuation p =>
    match p with
    | .comma | .semicolon | .colon | .question | .ellipsis | .equals | .arrow => true
    | _ => false
  | .identifier | .endOfInput => false

/-- A point behind which a name is the name of a property. -/
def Token.isSelector (t : Token) : Bool := t.isPunct .dot || t.isPunct .questionDot

/-- A token that is neither a bracket nor the end. -/
def Token.isFlat (t : Token) : Bool :=
  match t.kind with
  | .endOfInput => false
  | .punctuation p => p.opens?.isNone && p.closes?.isNone
  | _ => true

namespace Token

variable {t : Token}

theorem isFlat_iff : t.isFlat = true ↔ t.isEnd = false ∧ t.opens? = none ∧ t.closes? = none := by
  unfold isFlat isEnd opens? closes?
  cases t.kind <;> simp

theorem isEnd_of_opens? {shape : Bracket} (h : t.opens? = some shape) : t.isEnd = false := by
  unfold opens? at h
  unfold isEnd
  cases kind : t.kind <;> simp_all

theorem isEnd_of_closes? {shape : Bracket} (h : t.closes? = some shape) : t.isEnd = false := by
  unfold closes? at h
  unfold isEnd
  cases kind : t.kind <;> simp_all

theorem isFlat_of_isPlain (h : t.kind.isPlain = true) : t.isFlat = true := by
  unfold TokenKind.isPlain at h
  unfold isFlat
  cases kind : t.kind with
  | punctuation p => cases p <;> simp_all [Punctuation.opens?, Punctuation.closes?]
  | _ => simp_all

theorem kind_of_isIdentifier (h : t.isIdentifier = true) : t.kind = .identifier := by
  simpa [isIdentifier] using h

theorem isFlat_of_isIdentifier (h : t.isIdentifier = true) : t.isFlat = true := by
  simp [isFlat, kind_of_isIdentifier h]

theorem isEnd_of_isIdentifier (h : t.isIdentifier = true) : t.isEnd = false :=
  (isFlat_iff.mp (isFlat_of_isIdentifier h)).1

theorem isFlat_of_isWord (h : t.isWord = true) : t.isFlat = true := by
  unfold isWord at h
  unfold isFlat
  cases kind : t.kind <;> simp_all

theorem isEnd_of_isWord (h : t.isWord = true) : t.isEnd = false :=
  (isFlat_iff.mp (isFlat_of_isWord h)).1

theorem isSelector_of_isWord (h : t.isWord = true) : t.isSelector = false := by
  unfold isWord at h
  cases kind : t.kind <;> simp_all [isSelector, isPunct]

theorem isWord_of_isIdentifier (h : t.isIdentifier = true) : t.isWord = true := by
  simp [isWord, kind_of_isIdentifier h]

theorem isEnd_of_isPunct {p : Punctuation} (h : t.isPunct p = true) : t.isEnd = false := by
  rw [isEnd, eq_of_beq h]
  rfl

theorem isEnd_of_isKeyword {w : Keyword} (h : t.isKeyword w = true) : t.isEnd = false := by
  rw [isEnd, eq_of_beq h]
  rfl

theorem isEnd_of_isOperator {text : String} (h : t.isOperator text = true) : t.isEnd = false := by
  rw [isEnd, eq_of_beq (Bool.and_eq_true_iff.mp h).1]
  rfl

theorem isFlat_of_isSelector (h : t.isSelector = true) : t.isFlat = true := by
  simp only [isSelector, isPunct, Bool.or_eq_true, beq_iff_eq] at h
  rcases h with kind | kind <;> simp [isFlat, kind, Punctuation.opens?, Punctuation.closes?]

end Token

namespace Builder

/-- The context of a list of tokens that ends with an end of input. -/
structure Context.Formed (c : Context) : Prop where
  last : c.tokens.back? = some c.final
  final_isEnd : c.final.isEnd = true
  partners : c.partners = matchBrackets c.tokens.toList

/-- The token before a place. -/
def Context.before? (c : Context) : (place : Nat) → Option Token
  | 0 => none
  | n + 1 => some (c.token n)

/-- The state behind the token under the cursor. -/
def Context.behind (c : Context) (s : State) : State := s.consume (c.token s.pos)

/-! ## What is read, token by token -/

/-- The name under the cursor need not be recorded: it is a contextual word, a label, a key, or what
a jump leads to. -/
def Unrecorded (c : Context) (s : State) : Prop :=
  (c.token s.pos).lexeme ∈ ["of", "async", "get", "set"] ∨
    (c.token (s.pos + 1)).isPunct .colon = true ∨ (c.token (s.pos + 1)).isPunct .openParen = true ∨
    s.prev.any (fun t => t.isKeyword .break_ || t.isKeyword .continue_) = true

/-- The token under the cursor is passed over without a trace. -/
def Passes (c : Context) (s : State) : Prop :=
  (c.token s.pos).kind.isPlain = true ∨ (c.token s.pos).isIdentifier = true ∧ Unrecorded c s

/-- The cursor stands behind the word `function`, or its star. -/
def AfterFunction (s : State) : Prop :=
  s.prev.any (fun t => t.isKeyword .function || t.isOperator "*") = true

/-- The innermost open scope is a function's. -/
def InFunction (s : State) : Prop :=
  ∃ x, s.scopes[s.currentScope]? = some x ∧ x.kind = .function

/-- Where a declaration of some kind can stand. -/
def Declares (s : State) : BindingKind → Prop
  | .function => AfterFunction s
  | .param => InFunction s
  | _ => True

/-- The state behind a selector and the name of a property, if one follows. -/
def Context.behindSelector (c : Context) (s : State) : State :=
  if (c.token (c.behind s).pos).isWord then c.behind (c.behind s) else c.behind s

/-- How a scope begins at the cursor: with nothing of its own, or, behind the name of a function
expression, with that name. -/
inductive Opening (c : Context) (s : State) : State → Prop
  | plain {kind : ScopeKind} {label : String} {opener : Opener} : kind ≠ .global →
    Opening c s (s.deepen.pushScope kind label (c.token s.pos).span.start opener)
  | named : (c.token s.pos).isIdentifier = true → AfterFunction s →
    Opening c s (((c.behind s).deepen.pushScope .function (c.token s.pos).lexeme
      (c.token (c.behind s).pos).span.start .header).declare (c.token s.pos) .function)

/-- What a successful production does from `s` to `t`. -/
inductive Walk (c : Context) : State → State → Prop
  | stay (s : State) : Walk c s s
  | trans {s t u : State} : Walk c s t → Walk c t u → Walk c s u
  | pass {s : State} : Passes c s → Walk c s (c.behind s)
  | select {s : State} : (c.token s.pos).isSelector = true → Walk c s (c.behindSelector s)
  | use {s : State} : (c.token s.pos).isIdentifier = true →
    Walk c s ((c.behind s).refer (c.token s.pos))
  | name {s : State} {kind : BindingKind} : (c.token s.pos).isIdentifier = true →
    Declares s kind → Walk c s ((c.behind s).declare (c.token s.pos) kind)
  | pair {s t : State} {shape : Bracket} : (c.token s.pos).opens? = some shape →
    Walk c (c.behind s) t → (c.token t.pos).closes? = some shape → Walk c s (c.behind t)
  | deeper {s t : State} : s.depth < c.limit → Walk c s.deepen t → Walk c s t.rise
  | scope {s opened t u : State} {opener : Opener} : s.depth < c.limit → Opening c s opened →
    Walk c opened t → Walk c (t.reopen opener) u → opened.pos < u.pos →
    Walk c s (u.popScope s.scopes.size u.prevEnd).rise

/-! ## Cursor and open scopes -/

section
variable {c : Context} {s t : State}

theorem Passes.isFlat (h : Passes c s) : (c.token s.pos).isFlat = true := by
  rcases h with plain | ⟨name, _⟩
  · exact Token.isFlat_of_isPlain plain
  · exact Token.isFlat_of_isIdentifier name

@[simp] theorem behind_frames : (c.behind s).frames = s.frames := rfl
@[simp] theorem behind_depth : (c.behind s).depth = s.depth := rfl
@[simp] theorem behind_scopes : (c.behind s).scopes = s.scopes := rfl
@[simp] theorem behind_bindings : (c.behind s).bindings = s.bindings := rfl
@[simp] theorem behind_references : (c.behind s).references = s.references := rfl
@[simp] theorem behind_prev : (c.behind s).prev = some (c.token s.pos) := rfl
@[simp] theorem behind_currentScope : (c.behind s).currentScope = s.currentScope := rfl

theorem behind_pos (h : (c.token s.pos).isEnd = false) : (c.behind s).pos = s.pos + 1 :=
  s.consume_pos h

theorem behind_pos_of_isFlat (h : (c.token s.pos).isFlat = true) : (c.behind s).pos = s.pos + 1 :=
  behind_pos (Token.isFlat_iff.mp h).1

theorem behindSelector_cases (h : (c.token s.pos).isSelector = true) :
    c.behindSelector s = c.behind s ∨
      (c.token (s.pos + 1)).isWord = true ∧ c.behindSelector s = c.behind (c.behind s) := by
  unfold Context.behindSelector
  rw [behind_pos_of_isFlat (Token.isFlat_of_isSelector h)]
  split
  · next word => exact .inr ⟨word, rfl⟩
  · exact .inl rfl

/-- A scope begins at the token under the cursor. -/
theorem Opening.frames_eq (h : Opening c s t) :
    ∃ opener, t.frames = ⟨s.scopes.size, opener, (c.token t.pos).span.start⟩ :: s.frames := by
  cases h with
  | plain _ => exact ⟨_, rfl⟩
  | named _ _ => exact ⟨.header, by simp⟩

theorem Opening.depth_eq (h : Opening c s t) : t.depth = s.depth + 1 := by
  cases h <;> simp

theorem Opening.pos_le (h : Opening c s t) : s.pos ≤ t.pos := by
  cases h with
  | plain _ => exact Nat.le_refl _
  | named name _ =>
    simp [behind_pos_of_isFlat (Token.isFlat_of_isIdentifier name)]

theorem Opening.grows (h : Opening c s t) : s.Grows t := by
  cases h with
  | plain _ => exact (State.Grows.deepen s).trans (.push s.deepen _ _ _ _)
  | named _ _ =>
    have moved : s.Grows (c.behind s).deepen := (State.Grows.consume s _).trans (.deepen _)
    exact (moved.trans (.push _ _ _ _ _)).trans (.declare _ _ _)

theorem behindSelector_frames : (c.behindSelector s).frames = s.frames := by
  unfold Context.behindSelector; split <;> rfl

theorem behindSelector_depth : (c.behindSelector s).depth = s.depth := by
  unfold Context.behindSelector; split <;> rfl

/-- A walk leaves the open scopes as it found them. -/
theorem Walk.frames_eq (w : Walk c s t) : t.frames = s.frames := by
  induction w with
  | stay => rfl
  | trans _ _ first second => exact second.trans first
  | pass _ => rfl
  | select _ => exact behindSelector_frames
  | use _ => rfl
  | name _ _ => exact State.declare_frames ..
  | pair _ _ _ inner => exact inner
  | deeper _ _ inner => exact inner
  | scope _ opening _ _ _ header body =>
    obtain ⟨opener, top⟩ := opening.frames_eq
    rw [State.rise_frames, State.popScope_frames, body,
      State.reopen_frames _ _ (header.trans top), List.tail_cons]

/-- A walk leaves the depth as it found it. -/
theorem Walk.depth_eq (w : Walk c s t) : t.depth = s.depth := by
  induction w with
  | stay => rfl
  | trans _ _ first second => exact second.trans first
  | pass _ => rfl
  | select _ => exact behindSelector_depth
  | use _ => rfl
  | name _ _ => exact State.declare_depth ..
  | pair _ _ _ inner => exact inner
  | deeper _ _ inner => simp [inner]
  | scope _ opening _ _ _ header body =>
    simp [body, header, opening.depth_eq]

/-- The cursor never goes back. -/
theorem Walk.pos_le (w : Walk c s t) : s.pos ≤ t.pos := by
  induction w with
  | stay => exact Nat.le_refl _
  | trans _ _ first second => exact Nat.le_trans first second
  | pass h => rw [behind_pos_of_isFlat h.isFlat]; exact Nat.le_succ _
  | @select s h =>
    have point := behind_pos_of_isFlat (Token.isFlat_of_isSelector h)
    rcases behindSelector_cases h with e | ⟨word, e⟩
    · rw [e, point]; exact Nat.le_succ _
    · rw [← point] at word
      rw [e, behind_pos_of_isFlat (Token.isFlat_of_isWord word), point]
      omega
  | use name =>
    rw [State.refer_pos, behind_pos_of_isFlat (Token.isFlat_of_isIdentifier name)]
    exact Nat.le_succ _
  | name name _ =>
    rw [State.declare_pos, behind_pos_of_isFlat (Token.isFlat_of_isIdentifier name)]
    exact Nat.le_succ _
  | pair opens _ closes inner =>
    rw [behind_pos (Token.isEnd_of_opens? opens)] at inner
    rw [behind_pos (Token.isEnd_of_closes? closes)]
    omega
  | deeper _ _ inner => exact inner
  | scope _ opening _ _ forwards =>
    exact Nat.le_trans opening.pos_le (Nat.le_of_lt forwards)

/-- Nothing that was recorded is lost on a walk. -/
theorem Walk.grows (w : Walk c s t) : s.Grows t := by
  induction w with
  | stay s => exact .refl s
  | trans _ _ first second => exact first.trans second
  | @pass s _ => exact .consume s _
  | @select s _ =>
    unfold Context.behindSelector
    split
    · exact (State.Grows.consume s _).trans (.consume _ _)
    · exact .consume s _
  | @use s _ => exact (State.Grows.consume s _).trans (.refer (c.behind s) _)
  | @name s _ _ _ => exact (State.Grows.consume s _).trans (.declare (c.behind s) _ _)
  | @pair s t _ _ _ _ inner => exact ((State.Grows.consume s _).trans inner).trans (.consume t _)
  | @deeper s t _ _ inner => exact ((State.Grows.deepen s).trans inner).trans (.rise t)
  | @scope s opened t u opener _ opening _ _ _ header body =>
    have inside : s.Grows u := ((opening.grows.trans header).trans (.reopen t opener)).trans body
    exact (inside.trans (.pop u _ _)).trans (.rise _)

/-! ## Brackets -/

namespace Context.Formed

variable (formed : c.Formed)
include formed

theorem nonempty : 0 < c.tokens.size := by
  have last := formed.last
  rw [Array.back?_eq_getElem?] at last
  have := (Array.getElem?_eq_some_iff.mp last).1
  omega

/-- A token that is not the end stands in the list, and is not the last one. -/
theorem token_at {n : Nat} (h : (c.token n).isEnd = false) :
    c.tokens[n]? = some (c.token n) ∧ n + 1 < c.tokens.size := by
  unfold Context.token at h ⊢
  rw [Array.getD_eq_getD_getElem?] at h ⊢
  cases found : c.tokens[n]? with
  | none =>
    rw [found, Option.getD_none, formed.final_isEnd] at h
    cases h
  | some t =>
    have inside : n < c.tokens.size := (Array.getElem?_eq_some_iff.mp found).1
    refine ⟨rfl, Nat.lt_of_le_of_ne inside fun same => ?_⟩
    have last := formed.last
    rw [Array.back?_eq_getElem?, show c.tokens.size - 1 = n by omega, found,
      Option.some.injEq] at last
    rw [found, Option.getD_some, last, formed.final_isEnd] at h
    cases h

/-- Every token that the cursor sees stands in the list. -/
theorem token_inside (n : Nat) : ∃ m, m < c.tokens.size ∧ c.token n = c.token m := by
  by_cases inside : n < c.tokens.size
  · exact ⟨n, inside, rfl⟩
  · refine ⟨c.tokens.size - 1, Nat.sub_lt formed.nonempty Nat.one_pos, ?_⟩
    have last := formed.last
    rw [Array.back?_eq_getElem?] at last
    unfold Context.token
    rw [Array.getD_eq_getD_getElem?, Array.getD_eq_getD_getElem?, last,
      Array.getElem?_eq_none (by omega)]
    rfl

theorem opened_of_isFlat {n : Nat} (h : (c.token n).isFlat = true) :
    (bracketsTo c.tokens.toList (n + 1)).opened = (bracketsTo c.tokens.toList n).opened := by
  obtain ⟨notEnd, opens, closes⟩ := Token.isFlat_iff.mp h
  exact opened_of_neither (by simpa using (formed.token_at notEnd).1) opens closes

theorem opened_behind_of_isFlat (h : (c.token s.pos).isFlat = true) :
    (bracketsTo c.tokens.toList (c.behind s).pos).opened =
      (bracketsTo c.tokens.toList s.pos).opened := by
  rw [behind_pos_of_isFlat h, formed.opened_of_isFlat h]

theorem opened_behind_of_opens {shape : Bracket} (h : (c.token s.pos).opens? = some shape) :
    (bracketsTo c.tokens.toList (c.behind s).pos).opened =
      (s.pos, shape) :: (bracketsTo c.tokens.toList s.pos).opened := by
  have notEnd := Token.isEnd_of_opens? h
  rw [behind_pos notEnd, opened_of_opens (by simpa using (formed.token_at notEnd).1) h]

end Context.Formed

/-- The brackets that stand open are the same before and behind a walk. -/
theorem Walk.opened_eq (w : Walk c s t) (formed : c.Formed) :
    (bracketsTo c.tokens.toList t.pos).opened = (bracketsTo c.tokens.toList s.pos).opened := by
  induction w with
  | stay => rfl
  | trans _ _ first second => exact second.trans first
  | pass h => exact formed.opened_behind_of_isFlat h.isFlat
  | @select s h =>
    have flat := Token.isFlat_of_isSelector h
    rcases behindSelector_cases h with e | ⟨word, e⟩
    · rw [e, formed.opened_behind_of_isFlat flat]
    · rw [← behind_pos_of_isFlat flat] at word
      rw [e, formed.opened_behind_of_isFlat (Token.isFlat_of_isWord word),
        formed.opened_behind_of_isFlat flat]
  | use name =>
    rw [State.refer_pos, formed.opened_behind_of_isFlat (Token.isFlat_of_isIdentifier name)]
  | name name _ =>
    rw [State.declare_pos, formed.opened_behind_of_isFlat (Token.isFlat_of_isIdentifier name)]
  | pair opens _ closes inner =>
    have notEnd := Token.isEnd_of_closes? closes
    rw [formed.opened_behind_of_opens opens] at inner
    rw [behind_pos notEnd,
      opened_of_closes (by simpa using (formed.token_at notEnd).1) closes inner]
  | deeper _ _ inner => exact inner
  | @scope s opened t u opener _ opening _ _ _ header body =>
    have begun : (bracketsTo c.tokens.toList opened.pos).opened =
        (bracketsTo c.tokens.toList s.pos).opened := by
      cases opening with
      | plain _ => rfl
      | named name _ =>
        rw [State.declare_pos]
        exact formed.opened_behind_of_isFlat (Token.isFlat_of_isIdentifier name)
    rw [State.reopen_pos] at body
    exact (body.trans header).trans begun

theorem Context.Formed.inside_behind (formed : c.Formed) (h : (c.token s.pos).isEnd = false) :
    (c.behind s).pos < c.tokens.size := by
  rw [behind_pos h]
  exact (formed.token_at h).2

theorem Context.Formed.inside_behind_of_isFlat (formed : c.Formed)
    (h : (c.token s.pos).isFlat = true) : (c.behind s).pos < c.tokens.size :=
  formed.inside_behind (Token.isFlat_iff.mp h).1

theorem Opening.inside (h : Opening c s t) (formed : c.Formed) (inside : s.pos < c.tokens.size) :
    t.pos < c.tokens.size := by
  cases h with
  | plain _ => exact inside
  | named name _ =>
    rw [State.declare_pos]
    exact formed.inside_behind_of_isFlat (Token.isFlat_of_isIdentifier name)

/-- The cursor never leaves the tokens. -/
theorem Walk.inside (w : Walk c s t) (formed : c.Formed) (h : s.pos < c.tokens.size) :
    t.pos < c.tokens.size := by
  induction w with
  | stay => exact h
  | trans _ _ first second => exact second (first h)
  | pass passes => exact formed.inside_behind_of_isFlat passes.isFlat
  | select point =>
    have flat := Token.isFlat_of_isSelector point
    rcases behindSelector_cases point with e | ⟨word, e⟩
    · rw [e]; exact formed.inside_behind_of_isFlat flat
    · rw [← behind_pos_of_isFlat flat] at word
      rw [e]; exact formed.inside_behind_of_isFlat (Token.isFlat_of_isWord word)
  | use name => exact formed.inside_behind_of_isFlat (Token.isFlat_of_isIdentifier name)
  | name name _ =>
    rw [State.declare_pos]
    exact formed.inside_behind_of_isFlat (Token.isFlat_of_isIdentifier name)
  | pair _ _ closes _ => exact formed.inside_behind (Token.isEnd_of_closes? closes)
  | deeper _ _ inner => exact inner h
  | scope _ opening _ _ _ header body =>
    refine body ?_
    rw [State.reopen_pos]
    exact header (opening.inside formed h)

/-- A bracket and the one that closes it behind a walk are partners. -/
theorem Walk.partner_of_pair {shape : Bracket} (w : Walk c (c.behind s) t) (formed : c.Formed)
    (opens : (c.token s.pos).opens? = some shape)
    (closes : (c.token t.pos).closes? = some shape) : c.partner? s.pos = some t.pos := by
  have opened := (w.opened_eq formed).trans (formed.opened_behind_of_opens opens)
  have at_close := (formed.token_at (Token.isEnd_of_closes? closes)).1
  unfold Context.partner?
  rw [formed.partners, partner_of_opened (by simpa using at_close) closes opened]
  rfl

end

end Builder

end Scoping
