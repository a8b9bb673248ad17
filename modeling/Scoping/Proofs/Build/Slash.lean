import Scoping.Proofs.Build.Balance
import Scoping.Proofs.Token.Layout

/-!
# A slash behind a closing bracket

The lexer never asks whether brackets match: for each one that it takes to be open it remembers how
that was opened, and a closing one ends the latest of them. Where brackets are balanced that is right.
What the memory tells behind a closing bracket is what stood before its partner
(`Lexed.slash_behind_closing`), so a slash that comes next begins a regular expression where a brace
was taken for one of a block, or a parenthesis for one of a header.
-/

namespace Scoping

/-- The token before a place. -/
def tokenBefore (ts : List Token) (place : Nat) : Option Token := (ts.take place).getLast?

namespace Lookbehind

variable {l l' : Lookbehind} {t : Token} {ts : List Token}

theorem push_last (l : Lookbehind) (t : Token) : (l.push t).last = some t.kind := by
  unfold push
  split <;> rfl

/-- The last token pushed is remembered. -/
theorem last_foldl (ts : List Token) : (ts.foldl push start).last = ts.getLast?.map (·.kind) := by
  rcases List.eq_nil_or_concat ts with rfl | ⟨ts, t, rfl⟩
  · rfl
  · simp [push_last]

/-- So is the one before. -/
theorem beforeLast_foldl (ts : List Token) :
    (ts.foldl push start).beforeLast = ts.dropLast.getLast?.map (·.kind) := by
  rcases List.eq_nil_or_concat ts with rfl | ⟨ts, t, rfl⟩
  · rfl
  · have kept (l : Lookbehind) : (l.push t).beforeLast = l.last := by
      unfold push
      split <;> rfl
    rw [List.concat_eq_append, List.foldl_append, List.foldl_cons, List.foldl_nil, kept,
      last_foldl, List.dropLast_concat]

/-- What is remembered of the open brackets of a shape, innermost first. -/
def opened (l : Lookbehind) : Bracket → List Bool
  | .brace => l.blocks
  | .paren => l.headers
  | .square => []

/-- A bracket behind these two tokens opens a part of a statement: a block of statements if it is a
brace, the header if it is a parenthesis. -/
def opensPart (shape : Bracket) (last beforeLast : Option TokenKind) : Bool :=
  match shape with
  | .brace => opensBlock last
  | .paren => opensHeader last beforeLast
  | .square => false

theorem blocks_of_openBrace (opens : t.isPunct .openBrace = true) :
    (l.push t).blocks = opensBlock l.last :: l.blocks := by
  simp [push, eq_of_beq opens]

section
variable {shape : Bracket}

/-- An opening bracket is remembered with what it opens. -/
theorem opened_of_opens (opens : t.opens? = some shape) :
    ((l.push t).opened shape).headD false = opensPart shape l.last l.beforeLast := by
  unfold Token.opens? at opens
  split at opens
  · next p kind => cases p <;> cases opens <;> simp [push, kind, opened, opensPart]
  · cases opens

/-- Behind a closing bracket an operand has ended, unless the bracket opened a part of a statement. -/
theorem afterOperand_of_closes (closes : t.closes? = some shape) :
    (l.push t).afterOperand = !(l.opened shape).headD false := by
  unfold Token.closes? at closes
  split at closes
  · next p kind =>
    cases p <;> cases closes <;>
      simp [push, kind, opened, Token.endsExpression, Punctuation.isCloser, Punctuation.closes?]
  · cases closes

theorem push_opened_of_neither (opens : t.opens? = none) (closes : t.closes? = none) :
    (l.push t).opened shape = l.opened shape := by
  unfold Token.opens? at opens
  unfold Token.closes? at closes
  unfold push
  cases shape <;> split <;> simp_all [opened, Punctuation.opens?, Punctuation.closes?]

/-- A bracket that is opened and closed leaves those open that were. -/
theorem push_opened_of_pair {first last : Token} {own : Bracket} (opens : first.opens? = some own)
    (closes : last.closes? = some own)
    (inside : ∀ shape, l'.opened shape = (l.push first).opened shape) :
    (l'.push last).opened shape = l.opened shape := by
  have here := inside shape
  unfold Token.opens? at opens
  unfold Token.closes? at closes
  split at opens
  · next p kind =>
    split at closes
    · next q kind' =>
      cases p <;> cases opens <;> cases q <;> cases closes <;> cases shape <;>
        simp_all [push, opened]
    · cases closes
  · cases opens

/-- Balanced tokens leave open what was open before. -/
theorem opened_foldl (balanced : Balanced ts) (l : Lookbehind) (shape : Bracket) :
    (ts.foldl push l).opened shape = l.opened shape := by
  induction balanced generalizing l shape with
  | nil => rfl
  | token opens closes => exact push_opened_of_neither opens closes
  | append _ _ ih ih' => rw [List.foldl_append, ih', ih]
  | enclose opens _ closes ih =>
    rw [List.foldl_cons, List.foldl_append, List.foldl_cons, List.foldl_nil]
    exact push_opened_of_pair opens closes (ih _)

end

theorem blocks_foldl (balanced : Balanced ts) (l : Lookbehind) :
    (ts.foldl push l).blocks = l.blocks :=
  opened_foldl balanced l .brace

end Lookbehind

/-- The brackets of a balanced list before one of its closing brackets: the partner, with what stands
between the two. -/
theorem Balanced.exists_opening {ts : List Token} (balanced : Balanced ts) {k : Nat} {close : Token}
    {shape : Bracket} (at_k : ts[k]? = some close) (closes : close.closes? = some shape) :
    ∃ before first inner, ts.take k = before ++ first :: inner ∧ first.opens? = some shape ∧
      Balanced inner := by
  induction balanced generalizing k with
  | nil => cases at_k
  | token _ closes' =>
    rw [List.getElem?_singleton] at at_k
    split at at_k
    · cases at_k
      rw [closes'] at closes
      cases closes
    · cases at_k
  | @append ts us _ _ ih ih' =>
    by_cases left : k < ts.length
    · rw [List.getElem?_append_left left] at at_k
      obtain ⟨before, first, inner, taken, opens, balanced⟩ := ih at_k
      exact ⟨before, first, inner, by rw [List.take_append_of_le_length (Nat.le_of_lt left), taken],
        opens, balanced⟩
    · rw [List.getElem?_append_right (Nat.not_lt.mp left)] at at_k
      obtain ⟨before, first, inner, taken, opens, balanced⟩ := ih' at_k
      refine ⟨ts ++ before, first, inner, ?_, opens, balanced⟩
      rw [List.take_append, List.take_of_length_le (Nat.not_lt.mp left), taken, List.append_assoc]
  | @enclose first last inner shape' opens balanced closes' ih =>
    cases k with
    | zero =>
      cases at_k
      rw [Token.closes?_of_opens? opens] at closes
      cases closes
    | succ k =>
      rw [List.getElem?_cons_succ] at at_k
      by_cases within : k < inner.length
      · rw [List.getElem?_append_left within] at at_k
        obtain ⟨before, first', inner', taken, opens', balanced'⟩ := ih at_k
        refine ⟨first :: before, first', inner', ?_, opens', balanced'⟩
        rw [List.take_succ_cons, List.take_append_of_le_length (Nat.le_of_lt within), taken]
        rfl
      · have inside := (List.getElem?_eq_some_iff.mp at_k).1
        rw [List.length_append, List.length_singleton] at inside
        obtain rfl : k = inner.length := by omega
        rw [List.getElem?_append_right (Nat.le_refl _), Nat.sub_self] at at_k
        cases at_k
        rw [closes'] at closes
        cases closes
        exact ⟨[], first, inner, by simp, opens, balanced⟩

/-- That opening bracket is the partner, in the tokens as a whole. -/
theorem partner_of_balanced {ts before inner : List Token} {k : Nat} {close first : Token}
    {shape : Bracket} (at_k : ts[k]? = some close) (closes : close.closes? = some shape)
    (taken : ts.take k = before ++ first :: inner) (opens : first.opens? = some shape)
    (balanced : Balanced inner) : (matchBrackets ts)[before.length]? = some (some k) := by
  have opened : (bracketsTo ts k).opened =
      (before.length, shape) :: (before.foldl BracketScan.step .start).opened := by
    rw [bracketsTo, taken, List.foldl_append, List.foldl_cons, balanced.opened_foldl,
      BracketScan.step_of_opens opens, BracketScan.enter, BracketScan.size_foldl]
    exact congrArg (fun n => (n, shape) :: _) (Nat.zero_add _)
  exact partner_of_opened at_k closes opened

/-- In balanced tokens partners are partners of each other. -/
theorem Balanced.partner_symm {ts : List Token} (balanced : Balanced ts) {m n : Nat} {t : Token}
    (at_m : ts[m]? = some t) (bracket : t.isBracket = true)
    (partner : (matchBrackets ts)[m]? = some (some n)) :
    (matchBrackets ts)[n]? = some (some m) := by
  obtain ⟨k, _, same, back⟩ := balanced.partner [] at_m bracket
  rw [List.append_nil] at same back
  rw [partner] at same
  cases same
  exact back

/-- Each token with a text is a lexeme behind the ones before it. -/
theorem Lexed.lexeme_at {l : Lookbehind} {ts : List Token} (h : Lexed l ts) {n : Nat} {t : Token}
    (at_n : ts[n]? = some t) (spelled : t.lexeme ≠ "") :
    Lexeme ((ts.take n).foldl Lookbehind.push l).afterOperand t.kind t.readFlags
      t.lexeme.toList := by
  induction h generalizing n with
  | last _ empty _ =>
    rw [List.getElem?_singleton] at at_n
    split at at_n
    · cases at_n
      exact absurd empty spelled
    · cases at_n
  | token lexeme _ ih =>
    cases n with
    | zero =>
      cases at_n
      exact lexeme
    | succ n => exact ih at_n

theorem marks_slash_operator : ∀ mark ∈ marks, mark.head? = some '/' →
    markKind mark = .operator := by
  decide +kernel

/-- A lexeme with a slash in front is a regular expression where no operand stands before it, and an
operator behind one. -/
theorem Lexeme.slash {afterOperand : Bool} {kind : TokenKind} {flags : TokenFlags}
    {text : List Char} (h : Lexeme afterOperand kind flags text) (slash : text.head? = some '/') :
    kind = if afterOperand then .operator else .regex := by
  cases h with
  | regex notAfter _ _ _ => rw [notAfter]; rfl
  | string quotes _ => rcases quotes with rfl | rfl <;> simp at slash
  | template _ => simp at slash
  | number valid =>
    cases valid with
    | radix _ _ => simp at slash
    | whole digit _ _ _ _ =>
      obtain rfl := Option.some.inj slash
      cases digit
    | point _ _ _ _ => simp at slash
  | word starts _ =>
    obtain rfl := Option.some.inj slash
    cases starts
  | mark mem operand =>
    rw [operand slash, marks_slash_operator _ mem slash]
    rfl

/-- A token with a slash in front is a regular expression where what was read before it ends no
operand. -/
theorem Lexed.kind_of_slash {l : Lookbehind} {ts : List Token} {n : Nat} {t : Token}
    (lexed : Lexed l ts) (at_n : ts[n]? = some t) (slash : t.beginsWithSlash = true) :
    t.kind = if ((ts.take n).foldl Lookbehind.push l).afterOperand then .operator else .regex := by
  have slash : t.lexeme.toList.head? = some '/' := eq_of_beq slash
  have spelled : t.lexeme ≠ "" := by
    rintro empty
    rw [empty] at slash
    cases slash
  exact (lexed.lexeme_at at_n spelled).slash slash

/-- Behind a bracket that closes balanced tokens it is one if the bracket before them opens a part of a
statement, and an operator otherwise. -/
theorem Lexed.slash_behind_bracket {ts before inner : List Token} {k : Nat}
    {close first next : Token} {shape : Bracket} (lexed : Lexed .start ts)
    (at_k : ts[k]? = some close) (closes : close.closes? = some shape)
    (taken : ts.take k = before ++ first :: inner) (opens : first.opens? = some shape)
    (balanced : Balanced inner) (at_next : ts[k + 1]? = some next)
    (slash : next.beginsWithSlash = true) :
    next.kind = if Lookbehind.opensPart shape (before.getLast?.map (·.kind))
      (before.dropLast.getLast?.map (·.kind)) then .regex else .operator := by
  have read : ts.take (k + 1) = before ++ first :: inner ++ [close] := by
    rw [List.take_add_one, at_k, taken]
    rfl
  rw [lexed.kind_of_slash at_next slash, read, List.foldl_append, List.foldl_append,
    List.foldl_cons, List.foldl_cons, List.foldl_nil, ← Lookbehind.last_foldl,
    ← Lookbehind.beforeLast_foldl]
  generalize before.foldl Lookbehind.push .start = l
  rw [Lookbehind.afterOperand_of_closes closes, Lookbehind.opened_foldl balanced,
    Lookbehind.opened_of_opens opens]
  cases Lookbehind.opensPart shape l.last l.beforeLast <;> rfl

theorem Token.isPunct_of_opens? {t : Token} (h : t.opens? = some .brace) :
    t.isPunct .openBrace = true := by
  unfold Token.opens? at h
  split at h
  · next p kind =>
    rw [Token.isPunct, kind]
    cases p <;> first | rfl | cases h
  · cases h

/-- In balanced tokens that is told by the tokens before the partner of the bracket. -/
theorem Lexed.slash_behind_closing {ts : List Token} {k : Nat} {close next : Token}
    {shape : Bracket} (lexed : Lexed .start ts) (balanced : Balanced ts)
    (at_k : ts[k]? = some close) (closes : close.closes? = some shape)
    (at_next : ts[k + 1]? = some next) (slash : next.beginsWithSlash = true) :
    ∃ first < ts.length, (matchBrackets ts)[k]? = some (some first) ∧
      next.kind = if Lookbehind.opensPart shape ((tokenBefore ts first).map (·.kind))
        ((tokenBefore ts (first - 1)).map (·.kind)) then .regex else .operator := by
  obtain ⟨before, bracket, inner, taken, opens, inside⟩ := balanced.exists_opening at_k closes
  have whole := (List.take_append_drop k ts).symm
  rw [taken, List.append_assoc, List.cons_append] at whole
  have at_first : ts[before.length]? = some bracket := by
    rw [whole, List.getElem?_append_right (Nat.le_refl _), Nat.sub_self]
    rfl
  have within : before.length < ts.length := (List.getElem?_eq_some_iff.mp at_first).1
  have prior : ts.take before.length = before := by rw [whole, List.take_left]
  have prior' : ts.take (before.length - 1) = before.dropLast := by
    rw [← List.dropLast_take within, prior]
  have partner := partner_of_balanced at_k closes taken opens inside
  refine ⟨before.length, within, ?_, ?_⟩
  · exact balanced.partner_symm at_first (by simp [Token.isBracket, opens]) partner
  · rw [tokenBefore, tokenBefore, prior, prior']
    exact lexed.slash_behind_bracket at_k closes taken opens inside at_next slash

theorem Lexed.slash_behind_partner {ts : List Token} {k : Nat} {close next : Token}
    (lexed : Lexed .start ts) (balanced : Balanced ts) (at_k : ts[k]? = some close)
    (closes : close.isPunct .closeBrace = true) (at_next : ts[k + 1]? = some next)
    (slash : next.beginsWithSlash = true) :
    ∃ first < ts.length, (matchBrackets ts)[k]? = some (some first) ∧
      next.kind = if Lookbehind.opensBlock ((tokenBefore ts first).map (·.kind)) then .regex
        else .operator :=
  lexed.slash_behind_closing balanced at_k (Builder.closes?_of_isPunct closes) at_next slash

end Scoping
