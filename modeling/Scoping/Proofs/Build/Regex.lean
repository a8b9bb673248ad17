import Scoping.Proofs.Build.Paired
import Scoping.Proofs.Build.Slash

/-!
# Division or regular expression

The lexer decides what a slash means before any bracket is matched, from two stacks of its own. Where
all brackets of a source have partners, what it decides can be told from the tokens and their partners
alone (`expectsRegex`): a slash begins a regular expression at the start, behind the header of a
statement, behind a block, and behind whatever else no expression can end with (`tokenize_slash`).
-/

namespace Scoping

open Builder

/-- The word of a statement that has its header in parentheses. -/
def Token.leadsHeader (t : Token) : Bool :=
  [Keyword.if_, .while_, .for_, .with_].any t.isKeyword

/-- A block of statements can stand behind the token. -/
def Token.leadsBlock (t : Token) : Bool :=
  [Punctuation.semicolon, .openBrace, .closeBrace, .closeParen, .arrow].any t.isPunct ||
    [Keyword.else_, .try_, .finally_, .do_].any t.isKeyword

/-- A parenthesis at the place opens the header of a statement: the word of one stands before it, or
`await` behind `for`. -/
def headsStatement (ts : List Token) (place : Nat) : Bool :=
  (tokenBefore ts place).any fun t =>
    t.leadsHeader || t.isKeyword .await && (tokenBefore ts (place - 1)).any (·.isKeyword .for_)

/-- A brace at the place opens a block of statements. -/
def beginsBlock (ts : List Token) (place : Nat) : Bool :=
  (tokenBefore ts place).all (·.leadsBlock)

/-- The partner of the token at the place. -/
def partnerOf? (ts : List Token) (place : Nat) : Option Nat := (matchBrackets ts)[place]?.join

/-- A slash at the place begins a regular expression: no token stands before it, or one that ends no
expression. A closing parenthesis ends none if it closes the header of a statement, nor does a closing
brace that closes a block. -/
def expectsRegex (ts : List Token) (place : Nat) : Bool :=
  match tokenBefore ts place with
  | none => true
  | some t =>
    if t.isPunct .closeParen then (partnerOf? ts (place - 1)).any (headsStatement ts)
    else if t.isPunct .closeBrace then (partnerOf? ts (place - 1)).any (beginsBlock ts)
    else !t.endsExpression

namespace Lookbehind

variable {ts : List Token} {t : Token}

/-- The lexer knows the headers of statements by the tokens before them. -/
theorem opensHeader_eq (ts : List Token) (place : Nat) :
    opensHeader ((tokenBefore ts place).map (·.kind))
      ((tokenBefore ts (place - 1)).map (·.kind)) = headsStatement ts place := by
  unfold headsStatement Token.leadsHeader Token.isKeyword
  generalize tokenBefore ts (place - 1) = prior
  cases tokenBefore ts place with
  | none => rfl
  | some t =>
    rw [Option.map_some, Option.any_some]
    cases t.kind with
    | keyword k => cases k <;> cases prior <;> simp [opensHeader]
    | _ => simp [opensHeader]

/-- It knows blocks by the token before them. -/
theorem opensBlock_eq (ts : List Token) (place : Nat) :
    opensBlock ((tokenBefore ts place).map (·.kind)) = beginsBlock ts place := by
  unfold beginsBlock Token.leadsBlock Token.isPunct Token.isKeyword
  cases tokenBefore ts place with
  | none => rfl
  | some t =>
    rw [Option.map_some, Option.all_some]
    cases t.kind with
    | keyword k => cases k <;> rfl
    | punctuation p => cases p <;> rfl
    | _ => rfl

/-- Behind a token that closes no parenthesis and no brace an operand has ended if an expression can end
with the token. -/
theorem afterOperand_of_other (l : Lookbehind) (notParen : t.isPunct .closeParen = false)
    (notBrace : t.isPunct .closeBrace = false) : (l.push t).afterOperand = t.endsExpression := by
  unfold Token.isPunct at notParen notBrace
  unfold push Token.endsExpression
  split <;> simp_all [Punctuation.isCloser, Punctuation.closes?]

end Lookbehind

/-- In balanced tokens a slash is what the partners say. -/
theorem Lexed.kind_of_balanced {ts : List Token} {place : Nat} {t : Token} (lexed : Lexed .start ts)
    (balanced : Balanced ts) (here : ts[place]? = some t) (slash : t.beginsWithSlash = true) :
    t.kind = if expectsRegex ts place then .regex else .operator := by
  unfold expectsRegex
  cases place with
  | zero => exact lexed.kind_of_slash here slash
  | succ k =>
    have inside : k < ts.length :=
      Nat.lt_of_succ_lt (List.getElem?_eq_some_iff.mp here).1
    have at_k := List.getElem?_eq_getElem inside
    generalize ts[k] = before at at_k
    have read : ts.take (k + 1) = ts.take k ++ [before] := by
      rw [List.take_add_one, at_k]
      rfl
    have last : tokenBefore ts (k + 1) = some before := by
      rw [tokenBefore, read, List.getLast?_concat]
    simp only [last, Nat.add_sub_cancel]
    cases paren : before.isPunct .closeParen with
    | true =>
      have closes : before.closes? = some .paren := closes?_of_isPunct paren
      obtain ⟨first, _, partner, kind⟩ :=
        lexed.slash_behind_closing balanced at_k closes here slash
      rw [kind, Lookbehind.opensPart, Lookbehind.opensHeader_eq, partnerOf?, partner]
      rfl
    | false =>
      cases brace : before.isPunct .closeBrace with
      | true =>
        have closes : before.closes? = some .brace := closes?_of_isPunct brace
        obtain ⟨first, _, partner, kind⟩ :=
          lexed.slash_behind_closing balanced at_k closes here slash
        rw [kind, Lookbehind.opensPart, Lookbehind.opensBlock_eq, partnerOf?, partner]
        rfl
      | false =>
        rw [lexed.kind_of_slash here slash, read, List.foldl_append, List.foldl_cons,
          List.foldl_nil, Lookbehind.afterOperand_of_other _ paren brace]
        cases before.endsExpression <;> rfl

/-- In a source with all its brackets paired, a token with a slash in front is a regular expression
where one is expected, and an operator anywhere else. -/
theorem tokenize_slash {source : String} {limit : Option Nat} {ts : List Token}
    (lexed : tokenize source limit = .ok ts) (paired : allPaired (significant ts) = true)
    {place : Nat} {t : Token} (here : (significant ts)[place]? = some t)
    (slash : t.beginsWithSlash = true) :
    t.kind = if expectsRegex (significant ts) place then .regex else .operator :=
  (tokenize_ok_iff.mp lexed).lexed.1.kind_of_balanced (balanced_iff_allPaired.mpr paired) here slash

/-- Behind a header with a call in it stands a regular expression, behind the call itself a division. -/
theorem tokenize_slash_header : ∃ ts t u,
    tokenize "if (f(a) / 2) /b/" none = .ok ts ∧ allPaired (significant ts) = true ∧
      (significant ts)[6]? = some t ∧ t.beginsWithSlash = true ∧ t.kind = .operator ∧
      (significant ts)[9]? = some u ∧ u.beginsWithSlash = true ∧ u.kind = .regex := by
  have made : (tokenize "if (f(a) / 2) /b/" none).toOption.bind (fun ts =>
      (significant ts)[6]?.bind fun t => (significant ts)[9]?.map fun u =>
        allPaired (significant ts) && t.beginsWithSlash && u.beginsWithSlash &&
          !expectsRegex (significant ts) 6 && expectsRegex (significant ts) 9) = some true := by
    decide +kernel
  obtain ⟨ts, lexed, made⟩ := Option.bind_eq_some_iff.mp made
  obtain ⟨t, at_t, made⟩ := Option.bind_eq_some_iff.mp made
  obtain ⟨u, at_u, holds⟩ := Option.map_eq_some_iff.mp made
  simp only [Bool.and_eq_true, Bool.not_eq_true'] at holds
  obtain ⟨⟨⟨⟨paired, slash_t⟩, slash_u⟩, divides⟩, begins⟩ := holds
  have lexed := ok_of_toOption lexed
  have kind_t := tokenize_slash lexed paired at_t slash_t
  have kind_u := tokenize_slash lexed paired at_u slash_u
  rw [divides] at kind_t
  rw [begins] at kind_u
  exact ⟨ts, t, u, lexed, paired, at_t, slash_t, kind_t, at_u, slash_u, kind_u⟩

end Scoping
