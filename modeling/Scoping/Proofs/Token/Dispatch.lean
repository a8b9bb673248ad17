import Scoping.Proofs.Text.Cursor
import Scoping.Token.Lexer

/-!
# Which reader a token is given to

The first character of a token and the next one decide which reader is asked. `readerFor` is that
choice apart from the reading, and the two together are what the lexer does (`readToken_eq`).
`AsksFor` says what each reader is chosen for. So a fact about tokens is proved for one reader at a
time, and two places where the choice is the same are compared reader by reader.

Nothing is said here about what a reader takes from the text.
-/

namespace Scoping

/-- The readers of tokens, by what they read. -/
inductive TokenReader where
  | script
  | line
  | block
  | regex
  | string
  | template
  | number
  | word
  | mark
  deriving DecidableEq, Repr, Inhabited

/-- The reader for the token that begins with `first`, before the text `more`. -/
def readerFor (afterOperand : Bool) (c : Cursor) (first : Char) (more : List Char) : TokenReader :=
  let next := more.head?
  if first == '#' && c.offset == 0 && next == some '!' then .script
  else if first == '/' && next == some '/' then .line
  else if first == '/' && next == some '*' then .block
  else if first == '/' && !afterOperand then .regex
  else if first == '\'' || first == '"' then .string
  else if first == '\x60' then .template
  else if isDigit first || (first == '.' && next.any isDigit) then .number
  else if startsName first then .word
  else .mark

/-- What the reader makes of the text. -/
def TokenReader.read (c : Cursor) (first : Char) (more : List Char) : TokenReader → Reader Reading
  | .script => .ok ⟨.comment, .none, c.skipLine⟩
  | .line => .ok ⟨.comment, .none, c.skipLine⟩
  | .block => (blockComment c).map fun stop =>
    ⟨.comment, { TokenFlags.none with blockComment := true }, stop⟩
  | .regex => (regexLiteral c).map fun stop => ⟨.regex, .none, stop⟩
  | .string => (stringLiteral first c).map fun stop => ⟨.string, .none, stop⟩
  | .template => (templateLiteral c).map fun (found, stop) =>
    ⟨.string, { TokenFlags.none with template := true, substitution := found }, stop⟩
  | .number => .ok ⟨.number, .none, c.skipNumber⟩
  | .word =>
    let stop := c.skipWhile continuesName
    .ok ⟨wordKind (c.textTo stop), .none, stop⟩
  | .mark =>
    match markAt? (first :: more) with
    | some found => .ok ⟨markKind found, .none, c.skipMark found⟩
    | none => .error ⟨⟨c.offset, .unexpectedCharacter first⟩, c⟩

/-- What each reader is chosen for: the character it begins at and the text behind that. -/
inductive AsksFor (afterOperand : Bool) (c : Cursor) : Char → List Char → TokenReader → Prop
  | script {more : List Char} : c.offset = 0 → AsksFor afterOperand c '#' ('!' :: more) .script
  | line {more : List Char} : AsksFor afterOperand c '/' ('/' :: more) .line
  | block {more : List Char} : AsksFor afterOperand c '/' ('*' :: more) .block
  | regex {more : List Char} : afterOperand = false → Stops (fun x => x == '/' || x == '*') more →
    AsksFor afterOperand c '/' more .regex
  | string {quote : Char} {more : List Char} : quote = '\'' ∨ quote = '"' →
    AsksFor afterOperand c quote more .string
  | template {more : List Char} : AsksFor afterOperand c '\x60' more .template
  | number {first : Char} {more : List Char} :
    isDigit first = true ∨ first = '.' ∧ more.head?.any isDigit = true →
    AsksFor afterOperand c first more .number
  | word {first : Char} {more : List Char} : startsName first = true →
    AsksFor afterOperand c first more .word
  | mark {first : Char} {more : List Char} :
    (first = '/' → afterOperand = true ∧ Stops (fun x => x == '/' || x == '*') more) →
    AsksFor afterOperand c first more .mark

/-! ## What is read -/

section
variable {α β ε : Type} {f : α → β} {x : Except ε α}

theorem exists_of_map_ok {b : β} (h : x.map f = .ok b) : ∃ a, x = .ok a ∧ f a = b := by
  cases x with
  | error e => cases h
  | ok a => exact ⟨a, rfl, Except.ok.inj h⟩

theorem of_map_error {e : ε} (h : x.map f = .error e) : x = .error e := by
  cases x with
  | error e => exact congrArg _ (Except.error.inj h)
  | ok a => cases h

end

section
variable {afterOperand : Bool} {c : Cursor} {first : Char} {more : List Char} {r : Reading}

theorem TokenReader.mark_ok (h : TokenReader.mark.read c first more = .ok r) :
    ∃ mark, markAt? (first :: more) = some mark ∧ ⟨markKind mark, .none, c.skipMark mark⟩ = r := by
  rw [TokenReader.read] at h
  split at h
  · next mark found => exact ⟨mark, found, Except.ok.inj h⟩
  · cases h

/-- To read a token is to choose a reader and to ask it. -/
theorem readToken_eq : readToken afterOperand c first more =
    (readerFor afterOperand c first more).read c first more := by
  simp only [readToken, readerFor, apply_ite (TokenReader.read c first more)]
  simp only [TokenReader.read]
  cases blockComment c <;> cases regexLiteral c <;> cases stringLiteral first c <;>
    cases templateLiteral c <;> rfl

theorem asksFor_readerFor (afterOperand : Bool) (c : Cursor) (first : Char) (more : List Char) :
    AsksFor afterOperand c first more (readerFor afterOperand c first more) := by
  unfold readerFor
  dsimp only
  split
  · next shebang =>
    simp only [Bool.and_eq_true, beq_iff_eq] at shebang
    obtain ⟨⟨rfl, atStart⟩, next⟩ := shebang
    obtain ⟨more, rfl⟩ := List.head?_eq_some_iff.mp next
    exact .script atStart
  split
  · next slashes =>
    simp only [Bool.and_eq_true, beq_iff_eq] at slashes
    obtain ⟨rfl, next⟩ := slashes
    obtain ⟨more, rfl⟩ := List.head?_eq_some_iff.mp next
    exact .line
  next notLine =>
  split
  · next opens =>
    simp only [Bool.and_eq_true, beq_iff_eq] at opens
    obtain ⟨rfl, next⟩ := opens
    obtain ⟨more, rfl⟩ := List.head?_eq_some_iff.mp next
    exact .block
  next notBlock =>
  have divides (slash : first = '/') : Stops (fun x => x == '/' || x == '*') more := by
    subst slash
    cases more with
    | nil => rfl
    | cons y more => simpa [Stops] using And.intro notLine notBlock
  split
  · next slash =>
    simp only [Bool.and_eq_true, beq_iff_eq, Bool.not_eq_true'] at slash
    obtain ⟨rfl, notAfter⟩ := slash
    exact .regex notAfter (divides rfl)
  next notRegex =>
  split
  · next quotes => exact .string (by simpa using quotes)
  split
  · next quote =>
    obtain rfl := eq_of_beq quote
    exact .template
  split
  · next number => exact .number (by simpa using number)
  split
  · next word => exact .word word
  · refine .mark fun slash => ⟨?_, divides slash⟩
    subst slash
    simpa using notRegex

/-- A token that is read, by the reader that is chosen. -/
theorem exists_reader (afterOperand : Bool) (c : Cursor) (first : Char) (more : List Char) :
    ∃ reader : TokenReader, AsksFor afterOperand c first more reader ∧
      readToken afterOperand c first more = reader.read c first more :=
  ⟨_, asksFor_readerFor afterOperand c first more, readToken_eq⟩

end

end Scoping
