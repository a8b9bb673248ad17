import Scoping.Proofs.Token.Layout

/-!
# What stands in a substitution

The reader of a substitution and the lexer look at the same text with different eyes. Both pass over
strings, templates and comments whole and take braces for what they are; all else the reader of a
substitution takes one character after the other. So a text that can be cut into tokens, its braces
closed in turn, is what stands in a substitution (`Lexer.Gives.code`), and a template around it is one
token (`tokenize_substitution`).

The exception are regular expressions, which the reader of a substitution does not know. One may
stand there if its characters mean nothing else to that reader (`bracesBehind`).
-/

namespace Scoping

/-! ## Characters that are taken one by one -/

/-- A character that means nothing to the reader of a substitution, whatever comes next. -/
def isInert (x : Char) : Bool :=
  x != '\x7b' && x != '\x7d' && x != '\'' && x != '"' && x != '\x60' && x != '/'

/-- A character that makes a comment of a slash before it. -/
def opensComment (x : Char) : Bool := x == '/' || x == '*'

/-- How many braces are open behind a text when `depth` are open before it and its characters are
taken one by one. There is no answer if one is a quote, closes a brace too many, or begins a comment,
which may take the first character of the text `behind`. -/
def bracesBehind (behind : List Char) (depth : Nat) : List Char → Option Nat
  | [] => some depth
  | x :: text =>
    if x == '\x7b' then bracesBehind behind (depth + 1) text
    else if x == '\x7d' then
      if depth = 0 then none else bracesBehind behind (depth - 1) text
    else if x == '\'' || x == '"' || x == '\x60' then none
    else if x == '/' && (text ++ behind).head?.any opensComment then none
    else bracesBehind behind depth text

section
variable {behind more text rest : List Char} {depth n : Nat}

/-- What matters of the text behind is whether it makes a comment of a slash before it. -/
theorem bracesBehind_congr (same : behind.head?.any opensComment = more.head?.any opensComment) :
    bracesBehind behind depth text = bracesBehind more depth text := by
  induction text generalizing depth with
  | nil => rfl
  | cons x text ih =>
    have next : (text ++ behind).head?.any opensComment = (text ++ more).head?.any opensComment := by
      cases text with
      | nil => exact same
      | cons y text => rfl
    simp only [bracesBehind, ih, next]

/-- What it takes to take one more character. -/
theorem bracesBehind_cons_iff {x : Char} : bracesBehind behind depth (x :: text) = some n ↔
    (x = '\x7b' ∧ bracesBehind behind (depth + 1) text = some n) ∨
      (x = '\x7d' ∧ ∃ d, depth = d + 1 ∧ bracesBehind behind d text = some n) ∨
      (x ≠ '\x7b' ∧ x ≠ '\x7d' ∧ (x ≠ '\'' ∧ x ≠ '"' ∧ x ≠ '\x60') ∧
        ¬ (x = '/' ∧ (text ++ behind).head?.any opensComment = true) ∧
        bracesBehind behind depth text = some n) := by
  rw [bracesBehind]
  by_cases enters : x = '\x7b'
  · simp [enters]
  by_cases leaves : x = '\x7d'
  · cases depth <;> simp [leaves]
  simp only [beq_iff_eq, enters, leaves, if_false, false_and, false_or, Bool.or_eq_true,
    Bool.and_eq_true, ne_eq, not_false_eq_true, true_and, Option.ite_none_left_eq_some, not_or,
    and_assoc]

/-- More braces that are open before are open behind as well. -/
theorem bracesBehind_add {m : Nat} (h : bracesBehind behind depth text = some n) :
    bracesBehind behind (depth + m) text = some (n + m) := by
  induction text generalizing depth with
  | nil =>
    cases h
    rfl
  | cons x text ih =>
    refine bracesBehind_cons_iff.mpr ?_
    rcases bracesBehind_cons_iff.mp h with ⟨rfl, inside⟩ | ⟨rfl, d, rfl, outside⟩ |
      ⟨notEnter, notLeave, notQuote, notComment, further⟩
    · exact .inl ⟨rfl, Nat.add_right_comm depth m 1 ▸ ih inside⟩
    · exact .inr (.inl ⟨rfl, d + m, Nat.add_right_comm d 1 m, ih outside⟩)
    · exact .inr (.inr ⟨notEnter, notLeave, notQuote, notComment, ih further⟩)

/-- Text whose characters are taken one by one leads from what stands in a substitution to more of
it. -/
theorem TemplateBody.code_append (h : bracesBehind rest depth text = some n)
    (code : TemplateBody (.code n) rest) : TemplateBody (.code depth) (text ++ rest) := by
  induction text generalizing depth with
  | nil =>
    cases h
    exact code
  | cons x text ih =>
    rcases bracesBehind_cons_iff.mp h with ⟨rfl, inside⟩ | ⟨rfl, d, rfl, outside⟩ |
      ⟨notEnter, notLeave, ⟨notSingle, notDouble, notTemplate⟩, notComment, further⟩
    · exact .enter (ih inside)
    · exact .leave (ih outside)
    · refine .other notEnter notLeave notSingle notDouble notTemplate ?_ (ih further)
      rintro ⟨rfl, next⟩
      refine notComment ⟨rfl, (Option.any_eq_true _ _).mpr ?_⟩
      rcases next with next | next
      · exact ⟨'/', next, rfl⟩
      · exact ⟨'*', next, rfl⟩

/-- A slash that begins no comment is one of them. -/
theorem bracesBehind_slash (noComment : (text ++ behind).head?.any opensComment = false) :
    bracesBehind behind depth ('/' :: text) = bracesBehind behind depth text := by
  rw [bracesBehind, noComment]
  simp

/-- Inert characters lead to more of the same. -/
theorem bracesBehind_of_isInert (all : text.all isInert = true) :
    bracesBehind behind depth text = some depth := by
  induction text with
  | nil => rfl
  | cons x text ih =>
    rw [List.all_cons, Bool.and_eq_true] at all
    have inert := all.1
    simp only [isInert, Bool.and_eq_true, bne_iff_ne] at inert
    obtain ⟨⟨⟨⟨⟨notEnter, notLeave⟩, notSingle⟩, notDouble⟩, notTemplate⟩, notSlash⟩ := inert
    exact bracesBehind_cons_iff.mpr (.inr (.inr ⟨notEnter, notLeave,
      ⟨notSingle, notDouble, notTemplate⟩, fun h => notSlash h.1, ih all.2⟩))

end

/-! ## The characters of lexemes -/

theorem isInert_of_isGap {x : Char} (h : isGap x = true) : isInert x = true := by
  simp only [isInert, Bool.and_eq_true, bne_iff_ne]
  refine ⟨⟨⟨⟨⟨?_, ?_⟩, ?_⟩, ?_⟩, ?_⟩, ?_⟩ <;> rintro rfl <;> cases h

theorem isInert_of_continuesName {x : Char} (h : continuesName x = true) : isInert x = true := by
  simp only [isInert, Bool.and_eq_true, bne_iff_ne]
  refine ⟨⟨⟨⟨⟨?_, ?_⟩, ?_⟩, ?_⟩, ?_⟩, ?_⟩ <;> rintro rfl <;> cases h

theorem isInert_of_continuesDigits {x : Char} (h : continuesDigits x = true) : isInert x = true := by
  simp only [isInert, Bool.and_eq_true, bne_iff_ne]
  refine ⟨⟨⟨⟨⟨?_, ?_⟩, ?_⟩, ?_⟩, ?_⟩, ?_⟩ <;> rintro rfl <;> cases h

theorem isInert_of_continuesNumber {x : Char} (h : continuesNumber x = true) : isInert x = true := by
  simp only [isInert, Bool.and_eq_true, bne_iff_ne]
  refine ⟨⟨⟨⟨⟨?_, ?_⟩, ?_⟩, ?_⟩, ?_⟩, ?_⟩ <;> rintro rfl <;> cases h

section
variable {text rest : List Char}

theorem all_isInert {p : Char → Bool} (inert : ∀ {x}, p x = true → isInert x = true)
    (all : text.all p = true) : text.all isInert = true :=
  List.all_eq_true.mpr fun x mem => inert (List.all_eq_true.mp all x mem)

theorem Fraction.inert (h : Fraction text) : text.all isInert = true := by
  cases h with
  | none => rfl
  | point all =>
    rw [List.all_cons, all_isInert isInert_of_continuesDigits all]
    rfl

theorem Exponent.inert (h : Exponent text) : text.all isInert = true := by
  have digit {x : Char} (h : isDigit x = true) : isInert x = true :=
    isInert_of_continuesDigits (continuesDigits_of_isDigit h)
  have letter {x : Char} (h : x = 'e' ∨ x = 'E') : isInert x = true := by
    rcases h with rfl | rfl <;> rfl
  cases h with
  | none => rfl
  | plain mark first all =>
    simp only [List.all_cons, letter mark, digit first, all_isInert isInert_of_continuesDigits all,
      Bool.and_self]
  | @signed _ sign _ _ mark plusOrMinus first all =>
    have sign : isInert sign = true := by rcases plusOrMinus with rfl | rfl <;> rfl
    simp only [List.all_cons, letter mark, sign, digit first,
      all_isInert isInert_of_continuesDigits all, Bool.and_self]

theorem NumberText.inert (h : NumberText text) : text.all isInert = true := by
  have digit {x : Char} (h : isDigit x = true) : isInert x = true :=
    isInert_of_continuesDigits (continuesDigits_of_isDigit h)
  have suffix {cs : List Char} (h : cs = [] ∨ cs = ['n']) : cs.all isInert = true := by
    rcases h with rfl | rfl <;> rfl
  cases h with
  | @radix letter _ mark all =>
    have letter : isInert letter = true := by
      simp only [marksRadix, Bool.or_eq_true, beq_iff_eq] at mark
      rcases mark with ((((rfl | rfl) | rfl) | rfl) | rfl) | rfl <;> rfl
    rw [List.all_cons, List.all_cons, letter, all_isInert isInert_of_continuesNumber all]
    rfl
  | whole first all fraction exponent big =>
    simp only [List.all_cons, List.all_append, digit first,
      all_isInert isInert_of_continuesDigits all, fraction.inert, exponent.inert, suffix big,
      Bool.and_self]
  | point first all exponent big =>
    simp only [List.all_cons, List.all_append, digit first,
      all_isInert isInert_of_continuesDigits all, exponent.inert, suffix big, Bool.and_true]
    rfl

/-- All of a mark is inert but a brace, which is a mark of its own, and a slash, which comes first. -/
theorem marks_inert : ∀ mark ∈ marks, markKind mark = .punctuation .openBrace ∨
    markKind mark = .punctuation .closeBrace ∨
    mark.tail.all isInert = true ∧ (mark.head?.all isInert = true ∨ mark.head? = some '/') := by
  decide +kernel

/-- A mark of structure is spelled as it is written. -/
theorem Lexeme.eq_of_punctuation {afterOperand : Bool} {p : Punctuation} {flags : TokenFlags}
    (h : Lexeme afterOperand (.punctuation p) flags text) : text = p.text.toList := by
  generalize kind : TokenKind.punctuation p = k at h
  cases h with
  | word _ _ =>
    unfold wordKind at kind
    split at kind <;> cases kind
  | mark _ _ =>
    unfold markKind at kind
    split at kind
    · next found =>
      cases kind
      rw [Punctuation.text_of_ofText? found, String.toList_ofList]
    · cases kind
  | _ => cases kind

/-- A token of some kind stands between as many open braces before and behind it. -/
inductive Nests : TokenKind → Nat → Nat → Prop
  | enter {depth : Nat} : Nests (.punctuation .openBrace) depth (depth + 1)
  | leave {depth : Nat} : Nests (.punctuation .closeBrace) (depth + 1) depth
  | pass {kind : TokenKind} {depth : Nat} : kind ≠ .punctuation .openBrace →
    kind ≠ .punctuation .closeBrace → Nests kind depth depth

theorem markKind_ne_regex (mark : List Char) : markKind mark ≠ .regex := by
  unfold markKind
  split <;> simp

/-- What stands in a substitution may have a lexeme before it. A regular expression has to consist of
characters that are taken one by one, and a slash must not begin a comment. -/
theorem Lexeme.code {afterOperand : Bool} {kind : TokenKind} {flags : TokenFlags} {depth n : Nat}
    (lexeme : Lexeme afterOperand kind flags text) (nests : Nests kind depth n)
    (regex : kind = .regex → bracesBehind rest 0 text = some 0)
    (divides : text.head? = some '/' → kind ≠ .regex →
      (text.tail ++ rest).head?.any opensComment = false)
    (code : TemplateBody (.code n) rest) : TemplateBody (.code depth) (text ++ rest) := by
  cases nests with
  | enter =>
    rw [lexeme.eq_of_punctuation]
    exact .enter code
  | leave =>
    rw [lexeme.eq_of_punctuation]
    exact .leave code
  | pass notEnter notLeave =>
  cases lexeme with
  | regex _ _ _ _ =>
    have passes := bracesBehind_add (m := depth) (regex rfl)
    rw [Nat.zero_add] at passes
    exact code.code_append passes
  | string quotes valid => exact .string quotes valid code
  | template valid => exact .template valid code
  | number valid => exact code.code_append (bracesBehind_of_isInert valid.inert)
  | @word x body word all =>
    have inert : (x :: body).all continuesName = true := by
      rw [List.all_cons, all, Bool.and_true, continuesName, word, Bool.true_or]
    exact code.code_append (bracesBehind_of_isInert (all_isInert isInert_of_continuesName inert))
  | mark mem _ =>
    rcases marks_inert _ mem with enter | leave | ⟨inert, first⟩
    · exact absurd enter notEnter
    · exact absurd leave notLeave
    · refine code.code_append ?_
      obtain ⟨x, body, rfl⟩ := List.exists_cons_of_ne_nil (marks_ne_nil _ mem)
      rcases first with plain | slash
      · refine bracesBehind_of_isInert ?_
        rw [List.all_cons, Bool.and_eq_true]
        exact ⟨plain, inert⟩
      · cases slash
        exact (bracesBehind_slash (divides rfl (markKind_ne_regex _))).trans
          (bracesBehind_of_isInert inert)

end

/-! ## Tokens -/

/-- No comment begins with a slash that another token begins with. -/
theorem readToken_divides {afterOperand : Bool} {c : Cursor} {more : List Char} {r : Reading}
    (h : readToken afterOperand c '/' more = .ok r) (notComment : r.kind ≠ .comment) :
    more.head?.any opensComment = false := by
  obtain ⟨reader, asks, read⟩ := exists_reader afterOperand c '/' more
  rw [read] at h
  cases asks with
  | line =>
    cases h
    exact absurd rfl notComment
  | block =>
    obtain ⟨_, _, rfl⟩ := exists_of_map_ok h
    exact absurd rfl notComment
  | regex _ divides => exact divides
  | mark divides => exact (divides rfl).2
  | string quotes => exact absurd quotes (by decide)
  | number digit => exact absurd digit (by simp [isDigit])
  | word word => cases word

/-- What stands in a substitution may have a token before it, as the lexer reads it, when a line end
comes behind all of it. -/
theorem readToken_code {afterOperand : Bool} {c : Cursor} {first : Char} {more : List Char}
    {r : Reading} {depth n : Nat} {after : List Char} (left : c.rest = first :: more)
    (found : readToken afterOperand c first more = .ok r)
    (noScript : c.offset = 0 → ¬ ['#', '!'] <+: c.rest) (nests : Nests r.kind depth n)
    (regex : ∀ text, r.kind = .regex → c.Spells r.stop text →
      bracesBehind r.stop.rest 0 text = some 0)
    (code : TemplateBody (.code n) (r.stop.rest ++ '\n' :: after)) :
    TemplateBody (.code depth) (c.rest ++ '\n' :: after) := by
  rcases readToken_cases left found with ⟨comment, stands⟩ | ⟨text, lexeme, spells⟩
  · have same : n = depth := by
      rw [comment] at nests
      cases nests
      rfl
    subst same
    cases stands with
    | script atStart spells _ _ => exact absurd ⟨_, spells.rest.symm⟩ (noScript atStart)
    | line spells all stops =>
      have ends : (r.stop.rest ++ '\n' :: after).head?.any isNewline = true := by
        unfold Stops at stops
        cases behind : r.stop.rest with
        | nil => rfl
        | cons y rest =>
          rw [behind] at stops
          simpa using stops
      rw [spells.rest, List.append_assoc]
      exact .line all ends code
    | block spells valid =>
      rw [spells.rest, List.append_assoc]
      exact .comment valid code
  · rw [spells.rest, List.append_assoc]
    refine lexeme.code nests (fun isRegex => ?_) (fun slash notRegex => ?_) code
    · have same : r.stop.rest.head?.any opensComment =
          (r.stop.rest ++ '\n' :: after).head?.any opensComment := by
        cases r.stop.rest <;> rfl
      rw [← bracesBehind_congr same]
      exact regex text isRegex spells
    · have begins := spells.head? lexeme.ne_nil
      rw [left, List.head?_cons, slash] at begins
      cases begins
      have divides := readToken_divides found lexeme.significant.2
      obtain ⟨body, rfl⟩ := List.head?_eq_some_iff.mp slash
      have behind : more = body ++ r.stop.rest := by
        have rest := spells.rest
        rw [left] at rest
        exact (List.cons.inj rest).2
      rw [behind] at divides
      rw [List.tail_cons, ← List.append_assoc]
      cases text : body ++ r.stop.rest with
      | nil => rfl
      | cons y ys => rwa [text] at divides

/-! ## Substitutions -/

/-- Behind `depth` open braces the brace tokens close all that are open in the end, and at no point more
than are. -/
structure Balances (depth : Nat) (ts : List Token) : Prop where
  never : ∀ n ≤ ts.length, (ts.take n).countP (·.isPunct .closeBrace) ≤
    depth + (ts.take n).countP (·.isPunct .openBrace)
  total : ts.countP (·.isPunct .closeBrace) = depth + ts.countP (·.isPunct .openBrace)

instance (depth : Nat) (ts : List Token) : Decidable (Balances depth ts) :=
  decidable_of_iff ((∀ n ≤ ts.length, (ts.take n).countP (·.isPunct .closeBrace) ≤
      depth + (ts.take n).countP (·.isPunct .openBrace)) ∧
      ts.countP (·.isPunct .closeBrace) = depth + ts.countP (·.isPunct .openBrace))
    ⟨fun ⟨never, total⟩ => ⟨never, total⟩, fun ⟨never, total⟩ => ⟨never, total⟩⟩

namespace Balances

variable {depth : Nat} {t : Token} {ts : List Token}

/-- Behind a token as many braces are open as before, but for the token itself. -/
theorem tail (h : Balances depth (t :: ts)) :
    (t.isPunct .closeBrace).toNat ≤ depth + (t.isPunct .openBrace).toNat ∧
      Balances (depth + (t.isPunct .openBrace).toNat - (t.isPunct .closeBrace).toNat) ts := by
  have count (p : Punctuation) (us : List Token) : (t :: us).countP (·.isPunct p) =
      us.countP (·.isPunct p) + (t.isPunct p).toNat := by
    rw [List.countP_cons]
    cases t.isPunct p <;> rfl
  have first := h.never 1 (Nat.succ_le_succ (Nat.zero_le _))
  rw [List.take_succ_cons, count, count, List.take_zero, List.countP_nil, List.countP_nil,
    Nat.zero_add, Nat.zero_add] at first
  refine ⟨first, fun n le => ?_, ?_⟩
  · have before := h.never (n + 1) (Nat.succ_le_succ le)
    rw [List.take_succ_cons, count, count] at before
    omega
  · have total := h.total
    rw [count, count] at total
    omega

/-- A token that does not close too many stands between as many braces as are open. -/
theorem nests (h : Balances depth (t :: ts)) : ∃ n, Nests t.kind depth n ∧ Balances n ts := by
  obtain ⟨positive, rest⟩ := h.tail
  by_cases enter : t.kind = .punctuation .openBrace
  · have opens : t.isPunct .openBrace = true := by rw [Token.isPunct, enter]; rfl
    have notCloses : t.isPunct .closeBrace = false := by rw [Token.isPunct, enter]; rfl
    rw [opens, notCloses] at rest
    exact ⟨depth + 1, enter ▸ .enter, rest⟩
  have notOpens : t.isPunct .openBrace = false := by simpa [Token.isPunct] using enter
  by_cases leave : t.kind = .punctuation .closeBrace
  · have closes : t.isPunct .closeBrace = true := by rw [Token.isPunct, leave]; rfl
    rw [notOpens, closes] at positive rest
    obtain ⟨outer, rfl⟩ := Nat.exists_eq_succ_of_ne_zero (Nat.ne_of_gt positive)
    exact ⟨outer, leave ▸ .leave, rest⟩
  · have notCloses : t.isPunct .closeBrace = false := by simpa [Token.isPunct] using leave
    rw [notOpens, notCloses] at rest
    exact ⟨depth, .pass enter leave, rest⟩

end Balances

/-- A token that is a regular expression has a text whose characters the reader of a substitution takes
one by one, with as many braces open behind it as before. -/
def Token.Plain (source : List Char) (t : Token) : Prop :=
  t.kind = .regex →
    bracesBehind ((dropBytes? t.span.stop source).getD []) 0 t.lexeme.toList = some 0

instance (source : List Char) (t : Token) : Decidable (t.Plain source) :=
  inferInstanceAs (Decidable (_ → _))

/-- A text that can be cut into tokens, its braces closed in turn, is what stands in a substitution. -/
theorem Lexer.Gives.code {lx : Lexer} {ts : List Token} (gives : lx.Gives ts) {depth : Nat}
    (balances : Balances depth ts) (noScript : lx.cursor.offset = 0 → ¬ ['#', '!'] <+: lx.cursor.rest)
    {before : List Char} (offset : byteSize before = lx.cursor.offset)
    (plain : ∀ t ∈ ts, t.Plain (before ++ lx.cursor.rest)) :
    TemplateBody (.code depth) (lx.cursor.rest ++ ['\n', '\x7d']) := by
  induction gives generalizing depth before with
  | @last lx behind t scanned atEnd =>
    have closed : depth = 0 := by
      have total := balances.total
      have kind : t.kind = .endOfInput := by simpa [Token.isEnd] using atEnd
      simpa [Token.isPunct, kind] using total.symm
    obtain ⟨gap, blank, ⟨left, _⟩ | ⟨_, _, _, _, notEnd, _⟩⟩ := scan_ok scanned
    · have ending : TemplateBody (.code 0) ('\n' :: ['\x7d']) :=
        .other (by decide) (by decide) (by decide) (by decide) (by decide)
          (fun slash => absurd slash.1 (by decide)) .finish
      rw [left, closed]
      exact ending.code_append (bracesBehind_of_isInert (all_isInert isInert_of_isGap blank))
    · rw [notEnd] at atEnd
      cases atEnd
  | @token lx behind t ts scanned notEnd _ ih =>
    obtain ⟨gap, first, more, r, blank, _, gapSpells, left, found, token, moved⟩ :=
      scan_read scanned notEnd
    obtain ⟨⟨body, some, spells⟩, _⟩ := readToken_advances left found
    have rest : behind.cursor.rest = r.stop.rest := by rw [moved, moved_rest]
    have further : behind.cursor.offset = r.stop.offset := by rw [moved, moved_offset]
    have passed : byteSize (before ++ (gap ++ body)) = behind.cursor.offset := by
      rw [further, spells.offset, gapSpells.offset, ← offset, byteSize_append, byteSize_append,
        Nat.add_assoc]
    have whole : before ++ lx.cursor.rest = before ++ (gap ++ body) ++ behind.cursor.rest := by
      rw [gapSpells.rest, spells.rest, rest, List.append_assoc, List.append_assoc]
    obtain ⟨n, nests, balances⟩ := balances.nests
    have started : behind.cursor.offset ≠ 0 := by
      have := byteSize_pos some
      rw [further, spells.offset]
      omega
    have inside := ih balances (fun atStart => absurd atStart started) passed fun u mem =>
      whole ▸ plain u (List.mem_cons_of_mem _ mem)
    have kind : t.kind = r.kind := by rw [token]; rfl
    rw [gapSpells.rest, List.append_assoc]
    refine TemplateBody.code_append
      (bracesBehind_of_isInert (all_isInert isInert_of_isGap blank)) ?_
    refine readToken_code left found ?noScript (kind ▸ nests) ?regex (rest ▸ inside)
    case noScript =>
      intro atStart script
      obtain ⟨atStart, rfl⟩ := gapSpells.eq_nil atStart
      exact noScript atStart (gapSpells.rest ▸ script)
    case regex =>
      intro text isRegex stands
      have isPlain := plain t List.mem_cons_self (kind.trans isRegex)
      have lexeme : t.lexeme.toList = text := by
        rw [token, tokenOf, stands.textTo, String.toList_ofList]
      have stop : t.span.stop = byteSize (before ++ (gap ++ body)) := by
        rw [passed, further, token]
        rfl
      rw [whole, stop, dropBytes?_append, Option.getD_some, rest, lexeme] at isPlain
      exact isPlain

/-- A template around a text that stands in its substitution is one token. -/
theorem tokenize_template {source : String} {body : List Char} {s : Bool}
    (text : source.toList = '\x60' :: body) (valid : TemplateBody (.text s) body) :
    tokenize source none = .ok
      [⟨.string, source, ⟨0, byteSize source.toList⟩,
        { TokenFlags.none with template := true, substitution := s }⟩,
       ⟨.endOfInput, "", .point (byteSize source.toList), .none⟩] := by
  let whole : Token := ⟨.string, source, ⟨0, byteSize source.toList⟩,
    { TokenFlags.none with template := true, substitution := s }⟩
  have lexeme : Lexeme (Lexer.start source none).lookbehind.afterOperand whole.kind whole.readFlags
      whole.lexeme.toList := by
    rw [text]
    exact .template valid
  have left : (Lexer.start source none).cursor.rest = [] ++ (whole.lexeme.toList ++ []) :=
    (List.append_nil _).symm
  obtain ⟨⟨_, _, span, _⟩, behind, scanned, content, _, nothing, clear, _⟩ :=
    Lexer.scan_lexeme lexeme left rfl rfl rfl rfl (n := 0) nofun
  obtain ⟨⟨_, _, point, _⟩, _, ended, last⟩ :=
    Lexer.scan_end (by rw [nothing]; rfl) clear
  rw [nothing] at last
  cases content
  cases last
  have lexed := tokenize_ok_iff.mpr (.token scanned rfl (.last ended rfl))
  have tiling := tokenize_tiling lexed
  have ends : point = .point (byteSize source.toList) := by
    obtain ⟨before, final, two, _, ends, _⟩ := tiling.exists_final
    have last := congrArg List.getLast? two
    rw [List.getLast?_concat] at last
    cases last
    simpa using ends
  -- The one token is all of the source, so there is no gap around it.
  have stands : span = ⟨0, byteSize source.toList⟩ := by
    obtain ⟨cs, all⟩ : ∃ cs, cs = source.toList := ⟨_, rfl⟩
    rw [← all] at tiling
    cases tiling with
    | @token _ gap body rest _ _ _ _ _ spelled stands _ =>
      have length := congrArg (fun t : String => t.toList.length) spelled
      simp only [String.toList_ofList, ← all, List.length_append] at length
      obtain rfl : gap = [] := List.length_eq_zero_iff.mp (by omega)
      obtain rfl : rest = [] := List.length_eq_zero_iff.mp (by omega)
      simpa [← all] using stands
  rw [stands, ends] at lexed
  exact lexed

/-- A text that can be cut into tokens can be put into a template as a substitution, on lines of its own:
the template is one token. Its braces have to be closed in turn, it must not begin as a script does,
and its regular expressions have to be plain to the reader of a substitution. -/
theorem tokenize_substitution {e : String} {most : Option Nat} {ts : List Token}
    (lexed : tokenize e most = .ok ts) (noScript : ¬ ['#', '!'] <+: e.toList)
    (balances : Balances 0 ts) (plain : ∀ t ∈ ts, t.Plain e.toList) :
    tokenize ("\x60$\x7b" ++ e ++ "\n\x7d\x60") none = .ok
      [⟨.string, "\x60$\x7b" ++ e ++ "\n\x7d\x60",
        ⟨0, byteSize ("\x60$\x7b" ++ e ++ "\n\x7d\x60").toList⟩,
        { TokenFlags.none with template := true, substitution := true }⟩,
       ⟨.endOfInput, "", .point (byteSize ("\x60$\x7b" ++ e ++ "\n\x7d\x60").toList), .none⟩] := by
  have code : TemplateBody (.code 0) (e.toList ++ ['\n', '\x7d']) :=
    (tokenize_ok_iff.mp lexed).code balances (fun _ => noScript) (show byteSize [] = _ from rfl)
      plain
  have text : ("\x60$\x7b" ++ e ++ "\n\x7d\x60").toList =
      '\x60' :: '$' :: '\x7b' :: (e.toList ++ ['\n', '\x7d'] ++ ['\x60']) := by
    rw [String.toList_append, String.toList_append, List.append_assoc _ ['\n', '\x7d']]
    rfl
  exact tokenize_template text (.substitution code .close)

/-- Braces in a regular expression, a string and a comment, and a block. -/
theorem tokenize_substitution_braces : ∃ ts,
    tokenize "/x\x7b2\x7d/g.test(y) ? '\x7d' : \x7b\x7d // \x7d" none = .ok ts ∧
    ¬ ['#', '!'] <+: "/x\x7b2\x7d/g.test(y) ? '\x7d' : \x7b\x7d // \x7d".toList ∧ Balances 0 ts ∧
    (∀ t ∈ ts, t.Plain "/x\x7b2\x7d/g.test(y) ? '\x7d' : \x7b\x7d // \x7d".toList) ∧
    tokenize "\x60$\x7b/x\x7b2\x7d/g.test(y) ? '\x7d' : \x7b\x7d // \x7d\n\x7d\x60" none = .ok
      [⟨.string, "\x60$\x7b/x\x7b2\x7d/g.test(y) ? '\x7d' : \x7b\x7d // \x7d\n\x7d\x60", ⟨0, 37⟩,
        { TokenFlags.none with template := true, substitution := true }⟩,
       ⟨.endOfInput, "", .point 37, .none⟩] := by
  have made : (tokenize "/x\x7b2\x7d/g.test(y) ? '\x7d' : \x7b\x7d // \x7d" none).toOption.map
      (fun ts => decide (Balances 0 ts ∧
        ∀ t ∈ ts, t.Plain "/x\x7b2\x7d/g.test(y) ? '\x7d' : \x7b\x7d // \x7d".toList)) =
      some true := by decide +kernel
  obtain ⟨ts, lexed, holds⟩ := Option.map_eq_some_iff.mp made
  obtain ⟨balances, plain⟩ := of_decide_eq_true holds
  have lexed := ok_of_toOption lexed
  have noScript : ¬ ['#', '!'] <+:
      "/x\x7b2\x7d/g.test(y) ? '\x7d' : \x7b\x7d // \x7d".toList := by decide
  have source : "\x60$\x7b" ++ "/x\x7b2\x7d/g.test(y) ? '\x7d' : \x7b\x7d // \x7d" ++ "\n\x7d\x60" =
      "\x60$\x7b/x\x7b2\x7d/g.test(y) ? '\x7d' : \x7b\x7d // \x7d\n\x7d\x60" := by decide +kernel
  have size : byteSize
      "\x60$\x7b/x\x7b2\x7d/g.test(y) ? '\x7d' : \x7b\x7d // \x7d\n\x7d\x60".toList = 37 := by
    decide +kernel
  have single := tokenize_substitution lexed noScript balances plain
  rw [source, size] at single
  exact ⟨ts, lexed, noScript, balances, plain, single⟩

/-- A quote in a regular expression begins a string for the reader of a substitution. -/
theorem tokenize_substitution_quote :
    (∃ ts, tokenize "/'/" none = .ok ts ∧ Balances 0 ts) ∧ ¬ ['#', '!'] <+: "/'/".toList ∧
      ∀ us, tokenize "\x60$\x7b/'/\n\x7d\x60" none ≠ .ok us := by
  refine ⟨?_, by decide, fun us read => ?_⟩
  · have made : (tokenize "/'/" none).toOption.map (fun ts => decide (Balances 0 ts)) =
        some true := by decide +kernel
    obtain ⟨ts, lexed, holds⟩ := Option.map_eq_some_iff.mp made
    exact ⟨ts, ok_of_toOption lexed, of_decide_eq_true holds⟩
  · have fails : (tokenize "\x60$\x7b/'/\n\x7d\x60" none).toOption = none := by decide +kernel
    rw [read] at fails
    cases fails

end Scoping
