import Scoping.Proofs.Text.Cursor
import Scoping.Token.Literal

/-!
# What literals and comments are made of

The readers of literals and comments are specified by the texts they accept: the rest of a string,
regular expression or comment behind its opening mark, up to and with its closing mark, and the two
kinds of text inside a template. What a reader passes is such a text, and each such text is passed,
whatever stands before or behind it.
-/

namespace Scoping

/-- The rest of a string, up to and with the quote that closes it. -/
inductive StringBody (quote : Char) : List Char → Prop
  | close : StringBody quote [quote]
  | plain {x : Char} {rest : List Char} : x ≠ quote → x ≠ '\\' → isNewline x = false →
    StringBody quote rest → StringBody quote (x :: rest)
  | escape {x : Char} {rest : List Char} : ¬ (x = '\r' ∧ rest.head? = some '\n') →
    StringBody quote rest → StringBody quote ('\\' :: x :: rest)
  | lineEnd {rest : List Char} : StringBody quote rest →
    StringBody quote ('\\' :: '\r' :: '\n' :: rest)

/-- The rest of a regular expression without its flags, up to and with the slash that closes it. It
may begin inside a class. -/
inductive RegexBody : (inClass : Bool) → List Char → Prop
  | close : RegexBody false ['/']
  | plain {inClass : Bool} {x : Char} {rest : List Char} : x ≠ '\\' → x ≠ '[' → x ≠ ']' →
    (x = '/' → inClass = true) → isNewline x = false → RegexBody inClass rest →
    RegexBody inClass (x :: rest)
  | escape {inClass : Bool} {x : Char} {rest : List Char} : isNewline x = false →
    RegexBody inClass rest → RegexBody inClass ('\\' :: x :: rest)
  | enter {inClass : Bool} {rest : List Char} : RegexBody true rest → RegexBody inClass ('[' :: rest)
  | leave {inClass : Bool} {rest : List Char} : RegexBody false rest → RegexBody inClass (']' :: rest)

/-- The rest of a comment, up to and with the first mark that closes it. -/
inductive CommentBody : List Char → Prop
  | close : CommentBody ['*', '/']
  | plain {x : Char} {rest : List Char} : ¬ (x = '*' ∧ rest.head? = some '/') → CommentBody rest →
    CommentBody (x :: rest)

/-- The two kinds of text inside a template. -/
inductive TemplatePart where
  /-- Text of the template itself, which has a substitution or has none. -/
  | text (substitution : Bool)
  /-- Text of a substitution with some braces open in it. -/
  | code (depth : Nat)
  deriving DecidableEq, Repr, Inhabited

/-- The rest of a template, up to and with the mark that closes it, or of a substitution, up to and
with the brace that closes it. -/
inductive TemplateBody : TemplatePart → List Char → Prop
  | close : TemplateBody (.text false) ['\x60']
  | plain {s : Bool} {x : Char} {rest : List Char} : x ≠ '\\' → x ≠ '\x60' →
    ¬ (x = '$' ∧ rest.head? = some '\x7b') → TemplateBody (.text s) rest →
    TemplateBody (.text s) (x :: rest)
  | escape {s : Bool} {x : Char} {rest : List Char} : TemplateBody (.text s) rest →
    TemplateBody (.text s) ('\\' :: x :: rest)
  | substitution {s : Bool} {code rest : List Char} : TemplateBody (.code 0) code →
    TemplateBody (.text s) rest → TemplateBody (.text true) ('$' :: '\x7b' :: (code ++ rest))
  | finish : TemplateBody (.code 0) ['\x7d']
  | leave {n : Nat} {rest : List Char} : TemplateBody (.code n) rest →
    TemplateBody (.code (n + 1)) ('\x7d' :: rest)
  | enter {n : Nat} {rest : List Char} : TemplateBody (.code (n + 1)) rest →
    TemplateBody (.code n) ('\x7b' :: rest)
  | string {n : Nat} {quote : Char} {body rest : List Char} : quote = '\'' ∨ quote = '"' →
    StringBody quote body → TemplateBody (.code n) rest →
    TemplateBody (.code n) (quote :: (body ++ rest))
  | template {n : Nat} {s : Bool} {body rest : List Char} : TemplateBody (.text s) body →
    TemplateBody (.code n) rest → TemplateBody (.code n) ('\x60' :: (body ++ rest))
  | line {n : Nat} {body rest : List Char} : body.all (!isNewline ·) = true →
    rest.head?.any isNewline = true → TemplateBody (.code n) rest →
    TemplateBody (.code n) ('/' :: '/' :: (body ++ rest))
  | comment {n : Nat} {body rest : List Char} : CommentBody body → TemplateBody (.code n) rest →
    TemplateBody (.code n) ('/' :: '*' :: (body ++ rest))
  | other {n : Nat} {x : Char} {rest : List Char} : x ≠ '\x7b' → x ≠ '\x7d' → x ≠ '\'' → x ≠ '"' →
    x ≠ '\x60' → ¬ (x = '/' ∧ (rest.head? = some '/' ∨ rest.head? = some '*')) →
    TemplateBody (.code n) rest → TemplateBody (.code n) (x :: rest)

theorem StringBody.ne_nil {quote : Char} {body : List Char} (h : StringBody quote body) :
    body ≠ [] := by
  cases h <;> exact nofun

theorem CommentBody.ne_nil {body : List Char} (h : CommentBody body) : body ≠ [] := by
  cases h <;> exact nofun

theorem TemplateBody.ne_nil {part : TemplatePart} {body : List Char} (h : TemplateBody part body) :
    body ≠ [] := by
  cases h <;> exact nofun

/-! ## Strings, regular expressions and comments -/

section
variable {d : Cursor} {opened offset : Nat} {crossed : Bool} {cs body : List Char}

/-- A string that is read is a string. -/
theorem stringTail_ok {quote : Char} (h : stringTail quote opened crossed offset cs = .ok d) :
    ∃ body, StringBody quote body ∧ Cursor.Spells ⟨offset, cs, crossed⟩ d body := by
  fun_induction stringTail quote opened crossed offset cs with
  | case1 => cases h
  | case2 => cases h
  | case3 offset rest ih =>
    obtain ⟨body, valid, spells⟩ := ih h
    exact ⟨_, .lineEnd valid, .cons crossed (.cons crossed (.cons crossed spells))⟩
  | case4 offset x rest notPair ih =>
    obtain ⟨body, valid, spells⟩ := ih h
    refine ⟨_, .escape ?_ valid, .cons crossed (.cons crossed spells)⟩
    rintro ⟨rfl, next⟩
    obtain ⟨more, rfl⟩ := List.head?_eq_some_iff.mp next
    exact notPair _ rfl spells.rest
  | case5 => cases h
  | case6 offset x rest _ _ _ _ closes =>
    cases h
    rw [eq_of_beq closes]
    exact ⟨_, .close, .cons crossed (.refl _)⟩
  | case7 offset x rest notLast _ notEscape notNewline notQuote ih =>
    obtain ⟨body, valid, spells⟩ := ih h
    refine ⟨_, .plain (by simpa using notQuote) ?_ (by simpa using notNewline) valid, .cons _ spells⟩
    rintro rfl
    cases rest with
    | nil => exact notLast rfl rfl
    | cons y more => exact notEscape y more rfl rfl

/-- A string is read, whatever stands behind it. -/
theorem StringBody.read {quote : Char} (h : StringBody quote body) (notEscape : quote ≠ '\\')
    (inLine : isNewline quote = false) (tail : List Char) :
    ∃ d, stringTail quote opened crossed offset (body ++ tail) = .ok d ∧ d.rest = tail := by
  induction h generalizing offset with
  | close => exact ⟨_, by simp [stringTail, notEscape, inLine]; rfl, rfl⟩
  | plain notQuote notEscape inLine _ ih =>
    obtain ⟨d, read, left⟩ := ih
    exact ⟨d, by simpa [stringTail, notQuote, notEscape, inLine] using read, left⟩
  | @escape x rest notPair valid ih =>
    obtain ⟨d, read, left⟩ := ih
    refine ⟨d, ?_, left⟩
    rw [List.cons_append, List.cons_append, stringTail]
    · exact read
    · rintro more rfl next
      obtain ⟨y, rest, rfl⟩ := List.exists_cons_of_ne_nil valid.ne_nil
      exact notPair ⟨rfl, congrArg List.head? next⟩
  | lineEnd _ ih =>
    obtain ⟨d, read, left⟩ := ih
    exact ⟨d, by simpa [stringTail] using read, left⟩

/-- A regular expression that is read is one. -/
theorem regexTail_ok {inClass : Bool} (h : regexTail opened crossed inClass offset cs = .ok d) :
    ∃ body, RegexBody inClass body ∧ Cursor.Spells ⟨offset, cs, crossed⟩ d body := by
  fun_induction regexTail opened crossed inClass offset cs with
  | case1 => cases h
  | case2 => cases h
  | case3 => cases h
  | case4 _ offset x rest inLine ih =>
    obtain ⟨body, valid, spells⟩ := ih h
    exact ⟨_, .escape (by simpa using inLine) valid, .cons crossed (.cons crossed spells)⟩
  | case5 => cases h
  | case6 _ offset x rest _ _ _ enters ih =>
    obtain ⟨body, valid, spells⟩ := ih h
    rw [eq_of_beq enters] at spells ⊢
    exact ⟨_, .enter valid, .cons _ spells⟩
  | case7 _ offset x rest _ _ _ _ leaves ih =>
    obtain ⟨body, valid, spells⟩ := ih h
    rw [eq_of_beq leaves] at spells ⊢
    exact ⟨_, .leave valid, .cons _ spells⟩
  | case8 inClass offset x rest _ _ _ _ _ closes =>
    cases h
    simp only [Bool.and_eq_true, beq_iff_eq, Bool.not_eq_true'] at closes
    rw [closes.1, closes.2]
    exact ⟨_, .close, .cons crossed (.refl _)⟩
  | case9 inClass offset x rest notLast notEscape notNewline notEnter notLeave notClose ih =>
    obtain ⟨body, valid, spells⟩ := ih h
    simp only [Bool.and_eq_true, beq_iff_eq, Bool.not_eq_true', not_and, Bool.not_eq_false] at notClose
    refine ⟨_, .plain ?_ (by simpa using notEnter) (by simpa using notLeave) notClose
      (by simpa using notNewline) valid, .cons _ spells⟩
    rintro rfl
    cases rest with
    | nil => exact notLast rfl rfl
    | cons y more => exact notEscape y more rfl rfl

/-- A regular expression is read, whatever stands behind it. -/
theorem RegexBody.read {inClass : Bool} (h : RegexBody inClass body) (tail : List Char) :
    ∃ d, regexTail opened crossed inClass offset (body ++ tail) = .ok d ∧ d.rest = tail := by
  induction h generalizing offset with
  | close => exact ⟨_, rfl, rfl⟩
  | @plain inClass x rest notEscape notEnter notLeave notClose inLine _ ih =>
    obtain ⟨d, read, left⟩ := ih
    refine ⟨d, ?_, left⟩
    have goesOn : (x == '/' && !inClass) = false := by
      cases inClass with
      | false => simpa using notClose
      | true => simp
    simpa [regexTail, notEscape, notEnter, notLeave, goesOn, inLine] using read
  | escape inLine _ ih =>
    obtain ⟨d, read, left⟩ := ih
    exact ⟨d, by simpa [regexTail, inLine] using read, left⟩
  | enter _ ih =>
    obtain ⟨d, read, left⟩ := ih
    exact ⟨d, by simpa [regexTail, isNewline] using read, left⟩
  | leave _ ih =>
    obtain ⟨d, read, left⟩ := ih
    exact ⟨d, by simpa [regexTail, isNewline] using read, left⟩

/-- A comment that is read is one. -/
theorem commentTail?_some (h : commentTail? crossed offset cs = some d) :
    ∃ body, CommentBody body ∧ Cursor.Spells ⟨offset, cs, crossed⟩ d body := by
  fun_induction commentTail? crossed offset cs with
  | case1 => cases h
  | case2 crossed offset rest =>
    cases h
    exact ⟨_, .close, .cons crossed (.cons crossed (.refl _))⟩
  | case3 crossed offset x rest notClose ih =>
    obtain ⟨body, valid, spells⟩ := ih h
    refine ⟨_, .plain ?_ valid, .cons _ spells⟩
    rintro ⟨rfl, next⟩
    obtain ⟨more, rfl⟩ := List.head?_eq_some_iff.mp next
    exact notClose _ rfl spells.rest

/-- A comment is read, whatever stands behind it, and the lines that end in it are crossed. -/
theorem CommentBody.read (h : CommentBody body) (tail : List Char) :
    commentTail? crossed offset (body ++ tail) =
      some ⟨offset + byteSize body, tail, crossed || body.any isNewline⟩ := by
  induction h generalizing offset crossed with
  | close =>
    have noLine : ['*', '/'].any isNewline = false := rfl
    rw [noLine, Bool.or_false]
    rfl
  | @plain x rest notClose valid ih =>
    rw [List.cons_append, commentTail?, ih, byteSize_cons, List.any_cons, Nat.add_assoc,
      Bool.or_assoc]
    rintro more rfl next
    obtain ⟨y, rest, rfl⟩ := List.exists_cons_of_ne_nil valid.ne_nil
    exact notClose ⟨rfl, congrArg List.head? next⟩

end

/-! ## Templates -/

section
variable {c d : Cursor} {body : List Char}

theorem StringBody.read_literal {quote : Char} {tail : List Char} (h : StringBody quote body)
    (quotes : quote = '\'' ∨ quote = '"') (text : c.rest = quote :: (body ++ tail)) :
    ∃ d, stringLiteral quote c = .ok d ∧ d.rest = tail := by
  have inside : c.next.rest = body ++ tail := Cursor.next_rest text
  simp only [stringLiteral, inside]
  rcases quotes with rfl | rfl
  · exact h.read (by decide) rfl tail
  · exact h.read (by decide) rfl tail

theorem RegexBody.ne_nil {inClass : Bool} (h : RegexBody inClass body) : body ≠ [] := by
  cases h <;> exact nofun

/-- A regular expression that is read is one, with flags. -/
theorem regexLiteral_ok (h : regexLiteral c = .ok d) : ∃ body flags, RegexBody false body ∧
    flags.all continuesName = true ∧ Stops continuesName d.rest ∧
      c.next.Spells d (body ++ flags) := by
  simp only [regexLiteral] at h
  split at h
  · next stop found =>
    cases h
    obtain ⟨body, valid, spells⟩ := regexTail_ok found
    obtain ⟨flags, all, stops, spellsFlags⟩ := stop.skipWhile_spells continuesName
    exact ⟨body, flags, valid, all, stops,
      Cursor.Spells.trans ⟨spells.rest, spells.offset⟩ spellsFlags⟩
  · cases h

/-- A regular expression is read with its flags, if what comes behind them is parted from them. -/
theorem RegexBody.read_literal {flags tail : List Char} (h : RegexBody false body)
    (all : flags.all continuesName = true) (stops : Stops continuesName tail)
    (text : c.rest = '/' :: (body ++ (flags ++ tail))) :
    ∃ d, regexLiteral c = .ok d ∧ d.rest = tail := by
  have inside : c.next.rest = body ++ (flags ++ tail) := Cursor.next_rest text
  simp only [regexLiteral, inside]
  obtain ⟨d, read, left⟩ :=
    @RegexBody.read c.offset c.next.offset c.next.crossed body false h (flags ++ tail)
  exact ⟨d.skipWhile continuesName, by rw [read], Cursor.skipWhile_rest left all stops⟩

/-- A block comment that is read is one. -/
theorem blockComment_ok (h : blockComment c = .ok d) :
    ∃ body, CommentBody body ∧ c.next.next.Spells d body := by
  simp only [blockComment] at h
  split at h
  · next stop found =>
    cases h
    exact commentTail?_some found
  · cases h

theorem CommentBody.read_block {tail : List Char} (h : CommentBody body)
    (text : c.rest = '/' :: '*' :: (body ++ tail)) :
    blockComment c = .ok ⟨c.next.next.offset + byteSize body, tail,
      c.next.next.crossed || body.any isNewline⟩ := by
  have inside : c.next.next.rest = body ++ tail := Cursor.next_rest (Cursor.next_rest text)
  simp only [blockComment, inside, h.read]

/-- The rest of a line behind two characters that are in it. -/
theorem skipLine_spells {x y : Char} {more : List Char} (left : c.rest = x :: y :: more)
    (inLine : isNewline x = false ∧ isNewline y = false) :
    ∃ body, c.Spells c.skipLine (x :: y :: body) ∧ body.all (!isNewline ·) = true ∧
      Stops (!isNewline ·) c.skipLine.rest := by
  have second := Cursor.next_rest left
  have same : c.skipLine = c.next.next.skipLine := by
    unfold Cursor.skipLine
    rw [Cursor.skipWhile_next left (by rw [inLine.1]; rfl),
      Cursor.skipWhile_next second (by rw [inLine.2]; rfl)]
  obtain ⟨body, all, stops, spells⟩ := c.next.next.skipWhile_spells (!isNewline ·)
  rw [same]
  exact ⟨body, (Cursor.Spells.next left).trans ((Cursor.Spells.next second).trans spells), all,
    stops⟩

/-- With the given budget, what is read as the rest of a template is one. -/
def PassesText (budget : List Char) : Prop :=
  ∀ (opened : Nat) (found : Bool) (c : Cursor) (r : Bool × Cursor),
    templateTail budget opened found c = .ok r →
      ∃ s body, TemplateBody (.text s) body ∧ r.1 = (found || s) ∧ c.Spells r.2 body

/-- With the given budget, what is read as the rest of a substitution is one. -/
def PassesCode (budget : List Char) : Prop :=
  ∀ (opened n : Nat) (c d : Cursor), substitutionTail budget opened (n + 1) c = .ok d →
    ∃ body, TemplateBody (.code n) body ∧ c.Spells d body

section
variable {y : Char} {budget : List Char} (passesText : PassesText budget)
  (passesCode : PassesCode budget)
include passesText passesCode

theorem passesText_cons : PassesText (y :: budget) := by
  intro opened found c r h
  rw [templateTail] at h
  split at h
  · cases h
  next x rest text =>
  have first := Cursor.Spells.next text
  have second := Cursor.next_rest text
  split at h
  · next escape =>
    obtain ⟨s, body, valid, whether, spells⟩ := passesText _ _ _ _ h
    obtain ⟨y, _, _, spells⟩ := spells.next_next text valid.ne_nil
    rw [eq_of_beq escape] at spells
    exact ⟨s, _, .escape valid, whether, spells⟩
  split at h
  · next closes =>
    cases h
    rw [eq_of_beq closes] at first
    exact ⟨false, _, .close, by simp, first⟩
  split at h
  · next opens =>
    simp only [Bool.and_eq_true, beq_iff_eq] at opens
    obtain ⟨rfl, opens⟩ := opens
    obtain ⟨more, rfl⟩ := List.head?_eq_some_iff.mp opens
    split at h
    · next behind inside =>
      obtain ⟨code, validCode, spellsCode⟩ := passesCode _ _ _ _ inside
      obtain ⟨s, body, valid, whether, spells⟩ := passesText _ _ _ _ h
      refine ⟨true, _, .substitution validCode valid, by simpa using whether, ?_⟩
      exact first.trans ((Cursor.Spells.next second).trans (spellsCode.trans spells))
    · cases h
  · next notEscape notClose notOpen =>
    obtain ⟨s, body, valid, whether, spells⟩ := passesText _ _ _ _ h
    refine ⟨s, _, .plain (by simpa using notEscape) (by simpa using notClose) ?_ valid, whether,
      first.trans spells⟩
    rw [← spells.head? valid.ne_nil, second]
    simpa using notOpen

theorem passesCode_cons : PassesCode (y :: budget) := by
  intro opened n c d h
  rw [substitutionTail] at h
  split at h
  · cases h
  next x rest text =>
  have first := Cursor.Spells.next text
  have second := Cursor.next_rest text
  split at h
  · next enters =>
    obtain ⟨body, valid, spells⟩ := passesCode _ _ _ _ h
    rw [eq_of_beq enters] at first
    exact ⟨_, .enter valid, first.trans spells⟩
  split at h
  · next leaves =>
    rw [eq_of_beq leaves] at first
    split at h
    · next outermost =>
      cases h
      have zero : n = 0 := by omega
      subst zero
      exact ⟨_, .finish, first⟩
    · obtain ⟨m, rfl⟩ : ∃ m, n = m + 1 := ⟨n - 1, by omega⟩
      obtain ⟨body, valid, spells⟩ := passesCode _ _ _ _ h
      exact ⟨_, .leave valid, first.trans spells⟩
  split at h
  · next quotes =>
    simp only [Bool.or_eq_true, beq_iff_eq] at quotes
    split at h
    · next behind inside =>
      obtain ⟨string, validString, spellsString⟩ := stringTail_ok inside
      obtain ⟨body, valid, spells⟩ := passesCode _ _ _ _ h
      exact ⟨_, .string quotes validString valid, first.trans (spellsString.trans spells)⟩
    · cases h
  split at h
  · next begins =>
    split at h
    · next found behind inside =>
      obtain ⟨s, inner, validInner, _, spellsInner⟩ := passesText _ _ _ _ inside
      obtain ⟨body, valid, spells⟩ := passesCode _ _ _ _ h
      rw [eq_of_beq begins] at first
      exact ⟨_, .template validInner valid, first.trans (spellsInner.trans spells)⟩
    · cases h
  split at h
  · next slashes =>
    simp only [Bool.and_eq_true, beq_iff_eq] at slashes
    obtain ⟨rfl, slash⟩ := slashes
    obtain ⟨more, rfl⟩ := List.head?_eq_some_iff.mp slash
    obtain ⟨body, valid, spells⟩ := passesCode _ _ _ _ h
    obtain ⟨line, spellsLine, inLine, stops⟩ := skipLine_spells text ⟨rfl, rfl⟩
    refine ⟨_, .line inLine ?_ valid, spellsLine.trans spells⟩
    obtain ⟨y, more, rfl⟩ := List.exists_cons_of_ne_nil valid.ne_nil
    rw [Stops, spells.head? valid.ne_nil] at stops
    simpa using stops
  split at h
  · next stars =>
    simp only [Bool.and_eq_true, beq_iff_eq] at stars
    obtain ⟨rfl, star⟩ := stars
    obtain ⟨more, rfl⟩ := List.head?_eq_some_iff.mp star
    split at h
    · next behind inside =>
      obtain ⟨comment, validComment, spellsComment⟩ := blockComment_ok inside
      obtain ⟨body, valid, spells⟩ := passesCode _ _ _ _ h
      exact ⟨_, .comment validComment valid,
        first.trans ((Cursor.Spells.next second).trans (spellsComment.trans spells))⟩
    · cases h
  · next notEnter notLeave notQuote notTemplate notLine notComment =>
    obtain ⟨body, valid, spells⟩ := passesCode _ _ _ _ h
    simp only [Bool.or_eq_true, beq_iff_eq, not_or] at notQuote
    refine ⟨_, .other (by simpa using notEnter) (by simpa using notLeave) notQuote.1 notQuote.2
      (by simpa using notTemplate) ?_ valid, first.trans spells⟩
    rw [← spells.head? valid.ne_nil, second]
    rintro ⟨rfl, next | next⟩
    · simp [next] at notLine
    · simp [next] at notComment

end

/-- What is read of a template is the rest of a template or of a substitution. -/
theorem passes (budget : List Char) : PassesText budget ∧ PassesCode budget := by
  induction budget with
  | nil =>
    constructor
    · intro opened found c r h
      rw [templateTail] at h
      cases h
    · intro opened n c d h
      rw [substitutionTail] at h
      cases h
  | cons y budget ih => exact ⟨passesText_cons ih.1 ih.2, passesCode_cons ih.1 ih.2⟩

/-- A template that is read is one. -/
theorem templateLiteral_ok {r : Bool × Cursor} (h : templateLiteral c = .ok r) :
    ∃ body, TemplateBody (.text r.1) body ∧ c.next.Spells r.2 body := by
  obtain ⟨s, body, valid, whether, spells⟩ := (passes c.rest).1 _ _ _ _ h
  rw [Bool.false_or] at whether
  exact ⟨body, whether ▸ valid, spells⟩

/-- With the given budget the reader of a part passes it at the cursor, up to the text `tail`. -/
def TemplatePart.Reads (budget : List Char) (c : Cursor) (tail : List Char) : TemplatePart → Prop
  | .text s => ∀ (opened : Nat) (found : Bool),
    ∃ d, templateTail budget opened found c = .ok (found || s, d) ∧ d.rest = tail
  | .code n => ∀ opened : Nat,
    ∃ d, substitutionTail budget opened (n + 1) c = .ok d ∧ d.rest = tail

/-- A budget for a text has one step for the first character, and is one for the rest behind that. -/
theorem budget_cons {x : Char} {rest budget : List Char}
    (h : (x :: rest).length ≤ budget.length) :
    ∃ y more, budget = y :: more ∧ rest.length ≤ more.length := by
  cases budget with
  | nil => exact absurd h (Nat.not_succ_le_zero _)
  | cons y more => exact ⟨y, more, rfl, Nat.le_of_succ_le_succ h⟩

theorem head?_append {text : List Char} (tail : List Char) (some : text ≠ []) :
    (text ++ tail).head? = text.head? := by
  obtain ⟨x, rest, rfl⟩ := List.exists_cons_of_ne_nil some
  rfl

/-- A part of a template is read, whatever stands behind it, with a budget of its length. -/
theorem TemplateBody.read {part : TemplatePart} (h : TemplateBody part body) {budget tail : List Char}
    (enough : body.length ≤ budget.length) (text : c.rest = body ++ tail) :
    part.Reads budget c tail := by
  induction h generalizing budget tail c with
  | close =>
    intro opened found
    obtain ⟨_, budget, rfl, _⟩ := budget_cons enough
    exact ⟨c.next, by simp [templateTail, text], Cursor.next_rest text⟩
  | plain notEscape notClose notOpen valid ih =>
    intro opened found
    obtain ⟨_, budget, rfl, fits⟩ := budget_cons enough
    obtain ⟨d, read, left⟩ := ih fits (Cursor.next_rest text) opened found
    refine ⟨d, ?_, left⟩
    rw [← head?_append tail valid.ne_nil] at notOpen
    rw [List.cons_append] at text
    simpa only [templateTail, text, beq_iff_eq, notEscape, notClose, Bool.and_eq_true, notOpen,
      ↓reduceIte] using read
  | escape _ ih =>
    intro opened found
    obtain ⟨_, budget, rfl, fits⟩ := budget_cons enough
    have inside := Cursor.next_rest (Cursor.next_rest text)
    obtain ⟨d, read, left⟩ := ih (Nat.le_of_succ_le fits) inside opened found
    exact ⟨d, by simpa [templateTail, text] using read, left⟩
  | @substitution s code rest _ _ ihCode ih =>
    intro opened found
    obtain ⟨_, budget, rfl, fits⟩ := budget_cons enough
    rw [List.length_cons, List.length_append] at fits
    have fitsCode : code.length ≤ budget.length := by omega
    have fitsRest : rest.length ≤ budget.length := by omega
    rw [List.cons_append, List.cons_append, List.append_assoc] at text
    have inside := Cursor.next_rest (Cursor.next_rest text)
    obtain ⟨behind, readCode, leftCode⟩ := ihCode fitsCode inside opened
    obtain ⟨d, read, left⟩ := ih fitsRest leftCode opened true
    refine ⟨d, ?_, left⟩
    rw [Nat.zero_add] at readCode
    rw [Bool.true_or] at read
    simp [templateTail, text, readCode, read]
  | finish =>
    intro opened
    obtain ⟨_, budget, rfl, _⟩ := budget_cons enough
    exact ⟨c.next, by simp [substitutionTail, text], Cursor.next_rest text⟩
  | leave _ ih =>
    intro opened
    obtain ⟨_, budget, rfl, fits⟩ := budget_cons enough
    obtain ⟨d, read, left⟩ := ih fits (Cursor.next_rest text) opened
    exact ⟨d, by simpa [substitutionTail, text] using read, left⟩
  | enter _ ih =>
    intro opened
    obtain ⟨_, budget, rfl, fits⟩ := budget_cons enough
    obtain ⟨d, read, left⟩ := ih fits (Cursor.next_rest text) opened
    exact ⟨d, by simpa [substitutionTail, text] using read, left⟩
  | @string n quote string rest quotes validString _ ih =>
    intro opened
    obtain ⟨_, budget, rfl, fits⟩ := budget_cons enough
    rw [List.length_append] at fits
    have fitsRest : rest.length ≤ budget.length := by omega
    rw [List.cons_append, List.append_assoc] at text
    obtain ⟨behind, readString, leftString⟩ := validString.read_literal quotes text
    obtain ⟨d, read, left⟩ := ih fitsRest leftString opened
    refine ⟨d, ?_, left⟩
    rcases quotes with rfl | rfl <;> simp [substitutionTail, text, readString, read]
  | @template n s template rest _ _ ihTemplate ih =>
    intro opened
    obtain ⟨_, budget, rfl, fits⟩ := budget_cons enough
    rw [List.length_append] at fits
    have fitsTemplate : template.length ≤ budget.length := by omega
    have fitsRest : rest.length ≤ budget.length := by omega
    rw [List.cons_append, List.append_assoc] at text
    have inside := Cursor.next_rest text
    obtain ⟨behind, readTemplate, leftTemplate⟩ := ihTemplate fitsTemplate inside c.offset false
    obtain ⟨d, read, left⟩ := ih fitsRest leftTemplate opened
    exact ⟨d, by simp [substitutionTail, text, readTemplate, read], left⟩
  | @line n line rest inLine ends valid ih =>
    intro opened
    obtain ⟨_, budget, rfl, fits⟩ := budget_cons enough
    rw [List.length_cons, List.length_append] at fits
    have fitsRest : rest.length ≤ budget.length := by omega
    rw [List.cons_append, List.cons_append, List.append_assoc] at text
    have ends : Stops (fun x => !isNewline x) (rest ++ tail) := by
      obtain ⟨x, more, rfl⟩ := List.exists_cons_of_ne_nil valid.ne_nil
      simpa [Stops] using ends
    have leftLine : c.skipLine.rest = rest ++ tail :=
      @Cursor.skipWhile_rest c ('/' :: '/' :: line) _ _ text inLine ends
    obtain ⟨d, read, left⟩ := ih fitsRest leftLine opened
    exact ⟨d, by simp [substitutionTail, text, read], left⟩
  | @comment n comment rest validComment _ ih =>
    intro opened
    obtain ⟨_, budget, rfl, fits⟩ := budget_cons enough
    rw [List.length_cons, List.length_append] at fits
    have fitsRest : rest.length ≤ budget.length := by omega
    rw [List.cons_append, List.cons_append, List.append_assoc] at text
    obtain ⟨behind, readComment, leftComment⟩ :
        ∃ behind, blockComment c = .ok behind ∧ behind.rest = rest ++ tail :=
      ⟨_, validComment.read_block text, rfl⟩
    obtain ⟨d, read, left⟩ := ih fitsRest leftComment opened
    exact ⟨d, by simp [substitutionTail, text, readComment, read], left⟩
  | other notEnter notLeave notSingle notDouble notTemplate notComment valid ih =>
    intro opened
    obtain ⟨_, budget, rfl, fits⟩ := budget_cons enough
    obtain ⟨d, read, left⟩ := ih fits (Cursor.next_rest text) opened
    refine ⟨d, ?_, left⟩
    rw [← head?_append tail valid.ne_nil] at notComment
    rw [List.cons_append] at text
    have notQuote := not_or.mpr ⟨notSingle, notDouble⟩
    obtain ⟨notLine, notBlock⟩ := not_or.mp fun h => notComment (and_or_left.mpr h)
    simpa only [substitutionTail, text, beq_iff_eq, notEnter, notLeave, Bool.or_eq_true, notQuote,
      notTemplate, Bool.and_eq_true, notLine, notBlock, ↓reduceIte] using read

/-- A template is read, whatever stands behind it. -/
theorem TemplateBody.read_literal {s : Bool} {tail : List Char} (h : TemplateBody (.text s) body)
    (text : c.rest = '\x60' :: (body ++ tail)) :
    ∃ d, templateLiteral c = .ok (s, d) ∧ d.rest = tail := by
  have enough : body.length ≤ c.rest.length := by
    rw [text, List.length_cons, List.length_append]
    omega
  exact h.read enough (Cursor.next_rest text) c.offset false

end

end Scoping
