import Scoping.Proofs.Token.Literal
import Scoping.Proofs.Token.Number
import Scoping.Proofs.Token.Dispatch

/-!
# The lexical grammar

A significant token is a regular expression, a string, a template, a number, a word or a mark, and
`Lexeme` says which texts those are. The lexer reads comments and lexemes and nothing else
(`readToken_ok`). It reads a lexeme as what it is wherever a gap or the end of the source comes next
(`Lexeme.read`): where one lexeme ends is decided by its own text and by the first character behind
it, and the only thing that matters of what stands before is whether a slash divides.
-/

namespace Scoping

/-- The text of a significant token with its kind and flags, where an operand stands before or does
not. -/
inductive Lexeme (afterOperand : Bool) : TokenKind → TokenFlags → List Char → Prop
  | regex {body flags : List Char} : afterOperand = false →
    Stops (fun x => x == '/' || x == '*') body → RegexBody false body →
    flags.all continuesName = true → Lexeme afterOperand .regex .none ('/' :: (body ++ flags))
  | string {quote : Char} {body : List Char} : quote = '\'' ∨ quote = '"' → StringBody quote body →
    Lexeme afterOperand .string .none (quote :: body)
  | template {s : Bool} {body : List Char} : TemplateBody (.text s) body →
    Lexeme afterOperand .string { TokenFlags.none with template := true, substitution := s }
      ('\x60' :: body)
  | number {text : List Char} : NumberText text → Lexeme afterOperand .number .none text
  | word {x : Char} {body : List Char} : startsName x = true → body.all continuesName = true →
    Lexeme afterOperand (wordKind (String.ofList (x :: body))) .none (x :: body)
  | mark {mark : List Char} : mark ∈ marks → (mark.head? = some '/' → afterOperand = true) →
    Lexeme afterOperand (markKind mark) .none mark

/-! ## Marks -/

section
variable {mark text tail : List Char}

theorem wordKind_significant (word : String) :
    wordKind word ≠ .endOfInput ∧ wordKind word ≠ .comment := by
  unfold wordKind
  split <;> exact ⟨nofun, nofun⟩

theorem markKind_significant (mark : List Char) :
    markKind mark ≠ .endOfInput ∧ markKind mark ≠ .comment := by
  unfold markKind
  split <;> exact ⟨nofun, nofun⟩

theorem marks_ne_nil : ∀ mark ∈ marks, mark ≠ [] := by decide

/-- No mark comes behind one that it begins with. -/
theorem marks_find? : ∀ mark ∈ marks, marks.find? (·.isPrefixOf mark) = some mark := by
  decide +kernel

theorem marks_visible : ∀ mark ∈ marks, (mark.all fun x => !isGap x) = true := by decide +kernel

/-- No mark begins as a token of another kind does. -/
theorem marks_stop : ∀ mark ∈ marks, (mark.head?.any fun x => x == '#' || x == '\'' || x == '"' ||
    x == '\x60' || isDigit x || startsName x) = false := by
  decide +kernel

/-- No mark begins as a comment does, and none as a number does. -/
theorem marks_slash : ∀ mark ∈ marks, mark.head? = some '/' →
    mark.tail.head?.any (· == '/') = false ∧ mark.tail.head?.any (· == '*') = false := by
  decide +kernel

theorem marks_point : ∀ mark ∈ marks, mark.head? = some '.' →
    mark.tail.head?.any isDigit = false := by
  decide +kernel

/-- A mark that is found is one, and the text begins with it. -/
theorem markAt?_some (h : markAt? text = some mark) : mark ∈ marks ∧ mark <+: text := by
  have found {m : List Char} (h : marks.find? (·.isPrefixOf text) = some m) :
      m ∈ marks ∧ m <+: text := by
    have begins : m.isPrefixOf text = true := by simpa using List.find?_some h
    exact ⟨List.mem_of_find?_eq_some h, List.isPrefixOf_iff_prefix.mp begins⟩
  unfold markAt? at h
  split at h
  · next both =>
    obtain ⟨mem, begins⟩ := found both
    split at h
    · cases h
      exact ⟨by decide, List.IsPrefix.trans ⟨['.'], rfl⟩ begins⟩
    · cases h
      exact ⟨mem, begins⟩
  · exact found h

/-- A text without gaps does not reach over one. -/
theorem prefix_of_parted {u : List Char} (visible : (u.all fun x => !isGap x) = true)
    (parted : Parted tail) (h : u <+: text ++ tail) : u <+: text := by
  induction text generalizing u with
  | nil =>
    cases u with
    | nil => exact List.nil_prefix
    | cons x u =>
      obtain ⟨more, rfl⟩ := h
      have gap : isGap x = true := parted
      simp [gap] at visible
  | cons y text ih =>
    cases u with
    | nil => exact List.nil_prefix
    | cons x u =>
      obtain ⟨rfl, rest⟩ := List.cons_prefix_cons.mp h
      rw [List.all_cons, Bool.and_eq_true] at visible
      exact List.cons_prefix_cons.mpr ⟨rfl, ih visible.2 rest⟩

/-- A mark is found where a gap comes behind it. -/
theorem markAt?_append (mem : mark ∈ marks) (parted : Parted tail) :
    markAt? (mark ++ tail) = some mark := by
  obtain ⟨_, before, behind, whole, shorter⟩ :=
    List.find?_eq_some_iff_append.mp (marks_find? mark mem)
  have found : marks.find? (·.isPrefixOf (mark ++ tail)) = some mark := by
    refine List.find?_eq_some_iff_append.mpr ⟨?_, before, behind, whole, fun u early => ?_⟩
    · exact List.isPrefixOf_iff_prefix.mpr (List.prefix_append mark tail)
    · have other := shorter u early
      have listed : u ∈ marks := whole ▸ List.mem_append_left _ early
      rw [Bool.not_eq_true', ← Bool.not_eq_true, List.isPrefixOf_iff_prefix] at other ⊢
      exact fun h => other (prefix_of_parted (marks_visible u listed) parted h)
  unfold markAt?
  rw [found]
  split
  · next e =>
    cases e
    have behind : (['?', '.'] ++ tail)[2]?.any isDigit = false := by
      have notDigit : Stops isDigit tail :=
        parted.stops fun _ h => isGap_of_continuesDigits (continuesDigits_of_isDigit h)
      rw [Stops, List.head?_eq_getElem?] at notDigit
      exact notDigit
    rw [behind]
    rfl
  · rfl

theorem skipMark_spells {c : Cursor} {more : List Char} (left : c.rest = mark ++ more) :
    c.Spells (c.skipMark mark) mark := by
  induction mark generalizing c with
  | nil => exact .refl c
  | cons x mark ih =>
    exact (Cursor.Spells.next left).trans (ih (Cursor.next_rest left))

end

/-! ## Tokens -/

namespace Lexeme

variable {afterOperand : Bool} {kind : TokenKind} {flags : TokenFlags} {text : List Char}

theorem significant (h : Lexeme afterOperand kind flags text) :
    kind ≠ .endOfInput ∧ kind ≠ .comment := by
  cases h with
  | word _ _ => exact wordKind_significant _
  | mark _ _ => exact markKind_significant _
  | _ => exact ⟨nofun, nofun⟩

theorem afterBreak (h : Lexeme afterOperand kind flags text) : flags.afterBreak = false := by
  cases h <;> rfl

theorem ne_nil (h : Lexeme afterOperand kind flags text) : text ≠ [] := by
  cases h with
  | number valid => exact valid.ne_nil
  | mark mem _ => exact marks_ne_nil _ mem
  | _ => exact nofun

/-- No lexeme begins with a gap. -/
theorem stops_isGap (h : Lexeme afterOperand kind flags text) : Stops isGap text := by
  have digit {x : Char} (h : isDigit x = true) : isGap x = false :=
    isGap_of_continuesDigits (continuesDigits_of_isDigit h)
  cases h with
  | regex _ _ _ _ => rfl
  | string quotes _ => rcases quotes with rfl | rfl <;> rfl
  | template _ => rfl
  | number valid =>
    cases valid with
    | radix _ _ => rfl
    | whole first _ _ _ _ => exact digit first
    | point _ _ _ _ => rfl
  | word word _ => exact isGap_of_continuesName (by rw [continuesName, word, Bool.true_or])
  | mark mem _ => exact .of_all (marks_visible _ mem) fun _ gap => by rw [gap]; rfl

end Lexeme

section
variable {afterOperand : Bool} {c : Cursor} {first : Char} {more : List Char} {r : Reading}

/-- From the cursor up to `stop` stands a comment: the first line of a script, the rest of a line, or
what stands between two marks. -/
inductive CommentAt (c stop : Cursor) : Prop
  | script {body : List Char} : c.offset = 0 → c.Spells stop ('#' :: '!' :: body) →
    body.all (!isNewline ·) = true → Stops (!isNewline ·) stop.rest → CommentAt c stop
  | line {body : List Char} : c.Spells stop ('/' :: '/' :: body) →
    body.all (!isNewline ·) = true → Stops (!isNewline ·) stop.rest → CommentAt c stop
  | block {body : List Char} : c.Spells stop ('/' :: '*' :: body) → CommentBody body →
    CommentAt c stop

theorem CommentAt.advances {stop : Cursor} (h : CommentAt c stop) : c.Advances stop := by
  cases h with
  | script _ spells _ _ | line spells _ _ | block spells _ =>
    exact ⟨_, List.cons_ne_nil _ _, spells⟩

/-- What is read is a comment or a lexeme. -/
theorem readToken_cases (left : c.rest = first :: more)
    (h : readToken afterOperand c first more = .ok r) :
    r.kind = .comment ∧ CommentAt c r.stop ∨
      ∃ text, Lexeme afterOperand r.kind r.flags text ∧ c.Spells r.stop text := by
  have begun := Cursor.Spells.next left
  obtain ⟨reader, asks, read⟩ := exists_reader afterOperand c first more
  rw [read] at h
  cases asks with
  | script atStart =>
    cases h
    obtain ⟨body, spells, all, stops⟩ := skipLine_spells left ⟨rfl, rfl⟩
    exact .inl ⟨rfl, .script atStart spells all stops⟩
  | line =>
    cases h
    obtain ⟨body, spells, all, stops⟩ := skipLine_spells left ⟨rfl, rfl⟩
    exact .inl ⟨rfl, .line spells all stops⟩
  | block =>
    obtain ⟨stop, found, rfl⟩ := exists_of_map_ok h
    obtain ⟨body, valid, spells⟩ := blockComment_ok found
    have second := Cursor.Spells.next (Cursor.next_rest left)
    exact .inl ⟨rfl, .block (begun.trans (second.trans spells)) valid⟩
  | regex notAfter divides =>
    obtain ⟨stop, found, rfl⟩ := exists_of_map_ok h
    obtain ⟨body, flags, valid, all, _, spells⟩ := regexLiteral_ok found
    have begins : more.head? = body.head? := by
      rw [← Cursor.next_rest left, spells.rest, List.append_assoc, head?_append _ valid.ne_nil]
    rw [Stops, begins] at divides
    exact .inr ⟨_, .regex notAfter divides valid all, begun.trans spells⟩
  | string quotes =>
    obtain ⟨stop, found, rfl⟩ := exists_of_map_ok h
    obtain ⟨body, valid, spells⟩ := stringTail_ok found
    exact .inr ⟨_, .string quotes valid, begun.trans spells⟩
  | template =>
    obtain ⟨_, found, rfl⟩ := exists_of_map_ok h
    obtain ⟨body, valid, spells⟩ := templateLiteral_ok found
    exact .inr ⟨_, .template valid, begun.trans spells⟩
  | number number =>
    cases h
    obtain ⟨text, valid, spells⟩ := skipNumber_spells left number
    exact .inr ⟨text, .number valid, spells⟩
  | word word =>
    cases h
    have continues : continuesName first = true := by rw [continuesName, word, Bool.true_or]
    obtain ⟨body, all, _, spells⟩ := c.next.skipWhile_spells continuesName
    rw [← Cursor.skipWhile_next left continues] at spells
    have whole := begun.trans spells
    rw [whole.textTo]
    exact .inr ⟨_, .word word all, whole⟩
  | mark operand =>
    obtain ⟨mark, found, rfl⟩ := TokenReader.mark_ok h
    obtain ⟨mem, behind, begins⟩ := markAt?_some found
    refine .inr ⟨mark, .mark mem fun slash => ?_, skipMark_spells (left.trans begins.symm)⟩
    obtain ⟨rest, rfl⟩ := List.head?_eq_some_iff.mp slash
    cases begins
    exact (operand rfl).1

/-- A token that is read takes some room. -/
theorem readToken_ok (left : c.rest = first :: more)
    (h : readToken afterOperand c first more = .ok r) :
    r.kind = .comment ∧ c.Advances r.stop ∨
      ∃ text, Lexeme afterOperand r.kind r.flags text ∧ c.Spells r.stop text :=
  (readToken_cases left h).imp_left fun ⟨comment, stands⟩ => ⟨comment, stands.advances⟩

/-- A character of a class is none that is outside of it. -/
theorem beq_of_class {p : Char → Bool} {x y : Char} (inside : p x = true) (outside : p y = false) :
    (x == y) = false := by
  rw [beq_eq_false_iff_ne]
  rintro rfl
  rw [outside] at inside
  cases inside

theorem readToken_digit (digit : isDigit first = true) :
    readToken afterOperand c first more = .ok ⟨.number, .none, c.skipNumber⟩ := by
  have other {y : Char} (outside : isDigit y = false) : (first == y) = false :=
    beq_of_class digit outside
  simp [readToken, other (y := '#') rfl, other (y := '/') rfl, other (y := '\'') rfl,
    other (y := '"') rfl, other (y := '\x60') rfl, digit]

theorem isDigit_of_startsName {x : Char} (word : startsName x = true) : isDigit x = false := by
  cases digit : isDigit x with
  | false => rfl
  | true =>
    simp only [startsName, isLetter, isDigit, Bool.or_eq_true, Bool.and_eq_true,
      decide_eq_true_eq, beq_iff_eq, Char.le_def, UInt32.le_iff_toNat_le] at word digit
    rcases word with (letter | rfl) | rfl
    · simp at letter digit
      omega
    · simp at digit
    · simp at digit

theorem readToken_word (word : startsName first = true) :
    readToken afterOperand c first more =
      .ok ⟨wordKind (c.textTo (c.skipWhile continuesName)), .none, c.skipWhile continuesName⟩ := by
  have other {y : Char} (outside : startsName y = false) : (first == y) = false :=
    beq_of_class word outside
  simp [readToken, other (y := '#') rfl, other (y := '/') rfl, other (y := '\'') rfl,
    other (y := '"') rfl, other (y := '\x60') rfl, other (y := '.') rfl, isDigit_of_startsName word,
    word]

theorem readToken_mark {body tail : List Char} (mem : first :: body ∈ marks)
    (operand : first = '/' → afterOperand = true) (parted : Parted tail) :
    readToken afterOperand c first (body ++ tail) =
      .ok ⟨markKind (first :: body), .none, c.skipMark (first :: body)⟩ := by
  have other := marks_stop _ mem
  simp only [List.head?_cons, Option.any_some, Bool.or_eq_false_iff] at other
  obtain ⟨⟨⟨⟨⟨notShebang, notSingle⟩, notDouble⟩, notTemplate⟩, notDigit⟩, notWord⟩ := other
  have found : markAt? (first :: (body ++ tail)) = some (first :: body) :=
    markAt?_append mem parted
  have notNumber : (first == '.' && (body ++ tail).head?.any isDigit) = false := by
    cases point : first == '.' with
    | false => rfl
    | true =>
      have stops : Stops isDigit body := marks_point _ mem (congrArg some (eq_of_beq point))
      exact stops.append (parted.stops fun _ digit =>
        isGap_of_continuesDigits (continuesDigits_of_isDigit digit))
  have notComment (x : Char) (visible : isGap x = false)
      (stops : first = '/' → Stops (· == x) body) :
      (first == '/' && (body ++ tail).head? == some x) = false := by
    cases slash : first == '/' with
    | false => rfl
    | true =>
      refine ((stops (eq_of_beq slash)).append (parted.stops fun y same => ?_)).head?_ne
      rw [eq_of_beq same]
      exact visible
  have notRegex : (first == '/' && !afterOperand) = false := by
    cases slash : first == '/' with
    | false => rfl
    | true => rw [operand (eq_of_beq slash)]; rfl
  have notLine := notComment '/' rfl fun slash => (marks_slash _ mem (congrArg some slash)).1
  have notBlock := notComment '*' rfl fun slash => (marks_slash _ mem (congrArg some slash)).2
  generalize body ++ tail = more at found notNumber notLine notBlock
  simp only [readToken, notShebang, notLine, notBlock, notRegex, notSingle, notDouble, notTemplate,
    notDigit, notNumber, notWord, found, Bool.false_and, Bool.or_self, Bool.false_eq_true, ↓reduceIte]

/-- A lexeme is read as what it is where a gap or the end comes behind it. -/
theorem Lexeme.read {kind : TokenKind} {flags : TokenFlags} {text tail : List Char}
    (h : Lexeme afterOperand kind flags text) (parted : Parted tail) (left : c.rest = text ++ tail) :
    ∃ first more stop, c.rest = first :: more ∧
      readToken afterOperand c first more = .ok ⟨kind, flags, stop⟩ ∧ stop.rest = tail := by
  cases h with
  | @regex body flags notAfter begins valid all =>
    have stops : Stops continuesName tail := parted.stops fun _ => isGap_of_continuesName
    rw [List.cons_append, List.append_assoc] at left
    obtain ⟨stop, read, behind⟩ := valid.read_literal all stops left
    obtain ⟨y, body, rfl⟩ := List.exists_cons_of_ne_nil valid.ne_nil
    simp only [Stops, List.head?_cons, Option.any_some, Bool.or_eq_false_iff, beq_eq_false_iff_ne]
      at begins
    exact ⟨_, _, stop, left, by simp [readToken, begins, notAfter, read], behind⟩
  | string quotes valid =>
    obtain ⟨stop, read, behind⟩ := valid.read_literal quotes left
    refine ⟨_, _, stop, left, ?_, behind⟩
    rcases quotes with rfl | rfl <;> simp [readToken, read]
  | template valid =>
    obtain ⟨stop, read, behind⟩ := valid.read_literal left
    exact ⟨_, _, stop, left, by simp [readToken, read], behind⟩
  | number valid =>
    have behind := valid.read parted left
    cases valid with
    | radix _ _ => exact ⟨_, _, _, left, readToken_digit rfl, behind⟩
    | whole digit _ _ _ _ => exact ⟨_, _, _, left, readToken_digit digit, behind⟩
    | point digit _ _ _ => exact ⟨_, _, _, left, by simp [readToken, digit], behind⟩
  | @word x body word all =>
    have stops : Stops continuesName tail := parted.stops fun _ => isGap_of_continuesName
    have all : (x :: body).all continuesName = true := by
      rw [List.all_cons, all, continuesName, word]
      rfl
    have behind := Cursor.skipWhile_rest left all stops
    have spells := (Cursor.skipWhile_reaches continuesName c).spells (left.trans (by rw [behind]))
    refine ⟨_, _, _, left, ?_, behind⟩
    rw [readToken_word word, spells.textTo]
  | mark mem operand =>
    obtain ⟨x, body, rfl⟩ := List.exists_cons_of_ne_nil (marks_ne_nil _ mem)
    have spells := skipMark_spells left
    refine ⟨x, body ++ tail, _, left, readToken_mark mem ?_ parted, ?_⟩
    · rintro rfl
      exact operand rfl
    · exact List.append_cancel_left (spells.rest.symm.trans left)

end

end Scoping
