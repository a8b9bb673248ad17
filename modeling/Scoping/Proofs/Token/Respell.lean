import Scoping.Proofs.Token.Abreast
import Scoping.Proofs.Token.Layout

/-!
# A word in another's place

Where one word of a source is put in place of another of the same length, the tokens are the same but
for that word, as long as no slash behind it changes its meaning (`tokenize_respell`).

Up to the word both texts are read alike, whatever the words are. Behind it the texts are the same,
and so are the tokens where the two memories of what was read agree on every slash that begins one
(`Lookbehind.agreesOn`). Nothing else of a token depends on what stands before it.
-/

namespace Scoping

/-- The text is a name. -/
def isName (text : List Char) : Bool := text.head?.any startsName && text.all continuesName

/-- The token with another word for its text. -/
def Token.respell (t : Token) (word : String) : Token :=
  { t with kind := wordKind word, lexeme := word }

theorem Token.isWord_respell (t : Token) (word : String) : (t.respell word).isWord = true := by
  unfold Token.isWord Token.respell wordKind
  cases Keyword.ofText? word <;> rfl

theorem Token.isEnd_respell (t : Token) (word : String) : (t.respell word).isEnd = false := by
  simpa [Token.isEnd, Token.respell] using (wordKind_significant word).1

/-- The two memories agree on what the slashes in front of the given tokens mean. -/
def Lookbehind.agreesOn (l l' : Lookbehind) : List Token → Bool
  | [] => true
  | t :: ts => (!t.beginsWithSlash || l.afterOperand == l'.afterOperand) &&
      (l.push t).agreesOn (l'.push t) ts

/-! ## Names -/

section
variable {text behind : List Char}

theorem exists_cons_of_isName (h : isName text = true) :
    ∃ x body, text = x :: body ∧ startsName x = true ∧ text.all continuesName = true := by
  obtain ⟨begins, all⟩ := Bool.and_eq_true_iff.mp h
  obtain ⟨x, body, rfl, starts⟩ := exists_cons_of_head?_any begins
  exact ⟨x, body, rfl, starts, all⟩

theorem beginsName_of_isName (h : isName text = true) : BeginsName (text ++ behind) := by
  obtain ⟨x, body, rfl, starts, _⟩ := exists_cons_of_isName h
  exact starts

/-- The characters of a name take one byte each. -/
theorem byteSize_of_continuesName (all : text.all continuesName = true) :
    byteSize text = text.length := by
  induction text with
  | nil => rfl
  | cons x text ih =>
    rw [List.all_cons, Bool.and_eq_true] at all
    have narrow : x.utf8Size = 1 := by
      have continues := all.1
      simp only [continuesName, startsName, isLetter, isDigit, Bool.or_eq_true, Bool.and_eq_true,
        decide_eq_true_eq, beq_iff_eq, Char.le_def, UInt32.le_iff_toNat_le] at continues
      refine Char.utf8Size_eq_one_iff.mpr (UInt32.le_iff_toNat_le.mpr ?_)
      rcases continues with ((letter | rfl) | rfl) | digit
      · simp at letter ⊢
        omega
      · decide
      · decide
      · simp at digit ⊢
        omega
    rw [byteSize_cons, narrow, ih all.2, List.length_cons, Nat.add_comm]

theorem isWord_iff_kind {t : Token} :
    t.isWord = true ↔ t.kind = .identifier ∨ ∃ k, t.kind = .keyword k := by
  unfold Token.isWord
  cases t.kind <;> simp

/-- A word is spelled as a name. -/
theorem Lexeme.isName {afterOperand : Bool} {kind : TokenKind} {flags : TokenFlags}
    (h : Lexeme afterOperand kind flags text) (word : kind = .identifier ∨ ∃ k, kind = .keyword k) :
    isName text = true := by
  cases h with
  | @word x body starts all =>
    have continues : continuesName x = true := by rw [continuesName, starts, Bool.true_or]
    simp [Scoping.isName, starts, continues, all]
  | mark _ _ =>
    unfold markKind at word
    split at word <;> simp at word
  | _ => simp at word

/-- There is no gap in a word or a number. -/
theorem Lexeme.visible {afterOperand : Bool} {kind : TokenKind} {flags : TokenFlags}
    (h : Lexeme afterOperand kind flags text)
    (plain : (kind = .identifier ∨ ∃ k, kind = .keyword k) ∨ kind = .number) :
    (text.all fun x => !isGap x) = true := by
  rcases plain with word | number
  · obtain ⟨_, _, _, _, all⟩ := exists_cons_of_isName (h.isName word)
    exact all_visible (fun _ => isGap_of_continuesName) all
  · cases h with
    | number valid => exact valid.visible
    | word _ _ =>
      unfold wordKind at number
      split at number <;> cases number
    | mark _ _ =>
      unfold markKind at number
      split at number <;> cases number
    | _ => cases number

/-- Every significant token but the end of input is a lexeme. -/
theorem Lexed.exists_lexeme {l : Lookbehind} {ts : List Token} (h : Lexed l ts) :
    ∀ t ∈ ts, t.isEnd = false → ∃ operand, Lexeme operand t.kind t.readFlags t.lexeme.toList := by
  induction h with
  | last kind _ _ =>
    intro t mem notEnd
    rw [List.mem_singleton.mp mem, Token.isEnd, kind] at notEnd
    cases notEnd
  | token lexeme _ ih => exact List.forall_mem_cons.mpr ⟨fun _ => ⟨_, lexeme⟩, ih⟩

end

/-! ## Places -/

/-- What comes behind texts of the same size is the same where the whole is. -/
theorem append_inj_of_byteSize {x y u v : List Char} (h : x ++ u = y ++ v)
    (size : byteSize x = byteSize y) : x = y ∧ u = v := by
  have behind : dropBytes? (byteSize x) (x ++ u) = dropBytes? (byteSize y) (y ++ v) := by
    rw [h, size]
  rw [dropBytes?_append, dropBytes?_append, Option.some.injEq] at behind
  exact ⟨List.append_cancel_right (h.trans (by rw [behind])), behind⟩

/-- A token of a tiling stands where its span begins. -/
theorem Tiling.exists_at {offset : Nat} {cs : List Char} {before behind : List Token} {t : Token}
    (h : Tiling offset cs (before ++ t :: behind)) : ∃ text rest,
      cs = text ++ (t.lexeme.toList ++ rest) ∧ t.span.start = offset + byteSize text := by
  generalize tokens : before ++ t :: behind = ts at h
  induction h generalizing before with
  | @last offset gap u _ _ lexeme span =>
    obtain ⟨rfl, rfl⟩ : before = [] ∧ t = u := by
      cases before with
      | nil => exact ⟨rfl, (List.cons.inj tokens).1⟩
      | cons a before => simp at tokens
    exact ⟨gap, [], by simp [lexeme], by rw [span]; rfl⟩
  | @token offset gap body rest u ts _ _ _ lexeme span _ ih =>
    cases before with
    | nil =>
      obtain ⟨rfl, _⟩ := List.cons.inj tokens
      exact ⟨gap, rest, by rw [lexeme, String.toList_ofList], by rw [span]⟩
    | cons a before =>
      obtain ⟨text, left, whole, start⟩ := ih (List.cons.inj tokens).2
      refine ⟨gap ++ (body ++ text), left, by rw [whole]; simp, ?_⟩
      rw [start]
      simp [Nat.add_assoc]

namespace Lexer

/-- Lexers at one place of two texts, with nothing else to tell them apart. -/
structure Abreast (shift : Nat) (tail tail' : List Char) (lx lx' : Lexer) : Prop where
  cursor : Cursor.Abreast shift tail tail' lx.cursor lx'.cursor
  crossed : lx'.cursor.crossed = lx.cursor.crossed
  rest : lx' = { lx with cursor := lx'.cursor }

/-! ## Up to the word -/

section
variable {shift : Nat} {tail tail' z : List Char} {lx lx' behind : Lexer} {t : Token}

/-- A lexer does not ask where its token stands. -/
theorem moved_moved (lx : Lexer) (t : Token) (stop : Cursor) :
    lx.moved (t.moved shift) stop = lx.moved t stop :=
  rfl

namespace Abreast

theorem ahead (h : Abreast shift tail tail' lx lx') (left : lx.ahead.rest = z ++ tail)
    (stops : Stops isGap (z ++ tail')) :
    Cursor.Abreast shift tail tail' lx.ahead lx'.ahead ∧ lx'.ahead.crossed = lx.ahead.crossed ∧
      lx'.broken = lx.broken := by
  obtain ⟨gap, blank, visible, spells⟩ := lx.cursor.skipGap_spells
  have text' := h.cursor.rest_eq spells left
  obtain ⟨met, _⟩ := Cursor.skipGap_append spells.rest blank visible
  obtain ⟨met', left'⟩ := Cursor.skipGap_append text' blank stops
  obtain ⟨_, _, _, spells'⟩ := lx'.cursor.skipGap_spells
  refine ⟨h.cursor.of_reaches spells left ⟨_, spells'⟩ left', ?_, ?_⟩
  · rw [Lexer.ahead, Cursor.skipGap_crossed, Lexer.ahead, Cursor.skipGap_crossed, h.crossed]
  · rw [broken, broken, met, met', h.crossed]

/-- A token before the tails is the same in both texts, apart from where it stands. -/
theorem scan (h : Abreast shift tail tail' lx lx') (blunt : Blunt tail) (blunt' : Blunt tail')
    (script : shift = 0 ∨ ¬ lx.ahead.AtScript) (scanned : lx.scan = (.ok t, behind))
    (notEnd : t.isEnd = false) (left : behind.cursor.rest = z ++ tail)
    (touches : z = [] → Touches tail tail' t.kind) :
    ∃ behind', lx'.scan = (.ok (t.moved shift), behind') ∧
      Abreast shift tail tail' behind behind' := by
  obtain ⟨_, first, more, r, _, visible, _, begins, found, rfl, rfl⟩ := scan_read scanned notEnd
  obtain ⟨room, _⟩ := (scan_ok_iff_of_cons begins).mp scanned
  obtain ⟨⟨body, some, spells⟩, _⟩ := readToken_advances begins found
  rw [moved_rest] at left
  have text : lx.ahead.rest = (body ++ z) ++ tail := by
    rw [spells.rest, left, List.append_assoc]
  obtain ⟨x, body, rfl⟩ := List.exists_cons_of_ne_nil some
  obtain rfl : first = x := by
    rw [begins] at text
    exact (List.cons.inj text).1
  obtain ⟨ahead, crossed, broken⟩ := h.ahead text visible
  have begins' : lx'.ahead.rest = first :: (body ++ z ++ tail') := ahead.text_eq text
  obtain ⟨r', found', same⟩ :=
    readToken_abreast ahead crossed blunt blunt' script begins begins' found left touches
  have spells' := ahead.spells same.stop spells left
  have token : tokenOf lx'.ahead lx'.broken r' = (tokenOf lx.ahead lx.broken r).moved shift := by
    rw [tokenOf, tokenOf, spells'.textTo, spells.textTo, same.kind, same.flags, ahead.offset,
      same.stop.offset, broken]
    rfl
  have room' : lx'.limit.filter (· ≤ lx'.emitted) = none := by rw [h.rest]; exact room
  have operand : lx'.lookbehind.afterOperand = lx.lookbehind.afterOperand := by rw [h.rest]
  refine ⟨_, (scan_ok_iff_of_cons begins').mpr
    ⟨room', r', by rw [operand]; exact found', token.symm, rfl⟩, ?_⟩
  have lookbehind : lx'.lookbehind = lx.lookbehind := by rw [h.rest]
  have emitted : lx'.emitted = lx.emitted := by rw [h.rest]
  have limit : lx'.limit = lx.limit := by rw [h.rest]
  rw [moved_moved]
  unfold moved
  split
  · next comment =>
    have isComment : r.kind = .comment := by simpa [Token.isComment, tokenOf] using comment
    have lines := same.crossed isComment
    refine ⟨⟨same.stop.offset, same.stop.texts⟩, ?_, ?_⟩
    · simp only [lines]
    · simp only [lookbehind, emitted, limit]
  · refine ⟨⟨same.stop.offset, same.stop.texts⟩, rfl, ?_⟩
    simp only [lookbehind, emitted, limit]

end Abreast

/-- A token that others follow is not the end of input. -/
theorem Gives.exists_behind {ts : List Token} (gives : lx.Gives (t :: ts)) (more : ts ≠ []) :
    ∃ behind, lx.scan = (.ok t, behind) ∧ t.isEnd = false ∧ behind.Gives ts := by
  cases gives with
  | last _ _ => exact absurd rfl more
  | token scanned notEnd gives => exact ⟨_, scanned, notEnd, gives⟩

/-- What the significant tokens among these leave in the memory. -/
def pushAll (l : Lookbehind) (ts : List Token) : Lookbehind :=
  (ts.filter (!·.isComment)).foldl Lookbehind.push l

theorem pushAll_cons (scanned : lx.scan = (.ok t, behind)) (notEnd : t.isEnd = false)
    (ts : List Token) : pushAll behind.lookbehind ts = pushAll lx.lookbehind (t :: ts) := by
  rcases scan_cases scanned with ⟨kind, _⟩ | ⟨_, _, ⟨comment, same⟩ | ⟨notComment, pushed, _⟩⟩
  · simp [Token.isEnd, kind] at notEnd
  · rw [pushAll, pushAll, List.filter_cons_of_neg (by simp [comment]), same]
  · rw [pushAll, pushAll, List.filter_cons_of_pos (by simp [notComment]), pushed, List.foldl_cons]

/-- The word stands before the tail. -/
def Before (lx : Lexer) (word : Token) (tail : List Char) : Prop :=
  ∃ y, lx.cursor.rest = y ++ tail ∧ word.span.start = lx.cursor.offset + byteSize y

/-- What stands before the tail still does behind a token before it; and if nothing is between, the
token touches it. -/
theorem Before.further {before more : List Token} {word : Token} (place : lx.Before word tail)
    (scanned : lx.scan = (.ok t, behind)) (notEnd : t.isEnd = false)
    (gives : behind.Gives (before ++ word :: more)) :
    ∃ z, behind.cursor.rest = z ++ tail ∧ word.span.start = behind.cursor.offset + byteSize z ∧
      (z = [] → t.span.stop = word.span.start) := by
  obtain ⟨y, text, start⟩ := place
  obtain ⟨z, rest, left, start'⟩ := gives.tiling.exists_at
  obtain ⟨gap, _, ⟨_, kind, _⟩ | ⟨body, _, whole, offset, _, _, span⟩⟩ := scan_ok scanned
  · simp [Token.isEnd, kind] at notEnd
  have both : y ++ tail = (gap ++ (body ++ z)) ++ (word.lexeme.toList ++ rest) := by
    rw [← text, whole, left]
    simp
  have size : byteSize y = byteSize (gap ++ (body ++ z)) := by
    rw [byteSize_append, byteSize_append]
    omega
  obtain ⟨_, same⟩ := append_inj_of_byteSize both size
  refine ⟨z, by rw [left, same], start', ?_⟩
  rintro rfl
  rw [start', span, offset]
  rfl

/-- The tokens before the words are the same in both texts, and behind them stand lexers with nothing
to tell them apart. Only comments and marks of structure may touch the words. -/
theorem Gives.upTo (names : BeginsName tail) (names' : BeginsName tail') {before more : List Token}
    {word : Token} (gives : lx.Gives (before ++ word :: more)) (h : Abreast 0 tail tail' lx lx')
    (place : lx.Before word tail)
    (touching : ∀ t ∈ before, t.span.stop = word.span.start →
      t.kind = .comment ∨ ∃ p, t.kind = .punctuation p) :
    ∃ mid mid', mid.Gives (word :: more) ∧ Abreast 0 tail tail' mid mid' ∧
      mid.lookbehind = pushAll lx.lookbehind before ∧ mid.Before word tail ∧
      ∀ others, mid'.Gives others → lx'.Gives (before ++ others) := by
  induction before generalizing lx lx' with
  | nil => exact ⟨lx, lx', gives, h, rfl, place, fun _ => id⟩
  | cons t before ih =>
    obtain ⟨behind, scanned, notEnd, gives⟩ := gives.exists_behind (by simp)
    obtain ⟨z, left, start, touches⟩ := place.further scanned notEnd gives
    obtain ⟨behind', scanned', h'⟩ := h.scan names.blunt names'.blunt (.inl rfl) scanned notEnd left
      fun none => .inl ⟨names, touching t List.mem_cons_self (touches none)⟩
    rw [Token.moved_zero] at scanned'
    obtain ⟨mid, mid', further, abreast, remembers, stands, transfers⟩ :=
      ih gives h' ⟨z, left, start⟩ fun u mem => touching u (List.mem_cons_of_mem _ mem)
    refine ⟨mid, mid', further, abreast, ?_, stands, fun others gives' => ?_⟩
    · rw [remembers, pushAll_cons scanned notEnd]
    · exact .token scanned' notEnd (transfers others gives')

/-! ## The word -/

/-- A name is read as a word, up to where it ends. -/
theorem scan_name {name rest : List Char} (ahead : lx.ahead.rest = name ++ rest)
    (isName : isName name = true) (stops : Stops continuesName rest)
    (room : lx.limit.filter (· ≤ lx.emitted) = none) :
    ∃ t, t = ⟨wordKind (String.ofList name), String.ofList name,
        ⟨lx.ahead.offset, lx.ahead.offset + byteSize name⟩,
        { TokenFlags.none with afterBreak := lx.broken }⟩ ∧
      lx.scan = (.ok t, { lx with
        cursor := ⟨lx.ahead.offset + byteSize name, rest, false⟩
        lookbehind := lx.lookbehind.push t
        emitted := lx.emitted + 1 }) := by
  obtain ⟨x, body, rfl, starts, all⟩ := exists_cons_of_isName isName
  have left := Cursor.skipWhile_rest ahead all stops
  have reads : lx.ahead.Spells (lx.ahead.skipWhile continuesName) (x :: body) :=
    (Cursor.skipWhile_reaches continuesName lx.ahead).spells (ahead.trans (by rw [left]))
  have word := (scan_ok_iff_of_cons ahead).mpr ⟨room, _, readToken_word starts, rfl, rfl⟩
  have notComment : (tokenOf lx.ahead lx.broken ⟨wordKind (lx.ahead.textTo
      (lx.ahead.skipWhile continuesName)), .none, lx.ahead.skipWhile continuesName⟩).isComment =
      false := by
    simpa [Token.isComment, tokenOf] using (wordKind_significant _).2
  refine ⟨_, rfl, word.trans ?_⟩
  rw [moved, notComment]
  simp only [tokenOf, reads.textTo, reads.offset, left]
  rfl

/-- In place of the word the other one is read. -/
theorem Abreast.scan_word {name name' rest : List Char}
    (h : Abreast 0 (name ++ rest) (name' ++ rest) lx lx') (isName : isName name = true)
    (isName' : Scoping.isName name' = true) (size : name'.length = name.length)
    (scanned : lx.scan = (.ok t, behind)) (notEnd : t.isEnd = false)
    (place : lx.Before t (name ++ rest)) (spelled : t.lexeme.toList = name) :
    lx'.scan = (.ok (t.respell (String.ofList name')),
      { behind with lookbehind := lx.lookbehind.push (t.respell (String.ofList name')) }) ∧
    behind.lookbehind = lx.lookbehind.push t := by
  obtain ⟨gap, first, more, r, _, _, spells, begins, found, token, _⟩ := scan_read scanned notEnd
  obtain ⟨room, _⟩ := (scan_ok_iff_of_cons begins).mp scanned
  -- The word begins where the gap ends, and ends where its token does.
  obtain ⟨y, text, start⟩ := place
  have ahead : lx.ahead.rest = name ++ rest := by
    have start : lx.ahead.offset = lx.cursor.offset + byteSize y := by rw [← start, token]; rfl
    have size : byteSize gap = byteSize y := by
      have := spells.offset
      omega
    exact (append_inj_of_byteSize (spells.rest.symm.trans text) size).2
  obtain ⟨x, body, cons, starts, all⟩ := exists_cons_of_isName isName
  have stops : Stops continuesName rest := by
    obtain ⟨word, _, stops, reads⟩ := lx.ahead.skipWhile_spells continuesName
    obtain rfl : first = x := by
      rw [ahead, cons] at begins
      exact (List.cons.inj begins).1.symm
    rw [readToken_word starts] at found
    cases found
    have whole : word = name := by
      rw [← spelled, token, tokenOf, reads.textTo, String.toList_ofList]
    have left := reads.rest
    rw [whole, ahead] at left
    rw [List.append_cancel_left left]
    exact stops
  obtain ⟨u, read, scanned'⟩ := scan_name ahead isName stops room
  obtain ⟨rfl, rfl⟩ := Prod.mk.inj (scanned.symm.trans scanned') |>.imp_left Except.ok.inj
  obtain ⟨x', body', cons', starts', all'⟩ := exists_cons_of_isName isName'
  have apart : Stops isGap (name' ++ rest) := by
    rw [cons']
    exact isGap_of_continuesName (by rw [continuesName, starts', Bool.true_or])
  obtain ⟨abreast, _, broken⟩ := h.ahead (z := []) ahead apart
  have ahead' : lx'.ahead.rest = name' ++ rest := abreast.text_eq (y := []) ahead
  obtain ⟨u', read', scanned''⟩ := scan_name ahead' isName' stops (by rw [h.rest]; exact room)
  have sameSize : byteSize name' = byteSize name := by
    rw [byteSize_of_continuesName all, byteSize_of_continuesName all', size]
  have offset : lx'.ahead.offset = lx.ahead.offset := abreast.offset
  have same : u' = t.respell (String.ofList name') := by
    rw [read', read, offset, broken, sameSize]
    rfl
  rw [same, offset, sameSize] at scanned''
  refine ⟨scanned''.trans ?_, rfl⟩
  rw [h.rest]

/-! ## Behind the word -/

/-- What a slash means is asked for a slash that begins no comment alone. -/
theorem readToken_operand {operand operand' : Bool} {c : Cursor} {first : Char} {more : List Char}
    {r : Reading} (left : c.rest = first :: more)
    (found : readToken operand c first more = .ok r)
    (agree : first = '/' → r.kind ≠ .comment → operand' = operand) :
    readToken operand' c first more = .ok r := by
  by_cases slash : first = '/'
  · subst slash
    by_cases comment : r.kind = .comment
    · obtain ⟨_, stands⟩ | ⟨_, lexeme, _⟩ := readToken_cases left found
      · rw [← found]
        cases stands with
        | script _ spells _ _ => exact absurd (left.symm.trans spells.rest) (by simp)
        | line spells _ _ =>
          obtain rfl := (List.cons.inj (left.symm.trans spells.rest)).2
          simp [readToken]
        | block spells _ =>
          obtain rfl := (List.cons.inj (left.symm.trans spells.rest)).2
          simp [readToken]
      · exact absurd comment lexeme.significant.2
    · rw [agree rfl comment]
      exact found
  · rw [← found]
    simp [readToken, slash]

/-- With another memory that agrees on the slashes the same tokens are given. -/
theorem Gives.withLookbehind {ts : List Token} {l : Lookbehind} (gives : lx.Gives ts)
    (agrees : lx.lookbehind.agreesOn l (ts.filter (!·.isComment)) = true) :
    Gives { lx with lookbehind := l } ts := by
  induction gives generalizing l with
  | @last lx behind t scanned atEnd =>
    cases left : lx.ahead.rest with
    | nil =>
      obtain ⟨rfl, _⟩ :=
        Prod.mk.inj ((scan_of_nil left).symm.trans scanned) |>.imp_left Except.ok.inj
      exact .last (scan_of_nil left) atEnd
    | cons first more =>
      obtain ⟨_, r, found, rfl, _⟩ := (scan_ok_iff_of_cons left).mp scanned
      have notEnd := (readToken_advances left found).2
      simp [Token.isEnd, tokenOf, notEnd] at atEnd
  | @token lx behind t ts scanned notEnd _ ih =>
    obtain ⟨_, first, more, r, _, _, _, left, found, rfl, rfl⟩ := scan_read scanned notEnd
    obtain ⟨room, _⟩ := (scan_ok_iff_of_cons left).mp scanned
    have left' : (Lexer.ahead { lx with lookbehind := l }).rest = first :: more := left
    have read (agree : first = '/' → r.kind ≠ .comment →
        l.afterOperand = lx.lookbehind.afterOperand) :
        Lexer.scan { lx with lookbehind := l } = (.ok (tokenOf lx.ahead lx.broken r),
          Lexer.moved { lx with lookbehind := l } (tokenOf lx.ahead lx.broken r) r.stop) :=
      (scan_ok_iff_of_cons left').mpr ⟨room, r, readToken_operand left found agree, rfl, rfl⟩
    cases comment : (tokenOf lx.ahead lx.broken r).isComment with
    | true =>
      rw [List.filter_cons_of_neg (by simp [comment])] at agrees
      have isComment : r.kind = .comment := by simpa [Token.isComment, tokenOf] using comment
      refine .token (read fun _ other => absurd isComment other) notEnd ?_
      rw [moved, comment] at ih ⊢
      exact ih agrees
    | false =>
      rw [List.filter_cons_of_pos (by simp [comment])] at agrees
      obtain ⟨same, agrees⟩ := Bool.and_eq_true_iff.mp agrees
      refine .token (read fun slash _ => ?_) notEnd ?_
      · obtain ⟨⟨body, some, spells⟩, _⟩ := readToken_advances left found
        have begins : (tokenOf lx.ahead lx.broken r).beginsWithSlash = true := by
          rw [Token.beginsWithSlash, tokenOf, spells.textTo, String.toList_ofList,
            ← spells.head? some, left, slash]
          rfl
        rw [begins] at same
        exact (eq_of_beq same).symm
      · rw [moved, comment] at ih ⊢
        exact ih agrees

/-! ## All tokens -/

/-- With the other word in its place the same tokens are given, if no slash behind it changes its
meaning. -/
theorem Gives.respell {name name' rest : List Char} {before more : List Token}
    (gives : lx.Gives (before ++ t :: more)) (notEnd : t.isEnd = false)
    (h : Abreast 0 (name ++ rest) (name' ++ rest) lx lx') (isName : isName name = true)
    (isName' : Scoping.isName name' = true) (size : name'.length = name.length)
    (place : lx.Before t (name ++ rest)) (spelled : t.lexeme.toList = name)
    (touching : ∀ u ∈ before, u.span.stop = t.span.start →
      u.kind = .comment ∨ ∃ p, u.kind = .punctuation p)
    (agrees : ((pushAll lx.lookbehind before).push t).agreesOn
      ((pushAll lx.lookbehind before).push (t.respell (String.ofList name')))
      (more.filter (!·.isComment)) = true) :
    lx'.Gives (before ++ t.respell (String.ofList name') :: more) := by
  obtain ⟨mid, mid', rest, abreast, remembers, stands, transfers⟩ :=
    gives.upTo (beginsName_of_isName isName) (beginsName_of_isName isName') h place touching
  have some : more ≠ [] := by
    rintro rfl
    cases rest with
    | last _ atEnd => rw [notEnd] at atEnd; cases atEnd
    | token _ _ none => cases none
  obtain ⟨behind, scanned, _, gives⟩ := rest.exists_behind some
  obtain ⟨scanned', pushed⟩ :=
    abreast.scan_word isName isName' size scanned notEnd stands spelled
  rw [← remembers, ← pushed] at agrees
  exact transfers _ (.token scanned' (Token.isEnd_respell t _) (gives.withLookbehind agrees))

end

end Lexer

/-- Where three significant tokens stand one behind another, only comments stand between them. -/
theorem exists_split {p : Token → Bool} {ts earlier later : List Token} {point word : Token}
    (tokens : ts.filter p = earlier ++ point :: word :: later) :
    ∃ before comments more, ts = before ++ point :: comments ++ word :: more ∧
      before.filter p = earlier ∧ (∀ t ∈ comments, p t = false) ∧ more.filter p = later := by
  obtain ⟨before, rest, rfl, kept, tokens⟩ := List.filter_eq_append_iff.mp tokens
  obtain ⟨first, rest, rfl, skipped, _, tokens⟩ := List.filter_eq_cons_iff.mp tokens
  obtain ⟨comments, more, rfl, skipped', _, kept'⟩ := List.filter_eq_cons_iff.mp tokens
  refine ⟨before ++ first, comments, more, by simp, ?_, fun t mem => ?_, kept'⟩
  · rw [List.filter_append, kept, List.filter_eq_nil_iff.mpr skipped, List.append_nil]
  · exact Bool.eq_false_of_not_eq_true (skipped' t mem)

/-- What touches the token behind a mark of structure is the mark, or a comment behind it. -/
theorem Tiling.touching {offset : Nat} {cs : List Char} {front comments back : List Token}
    {point word : Token} (h : Tiling offset cs (front ++ point :: comments ++ word :: back))
    (mark : ∃ p, point.kind = .punctuation p) (skipped : ∀ t ∈ comments, (!t.isComment) = false) :
    ∀ t ∈ front ++ point :: comments, t.span.stop = word.span.start →
      t.kind = .comment ∨ ∃ p, t.kind = .punctuation p := by
  intro t mem touches
  have notEnd : point.isEnd = false := by
    obtain ⟨p, kind⟩ := mark
    simp [Token.isEnd, kind]
  have apart := h.apart
  rw [List.append_assoc, List.cons_append, List.pairwise_append, List.pairwise_cons] at apart
  obtain ⟨_, ⟨behind, _⟩, before⟩ := apart
  rcases List.mem_append.mp mem with earlier | later
  · have first := before t earlier point List.mem_cons_self
    have second := h.wide point (by simp) notEnd
    have third := behind word (by simp)
    omega
  · rcases List.mem_cons.mp later with rfl | comment
    · exact .inr mark
    · exact .inl (by simpa [Token.isComment] using skipped t comment)

/-- A source with another name in place of a word behind a mark of structure has the same tokens but for
the word, if the two are of one length and no slash behind them changes its meaning. -/
theorem tokenize_respell {source source' name : String} {limit : Option Nat}
    {ts earlier later : List Token} {point word : Token} {before behind : List Char}
    (lexed : tokenize source limit = .ok ts)
    (tokens : ts.filter (!·.isComment) = earlier ++ point :: word :: later)
    (mark : ∃ p, point.kind = .punctuation p)
    (isWord : word.isWord = true)
    (place : word.span.start = byteSize before)
    (text : source.toList = before ++ (word.lexeme.toList ++ behind))
    (text' : source'.toList = before ++ (name.toList ++ behind))
    (named : isName name.toList = true) (size : name.length = word.lexeme.length)
    (agrees : (((earlier ++ [point]).foldl Lookbehind.push .start).push word).agreesOn
      (((earlier ++ [point]).foldl Lookbehind.push .start).push (word.respell name)) later = true) :
    ∃ front back, ts = front ++ word :: back ∧
      front.filter (!·.isComment) = earlier ++ [point] ∧ back.filter (!·.isComment) = later ∧
      tokenize source' limit = .ok (front ++ word.respell name :: back) := by
  obtain ⟨front, comments, back, rfl, kept, skipped, kept'⟩ := exists_split tokens
  have gives := tokenize_ok_iff.mp lexed
  have isWord := isWord_iff_kind.mp isWord
  have notEnd : word.isEnd = false := by
    rcases isWord with kind | ⟨k, kind⟩ <;> simp [Token.isEnd, kind]
  have isMark : point.isComment = false := by
    obtain ⟨p, kind⟩ := mark
    simp [Token.isComment, kind]
  have keeps : (front ++ point :: comments).filter (!·.isComment) = earlier ++ [point] := by
    have none : comments.filter (!·.isComment) = [] :=
      List.filter_eq_nil_iff.mpr fun t mem => by simp [skipped t mem]
    rw [List.filter_append, kept, List.filter_cons_of_pos (by simp [isMark]), none]
  obtain ⟨_, lexeme⟩ := gives.lexed.1.exists_lexeme word (by rw [tokens]; simp) notEnd
  have abreast : Lexer.Abreast 0 (word.lexeme.toList ++ behind) (name.toList ++ behind)
      (Lexer.start source limit) (Lexer.start source' limit) :=
    ⟨⟨rfl, before, text, text'⟩, rfl, rfl⟩
  have stands : (Lexer.start source limit).Before word (word.lexeme.toList ++ behind) :=
    ⟨before, text, place.trans (Nat.zero_add _).symm⟩
  have respelled := gives.respell notEnd abreast (lexeme.isName isWord) named size stands rfl
    (gives.tiling.touching mark skipped) (by
      rw [Lexer.pushAll, keeps, kept', String.ofList_toList]
      exact agrees)
  rw [String.ofList_toList] at respelled
  exact ⟨_, back, rfl, keeps, kept', tokenize_ok_iff.mpr respelled⟩

end Scoping
