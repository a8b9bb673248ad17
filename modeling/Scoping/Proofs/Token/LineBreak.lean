import Scoping.Proofs.Token.Cut
import Scoping.Proofs.Token.Stream

/-!
# Tokens behind a line end

A token says whether a line ends between it and the significant token before. Between the two stand
gaps and comments, and they are not read alike: in a gap a line ends at each of the four characters
that end one, in a comment at LF and CR alone (`BreaksLine`). That is what the flag says, for each
significant token of a source and for the end of input (`tokenize_afterBreak`).

So a separator that is the only line end, and stands in a comment, is missed. The flag is right wherever
no comment in between holds one.
-/

namespace Scoping

/-- At the offset stands the character. -/
def CharAt (cs : List Char) (offset : Nat) (x : Char) : Prop :=
  ∃ before behind, cs = before ++ x :: behind ∧ offset = byteSize before

/-- A line ends between the two offsets: in a comment at LF or CR, and elsewhere also at a line or
paragraph separator. -/
def BreaksLine (cs : List Char) (ts : List Token) (start stop : Nat) : Prop :=
  ∃ offset x, CharAt cs offset x ∧ start ≤ offset ∧ offset < stop ∧ endsLine x = true ∧
    (isNewline x = true ∨
      ∀ c ∈ ts, c.isComment = true → offset < c.span.start ∨ c.span.stop ≤ offset)

/-- A line or paragraph separator: it ends a line, but is neither LF nor CR. -/
def isSeparator (x : Char) : Bool := endsLine x && !isNewline x

/-- Where the last significant one of the tokens ends. -/
def significantStop (ts : List Token) : Nat :=
  ((ts.filter (!·.isComment)).getLast?.map (·.span.stop)).getD 0

theorem significantStop_concat (ts : List Token) (t : Token) :
    significantStop (ts ++ [t]) = if t.isComment then significantStop ts else t.span.stop := by
  unfold significantStop
  rw [List.filter_append]
  cases comment : t.isComment with
  | true => simp [comment]
  | false => simp [comment]

/-- The last significant token ends where all have ended, or before. -/
theorem significantStop_le {ts : List Token} {offset : Nat}
    (passed : ∀ t ∈ ts, t.span.stop ≤ offset) : significantStop ts ≤ offset := by
  unfold significantStop
  cases last : (ts.filter (!·.isComment)).getLast? with
  | none => exact Nat.zero_le _
  | some t => exact passed t (List.mem_filter.mp (List.mem_of_getLast? last)).1

theorem endsLine_of_isNewline {x : Char} (h : isNewline x = true) : endsLine x = true := by
  simp only [isNewline, Bool.or_eq_true] at h
  rcases h with lf | cr <;> simp [endsLine, *]

/-- The characters of a piece are those that stand between its offsets. -/
theorem any_iff_charAt (before text behind : List Char) (p : Char → Bool) :
    text.any p = true ↔ ∃ offset x, CharAt (before ++ (text ++ behind)) offset x ∧
      byteSize before ≤ offset ∧ offset < byteSize before + byteSize text ∧ p x = true := by
  constructor
  · intro any
    obtain ⟨x, mem, holds⟩ := List.any_eq_true.mp any
    obtain ⟨u, v, rfl⟩ := List.append_of_mem mem
    refine ⟨byteSize (before ++ u), x, ⟨before ++ u, v ++ behind, by simp, rfl⟩, ?_, ?_, holds⟩
    · rw [byteSize_append]
      exact Nat.le_add_right _ _
    · have := x.utf8Size_pos
      rw [byteSize_append, byteSize_append, byteSize_cons]
      omega
  · rintro ⟨_, x, ⟨outer, more, split, rfl⟩, le, less, holds⟩
    obtain ⟨u, rfl, rest⟩ := append_of_byteSize_le split.symm le
    rw [byteSize_append, Nat.add_lt_add_iff_left] at less
    -- Fewer bytes stand before the character than the piece has, so it is one of the piece.
    obtain ⟨v, rfl, tail⟩ := append_of_byteSize_le rest (Nat.le_of_lt less)
    cases v with
    | nil => simp at less
    | cons y v =>
      cases tail
      exact List.any_eq_true.mpr ⟨x, by simp, holds⟩

theorem Cursor.Spells.any_iff {source : String} {c d : Cursor} {text : List Char}
    (reached : (Cursor.start source).Reaches c) (spells : c.Spells d text) (p : Char → Bool) :
    text.any p = true ↔ ∃ offset x, CharAt source.toList offset x ∧ c.offset ≤ offset ∧
      offset < d.offset ∧ p x = true := by
  obtain ⟨before, first⟩ := reached
  have start : c.offset = byteSize before := first.offset.trans (Nat.zero_add _)
  have whole : source.toList = before ++ (text ++ d.rest) := by
    rw [← spells.rest]
    exact first.rest
  rw [spells.offset, start, whole]
  exact any_iff_charAt before text d.rest p

namespace BreaksLine

variable {cs : List Char} {ts : List Token} {start mid stop : Nat}

theorem split_iff (le : start ≤ mid) (le' : mid ≤ stop) :
    BreaksLine cs ts start stop ↔ BreaksLine cs ts start mid ∨ BreaksLine cs ts mid stop := by
  constructor
  · rintro ⟨offset, x, here, begins, ends, line⟩
    by_cases before : offset < mid
    · exact .inl ⟨offset, x, here, begins, before, line⟩
    · exact .inr ⟨offset, x, here, Nat.not_lt.mp before, ends, line⟩
  · rintro (⟨offset, x, here, begins, ends, line⟩ | ⟨offset, x, here, begins, ends, line⟩)
    · exact ⟨offset, x, here, begins, Nat.lt_of_lt_of_le ends le', line⟩
    · exact ⟨offset, x, here, Nat.le_trans le begins, ends, line⟩

theorem not_self : ¬ BreaksLine cs ts start start := by
  rintro ⟨offset, _, _, begins, ends, _⟩
  omega

variable {source : String} {c d : Cursor} {text : List Char}

/-- Outside all comments a line ends at every line end. -/
theorem outside_iff (reached : (Cursor.start source).Reaches c) (spells : c.Spells d text)
    (apart : ∀ u ∈ ts, u.isComment = true → u.span.stop ≤ c.offset ∨ d.offset ≤ u.span.start) :
    BreaksLine source.toList ts c.offset d.offset ↔ text.any endsLine = true := by
  rw [spells.any_iff reached]
  constructor
  · rintro ⟨offset, x, here, begins, ends, line, _⟩
    exact ⟨offset, x, here, begins, ends, line⟩
  · rintro ⟨offset, x, here, begins, ends, line⟩
    refine ⟨offset, x, here, begins, ends, line, .inr fun u mem comment => ?_⟩
    rcases apart u mem comment with before | behind
    · exact .inr (Nat.le_trans before begins)
    · exact .inl (Nat.lt_of_lt_of_le ends behind)

/-- In a comment it ends at LF and CR. -/
theorem inside_iff (reached : (Cursor.start source).Reaches c) (spells : c.Spells d text)
    {t : Token} (mem : t ∈ ts) (comment : t.isComment = true)
    (span : t.span = ⟨c.offset, d.offset⟩) :
    BreaksLine source.toList ts c.offset d.offset ↔ text.any isNewline = true := by
  rw [spells.any_iff reached]
  constructor
  · rintro ⟨offset, x, here, begins, ends, _, newline | outside⟩
    · exact ⟨offset, x, here, begins, ends, newline⟩
    · have outside := outside t mem comment
      rw [span] at outside
      dsimp only at outside
      omega
  · rintro ⟨offset, x, here, begins, ends, newline⟩
    exact ⟨offset, x, here, begins, ends, endsLine_of_isNewline newline, .inl newline⟩

end BreaksLine

/-! ## Comments that cross lines -/

section
variable {c d : Cursor} {more : List Char}

/-- A comment up to the end of the line crosses none. -/
theorem skipLine_crossed {x y : Char} (left : c.rest = x :: y :: more)
    (inLine : isNewline x = false ∧ isNewline y = false) :
    ∃ text, c.Spells c.skipLine text ∧
      c.skipLine.crossed = (c.crossed || text.any isNewline) := by
  obtain ⟨body, spells, all, _⟩ := skipLine_spells left inLine
  have none : body.any isNewline = false := by
    simpa [List.any_eq_false, List.all_eq_true] using all
  refine ⟨_, spells, ?_⟩
  rw [List.any_cons, List.any_cons, inLine.1, inLine.2, none, Bool.or_false, Bool.or_false,
    Bool.or_false]
  exact c.skipWhile_crossed _

/-- One with a closing mark crosses the lines that end in it. -/
theorem blockComment_crossed (left : c.rest = '/' :: '*' :: more) (found : blockComment c = .ok d) :
    ∃ text, c.Spells d text ∧ d.crossed = (c.crossed || text.any isNewline) := by
  obtain ⟨body, valid, spells⟩ := blockComment_ok found
  have opens : c.Spells c.next.next ['/', '*'] :=
    (Cursor.Spells.next left).trans (.next (Cursor.next_rest left))
  have whole := opens.trans spells
  refine ⟨_, whole, ?_⟩
  rw [valid.read_block whole.rest] at found
  have crossed := congrArg Cursor.crossed (Except.ok.inj found)
  rw [← crossed, Cursor.next_crossed, Cursor.next_crossed, List.any_append]
  rfl

/-- So behind any comment it is known whether a line has been crossed. -/
theorem readToken_crossed {afterOperand : Bool} {first : Char} {r : Reading}
    (left : c.rest = first :: more) (h : readToken afterOperand c first more = .ok r)
    (comment : r.kind = .comment) :
    ∃ text, c.Spells r.stop text ∧ r.stop.crossed = (c.crossed || text.any isNewline) := by
  obtain ⟨reader, asks, read⟩ := exists_reader afterOperand c first more
  rw [read] at h
  cases asks with
  | script _ | line =>
    cases h
    exact skipLine_crossed left ⟨rfl, rfl⟩
  | block =>
    obtain ⟨stop, found, rfl⟩ := exists_of_map_ok h
    exact blockComment_crossed left found
  -- Nothing else begins a comment.
  | regex _ _ | string _ | template =>
    obtain ⟨_, _, rfl⟩ := exists_of_map_ok h
    cases comment
  | number _ =>
    cases h
    cases comment
  | word _ =>
    cases h
    exact absurd comment (wordKind_significant _).2
  | mark _ =>
    obtain ⟨mark, _, rfl⟩ := TokenReader.mark_ok h
    exact absurd comment (markKind_significant mark).2

end

/-! ## The memory of lines crossed -/

namespace Lexer

variable {source : String} {lx behind : Lexer} {t : Token} {before ts : List Token}

/-- The lexer has read the tokens `before` out of `ts`, and remembers whether a line has ended since the
last significant one of them. -/
structure Remembers (lx : Lexer) (source : String) (ts before : List Token) : Prop where
  reached : (Cursor.start source).Reaches lx.cursor
  passed : ∀ u ∈ before, u.span.stop ≤ lx.cursor.offset
  crossed : lx.cursor.crossed = true ↔
    BreaksLine source.toList ts (significantStop before) lx.cursor.offset

theorem Remembers.start (source : String) (limit : Option Nat) (ts : List Token) :
    (Lexer.start source limit).Remembers source ts [] where
  reached := .refl _
  passed := nofun
  crossed := ⟨nofun, fun breaks => absurd breaks BreaksLine.not_self⟩

/-- Before the next token a line is broken in the gap, or was before. -/
theorem broken_iff (lx : Lexer) : ∃ gap, lx.cursor.Spells lx.ahead gap ∧
    lx.ahead.crossed = lx.cursor.crossed ∧
    (lx.broken = true ↔ gap.any endsLine = true ∨ lx.cursor.crossed = true) := by
  obtain ⟨gap, blank, stops, spells⟩ := lx.cursor.skipGap_spells
  obtain ⟨met, _⟩ := Cursor.skipGap_append spells.rest blank stops
  refine ⟨gap, spells, lx.cursor.skipGap_crossed, ?_⟩
  rw [broken, met, Bool.or_eq_true]

/-- The flag of a token says whether the line is broken. A significant token ends the memory of that,
and a comment adds to it what it crosses. -/
theorem scan_broken (h : lx.scan = (.ok t, behind)) : t.flags.afterBreak = lx.broken ∧
    (t.isComment = false → behind.cursor.crossed = false) ∧
    (t.isComment = true → behind.cursor.crossed = (lx.broken || t.lexeme.toList.any isNewline)) := by
  obtain ⟨_, _, kept, broken⟩ := lx.broken_iff
  cases left : lx.ahead.rest with
  | nil =>
    rw [scan_of_nil left] at h
    cases h
    exact ⟨rfl, fun _ => rfl, nofun⟩
  | cons first more =>
    obtain ⟨_, r, found, rfl, rfl⟩ := (scan_ok_iff_of_cons left).mp h
    refine ⟨rfl, fun significant => ?_, fun comment => ?_⟩
    · rw [moved, significant]
      rfl
    · have kind : r.kind = .comment := eq_of_beq comment
      obtain ⟨text, spells, crossed⟩ := readToken_crossed left found kind
      have lexeme : (tokenOf lx.ahead lx.broken r).lexeme.toList = text := by
        rw [tokenOf, spells.textTo, String.toList_ofList]
      have memory : (lx.moved (tokenOf lx.ahead lx.broken r) r.stop).cursor.crossed =
          (lx.broken || r.stop.crossed) := by
        rw [moved, if_pos comment]
        rfl
      rw [memory, lexeme, crossed, kept]
      -- A line that was crossed before counts as broken already.
      cases was : lx.cursor.crossed with
      | false => rw [Bool.false_or]
      | true => rw [broken.mpr (.inr was), Bool.true_or, Bool.true_or]

/-- A line ends before the next token where its flag says so, and the lexer remembers right behind it. -/
theorem Remembers.scan {rest : List Token} (h : lx.Remembers source (before ++ t :: rest) before)
    (apart : (before ++ t :: rest).Pairwise fun t u => t.span.stop ≤ u.span.start)
    (scanned : lx.scan = (.ok t, behind)) :
    (t.flags.afterBreak = true ↔ BreaksLine source.toList (before ++ t :: rest)
      (significantStop before) t.span.start) ∧
    behind.Remembers source (before ++ t :: rest) (before ++ [t]) := by
  obtain ⟨gap, skips, _, broken⟩ := lx.broken_iff
  obtain ⟨body, reads, lexeme, span, _⟩ := scan_spells scanned
  obtain ⟨flag, clears, crosses⟩ := scan_broken scanned
  have skipped : lx.cursor.offset ≤ lx.ahead.offset := by
    rw [skips.offset]
    exact Nat.le_add_right _ _
  have read : lx.ahead.offset ≤ behind.cursor.offset := by
    rw [reads.offset]
    exact Nat.le_add_right _ _
  have ahead : (Cursor.start source).Reaches lx.ahead := h.reached.trans ⟨gap, skips⟩
  -- No comment stands in the gap: those before have ended, and those behind come later.
  have outside : ∀ u ∈ before ++ t :: rest, u.isComment = true →
      u.span.stop ≤ lx.cursor.offset ∨ lx.ahead.offset ≤ u.span.start := by
    intro u mem _
    rcases List.mem_append.mp mem with mem | mem
    · exact .inl (h.passed u mem)
    · rcases List.mem_cons.mp mem with rfl | mem
      · rw [span]
        exact .inr (Nat.le_refl _)
      · have later := (List.pairwise_cons.mp (List.pairwise_append.mp apart).2.1).1 u mem
        rw [span] at later
        exact .inr (Nat.le_trans read later)
  have breaks : lx.broken = true ↔ BreaksLine source.toList (before ++ t :: rest)
      (significantStop before) lx.ahead.offset := by
    rw [broken, BreaksLine.split_iff (significantStop_le h.passed) skipped, h.crossed,
      BreaksLine.outside_iff h.reached skips outside]
    exact or_comm
  refine ⟨by rw [flag, span, breaks], ?reached, ?passed, ?crossed⟩
  case reached => exact ahead.trans ⟨body, reads⟩
  case passed =>
    intro u mem
    rcases List.mem_append.mp mem with mem | mem
    · exact Nat.le_trans (h.passed u mem) (Nat.le_trans skipped read)
    · obtain rfl := List.mem_singleton.mp mem
      exact Nat.le_of_eq (congrArg Span.stop span)
  case crossed =>
    rw [significantStop_concat]
    cases comment : t.isComment with
    | true =>
      have inside : t ∈ before ++ t :: rest := List.mem_append_right _ List.mem_cons_self
      have text : t.lexeme.toList = body := by rw [lexeme, String.toList_ofList]
      have le : significantStop before ≤ lx.ahead.offset :=
        Nat.le_trans (significantStop_le h.passed) skipped
      rw [if_pos rfl, crosses comment, text, Bool.or_eq_true, breaks, BreaksLine.split_iff le read,
        BreaksLine.inside_iff ahead reads inside comment span]
    | false =>
      rw [if_neg Bool.false_ne_true, clears comment, span]
      exact ⟨nofun, fun breaks => absurd breaks BreaksLine.not_self⟩

/-- So it is for every token that is given. -/
theorem Gives.breaks (gives : lx.Gives ts) {done : List Token}
    (h : lx.Remembers source (done ++ ts) done)
    (apart : (done ++ ts).Pairwise fun t u => t.span.stop ≤ u.span.start) {rest : List Token}
    (split : ts = before ++ t :: rest) :
    t.flags.afterBreak = true ↔
      BreaksLine source.toList (done ++ ts) (significantStop (done ++ before)) t.span.start := by
  induction gives generalizing done before with
  | last scanned _ =>
    obtain ⟨rfl, same⟩ | ⟨_, _, none⟩ := List.cons_eq_append_iff.mp split
    · cases same
      rw [List.append_nil]
      exact (h.scan apart scanned).1
    · simp at none
  | @token lx behind u us scanned _ _ ih =>
    obtain ⟨flag, remembers⟩ := h.scan apart scanned
    obtain ⟨rfl, same⟩ | ⟨before, rfl, further⟩ := List.cons_eq_append_iff.mp split
    · cases same
      rw [List.append_nil]
      exact flag
    · rw [List.append_cons] at remembers apart ⊢
      rw [List.append_cons done u before]
      exact ih remembers apart further

end Lexer

/-! ## All tokens of a source -/

/-- Where no comment between the offsets holds a separator, a line ends at every line end. -/
theorem BreaksLine.iff_of_plain {source : String} {limit : Option Nat} {ts : List Token}
    {start stop : Nat} (lexed : tokenize source limit = .ok ts)
    (plain : ∀ c ∈ ts, c.isComment = true → start < c.span.stop → c.span.start < stop →
      c.lexeme.toList.any isSeparator = false) :
    BreaksLine source.toList ts start stop ↔ ∃ offset x, CharAt source.toList offset x ∧
      start ≤ offset ∧ offset < stop ∧ endsLine x = true := by
  constructor
  · rintro ⟨offset, x, here, begins, ends, line, _⟩
    exact ⟨offset, x, here, begins, ends, line⟩
  · rintro ⟨offset, x, here, begins, ends, line⟩
    refine ⟨offset, x, here, begins, ends, line, ?_⟩
    cases newline : isNewline x with
    | true => exact .inl rfl
    | false =>
      refine .inr fun c mem comment => ?_
      by_cases within : offset < c.span.start ∨ c.span.stop ≤ offset
      · exact within
      · -- The comment would hold a separator.
        rw [not_or, Nat.not_lt, Nat.not_le] at within
        have tiling : Tiling (byteSize []) source.toList ts := tokenize_tiling lexed
        obtain ⟨pre, post, split, span⟩ := tiling.exists_piece c mem
        have none := plain c mem comment (by omega) (by omega)
        have some : c.lexeme.toList.any isSeparator = true := by
          rw [span] at within
          rw [List.nil_append] at split
          rw [split] at here
          apply (any_iff_charAt pre c.lexeme.toList post isSeparator).mpr
          exact ⟨offset, x, here, within.1, within.2, by rw [isSeparator, line, newline]; rfl⟩
        rw [none] at some
        cases some

/-- The flag of a token says whether a line ends between the last significant token before it and its
own start. Where no comment in between holds a separator, that is to say whether a line end of any sort
stands there. -/
theorem tokenize_afterBreak {source : String} {limit : Option Nat} {before behind : List Token}
    {t : Token} (lexed : tokenize source limit = .ok (before ++ t :: behind)) :
    (t.flags.afterBreak = true ↔
      BreaksLine source.toList (before ++ t :: behind) (significantStop before) t.span.start) ∧
    ((∀ c ∈ before ++ t :: behind, c.isComment = true → significantStop before < c.span.stop →
        c.span.start < t.span.start → c.lexeme.toList.any isSeparator = false) →
      (t.flags.afterBreak = true ↔ ∃ offset x, CharAt source.toList offset x ∧
        significantStop before ≤ offset ∧ offset < t.span.start ∧ endsLine x = true)) := by
  have flag := (tokenize_ok_iff.mp lexed).breaks (.start source limit _)
    (tokenize_tiling lexed).apart rfl
  exact ⟨flag, fun plain => flag.trans (BreaksLine.iff_of_plain lexed plain)⟩

/-- The line end in the first of two comments is seen. -/
theorem tokenize_afterBreak_comment : ∃ before t behind,
    tokenize "a/*\n*//**/b" none = .ok (before ++ t :: behind) ∧
      (∀ c ∈ before ++ t :: behind, c.isComment = true → significantStop before < c.span.stop →
        c.span.start < t.span.start → c.lexeme.toList.any isSeparator = false) ∧
      t.lexeme = "b" ∧ t.flags.afterBreak = true ∧
      BreaksLine "a/*\n*//**/b".toList (before ++ t :: behind) (significantStop before) t.span.start ∧
      ∃ offset x, CharAt "a/*\n*//**/b".toList offset x ∧ significantStop before ≤ offset ∧
        offset < t.span.start ∧ endsLine x = true := by
  let before : List Token := [⟨.identifier, "a", ⟨0, 1⟩, .none⟩,
    ⟨.comment, "/*\n*/", ⟨1, 6⟩, { TokenFlags.none with blockComment := true }⟩,
    ⟨.comment, "/**/", ⟨6, 10⟩, ⟨true, false, false, true⟩⟩]
  let t : Token := ⟨.identifier, "b", ⟨10, 11⟩, { TokenFlags.none with afterBreak := true }⟩
  let behind : List Token := [⟨.endOfInput, "", .point 11, .none⟩]
  have made : (tokenize "a/*\n*//**/b" none).toOption = some (before ++ t :: behind) := by
    decide +kernel
  have plain : ∀ c ∈ before ++ t :: behind, c.isComment = true →
      significantStop before < c.span.stop → c.span.start < t.span.start →
        c.lexeme.toList.any isSeparator = false := by decide +kernel
  have lexed := ok_of_toOption made
  obtain ⟨exact, right⟩ := tokenize_afterBreak lexed
  exact ⟨before, t, behind, lexed, plain, rfl, rfl, exact.mp rfl, (right plain).mp rfl⟩

/-- A line separator in a comment is not. -/
theorem tokenize_afterBreak_separator : ∃ before t behind,
    tokenize "a/*\u2028*/b" none = .ok (before ++ t :: behind) ∧ t.isComment = false ∧
      ¬ (t.flags.afterBreak = true ↔ ∃ offset x, CharAt "a/*\u2028*/b".toList offset x ∧
        significantStop before ≤ offset ∧ offset < t.span.start ∧ endsLine x = true) := by
  let before : List Token := [⟨.identifier, "a", ⟨0, 1⟩, .none⟩,
    ⟨.comment, "/*\u2028*/", ⟨1, 8⟩, { TokenFlags.none with blockComment := true }⟩]
  let t : Token := ⟨.identifier, "b", ⟨8, 9⟩, .none⟩
  let behind : List Token := [⟨.endOfInput, "", .point 9, .none⟩]
  have made : (tokenize "a/*\u2028*/b" none).toOption = some (before ++ t :: behind) := by
    decide +kernel
  refine ⟨before, t, behind, ok_of_toOption made, rfl, fun same => ?_⟩
  have ends : ∃ offset x, CharAt "a/*\u2028*/b".toList offset x ∧
      significantStop before ≤ offset ∧ offset < t.span.start ∧ endsLine x = true :=
    ⟨3, '\u2028', ⟨['a', '/', '*'], ['*', '/', 'b'], by decide, by decide⟩, by decide, by decide,
      by decide⟩
  exact nomatch same.mpr ends

end Scoping
