import Scoping.Proofs.Token.Lexeme

/-!
# Tokens tile the source

A source that can be cut into tokens is its tokens with gaps between them: before every token, the
end of input included, stands a gap of blanks and line ends, the token is what it spells, and nothing
is read twice or left out (`tokenize_tiling`). So the tokens stand one behind the other, and only the
last one, at the end of the source, takes no room.
-/

namespace Scoping

/-- The tokens of a text that begins at the given offset. -/
inductive Tiling : (offset : Nat) → List Char → List Token → Prop
  | last {offset : Nat} {gap : List Char} {t : Token} : gap.all isGap = true →
    t.kind = .endOfInput → t.lexeme = "" → t.span = .point (offset + byteSize gap) →
    Tiling offset gap [t]
  | token {offset : Nat} {gap body rest : List Char} {t : Token} {ts : List Token} :
    gap.all isGap = true → body ≠ [] → t.isEnd = false → t.lexeme = String.ofList body →
    t.span = ⟨offset + byteSize gap, offset + byteSize gap + byteSize body⟩ →
    Tiling (offset + byteSize gap + byteSize body) rest ts →
    Tiling offset (gap ++ (body ++ rest)) (t :: ts)

/-- A token takes at least its first character, and is not the end of input. -/
theorem readToken_advances {afterOperand : Bool} {c : Cursor} {first : Char} {more : List Char}
    {r : Reading} (left : c.rest = first :: more)
    (h : readToken afterOperand c first more = .ok r) :
    c.Advances r.stop ∧ r.kind ≠ .endOfInput := by
  rcases readToken_ok left h with ⟨comment, advances⟩ | ⟨text, lexeme, spells⟩
  · exact ⟨advances, by rw [comment]; exact nofun⟩
  · exact ⟨⟨text, lexeme.ne_nil, spells⟩, lexeme.significant.1⟩

/-! ## All tokens -/

namespace Lexer

variable {lx behind : Lexer} {t : Token}

theorem moved_rest (lx : Lexer) (t : Token) (stop : Cursor) :
    (lx.moved t stop).cursor.rest = stop.rest := by
  unfold moved
  split <;> rfl

theorem moved_offset (lx : Lexer) (t : Token) (stop : Cursor) :
    (lx.moved t stop).cursor.offset = stop.offset := by
  unfold moved
  split <;> rfl

/-- Where the next token begins. -/
def ahead (lx : Lexer) : Cursor := lx.cursor.skipGap.2

/-- A line end stands before the next token. -/
def broken (lx : Lexer) : Bool := lx.cursor.skipGap.1 || lx.cursor.crossed

/-- At the end of the text its end is given. -/
theorem scan_of_nil (left : lx.ahead.rest = []) :
    lx.scan = (.ok (tokenOf lx.ahead lx.broken ⟨.endOfInput, .none, lx.ahead⟩),
      { lx with cursor := { lx.ahead with crossed := false } }) := by
  unfold ahead at left
  simp only [scan, ahead, broken, left]

/-- Before it a token is given where there is room for one and one is read. -/
theorem scan_ok_iff_of_cons {first : Char} {more : List Char}
    (left : lx.ahead.rest = first :: more) :
    lx.scan = (.ok t, behind) ↔ lx.limit.filter (· ≤ lx.emitted) = none ∧
      ∃ r, readToken lx.lookbehind.afterOperand lx.ahead first more = .ok r ∧
        t = tokenOf lx.ahead lx.broken r ∧ behind = lx.moved t r.stop := by
  unfold ahead at left ⊢
  simp only [scan, broken, left]
  cases lx.limit.filter (· ≤ lx.emitted) with
  | some limit => simp
  | none =>
    cases readToken lx.lookbehind.afterOperand lx.cursor.skipGap.2 first more with
    | error halt => simp
    | ok r =>
      simp only
      constructor
      · rintro ⟨⟩
        exact ⟨trivial, r, rfl, rfl, rfl⟩
      · rintro ⟨_, _, ⟨⟩, rfl, rfl⟩
        rfl

/-- The next token stands behind a gap, and is the end of input or takes some room. -/
theorem scan_ok (h : lx.scan = (.ok t, behind)) :
    ∃ gap, gap.all isGap = true ∧
      (lx.cursor.rest = gap ∧ t.kind = .endOfInput ∧ t.lexeme = "" ∧
          t.span = .point (lx.cursor.offset + byteSize gap) ∨
        ∃ body, body ≠ [] ∧ lx.cursor.rest = gap ++ (body ++ behind.cursor.rest) ∧
          behind.cursor.offset = lx.cursor.offset + byteSize gap + byteSize body ∧
          t.isEnd = false ∧ t.lexeme = String.ofList body ∧
          t.span = ⟨lx.cursor.offset + byteSize gap,
            lx.cursor.offset + byteSize gap + byteSize body⟩) := by
  obtain ⟨gap, blank, _, spells⟩ := lx.cursor.skipGap_spells
  refine ⟨gap, blank, ?_⟩
  have begins : lx.ahead.offset = lx.cursor.offset + byteSize gap := spells.offset
  have text : lx.cursor.rest = gap ++ lx.ahead.rest := spells.rest
  cases left : lx.ahead.rest with
  | nil =>
    rw [scan_of_nil left] at h
    cases h
    rw [left, List.append_nil] at text
    have still : lx.ahead.Spells lx.ahead [] := .refl lx.ahead
    refine .inl ⟨text, rfl, still.textTo, ?_⟩
    rw [← begins]
    rfl
  | cons first more =>
    obtain ⟨_, r, found, rfl, rfl⟩ := (scan_ok_iff_of_cons left).mp h
    obtain ⟨⟨body, some, reads⟩, notEnd⟩ := readToken_advances left found
    refine .inr ⟨body, some, ?_, ?_, ?_, reads.textTo, ?_⟩
    · rw [moved_rest, text, reads.rest]
    · rw [moved_offset, reads.offset, begins]
    · simpa [Token.isEnd, tokenOf] using notEnd
    · rw [← begins, ← reads.offset]
      rfl

/-- A token is what stands between the end of the gap and the place where the lexer then stands. Only
the end of input is written with nothing. -/
theorem scan_spells (h : lx.scan = (.ok t, behind)) :
    ∃ body, lx.ahead.Spells behind.cursor body ∧ t.lexeme = String.ofList body ∧
      t.span = ⟨lx.ahead.offset, behind.cursor.offset⟩ ∧ (t.isEnd = false → body ≠ []) := by
  cases left : lx.ahead.rest with
  | nil =>
    rw [scan_of_nil left] at h
    cases h
    have still : lx.ahead.Spells lx.ahead [] := .refl lx.ahead
    exact ⟨[], ⟨still.rest, still.offset⟩, still.textTo, rfl, nofun⟩
  | cons first more =>
    obtain ⟨_, r, found, rfl, rfl⟩ := (scan_ok_iff_of_cons left).mp h
    obtain ⟨⟨body, some, reads⟩, _⟩ := readToken_advances left found
    refine ⟨body, ⟨?_, ?_⟩, reads.textTo, ?_, fun _ => some⟩
    · rw [moved_rest, reads.rest]
    · rw [moved_offset, reads.offset]
    · rw [moved_offset]
      rfl

/-- A token that is not the end is read behind a gap. -/
theorem scan_read (h : lx.scan = (.ok t, behind)) (notEnd : t.isEnd = false) :
    ∃ gap first more r, gap.all isGap = true ∧ isGap first = false ∧
      lx.cursor.Spells lx.ahead gap ∧ lx.ahead.rest = first :: more ∧
      readToken lx.lookbehind.afterOperand lx.ahead first more = .ok r ∧
      t = tokenOf lx.ahead lx.broken r ∧ behind = lx.moved t r.stop := by
  obtain ⟨gap, blank, stops, spells⟩ := lx.cursor.skipGap_spells
  cases left : lx.ahead.rest with
  | nil =>
    rw [scan_of_nil left] at h
    cases h
    cases notEnd
  | cons first more =>
    obtain ⟨_, r, found, token, moved⟩ := (scan_ok_iff_of_cons left).mp h
    have left' : lx.cursor.skipGap.2.rest = first :: more := left
    rw [left'] at stops
    exact ⟨gap, first, more, r, blank, stops, spells, rfl, found, token, moved⟩

/-- Behind the end of input nothing is left, and before it another token is. -/
theorem scan_isEnd (h : lx.scan = (.ok t, behind)) (atEnd : t.isEnd = true) :
    Tiling lx.cursor.offset lx.cursor.rest [t] := by
  obtain ⟨gap, blank, ⟨left, kind, lexeme, span⟩ | ⟨_, _, _, _, notEnd, _⟩⟩ := scan_ok h
  · exact left ▸ .last blank kind lexeme span
  · rw [notEnd] at atEnd
    cases atEnd

theorem scan_token {ts : List Token} (h : lx.scan = (.ok t, behind)) (notEnd : t.isEnd = false)
    (rest : Tiling behind.cursor.offset behind.cursor.rest ts) :
    Tiling lx.cursor.offset lx.cursor.rest (t :: ts) := by
  obtain ⟨gap, blank, ⟨_, kind, _⟩ | ⟨body, some, left, offset, notEnd, lexeme, span⟩⟩ := scan_ok h
  · simp [Token.isEnd, kind] at notEnd
  · rw [left]
    exact .token blank some notEnd lexeme span (offset ▸ rest)

/-- A token that is not the end of input leaves less. -/
theorem scan_shorter (h : lx.scan = (.ok t, behind)) (notEnd : t.isEnd = false) :
    behind.cursor.rest.length < lx.cursor.rest.length := by
  obtain ⟨gap, _, ⟨_, kind, _⟩ | ⟨body, some, left, _⟩⟩ := scan_ok h
  · simp [Token.isEnd, kind] at notEnd
  · have := List.length_pos_iff.mpr some
    rw [left, List.length_append, List.length_append]
    omega

/-- The tokens that a lexer gives from here on, up to the end of input. -/
inductive Gives : Lexer → List Token → Prop
  | last {lx behind : Lexer} {t : Token} : lx.scan = (.ok t, behind) → t.isEnd = true →
    Gives lx [t]
  | token {lx behind : Lexer} {t : Token} {ts : List Token} : lx.scan = (.ok t, behind) →
    t.isEnd = false → Gives behind ts → Gives lx (t :: ts)

section
variable {ts : List Token}

theorem not_gives_of_error {e : LexError} (scanned : lx.scan = (.error e, behind)) :
    ¬ lx.Gives ts := by
  intro gives
  cases gives with
  | last again _ => rw [scanned] at again; cases again
  | token again _ _ => rw [scanned] at again; cases again

theorem gives_iff_of_isEnd (scanned : lx.scan = (.ok t, behind)) (atEnd : t.isEnd = true) :
    lx.Gives ts ↔ ts = [t] := by
  constructor
  · intro gives
    cases gives with
    | last again _ => rw [scanned] at again; cases again; rfl
    | token again notEnd _ => rw [scanned] at again; cases again; rw [atEnd] at notEnd; cases notEnd
  · rintro rfl
    exact .last scanned atEnd

theorem gives_iff_of_token (scanned : lx.scan = (.ok t, behind)) (notEnd : t.isEnd = false) :
    lx.Gives ts ↔ ∃ more, ts = t :: more ∧ behind.Gives more := by
  constructor
  · intro gives
    cases gives with
    | last again atEnd => rw [scanned] at again; cases again; rw [atEnd] at notEnd; cases notEnd
    | token again _ rest => rw [scanned] at again; cases again; exact ⟨_, rfl, rest⟩
  · rintro ⟨more, rfl, rest⟩
    exact .token scanned notEnd rest

/-- The text that is left is budget enough to collect all tokens. -/
theorem collect_ok_iff {found : List Token} {budget : List Char}
    (enough : lx.cursor.rest.length ≤ budget.length) :
    collect found budget lx = .ok ts ↔ ∃ more, lx.Gives more ∧ ts = found.reverse ++ more := by
  induction budget generalizing found lx with
  | nil =>
    cases scanned : lx.scan with
    | mk answer behind =>
    cases answer with
    | error e => simp [collect, scanned, not_gives_of_error scanned]
    | ok t =>
      cases atEnd : t.isEnd with
      | true => simp [collect, scanned, atEnd, gives_iff_of_isEnd scanned atEnd, eq_comm]
      | false =>
        have shorter := scan_shorter scanned atEnd
        rw [List.length_nil] at enough
        omega
  | cons _ budget ih =>
    cases scanned : lx.scan with
    | mk answer behind =>
    cases answer with
    | error e => simp [collect, scanned, not_gives_of_error scanned]
    | ok t =>
      cases atEnd : t.isEnd with
      | true => simp [collect, scanned, atEnd, gives_iff_of_isEnd scanned atEnd, eq_comm]
      | false =>
        have shorter := scan_shorter scanned atEnd
        rw [List.length_cons] at enough
        rw [collect, scanned]
        simp only [atEnd, Bool.false_eq_true, ↓reduceIte]
        rw [ih (by omega)]
        constructor
        · rintro ⟨more, rest, rfl⟩
          exact ⟨t :: more, .token scanned atEnd rest, by simp⟩
        · rintro ⟨all, gives, rfl⟩
          obtain ⟨more, rfl, rest⟩ := (gives_iff_of_token scanned atEnd).mp gives
          exact ⟨more, rest, by simp⟩

end

end Lexer

/-- The tokens of a source are those that the lexer gives from its start. -/
theorem tokenize_ok_iff {source : String} {limit : Option Nat} {ts : List Token} :
    tokenize source limit = .ok ts ↔ (Lexer.start source limit).Gives ts := by
  have enough : (Lexer.start source limit).cursor.rest.length ≤ source.toList.length := Nat.le_refl _
  rw [tokenize, Lexer.collect_ok_iff enough]
  simp

/-- What a lexer gives tiles the text that is left. -/
theorem Lexer.Gives.tiling {lx : Lexer} {ts : List Token} (h : lx.Gives ts) :
    Tiling lx.cursor.offset lx.cursor.rest ts := by
  induction h with
  | last scanned atEnd => exact scan_isEnd scanned atEnd
  | token scanned notEnd _ ih => exact scan_token scanned notEnd ih

/-- The tokens of a source tile it. -/
theorem tokenize_tiling {source : String} {limit : Option Nat} {ts : List Token}
    (h : tokenize source limit = .ok ts) : Tiling 0 source.toList ts :=
  (tokenize_ok_iff.mp h).tiling

theorem ok_of_toOption {ε α : Type} {x : Except ε α} {a : α} (h : x.toOption = some a) :
    x = .ok a := by
  cases x with
  | error e => cases h
  | ok b => exact congrArg Except.ok (Option.some.inj h)

/-! ## What follows for the spans -/

namespace Tiling

variable {offset : Nat} {cs : List Char} {ts : List Token}

/-- The last token is the only end of input, and stands at the end of the text. -/
theorem exists_final (h : Tiling offset cs ts) : ∃ before final, ts = before ++ [final] ∧
    final.isEnd = true ∧ final.span = .point (offset + byteSize cs) ∧
      ∀ t ∈ before, t.isEnd = false := by
  induction h with
  | last _ kind _ span =>
    exact ⟨[], _, rfl, by simp [Token.isEnd, kind], span, fun _ mem => absurd mem List.not_mem_nil⟩
  | token _ _ notEnd _ _ _ ih =>
    obtain ⟨before, final, rfl, atEnd, span, notEnds⟩ := ih
    refine ⟨_ :: before, final, rfl, atEnd, ?_, List.forall_mem_cons.mpr ⟨notEnd, notEnds⟩⟩
    rw [span]
    simp only [byteSize_append, Nat.add_assoc]

/-- Every token but the end of input takes some room. -/
theorem wide (h : Tiling offset cs ts) :
    ∀ t ∈ ts, t.isEnd = false → t.span.start < t.span.stop := by
  induction h with
  | last _ kind _ _ =>
    intro t mem notEnd
    rw [List.mem_singleton.mp mem] at notEnd
    simp [Token.isEnd, kind] at notEnd
  | token _ some _ _ span _ ih =>
    refine List.forall_mem_cons.mpr ⟨fun _ => ?_, ih⟩
    have := byteSize_pos some
    rw [span]
    dsimp only
    omega

theorem begins (h : Tiling offset cs ts) : ∀ t ∈ ts, offset ≤ t.span.start := by
  induction h with
  | last _ _ _ span =>
    intro t mem
    rw [List.mem_singleton.mp mem, span]
    exact Nat.le_add_right _ _
  | token _ _ _ _ span _ ih =>
    refine List.forall_mem_cons.mpr ⟨?_, fun t mem => ?_⟩
    · rw [span]
      exact Nat.le_add_right _ _
    · have := ih t mem
      omega

/-- The tokens stand one behind the other. -/
theorem apart (h : Tiling offset cs ts) :
    ts.Pairwise fun t u => t.span.stop ≤ u.span.start := by
  induction h with
  | last _ _ _ _ => exact List.pairwise_singleton _ _
  | token _ _ _ _ span rest ih =>
    refine List.pairwise_cons.mpr ⟨fun u mem => ?_, ih⟩
    rw [span]
    exact rest.begins u mem

end Tiling

/-- Where tokens stand one behind the other, one that takes some room shares its span with no other. -/
theorem place_eq_of_span {ts : List Token} {m n : Nat} {t u : Token}
    (apart : ts.Pairwise fun t u => t.span.stop ≤ u.span.start) (at_m : ts[m]? = some t)
    (at_n : ts[n]? = some u) (wide : t.span.start < t.span.stop) (same : u.span = t.span) :
    m = n := by
  obtain ⟨inside, rfl⟩ := List.getElem?_eq_some_iff.mp at_m
  obtain ⟨inside', rfl⟩ := List.getElem?_eq_some_iff.mp at_n
  have apart := List.pairwise_iff_getElem.mp apart
  rcases Nat.lt_trichotomy m n with less | rfl | more
  · have before := apart m n inside inside' less
    rw [same] at before
    omega
  · rfl
  · have before := apart n m inside' inside more
    rw [same] at before
    omega

end Scoping
