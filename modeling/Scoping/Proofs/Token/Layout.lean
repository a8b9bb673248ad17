import Scoping.Proofs.Token.Cut

/-!
# Layout means nothing

The significant tokens of a source are lexemes, each where the ones before it leave off (`Lexed`): what
stands between them never matters, and comments leave no trace but a line end that they cross. So
where they are laid out anew, with other gaps and without comments, the lexer reads them back
(`tokenize_layOut`). All it takes is that two neighbours are parted, and that a gap has a line end in
it where the token behind it says so.
-/

namespace Scoping

/-- A token without its place. -/
def Token.content (t : Token) : TokenKind × String × TokenFlags := (t.kind, t.lexeme, t.flags)

/-- What its reader finds out about a token. -/
def Token.readFlags (t : Token) : TokenFlags := { t.flags with afterBreak := false }

/-- The token is spelled with a slash in front. -/
def Token.beginsWithSlash (t : Token) : Bool := t.lexeme.toList.head? == some '/'

/-- Significant tokens up to the end of input, each a lexeme behind the ones before it. -/
inductive Lexed : Lookbehind → List Token → Prop
  | last {l : Lookbehind} {t : Token} : t.kind = .endOfInput → t.lexeme = "" →
    t.readFlags = .none → Lexed l [t]
  | token {l : Lookbehind} {t : Token} {ts : List Token} :
    Lexeme l.afterOperand t.kind t.readFlags t.lexeme.toList → Lexed (l.push t) ts →
    Lexed l (t :: ts)

/-- Gaps to stand before the given tokens. The first and the last may be empty. -/
structure Layout (gaps : List (List Char)) (ts : List Token) : Prop where
  blank : ∀ gap ∈ gaps, gap.all isGap = true
  breaks : gaps.map (·.any endsLine) = ts.map (·.flags.afterBreak)
  apart : ∀ gap ∈ gaps.tail.dropLast, gap ≠ []

instance (gaps : List (List Char)) (ts : List Token) : Decidable (Layout gaps ts) :=
  decidable_of_iff ((∀ gap ∈ gaps, gap.all isGap = true) ∧
      gaps.map (·.any endsLine) = ts.map (·.flags.afterBreak) ∧
      ∀ gap ∈ gaps.tail.dropLast, gap ≠ [])
    ⟨fun ⟨blank, breaks, apart⟩ => ⟨blank, breaks, apart⟩,
      fun ⟨blank, breaks, apart⟩ => ⟨blank, breaks, apart⟩⟩

namespace Lexer

variable {lx behind : Lexer} {t : Token} {n : Nat}

/-- The limit leaves room for as many tokens more. -/
def Admits (lx : Lexer) (n : Nat) : Prop :=
  ∀ limit, lx.limit = some limit → n = 0 ∨ lx.emitted + n ≤ limit

theorem moved_counts (lx : Lexer) (t : Token) (stop : Cursor) :
    (lx.moved t stop).limit = lx.limit ∧ (lx.moved t stop).emitted = lx.emitted + 1 := by
  unfold moved
  split <;> exact ⟨rfl, rfl⟩

/-- Before a token that is read there is room for one more than behind it. -/
theorem admits_succ_iff {stop : Cursor} (room : lx.limit.filter (· ≤ lx.emitted) = none) :
    lx.Admits (n + 1) ↔ (lx.moved t stop).Admits n := by
  obtain ⟨sameLimit, more⟩ := lx.moved_counts t stop
  unfold Admits
  rw [sameLimit, more]
  refine forall_congr' fun limit => imp_congr_right fun given => ?_
  rw [given, Option.filter_eq_none_iff] at room
  have under := room limit rfl
  rw [decide_eq_true_eq] at under
  omega

/-! ## What a source is cut into -/

/-- The next token is the end, a comment, or a lexeme behind the significant tokens read so far. -/
theorem scan_cases (h : lx.scan = (.ok t, behind)) :
    t.kind = .endOfInput ∧ t.lexeme = "" ∧ t.readFlags = .none ∨
      t.isEnd = false ∧ (∀ n, behind.Admits n → lx.Admits (n + 1)) ∧
        (t.isComment = true ∧ behind.lookbehind = lx.lookbehind ∨
          t.isComment = false ∧ behind.lookbehind = lx.lookbehind.push t ∧
            Lexeme lx.lookbehind.afterOperand t.kind t.readFlags t.lexeme.toList) := by
  cases left : lx.ahead.rest with
  | nil =>
    rw [scan_of_nil left] at h
    cases h
    have still : lx.ahead.Spells lx.ahead [] := .refl lx.ahead
    exact .inl ⟨rfl, still.textTo, rfl⟩
  | cons first more =>
    obtain ⟨room, r, found, rfl, rfl⟩ := (scan_ok_iff_of_cons left).mp h
    have admits (n : Nat) : (lx.moved (tokenOf lx.ahead lx.broken r) r.stop).Admits n →
        lx.Admits (n + 1) := (admits_succ_iff room).mpr
    rcases readToken_ok left found with ⟨comment, _⟩ | ⟨text, lexeme, spells⟩
    · have isComment : (tokenOf lx.ahead lx.broken r).isComment = true := by
        simp [Token.isComment, tokenOf, comment]
      refine .inr ⟨by simp [Token.isEnd, tokenOf, comment], admits, .inl ⟨isComment, ?_⟩⟩
      rw [moved, if_pos isComment]
    · have notComment : (tokenOf lx.ahead lx.broken r).isComment = false := by
        simpa [Token.isComment, tokenOf] using lexeme.significant.2
      have notEnd : (tokenOf lx.ahead lx.broken r).isEnd = false := by
        simpa [Token.isEnd, tokenOf] using lexeme.significant.1
      refine .inr ⟨notEnd, admits, .inr ⟨notComment, ?_, ?_⟩⟩
      · rw [moved, notComment]
        rfl
      · have flags : (tokenOf lx.ahead lx.broken r).readFlags = r.flags := by
          have unset := lexeme.afterBreak
          obtain ⟨kind, ⟨_, _, _, _⟩, stop⟩ := r
          cases unset
          rfl
        have spelled : (tokenOf lx.ahead lx.broken r).lexeme.toList = text := by
          rw [tokenOf, spells.textTo, String.toList_ofList]
        rw [flags, spelled]
        exact lexeme

/-- What a lexer gives is lexemes, apart from comments, and no more than its limit admits. -/
theorem Gives.lexed {ts : List Token} (h : lx.Gives ts) :
    Lexed lx.lookbehind (ts.filter (!·.isComment)) ∧ ∃ n, ts.length = n + 1 ∧ lx.Admits n := by
  induction h with
  | @last lx behind t scanned atEnd =>
    rcases scan_cases scanned with ⟨kind, lexeme, flags⟩ | ⟨notEnd, _⟩
    · have kept : [t].filter (!·.isComment) = [t] := by simp [Token.isComment, kind]
      rw [kept]
      exact ⟨.last kind lexeme flags, 0, rfl, fun _ _ => .inl rfl⟩
    · rw [notEnd] at atEnd
      cases atEnd
  | @token lx behind t ts scanned notEnd _ ih =>
    rcases scan_cases scanned with ⟨kind, _⟩ | ⟨_, admits, read⟩
    · simp [Token.isEnd, kind] at notEnd
    · obtain ⟨lexed, n, size, admitted⟩ := ih
      refine ⟨?_, n + 1, by rw [List.length_cons, size], admits n admitted⟩
      rcases read with ⟨comment, same⟩ | ⟨notComment, pushed, lexeme⟩
      · rw [List.filter_cons_of_neg (by simp [comment]), ← same]
        exact lexed
      · rw [List.filter_cons_of_pos (by simp [notComment])]
        exact .token lexeme (pushed ▸ lexed)

/-! ## What is read of lexemes -/

/-- A lexeme behind a gap is read as the token that it is. -/
theorem scan_lexeme {gap rest : List Char}
    (lexeme : Lexeme lx.lookbehind.afterOperand t.kind t.readFlags t.lexeme.toList)
    (text : lx.cursor.rest = gap ++ (t.lexeme.toList ++ rest)) (blank : gap.all isGap = true)
    (breaks : gap.any endsLine = t.flags.afterBreak) (parted : Parted rest)
    (notCrossed : lx.cursor.crossed = false) (admits : lx.Admits (n + 1)) :
    ∃ u behind, lx.scan = (.ok u, behind) ∧ u.content = t.content ∧
      behind.lookbehind = lx.lookbehind.push t ∧ behind.cursor.rest = rest ∧
      behind.cursor.crossed = false ∧ behind.Admits n := by
  have stops : Stops isGap (t.lexeme.toList ++ rest) :=
    lexeme.stops_isGap.append_of_ne_nil lexeme.ne_nil
  obtain ⟨met, left⟩ := Cursor.skipGap_append text blank stops
  have broken : lx.broken = t.flags.afterBreak := by
    rw [Lexer.broken, met, notCrossed, Bool.or_false, breaks]
  have left : lx.ahead.rest = t.lexeme.toList ++ rest := left
  obtain ⟨first, more, stop, begins, read, behind⟩ := lexeme.read parted left
  have room : lx.limit.filter (· ≤ lx.emitted) = none := by
    refine Option.filter_eq_none_iff.mpr fun limit given => ?_
    have under := admits limit given
    rw [decide_eq_true_eq]
    omega
  have spells : lx.ahead.Spells stop t.lexeme.toList :=
    (readToken_advances begins read).1.reaches.spells (by rw [behind, left])
  have same : tokenOf lx.ahead lx.broken ⟨t.kind, t.readFlags, stop⟩ =
      { t with span := ⟨lx.ahead.offset, stop.offset⟩ } := by
    rw [tokenOf, spells.textTo, String.ofList_toList, broken]
    rfl
  have notComment :
      Token.isComment { t with span := ⟨lx.ahead.offset, stop.offset⟩ } = false := by
    simpa [Token.isComment] using lexeme.significant.2
  refine ⟨_, _, (scan_ok_iff_of_cons begins).mpr ⟨room, _, read, same.symm, rfl⟩, rfl, ?_, ?_, ?_,
    (admits_succ_iff room).mp admits⟩
  · rw [moved, notComment]
    rfl
  · rw [moved_rest, behind]
  · rw [moved, notComment]
    rfl

/-- Behind the last gap the end is read. -/
theorem scan_end (blank : lx.cursor.rest.all isGap = true)
    (notCrossed : lx.cursor.crossed = false) :
    ∃ u behind, lx.scan = (.ok u, behind) ∧ u.content =
      (.endOfInput, "", { TokenFlags.none with afterBreak := lx.cursor.rest.any endsLine }) := by
  obtain ⟨met, left⟩ := Cursor.skipGap_append (List.append_nil _).symm blank rfl
  have broken : lx.broken = lx.cursor.rest.any endsLine := by
    rw [Lexer.broken, met, notCrossed, Bool.or_false]
  have still : lx.ahead.Spells lx.ahead [] := .refl lx.ahead
  refine ⟨_, _, scan_of_nil left, ?_⟩
  rw [Token.content, tokenOf, still.textTo, broken]

end Lexer

theorem Lexed.ne_nil {l : Lookbehind} {ts : List Token} (h : Lexed l ts) : ts ≠ [] := by
  cases h <;> exact nofun

namespace Layout

variable {gap : List Char} {gaps : List (List Char)} {t u : Token} {ts : List Token}

theorem exists_cons (h : Layout gaps (t :: ts)) : ∃ gap more, gaps = gap :: more := by
  cases gaps with
  | nil => cases h.breaks
  | cons gap more => exact ⟨gap, more, rfl⟩

theorem tail (h : Layout (gap :: gaps) (t :: ts)) : Layout gaps ts where
  blank g mem := h.blank g (List.mem_cons_of_mem _ mem)
  breaks := (List.cons.inj h.breaks).2
  apart g mem := by
    rw [← List.tail_dropLast] at mem
    exact h.apart g (List.mem_of_mem_tail mem)

/-- What is laid out behind a token is parted from it. -/
theorem parted {l : Lookbehind} (h : Layout (gap :: gaps) (t :: ts)) (lexed : Lexed l ts) :
    Parted (layOut gaps ts) := by
  have rest := h.tail
  cases lexed with
  | @last _ u _ lexeme _ =>
    obtain ⟨g, more, rfl⟩ := rest.exists_cons
    rw [layOut_cons, lexeme]
    refine .of_gap (rest.blank g List.mem_cons_self) (.inr ?_)
    simp [layOut]
  | @token _ u us _ lexed =>
    obtain ⟨g, more, rfl⟩ := rest.exists_cons
    obtain ⟨v, vs, rfl⟩ := List.exists_cons_of_ne_nil lexed.ne_nil
    obtain ⟨g', more, rfl⟩ := rest.tail.exists_cons
    rw [layOut_cons]
    exact .of_gap (rest.blank g List.mem_cons_self) (.inl (h.apart g List.mem_cons_self))

end Layout

/-- Lexemes are read back from every layout. -/
theorem Lexed.gives {l : Lookbehind} {ts : List Token} (lexed : Lexed l ts)
    {gaps : List (List Char)} (layout : Layout gaps ts) {lx : Lexer} (lookbehind : lx.lookbehind = l)
    (text : lx.cursor.rest = layOut gaps ts) (notCrossed : lx.cursor.crossed = false) {n : Nat}
    (few : ts.length ≤ n + 1) (admits : lx.Admits n) :
    ∃ us, lx.Gives us ∧ us.map (·.content) = ts.map (·.content) := by
  induction lexed generalizing gaps lx n with
  | @last l t kind lexeme flags =>
    obtain ⟨gap, more, rfl⟩ := layout.exists_cons
    have all : lx.cursor.rest = gap := by
      rw [text, layOut_cons, lexeme]
      simp [layOut]
    have blank := layout.blank gap List.mem_cons_self
    have breaks : gap.any endsLine = t.flags.afterBreak := (List.cons.inj layout.breaks).1
    rw [← all] at blank breaks
    obtain ⟨u, behind, scanned, content⟩ := Lexer.scan_end blank notCrossed
    have atEnd : u.isEnd = true := by
      have isEnd : u.kind = .endOfInput := congrArg Prod.fst content
      simp [Token.isEnd, isEnd]
    refine ⟨[u], .last scanned atEnd, ?_⟩
    have same : t.flags = { TokenFlags.none with afterBreak := t.flags.afterBreak } := by
      rw [← flags]
      rfl
    rw [List.map_singleton, List.map_singleton, content, breaks, ← same, ← kind, ← lexeme]
    rfl
  | @token l t ts lexeme rest ih =>
    obtain ⟨gap, gaps, rfl⟩ := layout.exists_cons
    obtain ⟨u, us, rfl⟩ := List.exists_cons_of_ne_nil rest.ne_nil
    obtain ⟨n, rfl⟩ : ∃ m, n = m + 1 := by
      rw [List.length_cons, List.length_cons] at few
      exact ⟨n - 1, by omega⟩
    rw [layOut_cons] at text
    subst lookbehind
    obtain ⟨v, behind, scanned, content, pushed, left, clear, admits⟩ := Lexer.scan_lexeme lexeme text
      (layout.blank gap List.mem_cons_self) (List.cons.inj layout.breaks).1 (layout.parted rest)
      notCrossed admits
    have fewer : (u :: us).length ≤ n + 1 := Nat.le_of_succ_le_succ few
    obtain ⟨vs, gives, contents⟩ := ih layout.tail pushed left clear fewer admits
    have notEnd : v.isEnd = false := by
      have kind : v.kind = t.kind := congrArg Prod.fst content
      simpa [Token.isEnd, kind] using lexeme.significant.1
    refine ⟨v :: vs, .token scanned notEnd gives, ?_⟩
    rw [List.map_cons, List.map_cons, content, contents]

/-- The significant tokens of a source, laid out anew, are read back as they are: of the same kinds,
with the same lexemes and flags, up to the end of input, and with no comment among them. -/
theorem tokenize_layOut {source : String} {most : Option Nat} {ts : List Token}
    {gaps : List (List Char)} (lexed : tokenize source most = .ok ts)
    (layout : Layout gaps (ts.filter (!·.isComment))) :
    ∃ us, tokenize (String.ofList (layOut gaps (ts.filter (!·.isComment)))) most = .ok us ∧
      us.map (·.content) = (ts.filter (!·.isComment)).map (·.content) ∧
      ∀ u ∈ us, u.isComment = false := by
  obtain ⟨lexemes, n, size, admits⟩ := (tokenize_ok_iff.mp lexed).lexed
  have few : (ts.filter (!·.isComment)).length ≤ n + 1 := size ▸ List.length_filter_le _ _
  generalize print : String.ofList (layOut gaps (ts.filter (!·.isComment))) = printed
  have text : (Lexer.start printed most).cursor.rest =
      layOut gaps (ts.filter (!·.isComment)) := by
    rw [← print]
    exact String.toList_ofList
  have admits : (Lexer.start printed most).Admits n := admits
  have alike : (Lexer.start printed most).lookbehind = (Lexer.start source most).lookbehind := rfl
  obtain ⟨us, gives, contents⟩ := lexemes.gives layout alike text rfl few admits
  refine ⟨us, tokenize_ok_iff.mpr gives, contents, fun u mem => ?_⟩
  obtain ⟨t, kept, same⟩ := List.mem_map.mp (contents ▸ List.mem_map_of_mem mem)
  have kind : t.kind = u.kind := congrArg Prod.fst same
  have significant := (List.mem_filter.mp kept).2
  simpa [Token.isComment, kind] using significant

/-- A comment that parts two lines makes way for a line end, and a class within a regular expression
stays whole. -/
theorem tokenize_layOut_comment : ∃ ts gaps us,
    tokenize "x?.5/*\n*/.z;/[/]/g" none = .ok ts ∧ Layout gaps (ts.filter (!·.isComment)) ∧
      String.ofList (layOut gaps (ts.filter (!·.isComment))) = "x ? .5\n. z ;\t/[/]/g " ∧
      tokenize "x ? .5\n. z ;\t/[/]/g " none = .ok us ∧
      us.map (·.content) = (ts.filter (!·.isComment)).map (·.content) ∧
      ∀ u ∈ us, u.isComment = false := by
  let gaps : List (List Char) := [[], [' '], [' '], ['\n'], [' '], [' '], ['\t'], [' ']]
  have made : (tokenize "x?.5/*\n*/.z;/[/]/g" none).toOption.map (fun ts => decide
      (Layout gaps (ts.filter (!·.isComment)) ∧
        String.ofList (layOut gaps (ts.filter (!·.isComment))) = "x ? .5\n. z ;\t/[/]/g ")) =
      some true := by decide +kernel
  obtain ⟨ts, lexed, laid⟩ := Option.map_eq_some_iff.mp made
  obtain ⟨layout, printed⟩ := of_decide_eq_true laid
  have lexed := ok_of_toOption lexed
  obtain ⟨us, again, contents, significant⟩ := tokenize_layOut lexed layout
  rw [printed] at again
  exact ⟨ts, gaps, us, lexed, layout, printed, again, contents, significant⟩

end Scoping
