import Scoping.Proofs.Token.Respell

/-!
# A source in braces

The tokens of a source in braces, with the closing one on a line of its own, are those of the source
between the two braces (`tokenize_inBraces`). Nothing goes on over the ends of the source: a mark stands
in front, and behind comes a new line, at which whatever the end of the text would end ends as well. Two
things can be different inside, and both are excluded: a first line that begins with `#!` is a comment
at the start of a text alone, and a slash may mean something else behind the brace
(`Lookbehind.agreesOn`).
-/

namespace Scoping

/-- The source between braces. -/
def inBraces (source : String) : String := "\x7b" ++ source ++ "\n\x7d"

/-- The brace at the start of a text. -/
def openingBrace : Token := ⟨.punctuation .openBrace, "\x7b", ⟨0, 1⟩, .none⟩

/-- A brace on a line of its own. -/
def closingBrace (offset : Nat) : Token :=
  ⟨.punctuation .closeBrace, "\x7d", ⟨offset, offset + 1⟩, { TokenFlags.none with afterBreak := true }⟩

/-- The end of a text right behind its last token. -/
def endAt (offset : Nat) : Token := ⟨.endOfInput, "", .point offset, .none⟩

/-- The tokens of a text of the given size in braces, when it has the given ones before its end. -/
def bracedTokens (before : List Token) (size : Nat) : List Token :=
  openingBrace :: (before.map (Token.moved 1) ++ [closingBrace (size + 2), endAt (size + 3)])

/-- A brace is read as what it is, whatever comes behind. -/
theorem readToken_brace {afterOperand : Bool} {c : Cursor} {x : Char} {more : List Char}
    (brace : x = '\x7b' ∨ x = '\x7d') :
    readToken afterOperand c x more = .ok ⟨markKind [x], .none, c.skipMark [x]⟩ := by
  rcases brace with rfl | rfl <;> rfl

namespace Lexer

variable {lx lx' behind : Lexer} {t : Token} {ts : List Token}

/-- Without a limit it makes no difference how many tokens were read. -/
theorem Gives.withEmitted (gives : lx.Gives ts) (free : lx.limit = none) (n : Nat) :
    Gives { lx with emitted := n } ts := by
  have scans {lx behind : Lexer} {t : Token} (scanned : lx.scan = (.ok t, behind))
      (free : lx.limit = none) (n : Nat) : ∃ m, Lexer.scan { lx with emitted := n } =
        (.ok t, { behind with emitted := m }) ∧ behind.limit = none := by
    cases left : lx.ahead.rest with
    | nil =>
      obtain ⟨rfl, rfl⟩ := Prod.mk.inj ((scan_of_nil left).symm.trans scanned)
        |>.imp_left Except.ok.inj
      have left : (ahead { lx with emitted := n }).rest = [] := left
      exact ⟨n, scan_of_nil left, free⟩
    | cons first more =>
      obtain ⟨_, r, found, rfl, rfl⟩ := (scan_ok_iff_of_cons left).mp scanned
      have same : Lexer.moved { lx with emitted := n } (tokenOf lx.ahead lx.broken r) r.stop =
          { lx.moved (tokenOf lx.ahead lx.broken r) r.stop with emitted := n + 1 } := by
        unfold moved
        split <;> rfl
      refine ⟨n + 1, ?_, (lx.moved_counts _ _).1.trans free⟩
      have left : (ahead { lx with emitted := n }).rest = first :: more := left
      rw [← same]
      exact (scan_ok_iff_of_cons left).mpr ⟨by simp [free], r, found, rfl, rfl⟩
  induction gives generalizing n with
  | last scanned atEnd =>
    obtain ⟨_, scanned', _⟩ := scans scanned free n
    exact .last scanned' atEnd
  | token scanned notEnd _ ih =>
    obtain ⟨m, scanned', free'⟩ := scans scanned free n
    exact .token scanned' notEnd (ih free' m)

/-- Where a gap reaches the start of a text, the text has no script. -/
theorem atScript_of_ahead (h : lx.ahead.AtScript) : lx.cursor.AtScript := by
  obtain ⟨gap, _, _, spells⟩ := lx.cursor.skipGap_spells
  obtain ⟨start, rfl⟩ := spells.eq_nil h.1
  exact ⟨start, spells.rest ▸ h.2⟩

/-- Up to its end a text is read the same where a new line comes behind it, and behind the last token
there is the gap that the end stood behind. -/
theorem Gives.upToLine {shift : Nat} {before : List Token} {last : Token} {rest : List Char}
    (gives : lx.Gives (before ++ [last])) (atEnd : last.isEnd = true)
    (h : Abreast shift [] ('\n' :: rest) lx lx') (script : shift = 0 ∨ ¬ lx.cursor.AtScript) :
    ∃ (mid' : Lexer) (gap : List Char), mid'.limit = lx.limit ∧ mid'.cursor.rest = gap ++ '\n' :: rest ∧
      gap.all isGap = true ∧ mid'.cursor.offset + byteSize gap = last.span.start + shift ∧
      ∀ others, mid'.Gives others → lx'.Gives (before.map (Token.moved shift) ++ others) := by
  induction before generalizing lx lx' with
  | nil =>
    obtain ⟨behind, scanned⟩ : ∃ behind, lx.scan = (.ok last, behind) := by
      cases gives with
      | last scanned _ => exact ⟨_, scanned⟩
      | token scanned _ _ => exact ⟨_, scanned⟩
    obtain ⟨gap, blank, ⟨text, _, _, span⟩ | ⟨_, _, _, _, notEnd, _⟩⟩ := scan_ok scanned
    · refine ⟨lx', gap, by rw [h.rest], h.cursor.text_eq (by rw [text, List.append_nil]), blank, ?_,
        fun _ => id⟩
      rw [span, h.cursor.offset]
      exact Nat.add_right_comm ..
    · rw [atEnd] at notEnd
      cases notEnd
  | cons t before ih =>
    obtain ⟨behind, scanned, notEnd, gives⟩ := gives.exists_behind (by simp)
    obtain ⟨behind', scanned', h'⟩ := h.scan rfl rfl (script.imp_right (mt atScript_of_ahead))
      scanned notEnd (List.append_nil _).symm fun _ => .inr ⟨rfl, rest, rfl⟩
    have further : ¬ behind.cursor.AtScript := by
      rintro ⟨start, _⟩
      obtain ⟨gap, _, ⟨_, kind, _⟩ | ⟨body, some, _, offset, _⟩⟩ := scan_ok scanned
      · simp [Token.isEnd, kind] at notEnd
      · have := byteSize_pos some
        omega
    obtain ⟨mid', gap, limit, text, blank, offset, transfers⟩ := ih gives h' (.inr further)
    refine ⟨mid', gap, ?_, text, blank, offset, fun others gives' => ?_⟩
    · obtain ⟨_, _, _, r, _, _, _, _, _, _, rfl⟩ := scan_read scanned notEnd
      exact limit.trans (lx.moved_counts _ _).1
    · exact .token scanned' notEnd (transfers others gives')

/-- The brace at the start of a text is read first. -/
theorem scan_openingBrace {more : List Char} (cursor : lx.cursor = ⟨0, '\x7b' :: more, false⟩)
    (free : lx.limit = none) : lx.scan = (.ok openingBrace, { lx with
      cursor := ⟨1, more, false⟩
      lookbehind := lx.lookbehind.push openingBrace
      emitted := lx.emitted + 1 }) := by
  have start : lx.ahead = ⟨0, '\x7b' :: more, false⟩ := by rw [Lexer.ahead, cursor]; rfl
  have broken : lx.broken = false := by rw [Lexer.broken, cursor]; rfl
  have left : lx.ahead.rest = '\x7b' :: more := by rw [start]
  have brace : lx.ahead.Spells (lx.ahead.skipMark ['\x7b']) ['\x7b'] := skipMark_spells left
  have token : tokenOf lx.ahead lx.broken ⟨markKind ['\x7b'], .none, lx.ahead.skipMark ['\x7b']⟩ =
      openingBrace := by
    rw [tokenOf, brace.textTo, brace.offset, start, broken]
    rfl
  refine (scan_ok_iff_of_cons left).mpr
    ⟨by simp [free], _, readToken_brace (.inl rfl), token.symm, ?_⟩
  rw [start]
  rfl

/-- Where nothing is left the end is given. -/
theorem gives_endAt {offset : Nat} (cursor : lx.cursor = ⟨offset, [], false⟩) :
    lx.Gives [endAt offset] := by
  have left : lx.ahead = ⟨offset, [], false⟩ := by rw [Lexer.ahead, cursor]; rfl
  have broken : lx.broken = false := by rw [Lexer.broken, cursor]; rfl
  have still : lx.ahead.Spells lx.ahead [] := .refl lx.ahead
  have token : tokenOf lx.ahead lx.broken ⟨.endOfInput, .none, lx.ahead⟩ = endAt offset := by
    rw [tokenOf, still.textTo, left, broken]
    rfl
  exact .last (token ▸ scan_of_nil (by rw [left])) rfl

/-- A brace on a line of its own is the last token of a text. -/
theorem gives_closingBrace {gap : List Char} {offset : Nat} (free : lx.limit = none)
    (text : lx.cursor.rest = gap ++ ['\n', '\x7d']) (blank : gap.all isGap = true)
    (place : lx.cursor.offset + byteSize gap = offset) :
    lx.Gives [closingBrace (offset + 1), endAt (offset + 2)] := by
  have text : lx.cursor.rest = (gap ++ ['\n']) ++ ['\x7d'] := by simp [text]
  have blank : (gap ++ ['\n']).all isGap = true := by rw [List.all_append, blank]; rfl
  obtain ⟨met, left⟩ := Cursor.skipGap_append text blank rfl
  have left : lx.ahead.rest = ['\x7d'] := left
  have broken : lx.broken = true := by
    rw [Lexer.broken, met, List.any_append, Bool.or_right_comm]
    exact Bool.or_true _
  have start : lx.ahead.offset = offset + 1 := by
    obtain ⟨_, _, _, spells⟩ := lx.cursor.skipGap_spells
    have spells : lx.cursor.Spells lx.ahead (gap ++ ['\n']) :=
      Cursor.Reaches.spells ⟨_, spells⟩ (text.trans (by rw [left]))
    rw [spells.offset, byteSize_append, ← Nat.add_assoc, place]
    rfl
  have brace : lx.ahead.Spells (lx.ahead.skipMark ['\x7d']) ['\x7d'] := skipMark_spells left
  have token : tokenOf lx.ahead lx.broken ⟨markKind ['\x7d'], .none, lx.ahead.skipMark ['\x7d']⟩ =
      closingBrace (offset + 1) := by
    rw [tokenOf, brace.textTo, brace.offset, start, broken]
    rfl
  have scanned := (scan_ok_iff_of_cons left).mpr
    ⟨by simp [free], _, readToken_brace (.inr rfl), token.symm, rfl⟩
  refine .token scanned rfl (gives_endAt ?_)
  have stop : (lx.ahead.skipMark ['\x7d']).rest = [] :=
    (List.cons.inj (brace.rest.symm.trans left)).2
  have kept : (closingBrace (offset + 1)).isComment = false := rfl
  have offset : (lx.ahead.skipMark ['\x7d']).offset = offset + 2 := by rw [brace.offset, start]; rfl
  rw [moved, kept, if_neg Bool.false_ne_true, stop, offset]

end Lexer

/-- The tokens of a source in braces, if no slash in it means something else behind a brace. -/
theorem tokenize_inBraces {source : String} {before : List Token} {final : Token}
    (lexed : tokenize source none = .ok (before ++ [final])) (atEnd : final.isEnd = true)
    (noScript : ¬ ['#', '!'] <+: source.toList)
    (agrees : Lookbehind.start.agreesOn (Lookbehind.start.push openingBrace)
      ((before ++ [final]).filter (!·.isComment)) = true) :
    tokenize (inBraces source) none = .ok (bracedTokens before (byteSize source.toList)) := by
  have gives := tokenize_ok_iff.mp lexed
  have size : final.span.start = byteSize source.toList := by
    obtain ⟨_, last, same, _, span, _⟩ := gives.tiling.exists_final
    obtain ⟨_, same⟩ := List.append_inj' same rfl
    rw [List.singleton_inj.mp same, span]
    exact Nat.zero_add _
  have text : (inBraces source).toList = '\x7b' :: (source.toList ++ ['\n', '\x7d']) := by
    simp [inBraces]
  have opening : (Lexer.start (inBraces source) none).cursor =
      ⟨0, '\x7b' :: (source.toList ++ ['\n', '\x7d']), false⟩ := by
    rw [Lexer.start, Cursor.start, text]
  have scanned := Lexer.scan_openingBrace opening rfl
  have abreast : Lexer.Abreast 1 [] ['\n', '\x7d']
      ⟨Cursor.start source, Lookbehind.start.push openingBrace, none, 1⟩
      ⟨⟨1, source.toList ++ ['\n', '\x7d'], false⟩, Lookbehind.start.push openingBrace, none, 1⟩ :=
    ⟨⟨rfl, source.toList, (List.append_nil _).symm, rfl⟩, rfl, rfl⟩
  obtain ⟨mid, gap, free, text, blank, place, transfers⟩ :=
    Lexer.Gives.upToLine ((gives.withLookbehind agrees).withEmitted rfl 1) atEnd abreast
      (.inr fun script => noScript script.2)
  have ends := Lexer.gives_closingBrace free text blank place
  rw [size] at ends
  exact tokenize_ok_iff.mpr (.token scanned rfl (transfers _ ends))

end Scoping
