import Scoping.Proofs.Token.Respell

/-!
# Words do not touch

A word goes on as long as characters of names follow, so something that is part of no name stands
between two words (`Lexer.Gives.words_apart`). A cursor that touches the end of one never touches the
beginning of another.
-/

namespace Scoping

namespace Lexer

variable {lx behind : Lexer} {t : Token} {ts : List Token}

/-- A word that is read begins as names do, and what is left goes on as none does. -/
theorem scan_word (scanned : lx.scan = (.ok t, behind)) (word : t.isWord = true) :
    ∃ gap first more, lx.cursor.rest = gap ++ first :: more ∧ startsName first = true ∧
      t.span.start = lx.cursor.offset + byteSize gap ∧ t.span.stop = behind.cursor.offset ∧
      Stops continuesName behind.cursor.rest := by
  have kind := isWord_iff_kind.mp word
  have notEnd : t.isEnd = false := by
    rcases kind with kind | ⟨k, kind⟩ <;> simp [Token.isEnd, kind]
  obtain ⟨gap, first, more, r, _, _, spells, left, found, rfl, rfl⟩ := scan_read scanned notEnd
  replace kind : r.kind = .identifier ∨ ∃ k, r.kind = .keyword k := kind
  have begins : startsName first = true := by
    rcases readToken_ok left found with ⟨comment, _⟩ | ⟨text, lexeme, reads⟩
    · rw [comment] at kind
      simp at kind
    · obtain ⟨x, body, rfl, starts, _⟩ := exists_cons_of_isName (lexeme.isName kind)
      have same : first :: more = x :: (body ++ r.stop.rest) := left.symm.trans reads.rest
      rw [(List.cons.inj same).1]
      exact starts
  obtain ⟨_, _, stops, _⟩ := lx.ahead.skipWhile_spells continuesName
  rw [readToken_word begins] at found
  cases found
  refine ⟨gap, first, more, ?_, begins, spells.offset, ?_, ?_⟩
  · rw [spells.rest, left]
  · rw [moved_offset]
    rfl
  · rw [moved_rest]
    exact stops

/-- Where no name goes on, no word begins at once. -/
theorem Gives.words_behind (gives : lx.Gives ts) (stops : Stops continuesName lx.cursor.rest) :
    ∀ t ∈ ts, t.isWord = true → lx.cursor.offset < t.span.start := by
  have first {t : Token} {behind : Lexer} (scanned : lx.scan = (.ok t, behind))
      (word : t.isWord = true) : lx.cursor.offset < t.span.start := by
    obtain ⟨gap, x, more, left, starts, start, _⟩ := scan_word scanned word
    cases gap with
    | nil =>
      rw [left] at stops
      have ends : continuesName x = false := stops
      rw [continuesName, starts, Bool.true_or] at ends
      cases ends
    | cons y gap =>
      have := byteSize_pos (List.cons_ne_nil y gap)
      omega
  intro u mem word
  cases gives with
  | last scanned _ =>
    rw [List.mem_singleton.mp mem] at word ⊢
    exact first scanned word
  | token scanned notEnd gives =>
    rcases List.mem_cons.mp mem with rfl | mem
    · exact first scanned word
    · obtain ⟨gap, _, ⟨_, kind, _⟩ | ⟨body, some, _, offset, _⟩⟩ := scan_ok scanned
      · simp [Token.isEnd, kind] at notEnd
      · have later := gives.tiling.begins u mem
        have := byteSize_pos some
        omega

/-- No two words among the tokens that a lexer gives touch. -/
theorem Gives.words_apart (gives : lx.Gives ts) :
    ts.Pairwise fun t u => t.isWord = true → u.isWord = true → t.span.stop < u.span.start := by
  induction gives with
  | last _ _ => exact List.pairwise_singleton _ _
  | token scanned _ gives ih =>
    apply List.pairwise_cons.mpr ⟨?_, ih⟩
    intro u mem word word'
    obtain ⟨_, _, _, _, _, _, stop, stops⟩ := scan_word scanned word
    rw [stop]
    exact gives.words_behind stops u mem word'

end Lexer

/-- No two words of a source touch. -/
theorem tokenize_words_apart {source : String} {limit : Option Nat} {ts : List Token}
    (lexed : tokenize source limit = .ok ts) :
    ts.Pairwise fun t u => t.isWord = true → u.isWord = true → t.span.stop < u.span.start :=
  (tokenize_ok_iff.mp lexed).words_apart

end Scoping
