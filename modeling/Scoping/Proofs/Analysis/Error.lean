import Scoping.Proofs.Analysis.Lexical
import Scoping.Proofs.Build.Edge
import Scoping.Proofs.Build.Finish
import Scoping.Proofs.Build.Partner
import Scoping.Proofs.Token.Layout
import Scoping.Proofs.Token.Limit
import Scoping.Proofs.Token.Respell
import Scoping.Proofs.Token.Stream
import Scoping.Proofs.Token.Substitution

/-!
# What an error says of the source

A source is refused by the lexer or by the builder, and either way the error stands between two of its
characters. A lexer that fails has passed the place of its error, so the place is inside the text
(`Lexer.Yields.error_reached`). The builder refuses tokens at one of them, for a cause that is found
there (`ParseError.Agrees`): a bracket is called unbalanced only if nothing is paired with it, and a
scope unterminated only where the tokens end. So `analyze_error` says that what an error points at is
there.

What the position of a lexical error is the start of is not told here, nor that an error is the first
of several.
-/

namespace Scoping

/-! ## Errors of the lexer -/

/-- On its way to the error in which its row ends the lexer came by the place of the error. -/
theorem Lexer.Yields.error_reached {lx : Lexer} {ts : List Token} {e : LexError}
    (h : lx.Yields ts (.error e)) : ∃ d, lx.cursor.Reaches d ∧ e.position = d.offset := by
  generalize ending : Except.error e = answer at h
  induction h with
  | final _ _ => cases ending
  | failed scanned =>
    cases ending
    obtain ⟨d, there, _, place⟩ := scan_error scanned
    exact ⟨d, there, place⟩
  | @token lx behind t ts answer scanned _ _ ih =>
    obtain ⟨d, there, place⟩ := ih ending
    have further : lx.cursor.Reaches behind.cursor := by
      have := lx.scan_reaches
      rwa [scanned] at this
    exact ⟨d, further.trans there, place⟩

theorem tokenize_error {source : String} {limit : Option Nat} {e : LexError}
    (h : tokenize source limit = .error e) : Boundary source.toList e.position := by
  obtain ⟨ts, ending, yields⟩ := (Lexer.start source limit).exists_yields
  rw [tokenize_of_yields yields] at h
  cases ending with
  | ok final => cases h
  | error e' =>
    cases h
    obtain ⟨d, there, place⟩ := yields.error_reached
    rw [place]
    exact there.boundary

/-! ## Errors of the builder -/

/-- No two tokens of a text begin at one place. -/
theorem Tiling.starts {offset : Nat} {cs : List Char} {ts : List Token} (h : Tiling offset cs ts) :
    ts.Pairwise fun t u => t.span.start < u.span.start := by
  induction h with
  | last _ _ _ _ => exact List.pairwise_singleton _ _
  | token _ some _ _ span rest ih =>
    refine List.pairwise_cons.mpr ⟨fun u mem => ?_, ih⟩
    have wide := byteSize_pos some
    have behind := rest.begins u mem
    rw [span]
    dsimp only
    omega

theorem place_eq_of_start {ts : List Token} {m n : Nat} {t u : Token}
    (starts : ts.Pairwise fun t u => t.span.start < u.span.start) (at_m : ts[m]? = some t)
    (at_n : ts[n]? = some u) (same : t.span.start = u.span.start) : m = n := by
  obtain ⟨inside, rfl⟩ := List.getElem?_eq_some_iff.mp at_m
  obtain ⟨inside', rfl⟩ := List.getElem?_eq_some_iff.mp at_n
  have starts := List.pairwise_iff_getElem.mp starts
  rcases Nat.lt_trichotomy m n with less | equal | more
  · have := starts m n inside inside' less
    omega
  · exact equal
  · have := starts n m inside' inside more
    omega

/-- The error stands at one of the tokens, and its cause is found there. A bracket that is unbalanced
is spelled as the error says and has no partner; where a scope is unterminated, the tokens end, and
the scope was opened at one of them. -/
structure ParseError.Agrees (e : ParseError) (ts : List Token) (size : Nat) : Prop where
  place : ∃ t ∈ ts, t.span.start = e.position
  reason : e.reason ≠ .missingEnd
  unbalanced : ∀ found, e.reason = .unbalanced found →
    ∀ (n : Nat) (t : Token), ts[n]? = some t → t.span.start = e.position →
      t.kind = .punctuation found ∧ found.isCloser = true ∧ t.lexeme = found.text ∧
        (matchBrackets ts)[n]? = some none
  unterminated : ∀ openedAt, e.reason = .unterminatedScope openedAt →
    e.position = size ∧ ∃ t ∈ ts, t.span.start = openedAt

/-- Where every closing bracket has a partner, none is called unbalanced. -/
theorem ParseError.Agrees.balanced {e : ParseError} {ts : List Token} {size : Nat}
    (agrees : e.Agrees ts size)
    (paired : ∀ (n : Nat) (t : Token), ts[n]? = some t → t.closes?.isSome = true →
      (matchBrackets ts)[n]? ≠ some none)
    (found : Punctuation) : e.reason ≠ .unbalanced found := by
  intro reason
  obtain ⟨t, mem, place⟩ := agrees.place
  obtain ⟨n, at_n⟩ := List.mem_iff_getElem?.mp mem
  obtain ⟨kind, closer, _, alone⟩ := agrees.unbalanced found reason n t at_n place
  refine paired n t at_n ?_ alone
  unfold Token.closes?
  rw [kind]
  exact closer

namespace Builder

variable {ts : List Token} {final : Token} {limit : Nat} {e : ParseError}

/-- Tokens that end with an end of input are refused for a cause that is found in them. -/
theorem ofTokens_error (last : ts.getLast? = some final) (atEnd : final.isEnd = true)
    (h : Tree.ofTokens ts limit = .error e) :
    Failure.Sound (Context.ofTokens ts final limit) (.rejected e) := by
  have ends := run_ends (ofTokens_formed last atEnd limit) (Nat.le_refl _)
  simp only [Tree.ofTokens, Tree.build, last, atEnd, ↓reduceIte] at h
  revert ends h
  cases run (Context.ofTokens ts final limit).levels (Context.ofTokens ts final limit) with
  | ok s =>
    intro _ h
    cases h
  | error failure =>
    intro sound h
    have sound : failure.Sound (Context.ofTokens ts final limit) := sound
    obtain ⟨e', rfl⟩ := sound.exists_rejected
    cases h
    exact sound

/-- A token without a partner is left alone by the matching of brackets. -/
theorem matchBrackets_of_partner?_eq_none {n : Nat} (inside : n < (significant ts).length)
    (alone : (Context.ofTokens ts final limit).partner? n = none) :
    (matchBrackets (significant ts))[n]? = some none := by
  have known : n < (matchBrackets (significant ts)).size := by
    rw [size_matchBrackets]
    exact inside
  have alone : ((matchBrackets (significant ts))[n]?).join = none := alone
  rw [Array.getElem?_eq_getElem known] at alone ⊢
  exact congrArg some alone

/-- The error of a source that is cut into tokens agrees with them. -/
theorem ofTokens_error_agrees {source : String} {most : Option Nat}
    (lexed : tokenize source most = .ok ts) (h : Tree.ofTokens ts limit = .error e) :
    e.Agrees (significant ts) source.utf8ByteSize := by
  have tiling := tokenize_tiling lexed
  obtain ⟨before, final, rfl, atEnd, span, _⟩ := tiling.exists_final
  have last : (before ++ [final]).getLast? = some final := List.getLast?_concat
  have tokens (n : Nat) (inside : n < (Context.ofTokens (before ++ [final]) final limit).tokens.size) :
      (significant (before ++ [final]))[n]? =
        some ((Context.ofTokens (before ++ [final]) final limit).token n) :=
    token_getElem? rfl inside
  obtain ⟨place, inside, position, sound⟩ := ofTokens_error last atEnd h
  have at_place := tokens place inside
  have starts := tiling.starts.filter (!·.isComment)
  constructor
  case place => exact ⟨_, List.mem_of_getElem? at_place, position.symm⟩
  case reason =>
    intro reason
    rw [reason] at sound
    exact sound
  case unbalanced =>
    intro found reason n t at_n here
    rw [reason] at sound
    obtain ⟨kind, closer, alone⟩ := sound
    obtain rfl := place_eq_of_start starts at_n at_place (here.trans position)
    rw [at_place] at at_n
    obtain rfl := Option.some.inj at_n
    refine ⟨kind, closer, ?_, matchBrackets_of_partner?_eq_none inside alone⟩
    have notEnd : ((Context.ofTokens (before ++ [final]) final limit).token n).isEnd = false := by
      rw [Token.isEnd, kind]
      rfl
    obtain ⟨_, lexeme⟩ := (tokenize_ok_iff.mp lexed).lexed.1.exists_lexeme _
      (List.mem_of_getElem? at_place) notEnd
    rw [kind] at lexeme
    exact String.toList_injective lexeme.eq_of_punctuation
  case unterminated =>
    intro openedAt reason
    rw [reason] at sound
    obtain ⟨ended, first, inside', opened⟩ := sound
    refine ⟨?_, _, List.mem_of_getElem? (tokens first inside'), opened.symm⟩
    -- An end of input is the last of the tokens, and that stands at the end of the source.
    have size : place + 1 = (significant (before ++ [final])).length := by
      by_contra other
      have less : place + 1 < (significant (before ++ [final])).length := by
        have : place < (significant (before ++ [final])).length := inside
        omega
      have notEnd := significant_notEnd tiling less at_place
      rw [ended] at notEnd
      cases notEnd
    have getLast := significant_getLast? last atEnd
    rw [List.getLast?_eq_getElem?, ← size, Nat.add_sub_cancel, at_place] at getLast
    rw [position, Option.some.inj getLast, span, Nat.zero_add, byteSize_toList]
    rfl

end Builder

/-! ## Errors of an analysis -/

open Builder

/-- Either the lexer fails, or the builder does over all tokens of the source. -/
theorem analyze_error_cases {source : String} {options : Options} {e : AnalysisError}
    (h : analyze source options = .error e) :
    (∃ l, e = .lex l ∧ tokenize source options.maxTokens = .error l) ∨
      ∃ ts p, e = .parse p ∧ tokenize source options.maxTokens = .ok ts ∧
        Tree.ofTokens ts options.maxNestingDepth = .error p := by
  unfold analyze treeOf at h
  cases lexed : tokenize source options.maxTokens with
  | error l =>
    rw [lexed] at h
    cases h
    exact .inl ⟨l, rfl, rfl⟩
  | ok ts =>
    cases built : Tree.ofTokens ts options.maxNestingDepth with
    | error p =>
      simp only [lexed, built] at h
      cases h
      exact .inr ⟨ts, p, rfl, rfl, built⟩
    | ok tree =>
      simp only [lexed, built] at h
      cases h

/-- Where a source is refused, the error stands between two of its characters. If the source can be cut
into tokens, the error agrees with them: it stands at one of them, and calls a bracket unbalanced only
if some closing bracket has no partner. -/
theorem analyze_error {source : String} {options : Options} {e : AnalysisError}
    (h : analyze source options = .error e) :
    e.position ≤ source.utf8ByteSize ∧ Boundary source.toList e.position ∧
      ∀ p, e = .parse p → ∃ ts, tokenize source options.maxTokens = .ok ts ∧
        p.Agrees (significant ts) source.utf8ByteSize ∧
        ((∀ (n : Nat) (t : Token), (significant ts)[n]? = some t → t.closes?.isSome = true →
            (matchBrackets (significant ts))[n]? ≠ some none) →
          ∀ found, p.reason ≠ .unbalanced found) := by
  rcases analyze_error_cases h with ⟨l, rfl, failed⟩ | ⟨ts, p, rfl, lexed, failed⟩
  · have cut := tokenize_error failed
    refine ⟨cut.inside, cut, ?_⟩
    intro p parse
    cases parse
  · have agrees := ofTokens_error_agrees lexed failed
    have whole : Tiling (byteSize []) source.toList ts := tokenize_tiling lexed
    have cut : Boundary source.toList p.position := by
      obtain ⟨t, mem, place⟩ := agrees.place
      rw [← place]
      exact (whole.boundary t (List.mem_filter.mp mem).1).1
    refine ⟨cut.inside, cut, ?_⟩
    rintro _ ⟨⟩
    exact ⟨ts, lexed, agrees, agrees.balanced⟩

/-- What is caught is what was thrown. -/
theorem error_of_tryCatch {ε α : Type} {x : Except ε α} {e : ε}
    (h : ((x.map fun _ => none).tryCatch fun e => .ok (some e)).toOption = some (some e)) :
    x = .error e := by
  cases x with
  | ok a => cases h
  | error e' =>
    cases h
    rfl

/-- A parenthesis that closes nothing, behind a letter of two bytes. -/
theorem analyze_error_unbalanced : ∃ p ts t, analyze "[ 'é' ) ]" Options.standard = .error (.parse p) ∧
    p.reason = .unbalanced .closeParen ∧ Boundary "[ 'é' ) ]".toList p.position ∧
    tokenize "[ 'é' ) ]" none = .ok ts ∧ t ∈ significant ts ∧ t.span.start = 7 ∧ t.lexeme = ")" ∧
    ∃ n : Nat, (matchBrackets (significant ts))[n]? = some none := by
  have h : analyze "[ 'é' ) ]" Options.standard = .error (.parse ⟨7, .unbalanced .closeParen⟩) := by
    apply error_of_tryCatch
    decide +kernel
  obtain ⟨_, cut, parse⟩ := analyze_error h
  obtain ⟨ts, lexed, agrees, _⟩ := parse _ rfl
  obtain ⟨t, mem, place⟩ := agrees.place
  obtain ⟨n, at_n⟩ := List.mem_iff_getElem?.mp mem
  obtain ⟨_, _, lexeme, alone⟩ := agrees.unbalanced _ rfl n t at_n place
  exact ⟨_, ts, t, h, rfl, cut, lexed, mem, place, lexeme, n, alone⟩

end Scoping
