import Scoping.Proofs.Token.Tiling

/-!
# A limit on tokens only cuts off

What a lexer reads is a row of tokens and an ending (`Lexer.Yields`): the end of input or an error. A
lexer with a limit goes in step with the one without while there is room (`scan_within`), comments
taking room as other tokens do. Without room it still gives the end of input, but where anything else
comes next it fails, before it has looked what that is: so the limit goes before an error of the token
that it cuts off (`tokenize_limit`).
-/

namespace Scoping

namespace Lexer

/-- The lexer gives these tokens, and in place of a further one the ending. -/
inductive Yields : Lexer → List Token → Except LexError Token → Prop
  | final {lx behind : Lexer} {t : Token} : lx.scan = (.ok t, behind) → t.isEnd = true →
    Yields lx [] (.ok t)
  | failed {lx behind : Lexer} {e : LexError} : lx.scan = (.error e, behind) →
    Yields lx [] (.error e)
  | token {lx behind : Lexer} {t : Token} {ts : List Token} {ending : Except LexError Token} :
    lx.scan = (.ok t, behind) → t.isEnd = false → Yields behind ts ending →
    Yields lx (t :: ts) ending

variable {lx behind : Lexer} {t : Token} {ts : List Token} {ending : Except LexError Token} {n : Nat}

/-- Every lexer comes to an ending. -/
theorem exists_yields (lx : Lexer) : ∃ ts ending, lx.Yields ts ending := by
  generalize size : lx.cursor.rest.length = m
  induction m using Nat.strongRecOn generalizing lx with
  | ind m ih =>
    cases scanned : lx.scan with
    | mk answer behind =>
    cases answer with
    | error e => exact ⟨[], .error e, .failed scanned⟩
    | ok t =>
      by_cases atEnd : t.isEnd = true
      · exact ⟨[], .ok t, .final scanned atEnd⟩
      · have notEnd : t.isEnd = false := Bool.eq_false_iff.mpr atEnd
        have shorter := scan_shorter scanned notEnd
        rw [size] at shorter
        obtain ⟨ts, ending, rest⟩ := ih _ shorter behind rfl
        exact ⟨t :: ts, ending, .token scanned notEnd rest⟩

/-- Collecting gives the whole row, or the error that it ends with. -/
theorem Yields.collect_eq (h : lx.Yields ts ending) {found : List Token} {budget : List Char}
    (enough : lx.cursor.rest.length ≤ budget.length) :
    collect found budget lx = ending.map fun final => found.reverse ++ (ts ++ [final]) := by
  induction h generalizing found budget with
  | final scanned atEnd =>
    rw [collect.eq_def, scanned]
    simp [atEnd, Except.map]
  | failed scanned =>
    rw [collect.eq_def, scanned]
    rfl
  | token scanned notEnd _ ih =>
    have shorter := scan_shorter scanned notEnd
    cases budget with
    | nil =>
      rw [List.length_nil] at enough
      omega
    | cons _ budget =>
      rw [List.length_cons] at enough
      rw [collect, scanned]
      simp only [notEnd, Bool.false_eq_true, ↓reduceIte]
      rw [ih (by omega)]
      simp

/-- The lexer with room for `n` tokens in all. -/
def within (lx : Lexer) (n : Nat) : Lexer := { lx with limit := some n }

/-- A token takes one place of the room. -/
theorem scan_counts (h : lx.scan = (.ok t, behind)) (notEnd : t.isEnd = false) :
    behind.limit = lx.limit ∧ behind.emitted = lx.emitted + 1 := by
  obtain ⟨_, _, _, r, _, _, _, _, _, _, rfl⟩ := scan_read h notEnd
  unfold moved
  by_cases comment : t.isComment = true
  · rw [if_pos comment]
    exact ⟨rfl, rfl⟩
  · rw [if_neg comment]
    exact ⟨rfl, rfl⟩

/-- While there is room, a limit changes nothing. -/
theorem scan_within (free : lx.limit = none) (room : lx.emitted < n) :
    (lx.within n).scan = (lx.scan.1, lx.scan.2.within n) := by
  have vacant : ¬ n ≤ lx.emitted := by omega
  unfold scan within
  simp only [free, Option.filter_none, Option.filter_some, vacant, decide_false, Bool.false_eq_true,
    ↓reduceIte]
  split
  · rfl
  · split
    · rfl
    · simp only [moved]
      split <;> rfl

/-- The end of input is given whether or not there is room. -/
theorem scan_within_of_isEnd (h : lx.scan = (.ok t, behind)) (atEnd : t.isEnd = true) :
    (lx.within n).scan = (.ok t, behind.within n) := by
  cases left : lx.ahead.rest with
  | nil =>
    have left' : (lx.within n).ahead.rest = [] := left
    rw [scan_of_nil left] at h
    cases h
    exact scan_of_nil left'
  | cons first more =>
    obtain ⟨_, r, found, rfl, _⟩ := (scan_ok_iff_of_cons left).mp h
    have notEnd := (readToken_advances left found).2
    simp [Token.isEnd, tokenOf, notEnd] at atEnd

/-- Without room it is an error that something else comes next. -/
theorem scan_within_of_full {first : Char} {more : List Char} (left : lx.ahead.rest = first :: more)
    (full : n ≤ lx.emitted) :
    (lx.within n).scan = (.error ⟨lx.ahead.offset, .tokenLimitExceeded n⟩,
      { lx.within n with cursor := lx.ahead }) := by
  unfold ahead at left ⊢
  simp only [scan, within, left, Option.filter_some, full, decide_true, ↓reduceIte]

/-- A lexer with room for the whole row yields it, and comes to the same ending if that is the end of
input or there is room for one token more. -/
theorem Yields.within (h : lx.Yields ts ending) (free : lx.limit = none)
    (room : lx.emitted + ts.length ≤ n)
    (spare : ∀ e, ending = .error e → lx.emitted + ts.length < n) :
    (lx.within n).Yields ts ending := by
  induction h with
  | final scanned atEnd => exact .final (scan_within_of_isEnd scanned atEnd) atEnd
  | @failed lx behind e scanned =>
    have step := scan_within free (spare e rfl)
    rw [scanned] at step
    exact .failed step
  | @token lx behind t ts ending scanned notEnd _ ih =>
    rw [List.length_cons] at room spare
    have step := scan_within (n := n) free (by omega)
    rw [scanned] at step
    obtain ⟨limit, emitted⟩ := scan_counts scanned notEnd
    refine .token step notEnd (ih (limit.trans free) (by omega) fun e fails => ?_)
    have := spare e fails
    omega

/-- Behind the tokens and a gap stands a first character at `place`, neither blank nor line end. -/
def NextAt (offset : Nat) (text : List Char) (ts : List Token) (place : Nat) : Prop :=
  ∃ before gap first more, text = before ++ (gap ++ first :: more) ∧
    gap.all isGap = true ∧ isGap first = false ∧
    offset + byteSize before = (ts.getLast?.map (·.span.stop)).getD offset ∧
    place = offset + byteSize before + byteSize gap

theorem nextAt_ahead {first : Char} {more : List Char} (left : lx.ahead.rest = first :: more) :
    NextAt lx.cursor.offset lx.cursor.rest [] lx.ahead.offset := by
  obtain ⟨gap, blank, stops, spells⟩ := lx.cursor.skipGap_spells
  unfold ahead at left ⊢
  rw [left] at stops
  refine ⟨[], gap, first, more, ?_, blank, stops, rfl, spells.offset⟩
  rw [List.nil_append, spells.rest, left]

/-- What comes next behind a token and others comes next behind those, read from there on. -/
theorem NextAt.cons {place : Nat} (scanned : lx.scan = (.ok t, behind)) (notEnd : t.isEnd = false)
    (rest : NextAt behind.cursor.offset behind.cursor.rest ts place) :
    NextAt lx.cursor.offset lx.cursor.rest (t :: ts) place := by
  obtain ⟨lead, _, ⟨_, kind, _⟩ | ⟨body, _, text, offset, _, _, span⟩⟩ := scan_ok scanned
  · simp [Token.isEnd, kind] at notEnd
  · obtain ⟨before, gap, first, more, left, blank, stops, stop, rfl⟩ := rest
    have start : lx.cursor.offset + byteSize (lead ++ (body ++ before)) =
        behind.cursor.offset + byteSize before := by
      rw [offset, byteSize_append, byteSize_append]
      omega
    refine ⟨lead ++ (body ++ before), gap, first, more, ?_, blank, stops, ?_, by rw [start]⟩
    · rw [text, left]
      simp
    · have last : t.span.stop = behind.cursor.offset := by rw [span, offset]
      rw [start, stop, List.getLast?_cons, Option.map_some, Option.getD_some]
      cases ts.getLast? with
      | none => exact last.symm
      | some u => rfl

/-- A lexer with less room than the row asks for yields what there is room for, and fails where the
next token begins. -/
theorem Yields.within_of_long {m : Nat} (h : lx.Yields ts ending) (free : lx.limit = none)
    (room : lx.emitted + m = n) (fewer : m ≤ ts.length)
    (long : ∀ final, ending = .ok final → m < ts.length) :
    ∃ place, NextAt lx.cursor.offset lx.cursor.rest (ts.take m) place ∧
      (∀ t, ts[m]? = some t → t.span.start = place) ∧
      (lx.within n).Yields (ts.take m) (.error ⟨place, .tokenLimitExceeded n⟩) := by
  induction h generalizing m with
  | final scanned atEnd =>
    have := long _ rfl
    rw [List.length_nil] at this
    omega
  | @failed lx behind e scanned =>
    rw [List.length_nil] at fewer
    cases left : lx.ahead.rest with
    | nil =>
      rw [scan_of_nil left] at scanned
      cases scanned
    | cons first more =>
      rw [List.take_nil]
      exact ⟨lx.ahead.offset, nextAt_ahead left, nofun,
        .failed (scan_within_of_full left (by omega))⟩
  | @token lx behind t ts ending scanned notEnd _ ih =>
    cases m with
    | zero =>
      obtain ⟨_, first, more, r, _, _, _, left, _, rfl, _⟩ := scan_read scanned notEnd
      refine ⟨lx.ahead.offset, nextAt_ahead left, ?_,
        .failed (scan_within_of_full left (by omega))⟩
      rintro _ ⟨⟩
      rfl
    | succ m =>
      rw [List.length_cons] at fewer long
      obtain ⟨limit, emitted⟩ := scan_counts scanned notEnd
      have step := scan_within (n := n) free (by omega)
      rw [scanned] at step
      obtain ⟨place, next, begins, rest⟩ := ih (limit.trans free) (by omega)
        (Nat.le_of_succ_le_succ fewer) fun final ok => Nat.lt_of_succ_lt_succ (long final ok)
      exact ⟨place, next.cons scanned notEnd, begins, .token step notEnd rest⟩

end Lexer

open Lexer

theorem tokenize_of_yields {source : String} {limit : Option Nat} {ts : List Token}
    {ending : Except LexError Token} (h : (Lexer.start source limit).Yields ts ending) :
    tokenize source limit = ending.map (ts ++ [·]) :=
  h.collect_eq (Nat.le_refl _)

/-- A limit of `n` tokens only cuts off. Without one a source yields a row of tokens and an ending. The
row may hold `n` tokens before the end of input but has to hold fewer before an error; else the limit
is the error, where the token behind the first `n` begins. -/
theorem tokenize_limit (source : String) (n : Nat) :
    ∃ ts ending, (Lexer.start source none).Yields ts ending ∧
      tokenize source none = ending.map (ts ++ [·]) ∧
      (∀ final, ending = .ok final → ts.length ≤ n →
        tokenize source (some n) = .ok (ts ++ [final])) ∧
      (∀ e, ending = .error e → ts.length < n → tokenize source (some n) = .error e) ∧
      ((∀ final, ending = .ok final → n < ts.length) → (∀ e, ending = .error e → n ≤ ts.length) →
        ∃ place, NextAt 0 source.toList (ts.take n) place ∧
          (∀ t, ts[n]? = some t → t.span.start = place) ∧
          tokenize source (some n) = .error ⟨place, .tokenLimitExceeded n⟩) := by
  obtain ⟨ts, ending, yields⟩ := (Lexer.start source none).exists_yields
  have begun : (Lexer.start source none).emitted = 0 := rfl
  refine ⟨ts, ending, yields, tokenize_of_yields yields, ?final, ?failed, ?beyond⟩
  case final =>
    rintro final rfl fits
    exact tokenize_of_yields (yields.within rfl (by omega) nofun)
  case failed =>
    rintro e rfl spare
    exact tokenize_of_yields (yields.within rfl (by omega) fun _ _ => by omega)
  case beyond =>
    intro long fails
    have fewer : n ≤ ts.length := by
      cases ending with
      | error e => exact fails e rfl
      | ok final => exact Nat.le_of_lt (long final rfl)
    obtain ⟨place, next, begins, cut⟩ := yields.within_of_long rfl (Nat.zero_add n) fewer long
    exact ⟨place, next, begins, tokenize_of_yields cut⟩

/-- The limit goes before the error of the token that it cuts off. -/
example : (match tokenize "a @" (some 1) with
    | .ok _ => none
    | .error e => some e) = some ⟨2, .tokenLimitExceeded 1⟩ := by
  decide +kernel

end Scoping
