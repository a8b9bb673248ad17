import Scoping.Proofs.Token.Tiling

/-!
# Where reading gives up

A reader that fails names the place where the piece began that has no end, and leaves the cursor from
which reading can be taken up again. Both are met on the way from where the reader stood
(`Halt.From`): it moved over whole characters up to the place, and from there up to the cursor. So
neither of them is inside a character, also where an escape or a substitution was cut short.
-/

namespace Scoping

/-- On its way from the cursor the failed reader came by the place that its error names. -/
def Halt.From (halt : Halt) (c : Cursor) : Prop :=
  ∃ d, c.Reaches d ∧ d.Reaches halt.cursor ∧ halt.error.position = d.offset

namespace Halt.From

variable {halt : Halt} {c d : Cursor}

theorem reaches (h : halt.From c) : c.Reaches halt.cursor := by
  obtain ⟨d, there, further, _⟩ := h
  exact there.trans further

theorem behind (h : c.Reaches d) (g : halt.From d) : halt.From c := by
  obtain ⟨e, there, further, place⟩ := g
  exact ⟨e, h.trans there, further, place⟩

/-- The error stands where the reader began. -/
theorem here (place : halt.error.position = c.offset) (h : c.Reaches halt.cursor) : halt.From c :=
  ⟨c, .refl c, h, place⟩

end Halt.From

/-! ## Strings, regular expressions and comments -/

section
variable {halt : Halt} {c : Cursor} {opened offset : Nat} {crossed : Bool} {cs : List Char}

theorem stringTail_error {quote : Char}
    (h : stringTail quote opened crossed offset cs = .error halt) :
    halt.error.position = opened ∧ Cursor.Reaches ⟨offset, cs, crossed⟩ halt.cursor := by
  fun_induction stringTail quote opened crossed offset cs with
  | case1 =>
    cases h
    exact ⟨rfl, .refl _⟩
  | case2 =>
    cases h
    exact ⟨rfl, _, .cons crossed (.refl _)⟩
  | case3 offset rest ih =>
    obtain ⟨place, text, spells⟩ := ih h
    exact ⟨place, _, .cons crossed (.cons crossed (.cons crossed spells))⟩
  | case4 offset x rest _ ih =>
    obtain ⟨place, text, spells⟩ := ih h
    exact ⟨place, _, .cons crossed (.cons crossed spells)⟩
  | case5 =>
    cases h
    exact ⟨rfl, .refl _⟩
  | case6 => cases h
  | case7 offset x rest _ _ _ _ _ ih =>
    obtain ⟨place, text, spells⟩ := ih h
    exact ⟨place, _, .cons crossed spells⟩

theorem stringLiteral_error {quote : Char} (h : stringLiteral quote c = .error halt) :
    halt.From c := by
  obtain ⟨place, further⟩ := stringTail_error h
  exact .here place ((Cursor.Reaches.next c).trans further)

theorem regexTail_error {inClass : Bool}
    (h : regexTail opened crossed inClass offset cs = .error halt) :
    halt.error.position = opened ∧ Cursor.Reaches ⟨offset, cs, crossed⟩ halt.cursor := by
  fun_induction regexTail opened crossed inClass offset cs with
  | case1 =>
    cases h
    exact ⟨rfl, .refl _⟩
  | case2 =>
    cases h
    exact ⟨rfl, _, .cons crossed (.refl _)⟩
  | case3 =>
    cases h
    exact ⟨rfl, _, .cons crossed (.refl _)⟩
  | case4 _ offset x rest _ ih =>
    obtain ⟨place, text, spells⟩ := ih h
    exact ⟨place, _, .cons crossed (.cons crossed spells)⟩
  | case5 =>
    cases h
    exact ⟨rfl, .refl _⟩
  | case6 _ offset x rest _ _ _ _ ih =>
    obtain ⟨place, text, spells⟩ := ih h
    exact ⟨place, _, .cons crossed spells⟩
  | case7 _ offset x rest _ _ _ _ _ ih =>
    obtain ⟨place, text, spells⟩ := ih h
    exact ⟨place, _, .cons crossed spells⟩
  | case8 => cases h
  | case9 _ offset x rest _ _ _ _ _ _ ih =>
    obtain ⟨place, text, spells⟩ := ih h
    exact ⟨place, _, .cons crossed spells⟩

theorem regexLiteral_error (h : regexLiteral c = .error halt) : halt.From c := by
  simp only [regexLiteral] at h
  split at h
  · cases h
  · next inside =>
    cases h
    obtain ⟨place, further⟩ := regexTail_error inside
    exact .here place ((Cursor.Reaches.next c).trans further)

/-- A comment without an end leaves the cursor behind its opening mark. -/
theorem blockComment_error (h : blockComment c = .error halt) : halt.From c := by
  simp only [blockComment] at h
  split at h
  · cases h
  · cases h
    exact .here rfl ((Cursor.Reaches.next c).trans (.next _))

end

/-! ## Templates -/

/-- With the given budget, the error of a template without an end names where the template or a piece
inside it began. -/
def HaltsText (budget : List Char) : Prop :=
  ∀ (o c : Cursor) (found : Bool) (halt : Halt), o.Reaches c →
    templateTail budget o.offset found c = .error halt → halt.From o

/-- The same of a substitution. -/
def HaltsCode (budget : List Char) : Prop :=
  ∀ (o c : Cursor) (depth : Nat) (halt : Halt), o.Reaches c →
    substitutionTail budget o.offset depth c = .error halt → halt.From o

section
variable {y : Char} {budget : List Char} (haltsText : HaltsText budget)
  (haltsCode : HaltsCode budget)
include haltsText haltsCode

theorem haltsText_cons : HaltsText (y :: budget) := by
  intro o c found halt there h
  have next : o.Reaches c.next := there.trans (.next c)
  have second : o.Reaches c.next.next := next.trans (.next _)
  rw [templateTail] at h
  split at h
  · cases h
    exact .here rfl there
  split at h
  · exact haltsText o _ found halt second h
  split at h
  · cases h
  split at h
  · split at h
    · next behind inside =>
      obtain ⟨code, _, spells⟩ := (passes budget).2 _ 0 _ _ inside
      exact haltsText o _ true halt (second.trans ⟨code, spells⟩) h
    · next inside =>
      cases h
      exact haltsCode o _ 1 halt second inside
  · exact haltsText o _ found halt next h

theorem haltsCode_cons : HaltsCode (y :: budget) := by
  intro o c depth halt there h
  have next : o.Reaches c.next := there.trans (.next c)
  rw [substitutionTail] at h
  split at h
  · cases h
    exact .here rfl there
  split at h
  · exact haltsCode o _ _ halt next h
  split at h
  · split at h
    · cases h
    · exact haltsCode o _ _ halt next h
  split at h
  · split at h
    · next behind inside =>
      obtain ⟨string, _, spells⟩ := stringTail_ok inside
      exact haltsCode o _ _ halt (next.trans ⟨string, spells.rest, spells.offset⟩) h
    · next inside =>
      cases h
      exact (stringLiteral_error inside).behind there
  split at h
  · split at h
    · next behind inside =>
      obtain ⟨_, inner, _, _, spells⟩ := (passes budget).1 _ _ _ _ inside
      exact haltsCode o _ _ halt (next.trans ⟨inner, spells⟩) h
    · next inside =>
      -- The inner template is the one that has no end, or something in it is.
      cases h
      exact (haltsText c _ false halt (.next c) inside).behind there
  split at h
  · exact haltsCode o _ _ halt (there.trans (c.skipWhile_reaches _)) h
  split at h
  · split at h
    · next behind inside =>
      obtain ⟨comment, _, spells⟩ := blockComment_ok inside
      exact haltsCode o _ _ halt ((next.trans (.next _)).trans ⟨comment, spells⟩) h
    · next inside =>
      cases h
      exact (blockComment_error inside).behind there
  · exact haltsCode o _ _ halt next h

end

theorem halts (budget : List Char) : HaltsText budget ∧ HaltsCode budget := by
  induction budget with
  | nil =>
    constructor
    · intro o c found halt there h
      rw [templateTail] at h
      cases h
      exact .here rfl there
    · intro o c depth halt there h
      rw [substitutionTail] at h
      cases h
      exact .here rfl there
  | cons y budget ih => exact ⟨haltsText_cons ih.1 ih.2, haltsCode_cons ih.1 ih.2⟩

theorem templateLiteral_error {c : Cursor} {halt : Halt} (h : templateLiteral c = .error halt) :
    halt.From c :=
  (halts c.rest).1 c c.next false halt (.next c) h

/-! ## Tokens -/

/-- The error of a token that cannot be read names where the token or a piece inside it began. -/
theorem readToken_error {afterOperand : Bool} {c : Cursor} {first : Char} {more : List Char}
    {halt : Halt} (h : readToken afterOperand c first more = .error halt) : halt.From c := by
  obtain ⟨reader, _, read⟩ := exists_reader afterOperand c first more
  rw [read] at h
  cases reader with
  | script | line | number | word => cases h
  | block => exact blockComment_error (of_map_error h)
  | regex => exact regexLiteral_error (of_map_error h)
  | string => exact stringLiteral_error (of_map_error h)
  | template => exact templateLiteral_error (of_map_error h)
  | mark =>
    rw [TokenReader.read] at h
    split at h
    · cases h
    · cases h
      exact .here rfl (.refl c)

namespace Lexer

variable {lx behind : Lexer} {e : LexError}

/-- A lexer that fails has passed the place of its error. -/
theorem scan_error (h : lx.scan = (.error e, behind)) :
    ∃ d, lx.cursor.Reaches d ∧ d.Reaches behind.cursor ∧ e.position = d.offset := by
  obtain ⟨gap, _, _, spells⟩ := lx.cursor.skipGap_spells
  have there : lx.cursor.Reaches lx.ahead := ⟨gap, spells⟩
  cases left : lx.ahead.rest with
  | nil =>
    rw [scan_of_nil left] at h
    cases h
  | cons first more =>
    unfold ahead at left there
    simp only [scan, left] at h
    cases full : lx.limit.filter (· ≤ lx.emitted) with
    | some limit =>
      rw [full] at h
      cases h
      exact ⟨_, there, .refl _, rfl⟩
    | none =>
      rw [full] at h
      cases found : readToken lx.lookbehind.afterOperand lx.cursor.skipGap.2 first more with
      | ok r =>
        rw [found] at h
        cases h
      | error halt =>
        rw [found] at h
        cases h
        exact (readToken_error found).behind there

/-- However scanning ends, it ends further on. -/
theorem scan_reaches (lx : Lexer) : lx.cursor.Reaches lx.scan.2.cursor := by
  obtain ⟨gap, _, _, spells⟩ := lx.cursor.skipGap_spells
  cases scanned : lx.scan with
  | mk answer behind =>
  cases answer with
  | error e =>
    obtain ⟨d, there, further, _⟩ := scan_error scanned
    exact there.trans further
  | ok t =>
    cases left : lx.ahead.rest with
    | nil =>
      rw [scan_of_nil left] at scanned
      cases scanned
      exact ⟨gap, spells.rest, spells.offset⟩
    | cons first more =>
      obtain ⟨_, r, found, _, rfl⟩ := (scan_ok_iff_of_cons left).mp scanned
      obtain ⟨body, reads⟩ := (readToken_advances left found).1.reaches
      have whole := spells.trans reads
      exact ⟨_, by rw [moved_rest]; exact whole.rest, by rw [moved_offset]; exact whole.offset⟩

end Lexer

end Scoping
