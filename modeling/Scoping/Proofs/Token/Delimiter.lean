import Scoping.Proofs.Token.ByteReader

/-!
# Where literals end

A string and a regular expression are read exactly where one of their grammar stands, and up to its
end; elsewhere the reader says that the literal has no end (`literals_delimited`). The grammars speak of
characters, and so do the readers. A reader of bytes, which behind a backslash passes one byte and not
one character, comes to the same end.
-/

namespace Scoping

/-! ## What a reader gives -/

section
variable {c d : Cursor} {halt : Halt} {opened offset : Nat} {crossed : Bool} {cs text : List Char}

/-- A string that is read crosses no line, and one that is not has no end. -/
theorem stringTail_gives {quote : Char} : match stringTail quote opened crossed offset cs with
    | .ok d => d.crossed = crossed
    | .error halt => halt.error = ⟨opened, .unterminatedString⟩ := by
  fun_induction stringTail quote opened crossed offset cs with
  | case1 => rfl
  | case2 => rfl
  | case3 _ _ ih => exact ih
  | case4 _ _ _ _ ih => exact ih
  | case5 => rfl
  | case6 => rfl
  | case7 _ _ _ _ _ _ _ _ ih => exact ih

/-- The same of a regular expression. -/
theorem regexTail_gives {inClass : Bool} : match regexTail opened crossed inClass offset cs with
    | .ok d => d.crossed = crossed
    | .error halt => halt.error = ⟨opened, .unterminatedRegex⟩ := by
  fun_induction regexTail opened crossed inClass offset cs with
  | case1 => rfl
  | case2 => rfl
  | case3 => rfl
  | case4 _ _ _ _ _ ih => exact ih
  | case5 => rfl
  | case6 _ _ _ _ _ _ _ _ ih => exact ih
  | case7 _ _ _ _ _ _ _ _ _ ih => exact ih
  | case8 => rfl
  | case9 _ _ _ _ _ _ _ _ _ _ ih => exact ih

theorem Cursor.next_eq {x : Char} {rest : List Char} (h : c.rest = x :: rest) :
    c.next = ⟨c.offset + x.utf8Size, rest, c.crossed⟩ := by
  unfold Cursor.next
  rw [h]

/-- What the reader of strings makes of the text behind an opening quote: it gets behind the string
that begins there, and says that the string has no end where none does. A reader of bytes stops at the
same place, whether it finds the end or not. -/
structure StringDelimited (quote : Char) (c : Cursor) (text : List Char) : Prop where
  ok : ∀ d, stringLiteral quote c = .ok d ↔ ∃ body tail, StringBody quote body ∧
    text = body ++ tail ∧ d = ⟨c.offset + quote.utf8Size + byteSize body, tail, c.crossed⟩
  error : (¬ ∃ body tail, StringBody quote body ∧ text = body ++ tail) →
    ∃ stop, stringLiteral quote c = unterminated c.offset .unterminatedString stop
  bytes : stringLiteralBytes (byte quote) c.bytes = inBytes Cursor.bytes (stringLiteral quote c)

/-- What the reader of regular expressions makes of the text behind an opening slash: it gets behind
the one that begins there and behind all its flags, and says that the regular expression has no end
where none begins. A reader of bytes stops at the same place, whether it finds the end or not. -/
structure RegexDelimited (c : Cursor) (text : List Char) : Prop where
  ok : ∀ d, regexLiteral c = .ok d ↔ ∃ body flags tail, RegexBody false body ∧
    flags.all continuesName = true ∧ Stops continuesName tail ∧ text = body ++ (flags ++ tail) ∧
    d = ⟨c.offset + '/'.utf8Size + byteSize (body ++ flags), tail, c.crossed⟩
  error : (¬ ∃ body tail, RegexBody false body ∧ text = body ++ tail) →
    ∃ stop, regexLiteral c = unterminated c.offset .unterminatedRegex stop
  bytes : regexLiteralBytes c.bytes = inBytes Cursor.bytes (regexLiteral c)

theorem stringLiteral_delimited {quote : Char} (quotes : quote = '\'' ∨ quote = '"')
    (left : c.rest = quote :: text) : StringDelimited quote c text := by
  have next := Cursor.next_eq left
  have there {d : Cursor} (read : stringLiteral quote c = .ok d) : ∃ body tail,
      StringBody quote body ∧ text = body ++ tail ∧
      d = ⟨c.offset + quote.utf8Size + byteSize body, tail, c.crossed⟩ := by
    simp only [stringLiteral, next] at read
    obtain ⟨body, valid, spells⟩ := stringTail_ok read
    have crossed := @stringTail_gives c.offset (c.offset + quote.utf8Size) c.crossed text quote
    rw [read] at crossed
    refine ⟨body, d.rest, valid, spells.rest, ?_⟩
    rw [← spells.offset, ← crossed]
  constructor
  case ok =>
    intro d
    refine ⟨there, ?_⟩
    rintro ⟨body, tail, valid, rfl, rfl⟩
    obtain ⟨d, read, behind⟩ := valid.read_literal quotes left
    obtain ⟨body', tail', _, split, rfl⟩ := there read
    cases behind
    rw [read, List.append_cancel_right split]
  case error =>
    intro none
    cases read : stringLiteral quote c with
    | ok d =>
      obtain ⟨body, tail, valid, split, _⟩ := there read
      exact absurd ⟨body, tail, valid, split⟩ none
    | error halt =>
      have reason := @stringTail_gives c.offset (c.offset + quote.utf8Size) c.crossed text quote
      simp only [stringLiteral, next] at read
      rw [read] at reason
      exact ⟨halt.cursor, by rw [unterminated, ← reason]⟩
  case bytes => exact stringLiteral_bytes quotes left

theorem regexLiteral_delimited (left : c.rest = '/' :: text) : RegexDelimited c text := by
  have next := Cursor.next_eq left
  have gives := @regexTail_gives c.offset (c.offset + '/'.utf8Size) c.crossed text false
  have there {d : Cursor} (read : regexLiteral c = .ok d) : ∃ body flags tail,
      RegexBody false body ∧ flags.all continuesName = true ∧ Stops continuesName tail ∧
      text = body ++ (flags ++ tail) ∧
      d = ⟨c.offset + '/'.utf8Size + byteSize (body ++ flags), tail, c.crossed⟩ := by
    obtain ⟨body, flags, valid, all, stops, spells⟩ := regexLiteral_ok read
    have crossed : d.crossed = c.crossed := by
      simp only [regexLiteral, next] at read
      split at read
      · next stop inside =>
        rw [inside] at gives
        cases read
        rw [Cursor.skipWhile_crossed, gives]
      · cases read
    rw [next] at spells
    refine ⟨body, flags, d.rest, valid, all, stops, ?_, ?_⟩
    · rw [← List.append_assoc]
      exact spells.rest
    · rw [← spells.offset, ← crossed]
  constructor
  case ok =>
    intro d
    refine ⟨there, ?_⟩
    rintro ⟨body, flags, tail, valid, all, stops, rfl, rfl⟩
    obtain ⟨d, read, behind⟩ := valid.read_literal all stops left
    obtain ⟨body', flags', tail', _, _, _, split, rfl⟩ := there read
    cases behind
    rw [← List.append_assoc, ← List.append_assoc] at split
    rw [read, List.append_cancel_right split]
  case error =>
    intro none
    simp only [regexLiteral, next]
    split
    · next stop inside =>
      obtain ⟨body, valid, spells⟩ := regexTail_ok inside
      exact absurd ⟨body, stop.rest, valid, spells.rest⟩ none
    · next halt inside =>
      rw [inside] at gives
      exact ⟨halt.cursor, by rw [unterminated, ← gives]⟩
  case bytes => exact regexLiteral_bytes left

/-- Strings and regular expressions are delimited by their grammars, wherever a reader of theirs
begins. -/
theorem literals_delimited (c : Cursor) (text : List Char) :
    (∀ quote, quote = '\'' ∨ quote = '"' → c.rest = quote :: text →
      StringDelimited quote c text) ∧
    (c.rest = '/' :: text → RegexDelimited c text) :=
  ⟨fun _ => stringLiteral_delimited, regexLiteral_delimited⟩

/-- A string with escapes of a letter of two bytes, of a line end and of its quote, and a regular
expression with a slash in a class and an escape, each with text behind it; and a string that a line
end cuts short. -/
theorem literals_delimited_escaped :
    StringDelimited '\'' ⟨3, '\'' :: "\\é\\\r\n\\''x".toList, false⟩ "\\é\\\r\n\\''x".toList ∧
    (stringLiteral '\'' ⟨3, '\'' :: "\\é\\\r\n\\''x".toList, false⟩).toOption =
      some ⟨13, ['x'], false⟩ ∧
    RegexDelimited ⟨0, '/' :: "[/]\\é/gi x".toList, true⟩ "[/]\\é/gi x".toList ∧
    (regexLiteral ⟨0, '/' :: "[/]\\é/gi x".toList, true⟩).toOption = some ⟨10, [' ', 'x'], true⟩ ∧
    ∃ stop, stringLiteral '"' ⟨0, '"' :: "a\n\"".toList, false⟩ =
      unterminated 0 .unterminatedString stop := by
  have string := (literals_delimited ⟨3, '\'' :: "\\é\\\r\n\\''x".toList, false⟩ _).1 '\'' (.inl rfl) rfl
  have regex := (literals_delimited ⟨0, '/' :: "[/]\\é/gi x".toList, true⟩ _).2 rfl
  have cut := (literals_delimited ⟨0, '"' :: "a\n\"".toList, false⟩ _).1 '"' (.inr rfl) rfl
  refine ⟨string, by decide +kernel, regex, by decide +kernel, ?_⟩
  apply cut.error
  rintro ⟨body, tail, valid, split⟩
  have read := (cut.ok _).mpr ⟨body, tail, valid, split, rfl⟩
  have none : (stringLiteral '"' ⟨0, '"' :: "a\n\"".toList, false⟩).toOption = none := by
    decide +kernel
  rw [read] at none
  cases none

end

end Scoping
