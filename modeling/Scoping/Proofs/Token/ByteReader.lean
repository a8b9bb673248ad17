import Scoping.Proofs.Text.Utf8
import Scoping.Proofs.Token.Literal

/-!
# Literals read byte by byte

The readers of literals and comments move over whole characters. Here are the same readers over the bytes
of a source: they look at one byte at a time, pass one or two bytes behind a backslash, and stop where
the next byte tells them to, also in the middle of a character if the bytes say so. They never do: each
of them comes to the same end as the reader over characters, at the same offset and with the same bytes
left, whether the literal is read or given up (`blockComment_bytes`, `stringLiteral_bytes`,
`regexLiteral_bytes`, `Cursor.skipNumber_bytes`).

All that a reader looks for is in ASCII (`ByteClass`). A backslash may leave the reader inside a
character of several bytes, but what is left of that character is passed before anything else is found
(`passes_behind`).
-/

namespace Scoping

/-- A place in a source, with the bytes from there on. -/
structure ByteCursor where
  offset : Nat
  rest : List UInt8
  /-- A comment read since the last significant token spans a line end. -/
  crossed : Bool
  deriving DecidableEq, Repr, Inhabited

namespace ByteCursor

/-- The cursor `n` bytes further. -/
def move (b : ByteCursor) (n : Nat) : ByteCursor := ⟨b.offset + n, b.rest.drop n, b.crossed⟩

/-- The cursor `n` bytes further, or at the end where fewer are left. -/
def advance (b : ByteCursor) (n : Nat) : ByteCursor := b.move (min n b.rest.length)

/-- The cursor at the first byte that is not in the class. -/
def skipWhile (q : UInt8 → Bool) (b : ByteCursor) : ByteCursor := b.move (b.rest.takeWhile q).length

end ByteCursor

/-- The place in bytes. -/
def Cursor.bytes (c : Cursor) : ByteCursor := ⟨c.offset, utf8 c.rest, c.crossed⟩

/-- How reading bytes fails. -/
inductive ByteFault where
  /-- With an error, at the place where the reader gave up. -/
  | halt (error : LexError) (stop : ByteCursor)
  /-- For good: a piece of text was to be cut inside a character, or the budget was too small. -/
  | stuck
  deriving DecidableEq, Repr, Inhabited

/-- What reading bytes comes to. -/
abbrev ByteReader := Except ByteFault

/-- What reading characters comes to, in bytes. -/
def inBytes {α β : Type} (f : α → β) : Reader α → ByteReader β
  | .ok a => .ok (f a)
  | .error halt => .error (.halt halt.error halt.cursor.bytes)

/-- The failure to find the end of a literal that opened at `opened`. -/
def unterminatedBytes {α : Type} (opened : Nat) (reason : LexReason) (stop : ByteCursor) :
    ByteReader α :=
  .error (.halt ⟨opened, reason⟩ stop)

theorem inBytes_unterminated {α β : Type} {f : α → β} {opened : Nat} {reason : LexReason}
    {stop : Cursor} :
    inBytes f (unterminated opened reason stop) = unterminatedBytes opened reason stop.bytes :=
  rfl

/-! ## The readers -/

/-- Passes over a line comment, up to the newline that ends it. -/
def ByteCursor.skipLine (b : ByteCursor) : ByteCursor := b.skipWhile (!isNewlineByte ·)

/-- How many bytes stand before the first closing mark of a comment. -/
def commentEnd? : List UInt8 → Option Nat
  | [] => none
  | 0x2a :: 0x2f :: _ => some 0
  | _ :: rest => (commentEnd? rest).map (· + 1)

/-- Reads a block comment. A reader that finds no closing mark stays behind the opening one. -/
def blockCommentBytes (b : ByteCursor) : ByteReader ByteCursor :=
  let inside := b.advance 2
  match commentEnd? inside.rest with
  | some length =>
    .ok { inside.move (length + 2) with
      crossed := inside.crossed || (inside.rest.take length).any isNewlineByte }
  | none => unterminatedBytes b.offset .unterminatedComment inside

/-- Reads the rest of a string whose opening quote stands at `opened`. A backslash takes one byte with
it, CR LF counting as one. -/
def stringBytes (quote : UInt8) (opened : Nat) (crossed : Bool) (offset : Nat) :
    List UInt8 → ByteReader ByteCursor
  | [] => unterminatedBytes opened .unterminatedString ⟨offset, [], crossed⟩
  | [0x5c] => unterminatedBytes opened .unterminatedString ⟨offset + 1, [], crossed⟩
  | 0x5c :: 0x0d :: 0x0a :: rest => stringBytes quote opened crossed (offset + 3) rest
  | 0x5c :: _ :: rest => stringBytes quote opened crossed (offset + 2) rest
  | b :: rest =>
    if isNewlineByte b then
      unterminatedBytes opened .unterminatedString ⟨offset, b :: rest, crossed⟩
    else if b == quote then .ok ⟨offset + 1, rest, crossed⟩
    else stringBytes quote opened crossed (offset + 1) rest

/-- Reads a string, the cursor standing on its opening quote. -/
def stringLiteralBytes (quote : UInt8) (b : ByteCursor) : ByteReader ByteCursor :=
  let inside := b.advance 1
  stringBytes quote b.offset inside.crossed inside.offset inside.rest

/-- Reads the rest of a regular expression's body, up to and with the slash that closes it. A backslash
takes one byte with it. -/
def regexBytes (opened : Nat) (crossed : Bool) (inClass : Bool) (offset : Nat) :
    List UInt8 → ByteReader ByteCursor
  | [] => unterminatedBytes opened .unterminatedRegex ⟨offset, [], crossed⟩
  | [0x5c] => unterminatedBytes opened .unterminatedRegex ⟨offset + 1, [], crossed⟩
  | 0x5c :: b :: rest =>
    if isNewlineByte b then
      unterminatedBytes opened .unterminatedRegex ⟨offset + 1, b :: rest, crossed⟩
    else regexBytes opened crossed inClass (offset + 2) rest
  | b :: rest =>
    if isNewlineByte b then
      unterminatedBytes opened .unterminatedRegex ⟨offset, b :: rest, crossed⟩
    else if b == byte '[' then regexBytes opened crossed true (offset + 1) rest
    else if b == byte ']' then regexBytes opened crossed false (offset + 1) rest
    else if b == byte '/' && !inClass then .ok ⟨offset + 1, rest, crossed⟩
    else regexBytes opened crossed inClass (offset + 1) rest

/-- Reads a regular expression with its flags, the cursor standing on the opening slash. -/
def regexLiteralBytes (b : ByteCursor) : ByteReader ByteCursor := do
  let inside := b.advance 1
  let stop ← regexBytes b.offset inside.crossed false inside.offset inside.rest
  return stop.skipWhile isWordByte

/-- Behind an exponent's mark stands a digit, or a sign and a digit. -/
def exponentDigits (behind : List UInt8) : Bool :=
  match behind with
  | [] => false
  | b :: rest => if b == byte '+' || b == byte '-' then rest.head?.any isDigitByte else isDigitByte b

/-- Passes over one given byte, if it is next. -/
def ByteCursor.skipIf (x : UInt8) (b : ByteCursor) : ByteCursor :=
  if b.rest.head? == some x then b.move 1 else b

/-- Passes over the fraction of a decimal number: a point and any digits. -/
def ByteCursor.skipFraction (b : ByteCursor) : ByteCursor :=
  if b.rest.head? == some (byte '.') then (b.move 1).skipWhile isDigitsByte else b

/-- Passes over an exponent, which has to have a digit after its mark and sign. -/
def ByteCursor.skipExponent (b : ByteCursor) : ByteCursor :=
  if (b.rest.head? == some (byte 'e') || b.rest.head? == some (byte 'E')) && exponentDigits b.rest.tail then
    (b.advance 2).skipWhile isDigitsByte
  else b

/-- Passes over a number. -/
def ByteCursor.skipNumber (b : ByteCursor) : ByteCursor :=
  if b.rest.head? == some (byte '0') && b.rest.tail.head?.any marksRadixByte then
    (b.advance 2).skipWhile isNumberByte
  else (b.skipWhile isDigitsByte).skipFraction.skipExponent.skipIf (byte 'n')

/-! ## Places -/

section
variable {c d : Cursor} {x y : Char} {rest text : List Char}

theorem Cursor.Spells.bytes (h : c.Spells d text) (kept : d.crossed = c.crossed) :
    c.bytes.move (byteSize text) = d.bytes := by
  unfold Cursor.bytes ByteCursor.move
  rw [h.rest, utf8_append, ← length_utf8, List.drop_left, h.offset, kept, length_utf8]

/-- A character of ASCII is passed as a byte. -/
theorem Cursor.bytes_move (left : c.rest = x :: rest) (ascii : x.toNat < 128) :
    c.bytes.move 1 = c.next.bytes := by
  rw [← (Spells.next left).bytes c.next_crossed, byteSize_cons, utf8Size_ascii ascii, byteSize_nil]

theorem Cursor.bytes_advance (left : c.rest = x :: rest) (ascii : x.toNat < 128) :
    c.bytes.advance 1 = c.next.bytes := by
  rw [← bytes_move left ascii, ByteCursor.advance, Cursor.bytes, left, utf8_ascii ascii,
    List.length_cons, Nat.min_eq_left (Nat.le_add_left 1 _)]

/-- Two of them are passed as two bytes. -/
theorem Cursor.bytes_advance_two (left : c.rest = x :: y :: rest) (ascii : x.toNat < 128)
    (ascii' : y.toNat < 128) : c.bytes.advance 2 = c.next.next.bytes := by
  have spells := (Spells.next left).trans (Spells.next (Cursor.next_rest left))
  rw [← spells.bytes (by rw [next_crossed, next_crossed]), ByteCursor.advance, Cursor.bytes, left,
    utf8_ascii ascii, utf8_ascii ascii', List.length_cons, List.length_cons,
    Nat.min_eq_left (Nat.le_add_left 2 _), byteSize_append, byteSize_cons, byteSize_cons,
    utf8Size_ascii ascii, utf8Size_ascii ascii']
  rfl

theorem ByteCursor.advance_one (n : Nat) (b : UInt8) (bs : List UInt8) (crossed : Bool) :
    (ByteCursor.mk n (b :: bs) crossed).advance 1 = ⟨n + 1, bs, crossed⟩ := by
  rw [advance, List.length_cons, Nat.min_eq_left (Nat.le_add_left 1 _)]
  rfl

/-- The place before a character of ASCII, and the one behind it. -/
theorem Cursor.bytes_cons {offset : Nat} {crossed : Bool} (ascii : x.toNat < 128) :
    Cursor.bytes ⟨offset, x :: rest, crossed⟩ = ⟨offset, byte x :: utf8 rest, crossed⟩ ∧
      (ByteCursor.mk offset (byte x :: utf8 rest) crossed).advance 1 =
        Cursor.bytes ⟨offset + x.utf8Size, rest, crossed⟩ := by
  rw [ByteCursor.advance_one, utf8Size_ascii ascii, Cursor.bytes, utf8_ascii ascii]
  exact ⟨rfl, rfl⟩

theorem ByteCursor.advance_two (n : Nat) (a b : UInt8) (bs : List UInt8) (crossed : Bool) :
    (ByteCursor.mk n (a :: b :: bs) crossed).advance 2 = ⟨n + 2, bs, crossed⟩ := by
  rw [advance, List.length_cons, List.length_cons, Nat.min_eq_left (Nat.le_add_left 2 _)]
  rfl

/-- A run of a class is passed up to the same place. -/
theorem Cursor.skipWhile_bytes {p : Char → Bool} {q : UInt8 → Bool} (same : ByteClass p q) (c : Cursor) :
    c.bytes.skipWhile q = (c.skipWhile p).bytes := by
  obtain ⟨text, all, stops, spells⟩ := c.skipWhile_spells p
  have run : c.rest.takeWhile p = text := by
    rw [spells.rest, List.takeWhile_append_of_pos (List.all_eq_true.mp all)]
    cases left : (c.skipWhile p).rest with
    | nil => rw [List.takeWhile_nil, List.append_nil]
    | cons x rest =>
      rw [left, Stops, List.head?_cons, Option.any_some] at stops
      rw [List.takeWhile_cons_of_neg (by rw [stops]; exact Bool.false_ne_true), List.append_nil]
  rw [← spells.bytes (c.skipWhile_crossed p), ByteCursor.skipWhile, Cursor.bytes, same.takeWhile, run,
    length_utf8]

theorem Cursor.skipLine_bytes (c : Cursor) : c.bytes.skipLine = c.skipLine.bytes :=
  c.skipWhile_bytes ByteClass.newline.not

end

/-! ## Passing characters -/

section
variable {α : Type} {f : Nat → List UInt8 → α} {p : Char → Bool} {q : UInt8 → Bool} {x : Char}
  (same : ByteClass p q) (pass : ∀ n b rest, q b = false → f n (b :: rest) = f (n + 1) rest)
include pass

/-- A loop that passes the bytes outside of a class one by one passes many of them. -/
theorem passes_bytes {bs : List UInt8} (out : ∀ b ∈ bs, q b = false) (n : Nat) (rest : List UInt8) :
    f n (bs ++ rest) = f (n + bs.length) rest := by
  induction bs generalizing n with
  | nil => rfl
  | cons b bs ih =>
    rw [List.forall_mem_cons] at out
    rw [List.cons_append, pass n b _ out.1, ih out.2, List.length_cons, Nat.add_assoc, Nat.add_comm 1]

include same

/-- It passes a character outside of the class. -/
theorem passes_char (out : p x = false) (n : Nat) (rest : List UInt8) :
    f n (String.utf8EncodeChar x ++ rest) = f (n + x.utf8Size) rest := by
  rw [passes_bytes pass (fun b mem => (same x b mem).trans out) n rest, String.length_utf8EncodeChar]

/-- Behind the first byte of a character it passes the others: they are above ASCII, where the class has
nothing. -/
theorem passes_behind {b : UInt8} {more : List UInt8} (encoded : String.utf8EncodeChar x = b :: more)
    (ascii : p x = true → x.toNat < 128) (n : Nat) (rest : List UInt8) :
    f (n + 1) (more ++ rest) = f (n + x.utf8Size) rest := by
  have size : x.utf8Size = more.length + 1 := by
    rw [← String.length_utf8EncodeChar, encoded, List.length_cons]
  rcases Nat.lt_or_ge x.toNat 128 with low | high
  · rw [encode_ascii low] at encoded
    cases encoded
    rw [size]
    rfl
  · have out : p x = false := Bool.eq_false_iff.mpr fun holds => absurd (ascii holds) (by omega)
    have others : ∀ b ∈ more, q b = false := fun b mem =>
      (same x b (encoded ▸ List.mem_cons_of_mem _ mem)).trans out
    rw [passes_bytes pass others, size, Nat.add_assoc, Nat.add_comm 1]

end

/-- A text begins with a character of ASCII when its bytes begin with the byte of that. -/
theorem head?_utf8 {y : Char} (ascii : y.toNat < 128) (cs : List Char) :
    ((utf8 cs).head? == some (byte y)) = (cs.head? == some y) := by
  have same := (ByteClass.single ascii).head?_any cs
  cases bytes : (utf8 cs).head? with
  | none => cases chars : cs.head? <;> simp_all
  | some b => cases chars : cs.head? <;> simp_all

/-! ## Comments -/

theorem commentEnd?_cons {b : UInt8} {rest : List UInt8}
    (notClose : ¬ (b = 0x2a ∧ rest.head? = some 0x2f)) :
    commentEnd? (b :: rest) = (commentEnd? rest).map (· + 1) := by
  rw [commentEnd?]
  rintro more rfl rfl
  exact notClose ⟨rfl, rfl⟩

theorem commentEnd?_append {bs rest : List UInt8} (out : ∀ b ∈ bs, b ≠ 0x2a) :
    commentEnd? (bs ++ rest) = (commentEnd? rest).map (bs.length + ·) := by
  induction bs with
  | nil => simp
  | cons b bs ih =>
    rw [List.forall_mem_cons] at out
    rw [List.cons_append, commentEnd?_cons fun close => out.1 close.1, ih out.2, Option.map_map]
    congr 1
    funext length
    exact Nat.add_right_comm _ _ _

/-- Before the closing mark a character is passed with all its bytes. -/
theorem commentEnd?_utf8 {x : Char} {rest : List Char}
    (notClose : ∀ more, x = '*' → rest = '/' :: more → False) :
    commentEnd? (utf8 (x :: rest)) =
      (commentEnd? (utf8 rest)).map ((String.utf8EncodeChar x).length + ·) := by
  by_cases star : x = '*'
  · subst star
    refine (commentEnd?_cons fun close => ?_).trans (congrArg (Option.map · _) ?_)
    · have slash := head?_utf8 (y := '/') (by decide) rest
      rw [show (utf8 rest).head? = some (byte '/') from close.2, beq_self_eq_true, eq_comm,
        beq_iff_eq] at slash
      obtain ⟨more, rfl⟩ := List.head?_eq_some_iff.mp slash
      exact notClose more rfl rfl
    · funext length
      exact Nat.add_comm _ _
  · refine commentEnd?_append fun b mem => ?_
    have same := beq_byte (y := '*') (by decide) mem
    rw [beq_eq_false_iff_ne.mpr star, beq_eq_false_iff_ne] at same
    exact same

/-- The closing mark of a comment is found where it stands, and the lines before it are counted. -/
theorem commentTail?_bytes {crossed : Bool} {offset : Nat} {cs : List Char} :
    (commentEnd? (utf8 cs)).map (fun length => (⟨offset + (length + 2), (utf8 cs).drop (length + 2),
        crossed || ((utf8 cs).take length).any isNewlineByte⟩ : ByteCursor)) =
      (commentTail? crossed offset cs).map Cursor.bytes := by
  fun_induction commentTail? crossed offset cs with
  | case1 => rfl
  | case2 crossed offset rest =>
    show some (ByteCursor.mk _ _ (crossed || List.any [] _)) = some (Cursor.bytes _)
    rw [List.any_nil, Bool.or_false]
    rfl
  | case3 crossed offset x rest notClose ih =>
    rw [← ih, commentEnd?_utf8 fun more star slash => notClose more star slash, Option.map_map]
    congr 1
    funext length
    simp only [Function.comp_apply, utf8_cons, Nat.add_assoc, List.drop_length_add_append,
      List.take_length_add_append, List.any_append, ByteClass.newline.any_encode, Bool.or_assoc]
    rw [String.length_utf8EncodeChar]

/-- Read byte by byte a block comment ends where it does character by character. -/
theorem blockComment_bytes {c : Cursor} {rest : List Char} (left : c.rest = '/' :: '*' :: rest) :
    blockCommentBytes c.bytes = inBytes Cursor.bytes (blockComment c) := by
  simp only [blockCommentBytes, blockComment, Cursor.bytes_advance_two left (by decide) (by decide)]
  have tail := @commentTail?_bytes c.next.next.crossed c.next.next.offset c.next.next.rest
  cases found : commentTail? c.next.next.crossed c.next.next.offset c.next.next.rest with
  | none =>
    rw [found] at tail
    rw [show commentEnd? c.next.next.bytes.rest = none from Option.map_eq_none_iff.mp tail]
    rfl
  | some stop =>
    rw [found] at tail
    obtain ⟨length, ends, there⟩ := Option.map_eq_some_iff.mp tail
    rw [show commentEnd? c.next.next.bytes.rest = some length from ends]
    exact congrArg Except.ok there

/-- A newline is no backslash. -/
theorem newline_ne_escape {x : Char} (newline : isNewline x = true) : byte x ≠ 0x5c := by
  intro escape
  rw [← isNewlineByte_byte (ascii_of_isNewline newline), escape] at newline
  cases newline

/-! ## Strings -/

section
variable {quote b : UInt8} {opened offset : Nat} {crossed : Bool} {rest : List UInt8}

theorem stringBytes_cons (plain : b ≠ 0x5c) : stringBytes quote opened crossed offset (b :: rest) =
    if isNewlineByte b then
      unterminatedBytes opened .unterminatedString ⟨offset, b :: rest, crossed⟩
    else if b == quote then .ok ⟨offset + 1, rest, crossed⟩
    else stringBytes quote opened crossed (offset + 1) rest := by
  rw [stringBytes]
  · exact fun escape _ => plain escape
  · exact fun _ escape _ => plain escape
  · exact fun _ _ escape _ => plain escape

theorem stringBytes_escape (notPair : ¬ (b = 0x0d ∧ rest.head? = some 0x0a)) :
    stringBytes quote opened crossed offset (0x5c :: b :: rest) =
      stringBytes quote opened crossed (offset + 2) rest := by
  rw [stringBytes]
  rintro more cr rfl
  exact notPair ⟨cr, rfl⟩

end

/-- A character that a reader of strings stops at. -/
def stopsString (quote x : Char) : Bool := isNewline x || x == quote || x == '\\'

/-- A byte that one over bytes stops at. -/
def stopsStringByte (quote b : UInt8) : Bool := isNewlineByte b || b == quote || b == byte '\\'

theorem ByteClass.stopsString {quote : Char} (ascii : quote.toNat < 128) :
    ByteClass (Scoping.stopsString quote) (stopsStringByte (byte quote)) :=
  (newline.or (single ascii)).or (single (by decide : '\\'.toNat < 128))

theorem ascii_of_stopsString {quote x : Char} (ascii : quote.toNat < 128)
    (stops : stopsString quote x = true) : x.toNat < 128 := by
  simp only [stopsString, Bool.or_eq_true, beq_iff_eq] at stops
  rcases stops with (newline | rfl) | rfl
  · exact ascii_of_isNewline newline
  · exact ascii
  · decide

theorem stringBytes_pass {quote : UInt8} {opened : Nat} {crossed : Bool} (n : Nat) (b : UInt8)
    (rest : List UInt8) (plain : stopsStringByte quote b = false) :
    stringBytes quote opened crossed n (b :: rest) = stringBytes quote opened crossed (n + 1) rest := by
  simp only [stopsStringByte, Bool.or_eq_false_iff, beq_eq_false_iff_ne] at plain
  rw [stringBytes_cons plain.2, plain.1.1, beq_eq_false_iff_ne.mpr plain.1.2]
  rfl

section
variable {opened offset : Nat} {crossed : Bool} {cs : List Char} {c : Cursor}

/-- Read byte by byte a string ends where it does character by character, and is given up there. -/
theorem stringBytes_eq {quote : Char} (quotes : quote = '\'' ∨ quote = '"') :
    stringBytes (byte quote) opened crossed offset (utf8 cs) =
      inBytes Cursor.bytes (stringTail quote opened crossed offset cs) := by
  have ascii : quote.toNat < 128 := by rcases quotes with rfl | rfl <;> decide
  have same := ByteClass.stopsString ascii
  have notEscape : byte quote ≠ 0x5c := by rcases quotes with rfl | rfl <;> decide
  fun_induction stringTail quote opened crossed offset cs with
  | case1 => rfl
  | case2 => rfl
  | case3 offset rest ih => exact ih
  | case4 offset x rest notPair ih =>
    obtain ⟨b, more, encoded⟩ := encode_eq_cons x
    have first : b ∈ String.utf8EncodeChar x := encoded ▸ List.mem_cons_self
    rw [← ih, utf8_cons, utf8_cons, encoded]
    refine (stringBytes_escape ?_).trans (passes_behind same stringBytes_pass encoded ?_ _ _)
    · rintro ⟨cr, lf⟩
      have cr := (beq_byte (y := '\r') (by decide) first).symm.trans (beq_iff_eq.mpr cr)
      obtain rfl := eq_of_beq cr
      cases encoded
      have lf := (head?_utf8 (y := '\n') (by decide) rest).symm.trans (beq_iff_eq.mpr lf)
      obtain ⟨more, rfl⟩ := List.head?_eq_some_iff.mp (eq_of_beq lf)
      exact notPair more rfl rfl
    · exact fun stops => ascii_of_stopsString ascii stops
  | case5 offset x rest _ _ _ newline =>
    have low := ascii_of_isNewline newline
    rw [inBytes_unterminated, Cursor.bytes, utf8_ascii low, stringBytes_cons (newline_ne_escape newline),
      isNewlineByte_byte low, if_pos newline]
  | case6 offset x rest _ _ _ inLine closes =>
    obtain rfl := eq_of_beq closes
    rw [utf8_ascii ascii, stringBytes_cons notEscape, isNewlineByte_byte ascii, if_neg inLine,
      beq_self_eq_true, utf8Size_ascii ascii]
    rfl
  | case7 offset x rest notLast _ notEscape inLine notQuote ih =>
    have plain : x ≠ '\\' := by
      rintro rfl
      cases rest with
      | nil => exact notLast rfl rfl
      | cons y more => exact notEscape y more rfl rfl
    rw [← ih, utf8_cons]
    refine passes_char same stringBytes_pass ?_ _ _
    simp only [stopsString, Bool.or_eq_false_iff, beq_eq_false_iff_ne]
    exact ⟨⟨Bool.eq_false_iff.mpr inLine, fun closes => notQuote (beq_iff_eq.mpr closes)⟩, plain⟩

theorem stringLiteral_bytes {quote : Char} {rest : List Char} (quotes : quote = '\'' ∨ quote = '"')
    (left : c.rest = quote :: rest) :
    stringLiteralBytes (byte quote) c.bytes = inBytes Cursor.bytes (stringLiteral quote c) := by
  have ascii : quote.toNat < 128 := by rcases quotes with rfl | rfl <;> decide
  simp only [stringLiteralBytes, stringLiteral, Cursor.bytes_advance left ascii]
  exact stringBytes_eq quotes

end

/-! ## Regular expressions -/

/-- A character that a reader of regular expressions stops at. -/
def stopsRegex (x : Char) : Bool :=
  isNewline x || x == '[' || x == ']' || x == '/' || x == '\\'

/-- A byte that one over bytes stops at. -/
def stopsRegexByte (b : UInt8) : Bool :=
  isNewlineByte b || b == byte '[' || b == byte ']' || b == byte '/' || b == byte '\\'

theorem ByteClass.stopsRegex : ByteClass Scoping.stopsRegex stopsRegexByte :=
  (((newline.or (single (by decide : '['.toNat < 128))).or (single (by decide : ']'.toNat < 128))).or
    (single (by decide : '/'.toNat < 128))).or (single (by decide : '\\'.toNat < 128))

theorem ascii_of_stopsRegex {x : Char} (stops : stopsRegex x = true) : x.toNat < 128 := by
  simp only [stopsRegex, Bool.or_eq_true, beq_iff_eq] at stops
  rcases stops with (((newline | rfl) | rfl) | rfl) | rfl
  · exact ascii_of_isNewline newline
  all_goals decide

section
variable {opened offset : Nat} {crossed inClass : Bool}

theorem regexBytes_cons {b : UInt8} {rest : List UInt8} (plain : b ≠ 0x5c) :
    regexBytes opened crossed inClass offset (b :: rest) =
      if isNewlineByte b then
        unterminatedBytes opened .unterminatedRegex ⟨offset, b :: rest, crossed⟩
      else if b == byte '[' then regexBytes opened crossed true (offset + 1) rest
      else if b == byte ']' then regexBytes opened crossed false (offset + 1) rest
      else if b == byte '/' && !inClass then .ok ⟨offset + 1, rest, crossed⟩
      else regexBytes opened crossed inClass (offset + 1) rest := by
  rw [regexBytes]
  · exact fun escape _ => plain escape
  · exact fun _ _ escape _ => plain escape

theorem regexBytes_pass (n : Nat) (b : UInt8) (rest : List UInt8) (plain : stopsRegexByte b = false) :
    regexBytes opened crossed inClass n (b :: rest) =
      regexBytes opened crossed inClass (n + 1) rest := by
  simp only [stopsRegexByte, Bool.or_eq_false_iff] at plain
  obtain ⟨⟨⟨⟨inLine, notEnter⟩, notLeave⟩, notSlash⟩, notEscape⟩ := plain
  rw [regexBytes_cons (beq_eq_false_iff_ne.mp notEscape), inLine, notEnter, notLeave, notSlash]
  rfl

/-- Read byte by byte a regular expression ends where it does character by character, and is given up
there. -/
theorem regexBytes_eq {cs : List Char} :
    regexBytes opened crossed inClass offset (utf8 cs) =
      inBytes Cursor.bytes (regexTail opened crossed inClass offset cs) := by
  fun_induction regexTail opened crossed inClass offset cs with
  | case1 => rfl
  | case2 => rfl
  | case3 inClass offset x rest newline =>
    have low := ascii_of_isNewline newline
    show regexBytes opened crossed inClass offset (0x5c :: utf8 (x :: rest)) = _
    rw [inBytes_unterminated, Cursor.bytes, utf8_ascii low, regexBytes, isNewlineByte_byte low,
      if_pos newline]
  | case4 inClass offset x rest inLine ih =>
    obtain ⟨b, more, encoded⟩ := encode_eq_cons x
    have first : b ∈ String.utf8EncodeChar x := encoded ▸ List.mem_cons_self
    have notNewline : isNewlineByte b = false :=
      (ByteClass.newline x b first).trans (Bool.eq_false_iff.mpr inLine)
    rw [← ih, utf8_cons, utf8_cons, encoded]
    show regexBytes opened crossed inClass offset (0x5c :: b :: (more ++ utf8 rest)) = _
    rw [regexBytes, notNewline, if_neg Bool.false_ne_true]
    exact passes_behind .stopsRegex regexBytes_pass encoded ascii_of_stopsRegex _ _
  | case5 inClass offset x rest _ _ newline =>
    have low := ascii_of_isNewline newline
    rw [inBytes_unterminated, Cursor.bytes, utf8_ascii low, regexBytes_cons (newline_ne_escape newline),
      isNewlineByte_byte low, if_pos newline]
  | case6 inClass offset x rest _ _ _ enters ih =>
    rw [← ih, eq_of_beq enters]
    rfl
  | case7 inClass offset x rest _ _ _ _ leaves ih =>
    rw [← ih, eq_of_beq leaves]
    rfl
  | case8 inClass offset x rest _ _ _ _ _ closes =>
    simp only [Bool.and_eq_true, beq_iff_eq, Bool.not_eq_true'] at closes
    rw [closes.1, closes.2]
    rfl
  | case9 inClass offset x rest notLast notEscape inLine notEnter notLeave notClose ih =>
    rw [← ih, utf8_cons]
    by_cases slash : x = '/'
    · -- In a class a slash is passed like any other character.
      subst slash
      obtain rfl : inClass = true := by simpa using notClose
      rfl
    · have plain : x ≠ '\\' := by
        rintro rfl
        cases rest with
        | nil => exact notLast rfl rfl
        | cons y more => exact notEscape y more rfl rfl
      refine passes_char .stopsRegex regexBytes_pass ?_ _ _
      simp only [beq_iff_eq] at notEnter notLeave
      simp only [stopsRegex, Bool.or_eq_false_iff, beq_eq_false_iff_ne]
      exact ⟨⟨⟨⟨Bool.eq_false_iff.mpr inLine, notEnter⟩, notLeave⟩, slash⟩, plain⟩

end

theorem regexLiteral_bytes {c : Cursor} {rest : List Char} (left : c.rest = '/' :: rest) :
    regexLiteralBytes c.bytes = inBytes Cursor.bytes (regexLiteral c) := by
  have tail := @regexBytes_eq c.offset c.next.offset c.next.crossed false c.next.rest
  simp only [regexLiteralBytes, regexLiteral, Cursor.bytes_advance left (by decide : '/'.toNat < 128)]
  rw [show regexBytes c.bytes.offset c.next.bytes.crossed false c.next.bytes.offset c.next.bytes.rest =
    inBytes Cursor.bytes (regexTail c.offset c.next.crossed false c.next.offset c.next.rest) from tail]
  cases regexTail c.offset c.next.crossed false c.next.offset c.next.rest with
  | error halt => rfl
  | ok stop => exact congrArg Except.ok (stop.skipWhile_bytes .word)

/-! ## Numbers -/

theorem ByteClass.marksRadix : ByteClass Scoping.marksRadix marksRadixByte :=
  (((((single (by decide : 'x'.toNat < 128)).or (single (by decide : 'X'.toNat < 128))).or
    (single (by decide : 'o'.toNat < 128))).or (single (by decide : 'O'.toNat < 128))).or
    (single (by decide : 'b'.toNat < 128))).or (single (by decide : 'B'.toNat < 128))

theorem ascii_of_marksRadix {x : Char} (mark : marksRadix x = true) : x.toNat < 128 := by
  simp only [marksRadix, Bool.or_eq_true, beq_iff_eq] at mark
  rcases mark with ((((rfl | rfl) | rfl) | rfl) | rfl) | rfl
  all_goals decide

theorem Cursor.skipIf_bytes {x : Char} (ascii : x.toNat < 128) (c : Cursor) :
    c.bytes.skipIf (byte x) = (c.skipIf x).bytes := by
  unfold ByteCursor.skipIf Cursor.skipIf
  rw [show (c.bytes.rest.head? == some (byte x)) = (c.rest.head? == some x) from head?_utf8 ascii _]
  split
  · next found =>
    obtain ⟨rest, left⟩ := List.head?_eq_some_iff.mp (eq_of_beq found)
    exact bytes_move left ascii
  · rfl

theorem Cursor.skipFraction_bytes (c : Cursor) : c.bytes.skipFraction = c.skipFraction.bytes := by
  unfold ByteCursor.skipFraction Cursor.skipFraction
  rw [show (c.bytes.rest.head? == some (byte '.')) = (c.rest.head? == some '.') from
    head?_utf8 (by decide : '.'.toNat < 128) _]
  split
  · next found =>
    obtain ⟨rest, left⟩ := List.head?_eq_some_iff.mp (eq_of_beq found)
    rw [bytes_move left (by decide)]
    exact skipWhile_bytes .digits c.next
  · rfl

theorem exponentDigits_utf8 (x : Char) (rest : List Char) : exponentDigits (utf8 (x :: rest)) =
    if x == '+' || x == '-' then rest.head?.any isDigit else isDigit x := by
  obtain ⟨b, more, encoded⟩ := encode_eq_cons x
  have first : b ∈ String.utf8EncodeChar x := encoded ▸ List.mem_cons_self
  have plus : (b == byte '+') = (x == '+') := beq_byte (y := '+') (by decide) first
  have minus : (b == byte '-') = (x == '-') := beq_byte (y := '-') (by decide) first
  rw [utf8_cons, encoded, List.cons_append, exponentDigits, plus, minus, ByteClass.digit x b first]
  split
  · next sign =>
    have low : x.toNat < 128 := by
      simp only [Bool.or_eq_true, beq_iff_eq] at sign
      rcases sign with rfl | rfl <;> decide
    rw [encode_ascii low] at encoded
    cases encoded
    exact ByteClass.digit.head?_any rest
  · rfl

theorem Cursor.skipExponent_bytes (c : Cursor) : c.bytes.skipExponent = c.skipExponent.bytes := by
  unfold ByteCursor.skipExponent Cursor.skipExponent
  have small : (c.bytes.rest.head? == some (byte 'e')) = (c.rest.head? == some 'e') :=
    head?_utf8 (by decide : 'e'.toNat < 128) _
  have capital : (c.bytes.rest.head? == some (byte 'E')) = (c.rest.head? == some 'E') :=
    head?_utf8 (by decide : 'E'.toNat < 128) _
  rw [small, capital]
  cases left : c.rest with
  | nil => rfl
  | cons mark behind =>
    by_cases marks : mark = 'e' ∨ mark = 'E'
    · have low : mark.toNat < 128 := by rcases marks with rfl | rfl <;> decide
      have tail : c.bytes.rest.tail = utf8 behind := by
        rw [Cursor.bytes, left, utf8_ascii low, List.tail_cons]
      have marked : (mark == 'e' || mark == 'E') = true := by simpa using marks
      have notOther : (mark != 'e' && mark != 'E') = false := by
        rw [bne, bne, ← Bool.not_or, marked]
        rfl
      cases behind with
      | nil => rw [tail, utf8_nil, exponentDigits, Bool.and_false]; rfl
      | cons x rest =>
        have digits (low' : x.toNat < 128) : (c.bytes.advance 2).skipWhile isDigitsByte =
            (c.next.next.skipWhile continuesDigits).bytes := by
          rw [bytes_advance_two left low low', skipWhile_bytes .digits]
        simp only [tail, exponentDigits_utf8, List.head?_cons, Option.some_beq_some, marked,
          Bool.true_and, notOther, Bool.false_eq_true, if_false]
        by_cases sign : (x == '+' || x == '-') = true
        · have low' : x.toNat < 128 ∧ isDigit x = false := by
            simp only [Bool.or_eq_true, beq_iff_eq] at sign
            rcases sign with rfl | rfl <;> decide
          rw [if_pos sign, sign, low'.2, if_neg Bool.false_ne_true, Bool.true_and]
          split
          · exact digits low'.1
          · rfl
        · rw [if_neg sign, Bool.eq_false_iff.mpr sign, Bool.false_and, if_neg Bool.false_ne_true]
          split
          · next digit => exact digits (ascii_of_isDigit digit)
          · rfl
    · have notMark : (mark == 'e' || mark == 'E') = false := by simpa using marks
      have other : (mark != 'e' && mark != 'E') = true := by
        rw [bne, bne, ← Bool.not_or, notMark]
        rfl
      rw [List.head?_cons, Option.some_beq_some, Option.some_beq_some, notMark, Bool.false_and,
        if_neg Bool.false_ne_true]
      cases behind with
      | nil => rfl
      | cons x rest => simp only [other, if_true]

/-- Read byte by byte a number ends where it does character by character. -/
theorem Cursor.skipNumber_bytes (c : Cursor) : c.bytes.skipNumber = c.skipNumber.bytes := by
  have decimal : (c.bytes.skipWhile isDigitsByte).skipFraction.skipExponent.skipIf (byte 'n') =
      ((c.skipWhile continuesDigits).skipFraction.skipExponent.skipIf 'n').bytes := by
    rw [skipWhile_bytes .digits, skipFraction_bytes, skipExponent_bytes]
    exact skipIf_bytes (by decide : 'n'.toNat < 128) _
  have zero : (c.bytes.rest.head? == some (byte '0')) = (c.rest.head? == some '0') :=
    head?_utf8 (by decide : '0'.toNat < 128) _
  unfold ByteCursor.skipNumber Cursor.skipNumber
  rw [zero, decimal]
  by_cases begins : c.rest.head? = some '0'
  · obtain ⟨rest, left⟩ := List.head?_eq_some_iff.mp begins
    have radix : c.bytes.rest.tail.head?.any marksRadixByte = c.next.rest.head?.any marksRadix := by
      rw [Cursor.bytes, left, utf8_ascii (by decide : '0'.toNat < 128), List.tail_cons,
        Cursor.next_rest left]
      exact ByteClass.marksRadix.head?_any rest
    rw [radix]
    split
    · next marked =>
      obtain ⟨_, marked⟩ := Bool.and_eq_true _ _ ▸ marked
      rw [Cursor.next_rest left] at marked
      obtain ⟨x, more, rfl, mark⟩ := exists_cons_of_head?_any marked
      rw [bytes_advance_two left (by decide) (ascii_of_marksRadix mark), skipWhile_bytes .number]
    · rfl
  · rw [beq_eq_false_iff_ne.mpr begins, Bool.false_and, Bool.false_and]
    rfl

end Scoping
