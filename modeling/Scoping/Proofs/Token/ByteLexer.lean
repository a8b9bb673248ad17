import Mathlib.Data.List.Find
import Scoping.Proofs.Text.LineEnd
import Scoping.Proofs.Token.ByteTemplate

/-!
# A lexer over bytes

The lexer of a source keeps the text that is left. This one keeps an offset alone: it looks at the bytes
behind it, and where it needs text it cuts the source at offsets that the bytes led it to. A cut inside a
character has nothing to give, and then the lexer is stuck: nothing comes of the call. It cuts at every
character of a gap, around a word, at a mark and around every token.

It is never stuck. Asked whatever the lexer over characters is asked, it gives the same and stands at the
same offset (`Lexer.scan_inBytes`), because each reader stops where the one over characters does.
What a cut gives is decided by the text alone (`dropBytes?`, `Span.text?`), not by the lexer.
-/

namespace Scoping

/-- One token as its reader finds it in bytes. -/
structure ByteReading where
  kind : TokenKind
  flags : TokenFlags
  stop : ByteCursor
  deriving DecidableEq, Repr, Inhabited

/-- A piece cut from the source. -/
def cutOut {α : Type} (piece : Option α) : ByteReader α :=
  match piece with
  | some text => .ok text
  | none => .error .stuck

/-- The mark that the bytes begin with. A question mark and a point before a digit are two marks. -/
def markBytes? (text : List UInt8) : Option (List Char) :=
  match marks.find? (fun mark => (utf8 mark).isPrefixOf text) with
  | some ['?', '.'] => if (text[2]?).any isDigitByte then some ['?'] else some ['?', '.']
  | found => found

/-- Reads the token that begins with the byte `first`, at the cursor `b`; `more` are the bytes behind. -/
def readTokenBytes (source : List Char) (afterOperand : Bool) (b : ByteCursor) (first : UInt8)
    (more : List UInt8) : ByteReader ByteReading :=
  let next := more.head?
  if first == byte '#' && b.offset == 0 && next == some (byte '!') then
    .ok ⟨.comment, .none, b.skipLine⟩
  else if first == byte '/' && next == some (byte '/') then .ok ⟨.comment, .none, b.skipLine⟩
  else if first == byte '/' && next == some (byte '*') then do
    let stop ← blockCommentBytes b
    return ⟨.comment, { TokenFlags.none with blockComment := true }, stop⟩
  else if first == byte '/' && !afterOperand then do
    let stop ← regexLiteralBytes b
    return ⟨.regex, .none, stop⟩
  else if first == byte '\'' || first == byte '"' then do
    let stop ← stringLiteralBytes first b
    return ⟨.string, .none, stop⟩
  else if first == byte '\x60' then do
    let (found, stop) ← templateLiteralBytes b
    return ⟨.string, { TokenFlags.none with template := true, substitution := found }, stop⟩
  else if isDigitByte first || (first == byte '.' && next.any isDigitByte) then
    .ok ⟨.number, .none, b.skipNumber⟩
  else if startsNameByte first then do
    let stop := b.skipWhile isWordByte
    let word ← cutOut (Span.text? ⟨b.offset, stop.offset⟩ source)
    return ⟨wordKind (String.ofList word), .none, stop⟩
  else do
    let text ← cutOut (dropBytes? b.offset source)
    match markBytes? b.rest with
    | some mark => return ⟨markKind mark, .none, b.advance (utf8 mark).length⟩
    | none => .error (.halt ⟨b.offset, .unexpectedCharacter (text.headD '\x00')⟩ b)

/-- Skips blanks and line ends from `offset` on, and says whether a line end was among them or had been
met before. The source is cut before every character. -/
def skipGapBytes (source : List Char) (met : Bool) (offset : Nat) : (budget : Nat) → Option (Bool × Nat)
  | 0 => none
  | budget + 1 =>
    match dropBytes? offset source with
    | none => none
    | some [] => some (met, offset)
    | some (x :: _) =>
      if endsLine x then skipGapBytes source true (offset + x.utf8Size) budget
      else if isBlank x then skipGapBytes source met (offset + x.utf8Size) budget
      else some (met, offset)

/-- A lexer that knows its source and where in it it stands. -/
structure ByteLexer where
  source : String
  offset : Nat
  /-- A comment read since the last significant token spans a line end. -/
  crossed : Bool
  lookbehind : Lookbehind
  limit : Option Nat
  emitted : Nat
  finished : Bool
  deriving DecidableEq, Repr, Inhabited

namespace ByteLexer

def start (source : String) (limit : Option Nat) : ByteLexer :=
  ⟨source, 0, false, Lookbehind.start, limit, 0, false⟩

/-- The bytes from an offset on. -/
def cursorAt (lx : ByteLexer) (offset : Nat) : ByteCursor :=
  ⟨offset, (utf8 lx.source.toList).drop offset, lx.crossed⟩

/-- The token found between two offsets. -/
def tokenOf? (lx : ByteLexer) (start : Nat) (afterBreak : Bool) (r : ByteReading) : Option Token := do
  let lexeme ← Span.text? ⟨start, r.stop.offset⟩ lx.source.toList
  return ⟨r.kind, String.ofList lexeme, ⟨start, r.stop.offset⟩,
    { r.flags with afterBreak := afterBreak }⟩

/-- The lexer behind a token. -/
def moved (lx : ByteLexer) (t : Token) (stop : ByteCursor) : ByteLexer :=
  if t.isComment then
    { lx with
      offset := stop.offset
      crossed := t.flags.afterBreak || stop.crossed
      emitted := lx.emitted + 1 }
  else
    { lx with
      offset := stop.offset
      crossed := false
      lookbehind := lx.lookbehind.push t
      emitted := lx.emitted + 1 }

/-- The next token or error, and the lexer from which to go on; nothing where it is stuck. -/
def scan? (lx : ByteLexer) : Option (Except LexError Token × ByteLexer) := do
  let (met, start) ← skipGapBytes lx.source.toList false lx.offset (lx.source.toList.length + 1)
  let afterBreak := met || lx.crossed
  let here := lx.cursorAt start
  match here.rest with
  | [] =>
    let t ← lx.tokenOf? start afterBreak ⟨.endOfInput, .none, here⟩
    return (.ok t, { lx with offset := start, crossed := false })
  | first :: more =>
    match lx.limit.filter (· ≤ lx.emitted) with
    | some limit =>
      return (.error ⟨start, .tokenLimitExceeded limit⟩, { lx with offset := start })
    | none =>
      match readTokenBytes lx.source.toList lx.lookbehind.afterOperand here first more with
      | .error .stuck => none
      | .error (.halt e stop) =>
        return (.error e, { lx with offset := stop.offset, crossed := stop.crossed })
      | .ok r =>
        let t ← lx.tokenOf? start afterBreak r
        return (.ok t, lx.moved t r.stop)

/-- The next token or error; once the lexer is finished, none. -/
def next? (lx : ByteLexer) : Option (Option (Except LexError Token) × ByteLexer) :=
  if lx.finished then some (none, lx)
  else do
    let (answer, behind) ← lx.scan?
    let ended := match answer with
      | .ok t => t.isEnd
      | .error _ => true
    return (some answer, { behind with finished := ended })

/-- The lexer from its beginning. -/
def reset (lx : ByteLexer) : ByteLexer := start lx.source lx.limit

end ByteLexer

/-! ## Tokens -/

/-- Of a mark and a text, the bytes of the one begin those of the other when the mark begins the text. -/
theorem isPrefixOf_utf8 {mark : List Char} (ascii : ∀ x ∈ mark, x.toNat < 128) (cs : List Char) :
    (utf8 mark).isPrefixOf (utf8 cs) = mark.isPrefixOf cs := by
  induction mark generalizing cs with
  | nil => rfl
  | cons y mark ih =>
    rw [List.forall_mem_cons] at ascii
    rw [utf8_ascii ascii.1]
    cases cs with
    | nil => rfl
    | cons x rest =>
      obtain ⟨b, others, encoded⟩ := encode_eq_cons x
      have first := beq_byte ascii.1 (encoded ▸ List.mem_cons_self : b ∈ String.utf8EncodeChar x)
      rw [utf8_cons, encoded, List.cons_append, List.isPrefixOf, List.isPrefixOf, BEq.comm, first,
        BEq.comm (a := y)]
      cases same : x == y with
      | false => rfl
      | true =>
        obtain rfl := eq_of_beq same
        rw [encode_ascii ascii.1] at encoded
        cases encoded
        exact ih ascii.2 rest

theorem marks_ascii : ∀ mark ∈ marks, ∀ x ∈ mark, x.toNat < 128 := by
  have all : marks.all (fun mark => mark.all (·.toNat < 128)) = true := by decide +kernel
  simpa only [List.all_eq_true, decide_eq_true_eq] using all

theorem markAt?_eq_ite (cs : List Char) : markAt? cs =
    if marks.find? (·.isPrefixOf cs) = some ['?', '.'] then
      if (cs[2]?).any isDigit then some ['?'] else some ['?', '.']
    else marks.find? (·.isPrefixOf cs) := by
  unfold markAt?
  split
  · next both => rw [if_pos both]
  · next other => rw [if_neg other]

theorem markBytes?_eq_ite (text : List UInt8) : markBytes? text =
    if marks.find? (fun mark => (utf8 mark).isPrefixOf text) = some ['?', '.'] then
      if (text[2]?).any isDigitByte then some ['?'] else some ['?', '.']
    else marks.find? (fun mark => (utf8 mark).isPrefixOf text) := by
  unfold markBytes?
  split
  · next both => rw [if_pos both]
  · next other => rw [if_neg other]

/-- The same mark is found. -/
theorem markBytes?_utf8 (cs : List Char) : markBytes? (utf8 cs) = markAt? cs := by
  have same : marks.find? (fun mark => (utf8 mark).isPrefixOf (utf8 cs)) =
      marks.find? (·.isPrefixOf cs) :=
    List.find?_congr fun mark mem => isPrefixOf_utf8 (marks_ascii mark mem) cs
  rw [markBytes?_eq_ite, markAt?_eq_ite, same]
  by_cases both : marks.find? (·.isPrefixOf cs) = some ['?', '.']
  · have begins : ['?', '.'].isPrefixOf cs = true := by simpa using List.find?_some both
    obtain ⟨more, rfl⟩ := List.isPrefixOf_iff_prefix.mp begins
    have third := ByteClass.digit.head?_any more
    rw [List.head?_eq_getElem?, List.head?_eq_getElem?] at third
    rw [if_pos both, if_pos both]
    show (if (utf8 more)[0]?.any isDigitByte then _ else _) = if more[0]?.any isDigit then _ else _
    rw [third]
  · rw [if_neg both, if_neg both]

/-- A question about the first byte of a text and one about the bytes behind it. -/
theorem beq_byte_and {x y : Char} {rest : List Char} {b : UInt8} {others : List UInt8}
    {p : List Char → Bool} {q : List UInt8 → Bool} (encoded : String.utf8EncodeChar x = b :: others)
    (ascii : y.toNat < 128) (same : q (utf8 rest) = p rest) :
    (b == byte y && q (others ++ utf8 rest)) = (x == y && p rest) := by
  rw [beq_byte ascii (encoded ▸ List.mem_cons_self)]
  cases first : x == y with
  | false => rfl
  | true =>
    obtain rfl := eq_of_beq first
    rw [encode_ascii ascii] at encoded
    cases encoded
    exact congrArg (true && ·) same

/-- Two given characters of ASCII stand where their bytes do. -/
theorem beq_byte_next {x y z : Char} {b : UInt8} {others : List UInt8}
    (encoded : String.utf8EncodeChar x = b :: others) (ascii : y.toNat < 128) (ascii' : z.toNat < 128)
    (rest : List Char) : (b == byte y && (others ++ utf8 rest).head? == some (byte z)) =
      (x == y && rest.head? == some z) :=
  beq_byte_and (p := fun cs => cs.head? == some z) (q := fun bs => bs.head? == some (byte z)) encoded
    ascii (head?_utf8 ascii' rest)

section
variable {source : String} {c : Cursor} {x : Char} {rest : List Char}

theorem skipMark_bytes {mark more : List Char} (left : c.rest = mark ++ more) :
    c.bytes.advance (utf8 mark).length = (c.skipMark mark).bytes := by
  have crossed : (c.skipMark mark).crossed = c.crossed := by
    clear left
    induction mark generalizing c with
    | nil => rfl
    | cons y mark ih => exact ih.trans c.next_crossed
  have fits : byteSize mark ≤ byteSize c.rest := by
    rw [left, byteSize_append]
    exact Nat.le_add_right _ _
  rw [← (skipMark_spells left).bytes crossed, ByteCursor.advance, length_utf8, Cursor.bytes, length_utf8,
    Nat.min_eq_left fits]

/-- A reading in bytes. -/
def Reading.bytes (r : Reading) : ByteReading := ⟨r.kind, r.flags, r.stop.bytes⟩

/-- Between two characters of the source a token is read over bytes as it is over characters. -/
theorem readToken_bytes (here : (Cursor.start source).Reaches c) (left : c.rest = x :: rest)
    {b : UInt8} {others : List UInt8} (encoded : String.utf8EncodeChar x = b :: others)
    (afterOperand : Bool) :
    readTokenBytes source.toList afterOperand c.bytes b (others ++ utf8 rest) =
      inBytes Reading.bytes (readToken afterOperand c x rest) := by
  have first : b ∈ String.utf8EncodeChar x := encoded ▸ List.mem_cons_self
  have beq {y : Char} (ascii : y.toNat < 128) : (b == byte y) = (x == y) := beq_byte ascii first
  have script : (b == byte '#' && c.bytes.offset == 0 &&
      (others ++ utf8 rest).head? == some (byte '!')) =
      (x == '#' && c.offset == 0 && rest.head? == some '!') := by
    rw [Bool.and_right_comm, beq_byte_next encoded (by decide) (by decide), Bool.and_right_comm]
    rfl
  have line := beq_byte_next encoded (by decide : '/'.toNat < 128) (by decide : '/'.toNat < 128) rest
  have block := beq_byte_next encoded (by decide : '/'.toNat < 128) (by decide : '*'.toNat < 128) rest
  have point := beq_byte_and (p := fun cs => cs.head?.any isDigit)
    (q := fun bs => bs.head?.any isDigitByte) encoded (by decide : '.'.toNat < 128)
    (ByteClass.digit.head?_any rest)
  unfold readTokenBytes readToken
  simp only [script, line, block, point]
  simp only [beq (y := '/') (by decide), beq (y := '\'') (by decide),
    beq (y := '"') (by decide), beq (y := '\x60') (by decide), ByteClass.digit x b first,
    ByteClass.startsName x b first]
  split
  · rw [Cursor.skipLine_bytes]
    rfl
  split
  · rw [Cursor.skipLine_bytes]
    rfl
  split
  · next opens =>
    simp only [Bool.and_eq_true, beq_iff_eq] at opens
    obtain ⟨rfl, second⟩ := opens
    obtain ⟨more, rfl⟩ := List.head?_eq_some_iff.mp second
    rw [blockComment_bytes left]
    cases blockComment c <;> rfl
  split
  · next opens =>
    simp only [Bool.and_eq_true, beq_iff_eq] at opens
    obtain ⟨rfl, _⟩ := opens
    rw [regexLiteral_bytes left]
    cases regexLiteral c <;> rfl
  split
  · next quotes =>
    have quotes : x = '\'' ∨ x = '"' := by simpa using quotes
    have low : x.toNat < 128 := by rcases quotes with rfl | rfl <;> decide
    rw [encode_ascii low] at encoded
    cases encoded
    rw [stringLiteral_bytes quotes left]
    cases stringLiteral x c <;> rfl
  split
  · next opens =>
    obtain rfl := eq_of_beq opens
    rw [templateLiteral_bytes left]
    cases templateLiteral c <;> rfl
  split
  · rw [Cursor.skipNumber_bytes]
    rfl
  split
  · obtain ⟨word, _, _, spells⟩ := c.skipWhile_spells continuesName
    rw [Cursor.skipWhile_bytes .word, spells.textTo]
    show (cutOut (Span.text? ⟨c.offset, (c.skipWhile continuesName).offset⟩ source.toList) >>= _) = _
    rw [spells.text? here]
    rfl
  · show (cutOut (dropBytes? c.offset source.toList) >>= _) = _
    rw [here.dropBytes?, left, show c.bytes.rest = utf8 (x :: rest) from congrArg utf8 left,
      markBytes?_utf8]
    cases found : markAt? (x :: rest) with
    | none => rfl
    | some mark =>
      obtain ⟨more, text⟩ := (markAt?_some found).2
      exact congrArg (fun stop => Except.ok (ByteReading.mk (markKind mark) .none stop))
        (skipMark_bytes (left.trans text.symm))

end

/-! ## Gaps -/

/-- The gap before a token is skipped up to the same place. -/
theorem skipGapBytes_eq {source : String} {crossed : Bool} {offset : Nat} {cs : List Char}
    {budget : Nat} (pending met : Bool) (here : (Cursor.start source).Reaches ⟨offset, cs, crossed⟩)
    (room : cs.length < budget) : skipGapBytes source.toList met offset budget =
      some ((gapFrom pending met offset cs).1, (gapFrom pending met offset cs).2.offset) := by
  induction cs generalizing met offset budget with
  | nil =>
    obtain ⟨budget, rfl⟩ := Nat.exists_eq_add_of_lt room
    rw [skipGapBytes, here.dropBytes?]
    rfl
  | cons x rest ih =>
    obtain ⟨budget, rfl⟩ := Nat.exists_eq_add_of_lt room
    have next : (Cursor.start source).Reaches ⟨offset + x.utf8Size, rest, crossed⟩ :=
      here.trans (.next _)
    have room : rest.length < (x :: rest).length + budget := by
      rw [List.length_cons]
      omega
    rw [skipGapBytes, here.dropBytes?, gapFrom]
    dsimp only
    split
    · exact ih _ next room
    split
    · exact ih _ next room
    · rfl

/-! ## The lexer -/

/-- The lexer of a source, as one that keeps its place in bytes. -/
def Lexer.inBytes (lx : Lexer) (source : String) (finished : Bool) : ByteLexer :=
  ⟨source, lx.cursor.offset, lx.cursor.crossed, lx.lookbehind, lx.limit, lx.emitted, finished⟩

section
variable {source : String} {finished : Bool} {lx : Lexer} {c : Cursor}

/-- A token is cut from the source. -/
theorem tokenOf?_inBytes (lx : Lexer) (finished afterBreak : Bool) {r : Reading}
    (here : (Cursor.start source).Reaches c) (further : c.Reaches r.stop) :
    (lx.inBytes source finished).tokenOf? c.offset afterBreak r.bytes =
      some (Lexer.tokenOf c afterBreak r) := by
  obtain ⟨text, spells⟩ := further
  unfold ByteLexer.tokenOf? Lexer.tokenOf
  show (Span.text? ⟨c.offset, r.stop.offset⟩ source.toList >>= _) = _
  rw [spells.text? here, spells.textTo]
  rfl

theorem moved_inBytes {t : Token} {stop : Cursor} :
    (lx.inBytes source finished).moved t stop.bytes = (lx.moved t stop).inBytes source finished := by
  unfold ByteLexer.moved Lexer.moved
  split <;> rfl

/-- From a place between two characters of its source, the lexer over bytes gives what the one over
characters gives, and comes to the same place. It is not stuck. -/
theorem Lexer.scan_inBytes (here : (Cursor.start source).Reaches lx.cursor) :
    (lx.inBytes source finished).scan? = some (lx.scan.1, lx.scan.2.inBytes source finished) := by
  obtain ⟨gap, _, _, spells⟩ := lx.cursor.skipGap_spells
  have there : (Cursor.start source).Reaches lx.cursor.skipGap.2 := here.trans ⟨gap, spells⟩
  have room : lx.cursor.rest.length < source.toList.length + 1 := Nat.lt_succ_of_le here.left.1
  have skipped := skipGapBytes_eq lx.cursor.crossed false here room
  have place : (lx.inBytes source finished).cursorAt lx.cursor.skipGap.2.offset =
      lx.cursor.skipGap.2.bytes := by
    unfold ByteLexer.cursorAt Cursor.bytes
    rw [lx.cursor.skipGap_crossed]
    exact congrArg (ByteCursor.mk _ · _) there.drop_utf8
  unfold ByteLexer.scan?
  rw [show skipGapBytes (lx.inBytes source finished).source.toList false
    (lx.inBytes source finished).offset ((lx.inBytes source finished).source.toList.length + 1) =
    some (lx.cursor.skipGap.1, lx.cursor.skipGap.2.offset) from skipped]
  simp only [Option.bind_eq_bind, Option.bind_some, place]
  cases left : lx.cursor.skipGap.2.rest with
  | nil =>
    have bytes : lx.cursor.skipGap.2.bytes.rest = [] := congrArg utf8 left
    have stays : lx.cursor.skipGap.2.Reaches
        (⟨.endOfInput, .none, lx.cursor.skipGap.2⟩ : Reading).stop := .refl _
    have ends := tokenOf?_inBytes lx finished (lx.cursor.skipGap.1 || lx.cursor.crossed) there stays
    simp only [bytes, Lexer.scan, left]
    exact (congrArg (Option.bind · _) ends).trans rfl
  | cons first more =>
    obtain ⟨b, others, encoded⟩ := encode_eq_cons first
    have bytes : lx.cursor.skipGap.2.bytes.rest = b :: (others ++ utf8 more) := by
      rw [Cursor.bytes, left, utf8_cons, encoded, List.cons_append]
    have read : readTokenBytes (lx.inBytes source finished).source.toList
        (lx.inBytes source finished).lookbehind.afterOperand lx.cursor.skipGap.2.bytes b
        (others ++ utf8 more) = _ := readToken_bytes there left encoded lx.lookbehind.afterOperand
    have limit : (lx.inBytes source finished).limit.filter (· ≤ (lx.inBytes source finished).emitted) =
        lx.limit.filter (· ≤ lx.emitted) := rfl
    simp only [bytes, Lexer.scan, left, limit, read]
    cases lx.limit.filter (· ≤ lx.emitted) with
    | some full =>
      unfold inBytes
      dsimp only
      rw [lx.cursor.skipGap_crossed]
      rfl
    | none =>
      cases found : readToken lx.lookbehind.afterOperand lx.cursor.skipGap.2 first more with
      | error halt => rfl
      | ok r =>
        have cut := tokenOf?_inBytes lx finished (lx.cursor.skipGap.1 || lx.cursor.crossed) there
          (readToken_advances left found).1.reaches
        refine (congrArg (Option.bind · _) cut).trans ?_
        exact congrArg (fun behind => some (Except.ok _, behind)) moved_inBytes

end

end Scoping
