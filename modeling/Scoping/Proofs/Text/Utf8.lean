import Scoping.Proofs.Text.Cursor

/-!
# Texts in UTF-8

`utf8` is what a text is as bytes. A character of ASCII is one byte and every other character is two to
four bytes above ASCII (`encode_ascii`, `encode_high`). So a question about single bytes that tells those
above ASCII alike is one about characters: `ByteClass p q` says that the bytes of a character are in the
class `q` when the character is in `p`.

Nothing here decodes: what the bytes of no text mean is not said.
-/

namespace Scoping

/-- The bytes of a text in UTF-8. -/
def utf8 (cs : List Char) : List UInt8 := cs.flatMap String.utf8EncodeChar

/-- The byte of a character of ASCII. -/
def byte (c : Char) : UInt8 := UInt8.ofNat c.toNat

@[simp] theorem utf8_nil : utf8 [] = [] := rfl

@[simp] theorem utf8_cons (c : Char) (cs : List Char) :
    utf8 (c :: cs) = String.utf8EncodeChar c ++ utf8 cs := rfl

theorem utf8_append (cs ds : List Char) : utf8 (cs ++ ds) = utf8 cs ++ utf8 ds :=
  List.flatMap_append

/-- A text takes as many bytes as it is measured to. -/
@[simp] theorem length_utf8 (cs : List Char) : (utf8 cs).length = byteSize cs := by
  induction cs with
  | nil => rfl
  | cons c cs ih => rw [utf8_cons, List.length_append, String.length_utf8EncodeChar, ih, byteSize_cons]

theorem encode_ascii {c : Char} (ascii : c.toNat < 128) : String.utf8EncodeChar c = [byte c] := by
  have small : c.val.toNat ≤ 127 := Nat.le_of_lt_succ ascii
  simp only [String.utf8EncodeChar, small, ↓reduceIte]
  rfl

theorem utf8_ascii {c : Char} (ascii : c.toNat < 128) (cs : List Char) :
    utf8 (c :: cs) = byte c :: utf8 cs := by
  rw [utf8_cons, encode_ascii ascii, List.singleton_append]

theorem utf8Size_ascii {c : Char} (ascii : c.toNat < 128) : c.utf8Size = 1 := by
  rw [← String.length_utf8EncodeChar, encode_ascii ascii, List.length_singleton]

/-- What holds of each of the 128 characters of ASCII holds of them all. -/
theorem forall_ascii {P : Char → Prop} (each : ∀ n < 128, P (Char.ofNat n)) {c : Char}
    (ascii : c.toNat < 128) : P c := by
  have := each c.toNat ascii
  rwa [Char.ofNat_toNat] at this

/-- Above ASCII every byte of a character is. -/
theorem encode_high {c : Char} (high : 128 ≤ c.toNat) :
    ∃ b more, String.utf8EncodeChar c = b :: more ∧ ∀ x ∈ b :: more, 128 ≤ x.toNat := by
  have large : ¬ c.val.toNat ≤ 127 := Nat.not_le.mpr high
  simp only [String.utf8EncodeChar, large, ↓reduceIte]
  split
  · refine ⟨_, _, rfl, ?_⟩
    simp only [List.forall_mem_cons, UInt8.toNat_ofNat']
    exact ⟨by omega, by omega, nofun⟩
  split
  · refine ⟨_, _, rfl, ?_⟩
    simp only [List.forall_mem_cons, UInt8.toNat_ofNat']
    exact ⟨by omega, by omega, by omega, nofun⟩
  · refine ⟨_, _, rfl, ?_⟩
    simp only [List.forall_mem_cons, UInt8.toNat_ofNat']
    exact ⟨by omega, by omega, by omega, by omega, nofun⟩

/-- A text up to which another goes has its bytes left behind those of the other. -/
theorem Cursor.Reaches.drop_utf8 {source : String} {c : Cursor}
    (h : (Cursor.start source).Reaches c) : (utf8 source.toList).drop c.offset = utf8 c.rest := by
  obtain ⟨text, spells⟩ := h
  have split : source.toList = text ++ c.rest := spells.rest
  have place : c.offset = (utf8 text).length :=
    (spells.offset.trans (Nat.zero_add _)).trans (length_utf8 text).symm
  rw [split, utf8_append, place, List.drop_left]

/-! ## Classes of bytes -/

/-- The bytes of the characters of `p` are in `q`, and those of other characters are not. -/
def ByteClass (p : Char → Bool) (q : UInt8 → Bool) : Prop :=
  ∀ x, ∀ b ∈ String.utf8EncodeChar x, q b = p x

/-- LF or CR. -/
def isNewlineByte (b : UInt8) : Bool := b == byte '\n' || b == byte '\r'

/-- An ASCII digit. -/
def isDigitByte (b : UInt8) : Bool := byte '0' ≤ b && b ≤ byte '9'

/-- An ASCII letter. -/
def isLetterByte (b : UInt8) : Bool := (byte 'a' ≤ b && b ≤ byte 'z') || (byte 'A' ≤ b && b ≤ byte 'Z')

/-- An ASCII letter, `_` or `$`. -/
def startsNameByte (b : UInt8) : Bool := isLetterByte b || b == byte '_' || b == byte '$'

/-- An ASCII letter or digit, `_` or `$`. -/
def isWordByte (b : UInt8) : Bool := startsNameByte b || isDigitByte b

/-- An ASCII letter or digit, or `_`. -/
def isNumberByte (b : UInt8) : Bool := isLetterByte b || isDigitByte b || b == byte '_'

/-- An ASCII digit or `_`. -/
def isDigitsByte (b : UInt8) : Bool := isDigitByte b || b == byte '_'

/-- The letters that name a radix behind a zero: `x`, `o` and `b`, in either case. -/
def marksRadixByte (b : UInt8) : Bool :=
  b == byte 'x' || b == byte 'X' || b == byte 'o' || b == byte 'O' || b == byte 'b' || b == byte 'B'

theorem byte_toNat {y : Char} (ascii : y.toNat < 128) : (byte y).toNat = y.toNat := by
  rw [byte, UInt8.toNat_ofNat', Nat.mod_eq_of_lt (by omega)]

/-- A class of characters of ASCII and one of bytes of ASCII have the same members. -/
theorem ByteClass.of_ascii {p : Char → Bool} {q : UInt8 → Bool}
    (same : ∀ x, x.toNat < 128 → q (byte x) = p x)
    (chars : ∀ x, p x = true → x.toNat < 128) (bytes : ∀ b, q b = true → b.toNat < 128) :
    ByteClass p q := by
  intro x b mem
  rcases Nat.lt_or_ge x.toNat 128 with low | high
  · rw [encode_ascii low, List.mem_singleton] at mem
    rw [mem, same x low]
  · obtain ⟨c, more, encoded, all⟩ := encode_high high
    have above := all b (encoded ▸ mem)
    have notChar : p x = false := Bool.eq_false_iff.mpr fun holds => absurd (chars x holds) (by omega)
    have notByte : q b = false := Bool.eq_false_iff.mpr fun holds => absurd (bytes b holds) (by omega)
    rw [notByte, notChar]

theorem ByteClass.not {p : Char → Bool} {q : UInt8 → Bool} (h : ByteClass p q) :
    ByteClass (!p ·) (!q ·) :=
  fun x b mem => congrArg (!·) (h x b mem)

theorem ByteClass.or {p p' : Char → Bool} {q q' : UInt8 → Bool} (h : ByteClass p q)
    (h' : ByteClass p' q') : ByteClass (fun x => p x || p' x) (fun b => q b || q' b) := by
  intro x b mem
  show (q b || q' b) = (p x || p' x)
  rw [h x b mem, h' x b mem]

/-- One character of ASCII is a class of its own. -/
theorem ByteClass.single {y : Char} (ascii : y.toNat < 128) : ByteClass (· == y) (· == byte y) := by
  refine .of_ascii ?_ ?_ ?_
  · intro x low
    rw [Bool.eq_iff_iff, beq_iff_eq, beq_iff_eq, ← UInt8.toNat_inj, byte_toNat low, byte_toNat ascii,
      Char.toNat_inj]
  · intro x same
    rw [eq_of_beq same]
    exact ascii
  · intro b same
    rw [eq_of_beq same, byte_toNat ascii]
    exact ascii

/-- A byte of a character is the one of a character of ASCII when the two are the same. -/
theorem beq_byte {x y : Char} (ascii : y.toNat < 128) {b : UInt8} (mem : b ∈ String.utf8EncodeChar x) :
    (b == byte y) = (x == y) :=
  ByteClass.single ascii x b mem

theorem byte_beq {x y : Char} (low : x.toNat < 128) (ascii : y.toNat < 128) :
    (byte x == byte y) = (x == y) :=
  beq_byte ascii (encode_ascii low ▸ List.mem_cons_self)

theorem ascii_of_isDigit {x : Char} (digit : isDigit x = true) : x.toNat < 128 := by
  simp only [isDigit, Bool.and_eq_true, decide_eq_true_eq, Char.le_def, UInt32.le_iff_toNat_le] at digit
  exact Nat.lt_of_le_of_lt digit.2 (by decide)

theorem ByteClass.digit : ByteClass isDigit isDigitByte := by
  refine .of_ascii (fun x => @forall_ascii (fun x => isDigitByte (byte x) = isDigit x) (by decide) x)
    (fun _ => ascii_of_isDigit) ?_
  · intro b digit
    simp only [isDigitByte, Bool.and_eq_true, decide_eq_true_eq, UInt8.le_iff_toNat_le] at digit
    exact Nat.lt_of_le_of_lt digit.2 (by decide)

theorem ByteClass.letter : ByteClass isLetter isLetterByte := by
  refine .of_ascii (fun x => @forall_ascii (fun x => isLetterByte (byte x) = isLetter x) (by decide) x)
    ?_ ?_
  · intro x letter
    simp only [isLetter, Bool.or_eq_true, Bool.and_eq_true, decide_eq_true_eq, Char.le_def,
      UInt32.le_iff_toNat_le] at letter
    rcases letter with small | capital
    · exact Nat.lt_of_le_of_lt small.2 (by decide)
    · exact Nat.lt_of_le_of_lt capital.2 (by decide)
  · intro b letter
    simp only [isLetterByte, Bool.or_eq_true, Bool.and_eq_true, decide_eq_true_eq,
      UInt8.le_iff_toNat_le] at letter
    rcases letter with small | capital
    · exact Nat.lt_of_le_of_lt small.2 (by decide)
    · exact Nat.lt_of_le_of_lt capital.2 (by decide)

theorem ByteClass.newline : ByteClass isNewline isNewlineByte :=
  (single (by decide : '\n'.toNat < 128)).or (single (by decide : '\r'.toNat < 128))

theorem ascii_of_isNewline {x : Char} (newline : isNewline x = true) : x.toNat < 128 := by
  rcases Bool.or_eq_true _ _ ▸ newline with lf | cr
  · rw [eq_of_beq lf]; decide
  · rw [eq_of_beq cr]; decide

theorem isNewlineByte_byte {x : Char} (ascii : x.toNat < 128) : isNewlineByte (byte x) = isNewline x :=
  ByteClass.newline x _ (encode_ascii ascii ▸ List.mem_cons_self)

theorem ByteClass.startsName : ByteClass Scoping.startsName startsNameByte :=
  (letter.or (single (by decide : '_'.toNat < 128))).or (single (by decide : '$'.toNat < 128))

theorem ByteClass.word : ByteClass continuesName isWordByte := startsName.or digit

theorem ByteClass.number : ByteClass continuesNumber isNumberByte :=
  (letter.or digit).or (single (by decide : '_'.toNat < 128))

theorem ByteClass.digits : ByteClass continuesDigits isDigitsByte :=
  digit.or (single (by decide : '_'.toNat < 128))

/-- Every character has a first byte. -/
theorem encode_eq_cons (x : Char) : ∃ b more, String.utf8EncodeChar x = b :: more := by
  apply List.exists_cons_of_ne_nil
  apply List.ne_nil_of_length_pos
  rw [String.length_utf8EncodeChar]
  exact x.utf8Size_pos

section
variable {p : Char → Bool} {q : UInt8 → Bool} (same : ByteClass p q)
include same

/-- The first byte of a text is in the class when its first character is. -/
theorem ByteClass.head?_any (cs : List Char) : (utf8 cs).head?.any q = cs.head?.any p := by
  cases cs with
  | nil => rfl
  | cons x rest =>
    obtain ⟨b, more, encoded⟩ := encode_eq_cons x
    rw [utf8_cons, encoded, List.cons_append, List.head?_cons, List.head?_cons, Option.any_some,
      Option.any_some, same x b (encoded ▸ List.mem_cons_self)]

/-- A character with a byte in the class is in it. -/
theorem ByteClass.any_encode (x : Char) : (String.utf8EncodeChar x).any q = p x := by
  obtain ⟨b, more, encoded⟩ := encode_eq_cons x
  have first := same x b (encoded ▸ List.mem_cons_self)
  cases holds : p x with
  | true => rw [encoded, List.any_cons, first, holds, Bool.true_or]
  | false =>
    rw [List.any_eq_false]
    exact fun b mem => by rw [same x b mem, holds]; exact Bool.false_ne_true

/-- A run of the class is the same bytes as it is characters. -/
theorem ByteClass.takeWhile (cs : List Char) :
    (utf8 cs).takeWhile q = utf8 (cs.takeWhile p) := by
  induction cs with
  | nil => rfl
  | cons x rest ih =>
    rw [utf8_cons, List.takeWhile_cons]
    split
    · next holds =>
      rw [List.takeWhile_append_of_pos fun b mem => (same x b mem).trans holds, ih, utf8_cons]
    · next fails =>
      obtain ⟨b, more, encoded⟩ := encode_eq_cons x
      have out : q b ≠ true := by
        rw [same x b (encoded ▸ List.mem_cons_self)]
        exact fails
      rw [encoded, List.cons_append, List.takeWhile_cons_of_neg out, utf8_nil]

end

end Scoping
