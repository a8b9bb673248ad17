import Scoping.Proofs.Token.ByteReader
import Scoping.Proofs.Token.Halt

/-!
# Templates read byte by byte

A template and its substitutions are read over bytes as they are over characters: a backslash passes one
byte, a string, a comment and a template inside a substitution are passed by their own readers, and
everything else is passed one byte at a time. Both readers come to the same end, at whatever depth the
reading is given up (`templateLiteral_bytes`).

The two readers call each other and count their steps. The count is not part of what they find: any
number above that of the bytes left is enough, and with fewer the reader is `stuck`, which it never is
here.
-/

namespace Scoping

mutual
/-- Reads the rest of a template that opened at `opened`, and says whether it has a substitution; one
may have been `found` before. A backslash takes one byte with it. -/
def templateBytes (budget : Nat) (opened : Nat) (found : Bool) (b : ByteCursor) :
    ByteReader (Bool × ByteCursor) :=
  match budget with
  | 0 => .error .stuck
  | budget + 1 =>
    match b.rest with
    | [] => unterminatedBytes opened .unterminatedTemplate b
    | x :: rest =>
      if x == byte '\\' then templateBytes budget opened found (b.advance 2)
      else if x == byte '\x60' then .ok (found, b.advance 1)
      else if x == byte '$' && rest.head? == some (byte '\x7b') then do
        let behind ← substitutionBytes budget opened 1 (b.advance 2)
        templateBytes budget opened true behind
      else templateBytes budget opened found (b.advance 1)
/-- Reads the rest of a substitution of the template that opened at `opened`, up to the brace that
closes the outermost of `depth` open ones. -/
def substitutionBytes (budget : Nat) (opened : Nat) (depth : Nat) (b : ByteCursor) :
    ByteReader ByteCursor :=
  match budget with
  | 0 => .error .stuck
  | budget + 1 =>
    match b.rest with
    | [] => unterminatedBytes opened .unterminatedTemplate b
    | x :: rest =>
      if x == byte '\x7b' then substitutionBytes budget opened (depth + 1) (b.advance 1)
      else if x == byte '\x7d' then
        if depth ≤ 1 then .ok (b.advance 1)
        else substitutionBytes budget opened (depth - 1) (b.advance 1)
      else if x == byte '\'' || x == byte '"' then do
        let behind ← stringLiteralBytes x b
        substitutionBytes budget opened depth behind
      else if x == byte '\x60' then do
        let (_, behind) ← templateBytes budget b.offset false (b.advance 1)
        substitutionBytes budget opened depth behind
      else if x == byte '/' && rest.head? == some (byte '/') then
        substitutionBytes budget opened depth b.skipLine
      else if x == byte '/' && rest.head? == some (byte '*') then do
        let behind ← blockCommentBytes b
        substitutionBytes budget opened depth behind
      else substitutionBytes budget opened depth (b.advance 1)
end

/-- Reads a template, the cursor standing on its opening mark, and says whether it has a
substitution. -/
def templateLiteralBytes (b : ByteCursor) : ByteReader (Bool × ByteCursor) :=
  let inside := b.advance 1
  templateBytes (inside.rest.length + 1) b.offset false inside

/-! ## Passing characters -/

/-- A character that a reader of templates stops at. -/
def stopsTemplate (x : Char) : Bool := x == '\\' || x == '\x60' || x == '$'

/-- A byte that one over bytes stops at. -/
def stopsTemplateByte (b : UInt8) : Bool := b == byte '\\' || b == byte '\x60' || b == byte '$'

/-- A character that a reader of substitutions stops at. -/
def stopsSubstitution (x : Char) : Bool :=
  x == '\x7b' || x == '\x7d' || x == '\'' || x == '"' || x == '\x60' || x == '/'

/-- A byte that one over bytes stops at. -/
def stopsSubstitutionByte (b : UInt8) : Bool :=
  b == byte '\x7b' || b == byte '\x7d' || b == byte '\'' || b == byte '"' || b == byte '\x60' || b == byte '/'

theorem ByteClass.stopsTemplate : ByteClass Scoping.stopsTemplate stopsTemplateByte :=
  ((single (by decide : '\\'.toNat < 128)).or (single (by decide : '\x60'.toNat < 128))).or
    (single (by decide : '$'.toNat < 128))

theorem ByteClass.stopsSubstitution : ByteClass Scoping.stopsSubstitution stopsSubstitutionByte :=
  (((((single (by decide : '\x7b'.toNat < 128)).or (single (by decide : '\x7d'.toNat < 128))).or
    (single (by decide : '\''.toNat < 128))).or (single (by decide : '"'.toNat < 128))).or
    (single (by decide : '\x60'.toNat < 128))).or (single (by decide : '/'.toNat < 128))

theorem ascii_of_stopsTemplate {x : Char} (stops : stopsTemplate x = true) : x.toNat < 128 := by
  simp only [stopsTemplate, Bool.or_eq_true, beq_iff_eq] at stops
  rcases stops with (rfl | rfl) | rfl <;> decide

theorem stopsTemplate_high {x : Char} (high : 128 ≤ x.toNat) : stopsTemplate x = false :=
  Bool.eq_false_iff.mpr fun stops => absurd (ascii_of_stopsTemplate stops) (by omega)

theorem stopsSubstitution_high {x : Char} (high : 128 ≤ x.toNat) : stopsSubstitution x = false := by
  refine Bool.eq_false_iff.mpr fun stops => ?_
  simp only [stopsSubstitution, Bool.or_eq_true, beq_iff_eq] at stops
  rcases stops with ((((rfl | rfl) | rfl) | rfl) | rfl) | rfl
  all_goals exact absurd high (by decide)

section
variable {opened spare : Nat} {found crossed : Bool} {depth : Nat}

theorem templateBytes_pass (n : Nat) (b : UInt8) (rest : List UInt8)
    (plain : stopsTemplateByte b = false) :
    templateBytes ((b :: rest).length + spare) opened found ⟨n, b :: rest, crossed⟩ =
      templateBytes (rest.length + spare) opened found ⟨n + 1, rest, crossed⟩ := by
  simp only [stopsTemplateByte, Bool.or_eq_false_iff] at plain
  obtain ⟨⟨notEscape, notClose⟩, notOpen⟩ := plain
  rw [List.length_cons, Nat.add_right_comm, templateBytes]
  simp only [notEscape, notClose, notOpen, Bool.false_and, Bool.false_eq_true, if_false,
    ByteCursor.advance_one]

/-- What is left of a character behind its first byte is passed. -/
theorem templateBytes_behind {n : Nat} {z : Char} {b : UInt8} {others : List UInt8} {more : List Char}
    (encoded : String.utf8EncodeChar z = b :: others) :
    templateBytes ((others ++ utf8 more).length + spare) opened found
        ⟨n + 1, others ++ utf8 more, crossed⟩ =
      templateBytes ((utf8 more).length + spare) opened found ⟨n + z.utf8Size, utf8 more, crossed⟩ :=
  passes_behind .stopsTemplate
    (f := fun n bs => templateBytes (bs.length + spare) opened found ⟨n, bs, crossed⟩)
    templateBytes_pass encoded ascii_of_stopsTemplate n (utf8 more)

/-- A character of no meaning is passed. -/
theorem templateBytes_char (spare n : Nat) {x : Char} (rest : List Char) (plain : stopsTemplate x = false) :
    templateBytes (byteSize (x :: rest) + spare) opened found ⟨n, utf8 (x :: rest), crossed⟩ =
      templateBytes (byteSize rest + spare) opened found ⟨n + x.utf8Size, utf8 rest, crossed⟩ := by
  have pass := passes_char .stopsTemplate
    (f := fun n bs => templateBytes (bs.length + spare) opened found ⟨n, bs, crossed⟩)
    templateBytes_pass plain n (utf8 rest)
  rwa [← utf8_cons, length_utf8, length_utf8] at pass

/-- Behind a backslash the reader may be inside a character, and passes what is left of it. -/
theorem templateBytes_escaped {n : Nat} {z : Char} {more : List Char} :
    templateBytes (byteSize ('\\' :: z :: more) + spare) opened found
        ((ByteCursor.mk n (byte '\\' :: utf8 (z :: more)) crossed).advance 2) =
      templateBytes (byteSize more + (spare + 2)) opened found
        ⟨n + 1 + z.utf8Size, utf8 more, crossed⟩ := by
  obtain ⟨b, others, encoded⟩ := encode_eq_cons z
  have text : utf8 (z :: more) = b :: (others ++ utf8 more) := by
    rw [utf8_cons, encoded, List.cons_append]
  have size := length_utf8 (z :: more)
  rw [text, List.length_cons] at size
  have budgets : byteSize ('\\' :: z :: more) + spare = (others ++ utf8 more).length + (spare + 2) := by
    rw [byteSize_cons, ← size, utf8Size_ascii (by decide)]
    omega
  rw [text, ByteCursor.advance_two, budgets, ← length_utf8 more]
  exact templateBytes_behind encoded

theorem substitutionBytes_pass (n : Nat) (b : UInt8) (rest : List UInt8)
    (plain : stopsSubstitutionByte b = false) :
    substitutionBytes ((b :: rest).length + spare) opened depth ⟨n, b :: rest, crossed⟩ =
      substitutionBytes (rest.length + spare) opened depth ⟨n + 1, rest, crossed⟩ := by
  simp only [stopsSubstitutionByte, Bool.or_eq_false_iff] at plain
  obtain ⟨⟨⟨⟨⟨notOpen, notClose⟩, notSingle⟩, notDouble⟩, notTemplate⟩, notSlash⟩ := plain
  rw [List.length_cons, Nat.add_right_comm, substitutionBytes]
  simp only [notOpen, notClose, notSingle, notDouble, notTemplate, notSlash, Bool.or_false,
    Bool.false_and, Bool.false_eq_true, if_false, ByteCursor.advance_one]

theorem substitutionBytes_char (spare n : Nat) {x : Char} (rest : List Char)
    (plain : stopsSubstitution x = false) :
    substitutionBytes (byteSize (x :: rest) + spare) opened depth ⟨n, utf8 (x :: rest), crossed⟩ =
      substitutionBytes (byteSize rest + spare) opened depth ⟨n + x.utf8Size, utf8 rest, crossed⟩ := by
  have pass := passes_char .stopsSubstitution
    (f := fun n bs => substitutionBytes (bs.length + spare) opened depth ⟨n, bs, crossed⟩)
    substitutionBytes_pass plain n (utf8 rest)
  rwa [← utf8_cons, length_utf8, length_utf8] at pass

end

section
variable {x y : Char} {budget rest : List Char} {opened depth offset : Nat} {found crossed : Bool}

theorem templateTail_char (plain : stopsTemplate x = false) :
    templateTail (y :: budget) opened found ⟨offset, x :: rest, crossed⟩ =
      templateTail budget opened found ⟨offset + x.utf8Size, rest, crossed⟩ := by
  simp only [stopsTemplate, Bool.or_eq_false_iff] at plain
  obtain ⟨⟨notEscape, notClose⟩, notOpen⟩ := plain
  rw [templateTail]
  simp only [notEscape, notClose, notOpen, Bool.false_and, Bool.false_eq_true, if_false, Cursor.next]

theorem substitutionTail_char (plain : stopsSubstitution x = false) :
    substitutionTail (y :: budget) opened depth ⟨offset, x :: rest, crossed⟩ =
      substitutionTail budget opened depth ⟨offset + x.utf8Size, rest, crossed⟩ := by
  simp only [stopsSubstitution, Bool.or_eq_false_iff] at plain
  obtain ⟨⟨⟨⟨⟨notOpen, notClose⟩, notSingle⟩, notDouble⟩, notTemplate⟩, notSlash⟩ := plain
  rw [substitutionTail]
  simp only [notOpen, notClose, notSingle, notDouble, notTemplate, notSlash, Bool.or_false,
    Bool.false_and, Bool.false_eq_true, if_false, Cursor.next]

end

/-! ## The same end -/

/-- With the given budget, a template is read over bytes as it is over characters. -/
def TextInBytes (budget : List Char) : Prop :=
  ∀ (n opened : Nat) (found : Bool) (c : Cursor), c.rest.length < budget.length →
    byteSize c.rest < n → templateBytes n opened found c.bytes =
      inBytes (fun r => (r.1, r.2.bytes)) (templateTail budget opened found c)

/-- The same of a substitution. -/
def CodeInBytes (budget : List Char) : Prop :=
  ∀ (n opened depth : Nat) (c : Cursor), c.rest.length < budget.length → byteSize c.rest < n →
    substitutionBytes n opened depth c.bytes =
      inBytes Cursor.bytes (substitutionTail budget opened depth c)

/-- A cursor further on has less left. -/
theorem Cursor.Reaches.left {c d : Cursor} (h : c.Reaches d) :
    d.rest.length ≤ c.rest.length ∧ byteSize d.rest ≤ byteSize c.rest := by
  obtain ⟨text, spells⟩ := h
  rw [spells.rest, List.length_append, byteSize_append]
  exact ⟨Nat.le_add_left _ _, Nat.le_add_left _ _⟩

section
variable {y : Char} {budget : List Char} (textInBytes : TextInBytes budget)
  (codeInBytes : CodeInBytes budget)
include textInBytes codeInBytes

theorem textInBytes_cons : TextInBytes (y :: budget) := by
  intro n opened found c fits room
  obtain ⟨offset, text, crossed⟩ := c
  obtain ⟨spare, rfl⟩ := Nat.exists_eq_add_of_lt room
  cases text with
  | nil =>
    rw [templateTail, templateBytes]
    rfl
  | cons x rest =>
    have fewer : rest.length < budget.length := Nat.lt_of_succ_lt_succ fits
    have enough : byteSize rest < byteSize (x :: rest) + spare := by
      have := x.utf8Size_pos
      rw [byteSize_cons]
      omega
    have next := textInBytes _ opened found ⟨offset + x.utf8Size, rest, crossed⟩ fewer enough
    rcases Nat.lt_or_ge x.toNat 128 with low | high
    · rw [templateTail, templateBytes, (Cursor.bytes_cons low).1]
      simp only [byte_beq low (y := '\\') (by decide), byte_beq low (y := '\x60') (by decide),
        byte_beq low (y := '$') (by decide), head?_utf8 (y := '\x7b') (by decide) rest,
        (Cursor.bytes_cons low).2]
      split
      · next escape =>
        obtain rfl := eq_of_beq escape
        cases rest with
        | nil => exact next
        | cons z more =>
          exact templateBytes_escaped.trans (textInBytes _ opened found
            ⟨offset + 1 + z.utf8Size, more, crossed⟩ (Nat.lt_of_succ_lt fewer)
            (Nat.lt_add_of_pos_right (Nat.succ_pos _)))
      split
      · rfl
      split
      · next opens =>
        simp only [Bool.and_eq_true, beq_iff_eq] at opens
        obtain ⟨rfl, opens⟩ := opens
        obtain ⟨more, rfl⟩ := List.head?_eq_some_iff.mp opens
        have inside := Cursor.bytes_advance_two (c := ⟨offset, '$' :: '\x7b' :: more, crossed⟩) rfl
          (by decide) (by decide)
        rw [(Cursor.bytes_cons low).1] at inside
        have fewer : more.length < budget.length := Nat.lt_of_succ_lt fewer
        have enough : byteSize more < byteSize ('$' :: '\x7b' :: more) + spare :=
          Nat.lt_of_le_of_lt (Nat.le_add_left _ _) enough
        rw [inside, codeInBytes _ opened 1 _ fewer enough]
        cases code : substitutionTail budget opened 1
            (Cursor.next (Cursor.next ⟨offset, '$' :: '\x7b' :: more, crossed⟩)) with
        | error halt => rfl
        | ok behind =>
          obtain ⟨body, _, spells⟩ := (passes budget).2 _ 0 _ _ code
          have less := Cursor.Reaches.left ⟨body, spells⟩
          exact textInBytes _ opened true behind (Nat.lt_of_le_of_lt less.1 fewer)
            (Nat.lt_of_le_of_lt less.2 enough)
      · exact next
    · have plain := stopsTemplate_high high
      rw [templateTail_char plain]
      exact (templateBytes_char (spare + 1) offset rest plain).trans (textInBytes _ opened found
        ⟨offset + x.utf8Size, rest, crossed⟩ fewer (Nat.lt_add_of_pos_right (Nat.succ_pos _)))

theorem codeInBytes_cons : CodeInBytes (y :: budget) := by
  intro n opened depth c fits room
  obtain ⟨offset, text, crossed⟩ := c
  obtain ⟨spare, rfl⟩ := Nat.exists_eq_add_of_lt room
  cases text with
  | nil =>
    rw [substitutionTail, substitutionBytes]
    rfl
  | cons x rest =>
    have fewer : rest.length < budget.length := Nat.lt_of_succ_lt_succ fits
    have enough : byteSize rest < byteSize (x :: rest) + spare := by
      have := x.utf8Size_pos
      rw [byteSize_cons]
      omega
    have next (depth : Nat) :=
      codeInBytes _ opened depth ⟨offset + x.utf8Size, rest, crossed⟩ fewer enough
    -- Whatever is read here, the substitution goes on behind it.
    have goesOn {behind : Cursor} (further : Cursor.Reaches ⟨offset + x.utf8Size, rest, crossed⟩ behind) :
        substitutionBytes (byteSize (x :: rest) + spare) opened depth behind.bytes =
          inBytes Cursor.bytes (substitutionTail budget opened depth behind) :=
      codeInBytes _ opened depth behind (Nat.lt_of_le_of_lt further.left.1 fewer)
        (Nat.lt_of_le_of_lt further.left.2 enough)
    rcases Nat.lt_or_ge x.toNat 128 with low | high
    · have here : Cursor.bytes ⟨offset, x :: rest, crossed⟩ = ⟨offset, byte x :: utf8 rest, crossed⟩ :=
        (Cursor.bytes_cons low).1
      rw [substitutionTail, substitutionBytes, here]
      simp only [byte_beq low (y := '\x7b') (by decide), byte_beq low (y := '\x7d') (by decide),
        byte_beq low (y := '\'') (by decide), byte_beq low (y := '"') (by decide),
        byte_beq low (y := '\x60') (by decide), byte_beq low (y := '/') (by decide),
        head?_utf8 (y := '/') (by decide) rest, head?_utf8 (y := '*') (by decide) rest,
        (Cursor.bytes_cons low).2]
      split
      · exact next _
      split
      · split
        · rfl
        · exact next _
      split
      · next quotes =>
        have quotes : x = '\'' ∨ x = '"' := by simpa using quotes
        rw [← here, stringLiteral_bytes quotes rfl]
        cases string : stringLiteral x ⟨offset, x :: rest, crossed⟩ with
        | error halt => rfl
        | ok behind =>
          obtain ⟨body, _, spells⟩ := stringTail_ok string
          exact goesOn ⟨body, spells⟩
      split
      · rw [textInBytes _ offset false _ fewer enough]
        rw [show templateTail budget offset false (Cursor.next ⟨offset, x :: rest, crossed⟩) =
          templateTail budget offset false ⟨offset + x.utf8Size, rest, crossed⟩ from rfl]
        cases inner : templateTail budget offset false ⟨offset + x.utf8Size, rest, crossed⟩ with
        | error halt => rfl
        | ok read =>
          obtain ⟨_, body, _, _, spells⟩ := (passes budget).1 _ _ _ _ inner
          exact goesOn ⟨body, spells⟩
      split
      · next slashes =>
        simp only [Bool.and_eq_true, beq_iff_eq] at slashes
        obtain ⟨rfl, second⟩ := slashes
        obtain ⟨more, rfl⟩ := List.head?_eq_some_iff.mp second
        obtain ⟨body, spells, _⟩ := skipLine_spells
          (c := ⟨offset, '/' :: '/' :: more, crossed⟩) rfl ⟨rfl, rfl⟩
        rw [← here, Cursor.skipLine_bytes]
        refine goesOn ⟨'/' :: body, List.tail_eq_of_cons_eq spells.rest, spells.offset.trans ?_⟩
        rw [byteSize_cons, Nat.add_assoc]
      split
      · next opens =>
        simp only [Bool.and_eq_true, beq_iff_eq] at opens
        obtain ⟨rfl, second⟩ := opens
        obtain ⟨more, rfl⟩ := List.head?_eq_some_iff.mp second
        rw [← here, blockComment_bytes rfl]
        cases comment : blockComment ⟨offset, '/' :: '*' :: more, crossed⟩ with
        | error halt => rfl
        | ok behind =>
          obtain ⟨body, _, spells⟩ := blockComment_ok comment
          exact goesOn ((Cursor.Reaches.next _).trans ⟨body, spells⟩)
      · exact next _
    · have plain := stopsSubstitution_high high
      rw [substitutionTail_char plain]
      exact (substitutionBytes_char (spare + 1) offset rest plain).trans (codeInBytes _ opened depth
        ⟨offset + x.utf8Size, rest, crossed⟩ fewer (Nat.lt_add_of_pos_right (Nat.succ_pos _)))

end

/-- With any budget, templates and substitutions are read over bytes as they are over characters. -/
theorem inBytes_of_budget (budget : List Char) : TextInBytes budget ∧ CodeInBytes budget := by
  induction budget with
  | nil => exact ⟨fun _ _ _ _ fits => absurd fits (Nat.not_lt_zero _),
      fun _ _ _ _ fits => absurd fits (Nat.not_lt_zero _)⟩
  | cons y budget ih => exact ⟨textInBytes_cons ih.1 ih.2, codeInBytes_cons ih.1 ih.2⟩

/-- Read byte by byte a template ends where it does character by character, and is given up there. -/
theorem templateLiteral_bytes {c : Cursor} {rest : List Char} (left : c.rest = '\x60' :: rest) :
    templateLiteralBytes c.bytes = inBytes (fun r => (r.1, r.2.bytes)) (templateLiteral c) := by
  have behind : c.next.rest = rest := Cursor.next_rest left
  simp only [templateLiteralBytes, templateLiteral, Cursor.bytes_advance left (by decide : '\x60'.toNat < 128)]
  refine (inBytes_of_budget c.rest).1 _ c.offset false c.next ?_ ?_
  · rw [left, behind, List.length_cons]
    exact Nat.lt_succ_self _
  · rw [← length_utf8]
    exact Nat.lt_succ_self _

end Scoping
