import Scoping.Text.Cursor

/-!
# What a cursor passes

`c.Reaches d` says that `d` is `c` moved over a piece of text: that piece and what is left at `d` make
up what was left at `c`, and the offset has grown by the bytes of the piece. So a cursor that is
reached stands where a character ends, and the text up to it is that piece (`Spells.textTo`).
`Advances` says that the piece is not empty.

A run of characters of one class is passed up to the first that is of another (`Stops`), and a gap up
to the next token. No token goes on where the text is `Parted`.
-/

namespace Scoping

/-- A text that is not empty has some bytes, those of its first character among them. -/
theorem exists_byteSize_cons (x : Char) (cs : List Char) :
    ∃ n, byteSize (x :: cs) = n + 1 ∧ x.utf8Size ≤ n + 1 ∧ n + 1 - x.utf8Size = byteSize cs := by
  have wide : 0 < x.utf8Size := x.utf8Size_pos
  refine ⟨x.utf8Size + byteSize cs - 1, ?_, ?_, ?_⟩
  · rw [byteSize_cons]
    omega
  · omega
  · omega

theorem takeBytesOnto?_append (taken cs ds : List Char) :
    takeBytesOnto? taken (byteSize cs) (cs ++ ds) = some (taken.reverse ++ cs) := by
  induction cs generalizing taken with
  | nil => simp [takeBytesOnto?]
  | cons x cs ih =>
    obtain ⟨n, size, fits, left⟩ := exists_byteSize_cons x cs
    rw [size, List.cons_append, takeBytesOnto?, if_pos fits, left, ih]
    simp

theorem takeBytes?_append (cs ds : List Char) :
    takeBytes? (byteSize cs) (cs ++ ds) = some cs :=
  takeBytesOnto?_append [] cs ds

theorem dropBytes?_append (cs ds : List Char) : dropBytes? (byteSize cs) (cs ++ ds) = some ds := by
  induction cs with
  | nil => simp [dropBytes?]
  | cons x cs ih =>
    obtain ⟨n, size, fits, left⟩ := exists_byteSize_cons x cs
    rw [size, List.cons_append, dropBytes?, if_pos fits, left, ih]

/-- The piece between two others is the text of its span. -/
theorem Span.text?_append (before piece behind : List Char) :
    Span.text? ⟨byteSize before, byteSize before + byteSize piece⟩ (before ++ (piece ++ behind)) =
      some piece := by
  have length : Span.length? ⟨byteSize before, byteSize before + byteSize piece⟩ =
      some (byteSize piece) := by
    rw [Span.length?, if_pos (Nat.le_add_right _ _), Nat.add_sub_cancel_left]
  rw [Span.text?, length, Option.bind_eq_bind, Option.bind_some, dropBytes?_append,
    Option.bind_eq_bind, Option.bind_some, takeBytes?_append]

/-- At the end of a text stands none. -/
theorem Span.text?_end (cs : List Char) : Span.text? (.point (byteSize cs)) cs = some [] := by
  have text := Span.text?_append cs [] []
  rw [List.append_nil, List.append_nil] at text
  exact text

theorem byteSize_pos {cs : List Char} (h : cs ≠ []) : 0 < byteSize cs := by
  obtain ⟨x, rest, rfl⟩ := List.exists_cons_of_ne_nil h
  have := x.utf8Size_pos
  rw [byteSize_cons]
  omega

namespace Cursor

/-- Between the cursors stands the given text. -/
structure Spells (c d : Cursor) (text : List Char) : Prop where
  rest : c.rest = text ++ d.rest
  offset : d.offset = c.offset + byteSize text

/-- The cursor `d` is `c` moved forwards over whole characters. -/
def Reaches (c d : Cursor) : Prop := ∃ text, c.Spells d text

/-- The same, over at least one character. -/
def Advances (c d : Cursor) : Prop := ∃ text, text ≠ [] ∧ c.Spells d text

variable {c d e : Cursor} {text : List Char}

theorem Spells.textTo (h : c.Spells d text) : c.textTo d = String.ofList text := by
  have size : d.offset - c.offset = byteSize text := by rw [h.offset]; omega
  rw [Cursor.textTo, size, h.rest, takeBytes?_append, Option.getD_some]

theorem Spells.trans {more : List Char} (h : c.Spells d text) (g : d.Spells e more) :
    c.Spells e (text ++ more) where
  rest := by rw [h.rest, g.rest, List.append_assoc]
  offset := by rw [g.offset, h.offset, byteSize_append, Nat.add_assoc]

theorem Spells.refl (c : Cursor) : c.Spells c [] := ⟨rfl, rfl⟩

/-- Nothing is spelled up to the start of a source. -/
theorem Spells.eq_nil (h : c.Spells d text) (start : d.offset = 0) : c.offset = 0 ∧ text = [] := by
  have size := h.offset
  rw [start] at size
  refine ⟨by omega, ?_⟩
  cases text with
  | nil => rfl
  | cons x text =>
    have := byteSize_pos (List.cons_ne_nil x text)
    omega

/-- What is spelled behind the first character is spelled before it with that character. Whether a line
was crossed does not matter. -/
theorem Spells.cons {offset : Nat} {x : Char} {rest : List Char} {crossed : Bool} (crossed' : Bool)
    (h : Spells ⟨offset + x.utf8Size, rest, crossed⟩ d text) :
    Spells ⟨offset, x :: rest, crossed'⟩ d (x :: text) where
  rest := congrArg (x :: ·) h.rest
  offset := h.offset.trans (by rw [byteSize_cons, Nat.add_assoc])

theorem Spells.next {x : Char} {rest : List Char} (h : c.rest = x :: rest) : c.Spells c.next [x] := by
  unfold Cursor.next
  rw [h]
  exact ⟨h, by simp⟩

namespace Reaches

theorem refl (c : Cursor) : c.Reaches c := ⟨[], .refl c⟩

theorem trans (h : c.Reaches d) (g : d.Reaches e) : c.Reaches e := by
  obtain ⟨text, h⟩ := h
  obtain ⟨more, g⟩ := g
  exact ⟨_, h.trans g⟩

theorem next (c : Cursor) : c.Reaches c.next := by
  unfold Cursor.next
  split
  · exact refl c
  · next x rest more =>
    refine ⟨[x], more, ?_⟩
    simp

/-- A cursor that is reached has the text before it that it leaves out. -/
theorem spells (h : c.Reaches d) (left : c.rest = text ++ d.rest) : c.Spells d text := by
  obtain ⟨other, h⟩ := h
  have same : other = text := List.append_cancel_right (h.rest.symm.trans left)
  exact same ▸ h

end Reaches

namespace Advances

theorem reaches (h : c.Advances d) : c.Reaches d := by
  obtain ⟨text, _, h⟩ := h
  exact ⟨text, h⟩

theorem trans (h : c.Advances d) (g : d.Reaches e) : c.Advances e := by
  obtain ⟨text, some, h⟩ := h
  obtain ⟨more, g⟩ := g
  exact ⟨_, List.append_ne_nil_of_left_ne_nil some _, h.trans g⟩

/-- A cursor with text left moves on. -/
theorem next {first : Char} {more : List Char} (h : c.rest = first :: more) :
    c.Advances c.next :=
  ⟨[first], nofun, .next h⟩

end Advances

theorem next_rest {x : Char} {rest : List Char} (h : c.rest = x :: rest) : c.next.rest = rest := by
  unfold Cursor.next
  rw [h]

theorem Spells.head? (h : c.Spells d text) (some : text ≠ []) : c.rest.head? = text.head? := by
  obtain ⟨x, rest, rfl⟩ := List.exists_cons_of_ne_nil some
  rw [h.rest]
  rfl

/-- What is spelled two characters further on is spelled behind two characters. -/
theorem Spells.next_next {x : Char} {rest : List Char} (h : c.rest = x :: rest)
    (behind : c.next.next.Spells d text) (some : text ≠ []) :
    ∃ y more, rest = y :: more ∧ c.Spells d (x :: y :: text) := by
  have second := next_rest h
  cases rest with
  | nil =>
    have stays : c.next.next = c.next := by
      rw [Cursor.next, second]
    have none := behind.rest
    rw [stays, second] at none
    exact absurd (List.append_eq_nil_iff.mp none.symm).1 some
  | cons y more => exact ⟨y, more, rfl, (Spells.next h).trans ((Spells.next second).trans behind)⟩

end Cursor

/-- A cursor that is reached from the start of a source has the text of the source behind that place. -/
theorem Cursor.Reaches.dropBytes? {source : String} {c : Cursor} (h : (Cursor.start source).Reaches c) :
    Scoping.dropBytes? c.offset source.toList = some c.rest := by
  obtain ⟨text, spells⟩ := h
  have split : source.toList = text ++ c.rest := spells.rest
  have place : c.offset = byteSize text := spells.offset.trans (Nat.zero_add _)
  rw [place, split, dropBytes?_append]

/-- Between two cursors that stand in the source, the later one reached from the first, the span is
that of the text between. -/
theorem Cursor.Spells.text? {source : String} {c d : Cursor} {text : List Char}
    (h : (Cursor.start source).Reaches c) (between : c.Spells d text) :
    Span.text? ⟨c.offset, d.offset⟩ source.toList = some text := by
  obtain ⟨before, spells⟩ := h
  have split : source.toList = before ++ (text ++ d.rest) := by
    rw [← between.rest]
    exact spells.rest
  have place : c.offset = byteSize before := spells.offset.trans (Nat.zero_add _)
  rw [between.offset, place, split, Span.text?_append]

/-! ## Runs of a class -/

/-- No character of the class comes first. -/
def Stops (p : Char → Bool) (cs : List Char) : Prop := cs.head?.any p = false

theorem Stops.append {p : Char → Bool} {cs ds : List Char} (h : Stops p cs) (g : Stops p ds) :
    Stops p (cs ++ ds) := by
  cases cs with
  | nil => exact g
  | cons x cs => exact h

theorem Stops.append_of_ne_nil {p : Char → Bool} {cs ds : List Char} (h : Stops p cs)
    (some : cs ≠ []) : Stops p (cs ++ ds) := by
  obtain ⟨x, cs, rfl⟩ := List.exists_cons_of_ne_nil some
  exact h

/-- What is all of one class stops every other class. -/
theorem Stops.of_all {p q : Char → Bool} {cs : List Char} (all : cs.all q = true)
    (apart : ∀ x, p x = true → q x = false) : Stops p cs := by
  cases cs with
  | nil => rfl
  | cons x cs =>
    rw [List.all_cons, Bool.and_eq_true] at all
    cases holds : p x with
    | false => exact holds
    | true => rw [apart x holds] at all; cases all.1

theorem exists_cons_of_head?_any {p : Char → Bool} {cs : List Char} (h : cs.head?.any p = true) :
    ∃ x rest, cs = x :: rest ∧ p x = true := by
  cases cs with
  | nil => cases h
  | cons x rest => exact ⟨x, rest, rfl, h⟩

theorem Stops.head?_ne {x : Char} {cs : List Char} (h : Stops (· == x) cs) :
    (cs.head? == some x) = false := by
  unfold Stops at h
  cases head : cs.head? with
  | none => rfl
  | some y =>
    rw [head, Option.any_some] at h
    simpa using h

namespace Cursor

variable {c d : Cursor} {text : List Char}

section
variable {p : Char → Bool}

theorem skipFrom_spells (p : Char → Bool) (crossed crossed' : Bool) (offset : Nat)
    (cs : List Char) : ∃ text, text.all p = true ∧
      Stops p (skipFrom p crossed offset cs).rest ∧
      Spells ⟨offset, cs, crossed'⟩ (skipFrom p crossed offset cs) text := by
  induction cs generalizing offset crossed' with
  | nil => exact ⟨[], rfl, rfl, rfl, rfl⟩
  | cons x rest ih =>
    unfold skipFrom
    split
    · next holds =>
      obtain ⟨text, all, stops, spells⟩ := ih crossed (offset + x.utf8Size)
      exact ⟨x :: text, by rw [List.all_cons, holds, all]; rfl, stops, spells.cons _⟩
    · next fails => exact ⟨[], rfl, by simpa [Stops] using fails, rfl, rfl⟩

/-- Characters of the class are passed, up to the first that is of another. -/
theorem skipWhile_spells (p : Char → Bool) (c : Cursor) : ∃ text, text.all p = true ∧
    Stops p (c.skipWhile p).rest ∧ c.Spells (c.skipWhile p) text :=
  skipFrom_spells p c.crossed c.crossed c.offset c.rest

theorem skipFrom_rest {crossed : Bool} {offset : Nat} {rest : List Char}
    (all : text.all p = true) (stops : Stops p rest) :
    (skipFrom p crossed offset (text ++ rest)).rest = rest := by
  induction text generalizing offset with
  | nil =>
    cases rest with
    | nil => rfl
    | cons x rest =>
      rw [Stops, List.head?_cons, Option.any_some] at stops
      rw [List.nil_append, skipFrom, stops]
      rfl
  | cons x text ih =>
    rw [List.all_cons, Bool.and_eq_true] at all
    rw [List.cons_append, skipFrom, if_pos all.1]
    exact ih all.2

/-- A run of the class is passed as a whole. -/
theorem skipWhile_rest {rest : List Char} (h : c.rest = text ++ rest) (all : text.all p = true)
    (stops : Stops p rest) : (c.skipWhile p).rest = rest := by
  unfold skipWhile
  rw [h]
  exact skipFrom_rest all stops

theorem skipWhile_eq_self (stops : Stops p c.rest) : c.skipWhile p = c := by
  obtain ⟨offset, rest, crossed⟩ := c
  cases rest with
  | nil => rfl
  | cons x rest =>
    rw [Stops, List.head?_cons, Option.any_some] at stops
    rw [skipWhile, skipFrom, stops]
    rfl

theorem skipWhile_reaches (p : Char → Bool) (c : Cursor) : c.Reaches (c.skipWhile p) := by
  obtain ⟨text, _, _, spells⟩ := skipWhile_spells p c
  exact ⟨text, spells⟩

/-- A character of the class is passed before the rest is. -/
theorem skipWhile_next {x : Char} {rest : List Char} (h : c.rest = x :: rest) (holds : p x = true) :
    c.skipWhile p = c.next.skipWhile p := by
  unfold skipWhile Cursor.next
  rw [h]
  simp only [skipFrom, holds, ↓reduceIte]

end

theorem next_crossed (c : Cursor) : c.next.crossed = c.crossed := by
  unfold Cursor.next
  split <;> rfl

theorem skipWhile_crossed (p : Char → Bool) (c : Cursor) :
    (c.skipWhile p).crossed = c.crossed := by
  have kept (crossed : Bool) (offset : Nat) (cs : List Char) :
      (skipFrom p crossed offset cs).crossed = crossed := by
    induction cs generalizing offset with
    | nil => rfl
    | cons x rest ih =>
      unfold skipFrom
      split
      · exact ih _
      · rfl
  exact kept c.crossed c.offset c.rest

end Cursor

/-! ## Gaps -/

/-- A printing character of ASCII parts no tokens. -/
theorem isGap_of_printing {x : Char} (low : 0x21 ≤ x.toNat) (high : x.toNat ≤ 0x7e) :
    isGap x = false := by
  have other (y : Char) (outside : y.toNat < 0x21 ∨ 0x7e < y.toNat) : (x == y) = false := by
    rw [beq_eq_false_iff_ne]
    rintro rfl
    omega
  have notLine : endsLine x = false := by
    simp [endsLine, other '\n' (by decide), other '\r' (by decide), other '\u2028' (by decide),
      other '\u2029' (by decide)]
  have notWhite : isWhiteSpace x = false := by
    simp [isWhiteSpace]
    omega
  simp [isGap, isBlank, notLine, notWhite, other '\ufeff' (by decide)]

/-- Nothing comes next that could go on with a token. -/
def Parted (cs : List Char) : Prop := cs.head?.all isGap = true

theorem Parted.of_gap {gap rest : List Char} (all : gap.all isGap = true)
    (some : gap ≠ [] ∨ rest = []) : Parted (gap ++ rest) := by
  cases gap with
  | nil => rw [some.resolve_left (absurd rfl)]; rfl
  | cons x gap =>
    rw [List.all_cons, Bool.and_eq_true] at all
    exact all.1

theorem Parted.stops {p : Char → Bool} {cs : List Char} (h : Parted cs)
    (shows : ∀ x, p x = true → isGap x = false) : Stops p cs := by
  cases cs with
  | nil => rfl
  | cons x cs =>
    have gap : isGap x = true := h
    cases holds : p x with
    | false => exact holds
    | true => rw [shows x holds] at gap; cases gap

theorem gapFrom_spells (pending met : Bool) (crossed : Bool) (offset : Nat) (cs : List Char) :
    ∃ gap, gap.all isGap = true ∧ Stops isGap (gapFrom pending met offset cs).2.rest ∧
      Cursor.Spells ⟨offset, cs, crossed⟩ (gapFrom pending met offset cs).2 gap := by
  induction cs generalizing offset met with
  | nil => exact ⟨[], rfl, rfl, rfl, rfl⟩
  | cons x rest ih =>
    have longer {met : Bool} (blank : isGap x = true) : ∃ gap, gap.all isGap = true ∧
        Stops isGap (gapFrom pending met (offset + x.utf8Size) rest).2.rest ∧
        Cursor.Spells ⟨offset, x :: rest, crossed⟩
          (gapFrom pending met (offset + x.utf8Size) rest).2 gap := by
      obtain ⟨gap, all, stops, spells⟩ := ih met (offset + x.utf8Size)
      refine ⟨x :: gap, by rw [List.all_cons, blank, all]; rfl, stops,
        congrArg (x :: ·) spells.rest, ?_⟩
      rw [spells.offset, byteSize_cons, Nat.add_assoc]
    unfold gapFrom
    split
    · next ends => exact longer (by rw [isGap, ends, Bool.true_or])
    · next inLine =>
      split
      · next blank => exact longer (by rw [isGap, blank, Bool.or_true])
      · next visible => exact ⟨[], rfl, by simp [Stops, isGap, inLine, visible], rfl, rfl⟩

/-- Between two tokens stand blanks and line ends alone. -/
theorem Cursor.skipGap_spells (c : Cursor) :
    ∃ gap, gap.all isGap = true ∧ Stops isGap c.skipGap.2.rest ∧ c.Spells c.skipGap.2 gap :=
  gapFrom_spells c.crossed false c.crossed c.offset c.rest

/-- Whether a comment has crossed a line is not for a gap to say. -/
theorem Cursor.skipGap_crossed (c : Cursor) : c.skipGap.2.crossed = c.crossed := by
  have kept (pending met : Bool) (offset : Nat) (cs : List Char) :
      (gapFrom pending met offset cs).2.crossed = pending := by
    induction cs generalizing offset met with
    | nil => rfl
    | cons x rest ih =>
      unfold gapFrom
      split
      · exact ih _ _
      · split
        · exact ih _ _
        · rfl
  exact kept c.crossed false c.offset c.rest

theorem gapFrom_append {pending met : Bool} {offset : Nat} {gap rest : List Char}
    (all : gap.all isGap = true) (stops : Stops isGap rest) :
    (gapFrom pending met offset (gap ++ rest)).1 = (met || gap.any endsLine) ∧
      (gapFrom pending met offset (gap ++ rest)).2.rest = rest := by
  induction gap generalizing met offset with
  | nil =>
    rw [List.nil_append, List.any_nil, Bool.or_false]
    cases rest with
    | nil => exact ⟨rfl, rfl⟩
    | cons x rest =>
      rw [Stops, List.head?_cons, Option.any_some, isGap, Bool.or_eq_false_iff] at stops
      simp [gapFrom, stops]
  | cons x gap ih =>
    rw [List.all_cons, Bool.and_eq_true] at all
    rw [List.cons_append, List.any_cons, gapFrom]
    cases ends : endsLine x with
    | true =>
      rw [if_pos rfl, Bool.true_or, Bool.or_true]
      exact ih all.2
    | false =>
      have blank : isBlank x = true := by simpa [isGap, ends] using all.1
      rw [if_neg Bool.false_ne_true, if_pos blank, Bool.false_or]
      exact ih all.2

/-- A gap is passed as a whole. -/
theorem Cursor.skipGap_append {c : Cursor} {gap rest : List Char} (h : c.rest = gap ++ rest)
    (all : gap.all isGap = true) (stops : Stops isGap rest) :
    c.skipGap.1 = gap.any endsLine ∧ c.skipGap.2.rest = rest := by
  unfold Cursor.skipGap
  rw [h]
  exact gapFrom_append all stops

end Scoping
