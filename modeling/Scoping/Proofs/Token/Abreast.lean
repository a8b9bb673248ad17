import Mathlib.Data.List.Find
import Scoping.Proofs.Token.Tiling

/-!
# How far a token is read from

A token is read from its own characters and from a few behind them. So two texts that are the same up
to a name are read alike up to there, whatever the names are: no literal goes on into a name, no mark
has a character of one, and what is looked at behind a word or a number is one character at least.

Two cursors are `Abreast` when they stand at one place of two such texts. Each reader takes cursors
that are abreast to cursors that are, as long as it stops before the names.
-/

namespace Scoping

/-- The same span so many bytes further. -/
def Span.moved (shift : Nat) (s : Span) : Span := ⟨s.start + shift, s.stop + shift⟩

/-- The same token so many bytes further. -/
def Token.moved (shift : Nat) (t : Token) : Token := { t with span := t.span.moved shift }

theorem Token.moved_zero (t : Token) : t.moved 0 = t := rfl

/-- At one place of two texts, which are the same up to their tails; the second stands `shift` bytes
further in its source. -/
structure Cursor.Abreast (shift : Nat) (tail tail' : List Char) (c c' : Cursor) : Prop where
  offset : c'.offset = c.offset + shift
  texts : ∃ text, c.rest = text ++ tail ∧ c'.rest = text ++ tail'

/-- The text begins with a name. -/
def BeginsName (tail : List Char) : Prop := tail.head?.any startsName = true

/-- The character begins a name or is a gap, so it stands in no mark and behind none that it changes. -/
def isBlunt (x : Char) : Bool := startsName x || isGap x

/-- The text is empty, or begins with a name or a gap. -/
def Blunt (tail : List Char) : Prop := tail.head?.all isBlunt = true

theorem BeginsName.blunt {tail : List Char} (h : BeginsName tail) : Blunt tail := by
  obtain ⟨x, rest, rfl, starts⟩ := exists_cons_of_head?_any h
  simp [Blunt, isBlunt, starts]

/-- A class that has no blunt character does not go on into the text. -/
theorem Blunt.stops {tail : List Char} (h : Blunt tail) {p : Char → Bool}
    (other : ∀ x, isBlunt x = true → p x = false) : Stops p tail := by
  cases tail with
  | nil => rfl
  | cons x tail => exact other x h

theorem isDigit_of_isBlunt {x : Char} (h : isBlunt x = true) : isDigit x = false := by
  rcases Bool.or_eq_true_iff.mp h with starts | gap
  · exact isDigit_of_startsName starts
  · cases digit : isDigit x with
    | false => rfl
    | true =>
      rw [isGap_of_continuesDigits (continuesDigits_of_isDigit digit)] at gap
      cases gap

theorem isNewline_of_startsName {x : Char} (h : startsName x = true) : isNewline x = false := by
  have visible : isGap x = false :=
    isGap_of_continuesName (by rw [continuesName, h, Bool.true_or])
  cases line : isNewline x with
  | false => rfl
  | true =>
    simp only [isNewline, Bool.or_eq_true, beq_iff_eq] at line
    rcases line with rfl | rfl <;> cases visible

namespace Cursor.Abreast

variable {shift : Nat} {tail tail' z : List Char} {c c' d d' : Cursor}

theorem text_eq (h : Abreast shift tail tail' c c') {y : List Char} (left : c.rest = y ++ tail) :
    c'.rest = y ++ tail' := by
  obtain ⟨text, here, there⟩ := h.texts
  rw [there, List.append_cancel_right (here.symm.trans left)]

/-- What is spelled at one place is what stands at the other. -/
theorem rest_eq (h : Abreast shift tail tail' c c') {x : List Char} (spells : c.Spells d x)
    (left : d.rest = z ++ tail) : c'.rest = x ++ (z ++ tail') := by
  rw [← List.append_assoc]
  exact h.text_eq (by rw [spells.rest, left, List.append_assoc])

/-- Behind the same text the cursors are abreast again. -/
theorem of_reaches (h : Abreast shift tail tail' c c') {x : List Char} (spells : c.Spells d x)
    (left : d.rest = z ++ tail) (reaches : c'.Reaches d') (left' : d'.rest = z ++ tail') :
    Abreast shift tail tail' d d' := by
  have spells' : c'.Spells d' x := reaches.spells (by rw [left', h.rest_eq spells left])
  refine ⟨?_, z, left, left'⟩
  rw [spells.offset, spells'.offset, h.offset, Nat.add_right_comm]

/-- Between cursors that are abreast twice stands the same text. -/
theorem spells (h : Abreast shift tail tail' c c') (behind : Abreast shift tail tail' d d') {x : List Char}
    (spells : c.Spells d x) (left : d.rest = z ++ tail) : c'.Spells d' x where
  rest := by rw [behind.text_eq left, h.rest_eq spells left]
  offset := by rw [behind.offset, spells.offset, h.offset, Nat.add_right_comm]

theorem next {x : Char} {y : List Char} (h : Abreast shift tail tail' c c')
    (left : c.rest = x :: (y ++ tail)) : Abreast shift tail tail' c.next c'.next :=
  h.of_reaches (.next left) (next_rest left) (.next c')
    (next_rest (h.rest_eq (.next left) (next_rest left)))

/-- A run of a class ends before the names in both texts. -/
theorem skipWhile {p : Char → Bool} (h : Abreast shift tail tail' c c') (some : z ≠ [])
    (left : (c.skipWhile p).rest = z ++ tail) :
    Abreast shift tail tail' (c.skipWhile p) (c'.skipWhile p) := by
  obtain ⟨text, all, stops, spells⟩ := c.skipWhile_spells p
  have stops' : Stops p (z ++ tail') := by
    rw [left] at stops
    obtain ⟨x, z, rfl⟩ := List.exists_cons_of_ne_nil some
    exact stops
  exact h.of_reaches spells left (Cursor.skipWhile_reaches p c')
    (Cursor.skipWhile_rest (h.rest_eq spells left) all stops')

end Cursor.Abreast

section
variable {shift : Nat} {tail tail' z : List Char} {c c' d d' : Cursor}

/-- Where a cursor comes to stand before the tail, it stood before it too. -/
theorem Cursor.Reaches.before (h : c.Reaches d) (some : z ≠ []) (left : d.rest = z ++ tail) :
    ∃ x y, c.rest = x :: (y ++ tail) := by
  obtain ⟨text, spells⟩ := h
  obtain ⟨x, y, whole⟩ := List.exists_cons_of_ne_nil (List.append_ne_nil_of_right_ne_nil text some)
  refine ⟨x, y, ?_⟩
  rw [spells.rest, left, ← List.append_assoc, whole]
  rfl

/-- To a class that has no blunt character it makes no difference which blunt text comes. -/
theorem head?_any_eq (blunt : Blunt tail) (blunt' : Blunt tail') {p : Char → Bool}
    (other : ∀ x, isBlunt x = true → p x = false) (y : List Char) :
    (y ++ tail').head?.any p = (y ++ tail).head?.any p := by
  cases y with
  | nil => exact (blunt'.stops other).trans (blunt.stops other).symm
  | cons x y => rfl

/-! ## Numbers -/

theorem isSign_of_isBlunt {x : Char} (h : isBlunt x = true) :
    (x == '+' || x == '-') = false := by
  rw [beq_of_class h rfl, beq_of_class h rfl]
  rfl

/-- The text goes on as an exponent. -/
def opensExponent : List Char → Bool
  | mark :: rest => (mark == 'e' || mark == 'E') && (rest.head?.any isDigit ||
    rest.head?.any (fun x => x == '+' || x == '-') && rest.tail.head?.any isDigit)
  | [] => false

theorem skipExponent_eq (c : Cursor) : c.skipExponent =
    if opensExponent c.rest then c.next.next.skipWhile continuesDigits else c := by
  unfold Cursor.skipExponent opensExponent
  cases c.rest with
  | nil => rfl
  | cons mark rest =>
    cases rest with
    | nil => simp
    | cons x rest =>
      by_cases small : mark = 'e' <;> by_cases capital : mark = 'E' <;>
        cases digit : isDigit x <;> simp_all

theorem skipNumber_eq {u v : Char} {more : List Char} (text : c.rest = u :: v :: more) :
    c.skipNumber =
      if u == '0' && marksRadix v then c.next.next.skipWhile continuesNumber
      else (c.skipWhile continuesDigits).skipFraction.skipExponent.skipIf 'n' := by
  rw [Cursor.skipNumber, text, Cursor.next_rest text]
  rfl

theorem opensExponent_eq (blunt : Blunt tail) (blunt' : Blunt tail') (x : Char) (y : List Char) :
    opensExponent (x :: (y ++ tail')) = opensExponent (x :: (y ++ tail)) := by
  simp only [opensExponent]
  rw [head?_any_eq blunt blunt' (fun _ => isDigit_of_isBlunt) y,
    head?_any_eq blunt blunt' (fun _ => isSign_of_isBlunt) y]
  cases y with
  | nil =>
    have noSign : Stops (fun x => x == '+' || x == '-') tail :=
      blunt.stops fun _ => isSign_of_isBlunt
    rw [Stops] at noSign
    simp [noSign]
  | cons v y =>
    rw [List.cons_append, List.cons_append, List.tail_cons, List.tail_cons,
      head?_any_eq blunt blunt' (fun _ => isDigit_of_isBlunt) y]

namespace Cursor.Abreast

variable (h : Abreast shift tail tail' c c') (blunt : Blunt tail) (blunt' : Blunt tail')
include h

theorem skipFraction (some : z ≠ []) (left : c.skipFraction.rest = z ++ tail) :
    Abreast shift tail tail' c.skipFraction c'.skipFraction := by
  obtain ⟨x, y, text⟩ := Reaches.before ((skipFraction_spells c).imp fun _ h => h.2) some left
  have text' : c'.rest = x :: (y ++ tail') := h.text_eq (y := x :: y) text
  unfold Cursor.skipFraction at left ⊢
  rw [text, List.head?_cons] at left ⊢
  rw [text', List.head?_cons]
  split
  · next point =>
    rw [if_pos point] at left
    exact (h.next text).skipWhile some left
  · exact h

theorem skipIf (x : Char) (some : z ≠ []) (left : (c.skipIf x).rest = z ++ tail) :
    Abreast shift tail tail' (c.skipIf x) (c'.skipIf x) := by
  obtain ⟨v, y, text⟩ := Reaches.before ((skipIf_spells x c).imp fun _ h => h.2) some left
  have text' : c'.rest = v :: (y ++ tail') := h.text_eq (y := v :: y) text
  unfold Cursor.skipIf
  rw [text, text', List.head?_cons, List.head?_cons]
  split
  · exact h.next text
  · exact h

include blunt blunt'

theorem skipExponent (some : z ≠ []) (left : c.skipExponent.rest = z ++ tail) :
    Abreast shift tail tail' c.skipExponent c'.skipExponent := by
  obtain ⟨x, y, text⟩ := Reaches.before ((skipExponent_spells c).imp fun _ h => h.2) some left
  have text' : c'.rest = x :: (y ++ tail') := h.text_eq (y := x :: y) text
  rw [skipExponent_eq] at left
  rw [skipExponent_eq, skipExponent_eq, text', opensExponent_eq blunt blunt', ← text]
  split
  · next opens =>
    rw [if_pos opens] at left
    have reaches : c.next.Reaches (c.next.next.skipWhile continuesDigits) :=
      (Reaches.next c.next).trans (skipWhile_reaches _ _)
    obtain ⟨v, y', text''⟩ := reaches.before some left
    exact ((h.next text).next text'').skipWhile some left
  · exact h

/-- A number is read alike, if something stands between it and the tails. -/
theorem skipNumber {x : Char} {more : List Char} (begins : c.rest = x :: more)
    (number : isDigit x = true ∨ x = '.' ∧ more.head?.any isDigit = true)
    (some : z ≠ []) (left : c.skipNumber.rest = z ++ tail) :
    Abreast shift tail tail' c.skipNumber c'.skipNumber := by
  obtain ⟨text, valid, spells⟩ := skipNumber_spells begins number
  obtain ⟨u, text, rfl⟩ := List.exists_cons_of_ne_nil valid.ne_nil
  obtain ⟨v, y, behind⟩ := List.exists_cons_of_ne_nil (List.append_ne_nil_of_right_ne_nil text some)
  have whole : c.rest = u :: ((v :: y) ++ tail) := by
    rw [spells.rest, left, ← behind]
    simp
  have second := next_rest whole
  have first := h.next whole
  have whole' : c'.rest = u :: ((v :: y) ++ tail') := h.text_eq (y := u :: v :: y) whole
  have second' := next_rest whole'
  rw [skipNumber_eq whole] at left ⊢
  rw [skipNumber_eq whole']
  split
  · next radix =>
    rw [if_pos radix] at left
    exact (first.next second).skipWhile some left
  · next decimal =>
    rw [if_neg decimal] at left
    have suffix := (skipIf_spells 'n' (c.skipWhile continuesDigits).skipFraction.skipExponent).imp
      fun _ h => h.2
    obtain ⟨x₃, y₃, left₃⟩ := Reaches.before suffix some left
    have exponent := (skipExponent_spells (c.skipWhile continuesDigits).skipFraction).imp
      fun _ h => h.2
    obtain ⟨x₂, y₂, left₂⟩ := Reaches.before (z := x₃ :: y₃) exponent nofun left₃
    have fraction := (skipFraction_spells (c.skipWhile continuesDigits)).imp fun _ h => h.2
    obtain ⟨x₁, y₁, left₁⟩ := Reaches.before (z := x₂ :: y₂) fraction nofun left₂
    have digits := h.skipWhile (z := x₁ :: y₁) nofun left₁
    have point := digits.skipFraction (z := x₂ :: y₂) nofun left₂
    exact (point.skipExponent blunt blunt' (z := x₃ :: y₃) nofun left₃).skipIf 'n' some left

end Cursor.Abreast

/-! ## Marks -/

/-- No mark has a blunt character in it. -/
theorem marks_sharp : ∀ mark ∈ marks, (mark.all fun x => !isBlunt x) = true := by
  decide +kernel

/-- What has no blunt character and is not empty does not begin a blunt text. -/
theorem Blunt.isPrefixOf {x : Char} {mark : List Char} (blunt : Blunt tail)
    (sharp : isBlunt x = false) : (x :: mark).isPrefixOf tail = false := by
  cases tail with
  | nil => rfl
  | cons y tail =>
    have isBlunt : isBlunt y = true := blunt
    have other : (x == y) = false := by
      rw [beq_eq_false_iff_ne]
      rintro rfl
      rw [isBlunt] at sharp
      cases sharp
    rw [List.isPrefixOf_cons_cons, other, Bool.false_and]

theorem isPrefixOf_eq (blunt : Blunt tail) (blunt' : Blunt tail') {mark : List Char}
    (sharp : (mark.all fun x => !isBlunt x) = true) (y : List Char) :
    mark.isPrefixOf (y ++ tail') = mark.isPrefixOf (y ++ tail) := by
  induction y generalizing mark with
  | nil =>
    cases mark with
    | nil => rfl
    | cons x mark =>
      rw [List.all_cons, Bool.and_eq_true, Bool.not_eq_true'] at sharp
      exact (blunt'.isPrefixOf sharp.1).trans (blunt.isPrefixOf sharp.1).symm
  | cons v y ih =>
    cases mark with
    | nil => rfl
    | cons x mark =>
      rw [List.all_cons, Bool.and_eq_true] at sharp
      simp only [List.cons_append, List.isPrefixOf, ih sharp.2]

/-- A mark is found alike before blunt texts. -/
theorem markAt?_eq (blunt : Blunt tail) (blunt' : Blunt tail') (y : List Char) :
    markAt? (y ++ tail') = markAt? (y ++ tail) := by
  have same : marks.find? (·.isPrefixOf (y ++ tail')) = marks.find? (·.isPrefixOf (y ++ tail)) :=
    List.find?_congr fun mark mem => isPrefixOf_eq blunt blunt' (marks_sharp mark mem) y
  unfold markAt?
  rw [same]
  split
  · next found =>
    have begins : ['?', '.'].isPrefixOf (y ++ tail) = true := by simpa using List.find?_some found
    have third : ((y ++ tail')[2]?).any isDigit = ((y ++ tail)[2]?).any isDigit := by
      -- The tails begin with none of the two characters, so both stand before them.
      rcases y with _ | ⟨a, _ | ⟨b, y⟩⟩
      · rw [List.nil_append, blunt.isPrefixOf rfl] at begins
        cases begins
      · rw [List.singleton_append, List.isPrefixOf_cons_cons, blunt.isPrefixOf rfl, Bool.and_false]
          at begins
        cases begins
      · have next := head?_any_eq blunt blunt' (fun _ => isDigit_of_isBlunt) y
        simpa [List.head?_eq_getElem?] using next
    rw [third]
  · rfl

/-! ## Tokens -/

/-- The rest of a line ends before the tails, or goes on into a name. -/
theorem Cursor.Abreast.skipLine (h : Abreast shift tail tail' c c')
    (names : z = [] → BeginsName tail) (left : c.skipLine.rest = z ++ tail) :
    Abreast shift tail tail' c.skipLine c'.skipLine := by
  refine h.skipWhile ?_ left
  rintro rfl
  obtain ⟨_, _, stops, _⟩ := c.skipWhile_spells (!isNewline ·)
  obtain ⟨n, rest, rfl, starts⟩ := exists_cons_of_head?_any (names rfl)
  have left : (c.skipWhile (!isNewline ·)).rest = n :: rest := left
  rw [left] at stops
  have line : (!isNewline n) = false := stops
  rw [isNewline_of_startsName starts] at line
  cases line

/-! ## Literals -/

section
variable {first : Char} {more : List Char} (h : Cursor.Abreast shift tail tail' c c')
include h

/-- A comment with a closing mark crosses the lines that are in it. -/
theorem blockComment_abreast (crossed : c'.crossed = c.crossed) (begins : c.rest = '/' :: '*' :: more)
    (found : blockComment c = .ok d) (left : d.rest = z ++ tail) :
    ∃ d', blockComment c' = .ok d' ∧ d.Abreast shift tail tail' d' ∧ d'.crossed = d.crossed := by
  obtain ⟨body, valid, spells⟩ := blockComment_ok found
  have opens : c.Spells c.next.next ['/', '*'] :=
    (Cursor.Spells.next begins).trans (.next (Cursor.next_rest begins))
  have whole := opens.trans spells
  have text := whole.rest
  have text' := h.rest_eq whole left
  rw [left] at text
  simp only [List.cons_append, List.nil_append] at text text'
  rw [valid.read_block text] at found
  cases found
  refine ⟨_, valid.read_block text', ?_, ?_⟩
  · obtain ⟨_, _, spells'⟩ := blockComment_ok (valid.read_block text')
    have reaches := (Cursor.Reaches.next c').trans (.next c'.next)
    exact h.of_reaches whole left (reaches.trans ⟨_, spells'⟩) rfl
  · simp only [Cursor.next_crossed, crossed]

theorem stringLiteral_abreast {quote : Char} (quotes : quote = '\'' ∨ quote = '"')
    (begins : c.rest = quote :: more) (found : stringLiteral quote c = .ok d)
    (left : d.rest = z ++ tail) :
    ∃ d', stringLiteral quote c' = .ok d' ∧ d.Abreast shift tail tail' d' := by
  obtain ⟨body, valid, spells⟩ := stringTail_ok found
  have whole := (Cursor.Spells.next begins).trans spells
  obtain ⟨d', read, left'⟩ := valid.read_literal quotes (h.rest_eq whole left)
  obtain ⟨_, _, spells'⟩ := stringTail_ok read
  exact ⟨d', read, h.of_reaches whole left ((Cursor.Reaches.next c').trans ⟨_, spells'⟩) left'⟩

theorem templateLiteral_abreast {s : Bool} (begins : c.rest = '\x60' :: more)
    (found : templateLiteral c = .ok (s, d)) (left : d.rest = z ++ tail) :
    ∃ d', templateLiteral c' = .ok (s, d') ∧ d.Abreast shift tail tail' d' := by
  obtain ⟨body, valid, spells⟩ := templateLiteral_ok found
  have whole := (Cursor.Spells.next begins).trans spells
  obtain ⟨d', read, left'⟩ := valid.read_literal (h.rest_eq whole left)
  obtain ⟨_, _, spells'⟩ := templateLiteral_ok read
  exact ⟨d', read, h.of_reaches whole left ((Cursor.Reaches.next c').trans ⟨_, spells'⟩) left'⟩

theorem regexLiteral_abreast (some : z ≠ []) (begins : c.rest = '/' :: more)
    (found : regexLiteral c = .ok d) (left : d.rest = z ++ tail) :
    ∃ d', regexLiteral c' = .ok d' ∧ d.Abreast shift tail tail' d' := by
  obtain ⟨body, flags, valid, all, stops, spells⟩ := regexLiteral_ok found
  have whole := (Cursor.Spells.next begins).trans spells
  have text' := h.rest_eq whole left
  have stops' : Stops continuesName (z ++ tail') := by
    rw [left] at stops
    obtain ⟨x, z, rfl⟩ := List.exists_cons_of_ne_nil some
    exact stops
  simp only [List.cons_append, List.nil_append, List.append_assoc] at text'
  obtain ⟨d', read, left'⟩ := valid.read_literal all stops' text'
  obtain ⟨_, _, _, _, _, spells'⟩ := regexLiteral_ok read
  exact ⟨d', read, h.of_reaches whole left ((Cursor.Reaches.next c').trans ⟨_, spells'⟩) left'⟩

theorem skipMark_abreast {mark : List Char} (begins : mark <+: c.rest)
    (left : (c.skipMark mark).rest = z ++ tail) :
    (c.skipMark mark).Abreast shift tail tail' (c'.skipMark mark) := by
  obtain ⟨behind, text⟩ := begins
  have spells := skipMark_spells text.symm
  have text' := h.rest_eq spells left
  have spells' := skipMark_spells text'
  exact h.of_reaches spells left ⟨_, spells'⟩
    (List.append_cancel_left (spells'.rest.symm.trans text'))

end

/-! ## Tokens -/

/-- The two readings give the same token, as far as its reader tells. -/
structure Reading.Abreast (shift : Nat) (tail tail' : List Char) (r r' : Reading) : Prop where
  kind : r'.kind = r.kind
  flags : r'.flags = r.flags
  stop : Cursor.Abreast shift tail tail' r.stop r'.stop
  crossed : r.kind = .comment → r'.stop.crossed = r.stop.crossed

theorem head?_beq (cs : List Char) (a : Char) : (cs.head? == some a) = cs.head?.any (· == a) := by
  cases cs with
  | nil => rfl
  | cons x cs => rfl

/-- The first line of a script begins at the cursor. -/
def Cursor.AtScript (c : Cursor) : Prop := c.offset = 0 ∧ ['#', '!'] <+: c.rest

theorem atScript_iff {first : Char} {more : List Char} (begins : c.rest = first :: more) :
    (first == '#' && c.offset == 0 && more.head? == some '!') = true ↔ c.AtScript := by
  rw [Cursor.AtScript, begins, List.cons_prefix_cons]
  rw [Bool.and_eq_true, Bool.and_eq_true, beq_iff_eq, beq_iff_eq, beq_iff_eq, and_right_comm,
    and_comm (a := c.offset = 0), eq_comm (a := first)]
  cases more <;> simp [List.cons_prefix_cons, eq_comm]

/-- The same reader is asked for a token before blunt texts. -/
theorem readerFor_abreast {first : Char} {y : List Char} (h : Cursor.Abreast shift tail tail' c c')
    (blunt : Blunt tail) (blunt' : Blunt tail') (script : shift = 0 ∨ ¬ c.AtScript)
    (text : c.rest = first :: (y ++ tail)) (afterOperand : Bool) :
    readerFor afterOperand c' first (y ++ tail') = readerFor afterOperand c first (y ++ tail) := by
  have next (a : Char) (other : ∀ x, isBlunt x = true → (x == a) = false) :
      ((y ++ tail').head? == some a) = ((y ++ tail).head? == some a) := by
    rw [head?_beq, head?_beq, head?_any_eq blunt blunt' other]
  have digit := head?_any_eq blunt blunt' (fun _ => isDigit_of_isBlunt) y
  have slash := next '/' fun _ blunt => beq_of_class blunt rfl
  have star := next '*' fun _ blunt => beq_of_class blunt rfl
  have bang : (first == '#' && c'.offset == 0 && (y ++ tail').head? == some '!') =
      (first == '#' && c.offset == 0 && (y ++ tail).head? == some '!') := by
    rw [next '!' fun _ blunt => beq_of_class blunt rfl, h.offset]
    rcases script with rfl | none
    · rfl
    · rw [Bool.eq_false_of_not_eq_true (mt (atScript_iff text).mp none)]
      refine Bool.eq_false_of_not_eq_true fun begins => none ((atScript_iff text).mp ?_)
      simp only [Bool.and_eq_true, beq_iff_eq, Nat.add_eq_zero_iff] at begins ⊢
      exact ⟨⟨begins.1.1, begins.1.2.1⟩, begins.2⟩
  unfold readerFor
  simp only [bang, slash, star, digit]

/-- The reader that is asked reads alike before blunt texts. Where a name may follow right behind what it
reads, that is a comment or a mark of structure. -/
theorem TokenReader.read_before {afterOperand : Bool} {reader : TokenReader} {first : Char}
    {more more' : List Char} {r : Reading} (h : Cursor.Abreast shift tail tail' c c')
    (crossed : c'.crossed = c.crossed) (blunt : Blunt tail) (blunt' : Blunt tail')
    (begins : c.rest = first :: more) (begins' : c'.rest = first :: more')
    (asks : AsksFor afterOperand c first more reader)
    (found : reader.read c first more = .ok r) (left : r.stop.rest = z ++ tail)
    (parts : z = [] → BeginsName tail ∧ (r.kind = .comment ∨ ∃ p, r.kind = .punctuation p)) :
    ∃ r', reader.read c' first more' = .ok r' ∧ r.Abreast shift tail tail' r' := by
  have names (none : z = []) : BeginsName tail := (parts none).1
  have parted (notComment : r.kind ≠ .comment) (notMark : ∀ p, r.kind ≠ .punctuation p) : z ≠ [] :=
    fun none => (parts none).2.elim notComment fun ⟨p, is⟩ => notMark p is
  cases asks with
  | script _ | line =>
    cases found
    exact ⟨_, rfl, rfl, rfl, h.skipLine names left, fun _ => by
      simp only [Cursor.skipLine, Cursor.skipWhile_crossed, crossed]⟩
  | block =>
    obtain ⟨d, read, rfl⟩ := exists_of_map_ok found
    obtain ⟨d', read', behind, lines⟩ := blockComment_abreast h crossed begins read left
    exact ⟨_, congrArg (Except.map _) read', rfl, rfl, behind, fun _ => lines⟩
  | regex _ _ =>
    obtain ⟨d, read, rfl⟩ := exists_of_map_ok found
    obtain ⟨d', read', behind⟩ :=
      regexLiteral_abreast h (parted nofun fun _ => nofun) begins read left
    exact ⟨_, congrArg (Except.map _) read', rfl, rfl, behind, nofun⟩
  | string quotes =>
    obtain ⟨d, read, rfl⟩ := exists_of_map_ok found
    obtain ⟨d', read', behind⟩ := stringLiteral_abreast h quotes begins read left
    exact ⟨_, congrArg (Except.map _) read', rfl, rfl, behind, nofun⟩
  | template =>
    obtain ⟨⟨s, d⟩, read, rfl⟩ := exists_of_map_ok found
    obtain ⟨d', read', behind⟩ := templateLiteral_abreast h begins read left
    exact ⟨_, congrArg (Except.map _) read', rfl, rfl, behind, nofun⟩
  | number number =>
    cases found
    exact ⟨_, rfl, rfl, rfl,
      h.skipNumber blunt blunt' begins number (parted nofun fun _ => nofun) left, nofun⟩
  | word _ =>
    cases found
    have some : z ≠ [] := parted (wordKind_significant _).2 fun p => by
      unfold wordKind
      split <;> exact nofun
    have behind := h.skipWhile some left
    refine ⟨_, rfl, ?_, rfl, behind, fun comment => absurd comment (wordKind_significant _).2⟩
    obtain ⟨word, _, _, spells⟩ := c.skipWhile_spells continuesName
    rw [spells.textTo, (h.spells behind spells left).textTo]
  | mark _ =>
    obtain ⟨mark, read, rfl⟩ := TokenReader.mark_ok found
    have prefixed : mark <+: c.rest := begins ▸ (markAt?_some read).2
    obtain ⟨rest, text⟩ := prefixed
    have spells := skipMark_spells text.symm
    have same : markAt? c'.rest = markAt? c.rest := by
      rw [h.rest_eq spells left, spells.rest, left, ← List.append_assoc, ← List.append_assoc]
      exact markAt?_eq blunt blunt' (mark ++ z)
    rw [begins', begins, read] at same
    refine ⟨⟨markKind mark, .none, c'.skipMark mark⟩, by rw [TokenReader.read, same], rfl, rfl,
      skipMark_abreast h ⟨rest, text⟩ left, fun comment => ?_⟩
    exact absurd comment (markKind_significant mark).2

/-- A token is read alike before blunt texts. Where a name may follow right behind it, it is a comment or
a mark of structure. -/
theorem readToken_before {afterOperand : Bool} {first : Char} {more more' : List Char} {r : Reading}
    (h : Cursor.Abreast shift tail tail' c c') (crossed : c'.crossed = c.crossed)
    (blunt : Blunt tail) (blunt' : Blunt tail') (script : shift = 0 ∨ ¬ c.AtScript)
    (begins : c.rest = first :: more) (begins' : c'.rest = first :: more')
    (found : readToken afterOperand c first more = .ok r) (left : r.stop.rest = z ++ tail)
    (parts : z = [] → BeginsName tail ∧ (r.kind = .comment ∨ ∃ p, r.kind = .punctuation p)) :
    ∃ r', readToken afterOperand c' first more' = .ok r' ∧ r.Abreast shift tail tail' r' := by
  obtain ⟨y, text⟩ : ∃ y, c.rest = first :: (y ++ tail) := by
    obtain ⟨text, some, spells⟩ := (readToken_advances begins found).1
    obtain ⟨x, text, rfl⟩ := List.exists_cons_of_ne_nil some
    have whole := spells.rest
    rw [begins, left, List.cons_append, List.cons.injEq] at whole
    exact ⟨text ++ z, by rw [begins, whole.2, List.append_assoc]⟩
  have text' : c'.rest = first :: (y ++ tail') := h.text_eq (y := first :: y) text
  cases begins.symm.trans text
  cases begins'.symm.trans text'
  rw [readToken_eq] at found ⊢
  rw [readerFor_abreast h blunt blunt' script text]
  exact TokenReader.read_before h crossed blunt blunt' text text' (asksFor_readerFor ..) found left parts

theorem readToken_script {afterOperand : Bool} {more : List Char} (start : c.offset = 0) :
    readToken afterOperand c '#' ('!' :: more) = .ok ⟨.comment, .none, c.skipLine⟩ := by
  simp [readToken, start]

theorem readToken_slashes {afterOperand : Bool} {more : List Char} :
    readToken afterOperand c '/' ('/' :: more) = .ok ⟨.comment, .none, c.skipLine⟩ :=
  rfl

theorem readToken_block {afterOperand : Bool} {more : List Char} (found : blockComment c = .ok d) :
    readToken afterOperand c '/' ('*' :: more) =
      .ok ⟨.comment, { TokenFlags.none with blockComment := true }, d⟩ := by
  simp [readToken, found]

/-- A token at the end of a text is read alike where a line end comes instead. -/
theorem readToken_line {afterOperand : Bool} {first : Char} {more more' rest : List Char} {r : Reading}
    (h : Cursor.Abreast shift [] ('\n' :: rest) c c') (crossed : c'.crossed = c.crossed)
    (script : shift = 0 ∨ ¬ c.AtScript) (begins : c.rest = first :: more)
    (begins' : c'.rest = first :: more') (found : readToken afterOperand c first more = .ok r)
    (left : r.stop.rest = []) : ∃ r', readToken afterOperand c' first more' = .ok r' ∧
      r.Abreast shift [] ('\n' :: rest) r' := by
  have line {x y : Char} {body : List Char} (spells : c.Spells c.skipLine (x :: y :: body))
      (left : c.skipLine.rest = []) (inLine : (x :: y :: body).all (!isNewline ·) = true) :
      Reading.Abreast shift [] ('\n' :: rest) ⟨.comment, .none, c.skipLine⟩
        ⟨.comment, .none, c'.skipLine⟩ :=
    ⟨rfl, rfl, h.of_reaches (z := []) spells left (Cursor.skipWhile_reaches _ c')
      (Cursor.skipWhile_rest (h.rest_eq (z := []) spells left) inLine rfl), fun _ => by
        simp only [Cursor.skipLine, Cursor.skipWhile_crossed, crossed]⟩
  obtain ⟨_, stands⟩ | ⟨text, lexeme, spells⟩ := readToken_cases begins found
  · cases stands with
    | @script body start spells all _ =>
      have start' : c'.offset = 0 := by
        rcases script with rfl | none
        · exact h.offset.trans start
        · exact absurd ⟨start, _, spells.rest.symm⟩ none
      obtain ⟨rfl, rfl⟩ := List.cons.inj (begins.symm.trans spells.rest)
      obtain ⟨_, rfl⟩ := List.cons.inj (begins'.symm.trans (h.rest_eq (z := []) spells left))
      cases (readToken_script start).symm.trans found
      exact ⟨_, readToken_script start', line spells left (by simpa [isNewline] using all)⟩
    | @line body spells all _ =>
      obtain ⟨rfl, rfl⟩ := List.cons.inj (begins.symm.trans spells.rest)
      obtain ⟨_, rfl⟩ := List.cons.inj (begins'.symm.trans (h.rest_eq (z := []) spells left))
      cases readToken_slashes.symm.trans found
      exact ⟨_, readToken_slashes, line spells left (by simpa [isNewline] using all)⟩
    | @block body spells valid =>
      obtain ⟨d, read⟩ : ∃ d, blockComment c = .ok d := ⟨_, valid.read_block spells.rest⟩
      obtain ⟨rfl, rfl⟩ := List.cons.inj (begins.symm.trans spells.rest)
      obtain ⟨_, rfl⟩ := List.cons.inj (begins'.symm.trans (h.rest_eq (z := []) spells left))
      cases (readToken_block read).symm.trans found
      obtain ⟨d', read', behind, lines⟩ := blockComment_abreast h crossed begins read (z := []) left
      exact ⟨_, readToken_block read', rfl, rfl, behind, fun _ => lines⟩
  · have text' := h.rest_eq (z := []) spells left
    have parted : Parted ('\n' :: rest) := rfl
    obtain ⟨first', more'', stop, whole, read, left'⟩ := lexeme.read parted text'
    obtain ⟨rfl, rfl⟩ := List.cons.inj (whole.symm.trans begins')
    refine ⟨_, read, rfl, rfl, ?_, fun comment => absurd comment lexeme.significant.2⟩
    exact h.of_reaches (z := []) spells left (readToken_advances whole read).1.reaches left'

/-- A token that the tail touches is read alike before the other one: where names follow, a comment or a
mark of structure, and where the text ends and the other goes on with a new line, every token. -/
def Touches (tail tail' : List Char) (kind : TokenKind) : Prop :=
  BeginsName tail ∧ (kind = .comment ∨ ∃ p, kind = .punctuation p) ∨
    tail = [] ∧ ∃ rest, tail' = '\n' :: rest

/-- A token is read alike before blunt texts, as long as these do not touch it, or may. -/
theorem readToken_abreast {afterOperand : Bool} {first : Char} {more more' : List Char} {r : Reading}
    (h : Cursor.Abreast shift tail tail' c c') (crossed : c'.crossed = c.crossed)
    (blunt : Blunt tail) (blunt' : Blunt tail') (script : shift = 0 ∨ ¬ c.AtScript)
    (begins : c.rest = first :: more) (begins' : c'.rest = first :: more')
    (found : readToken afterOperand c first more = .ok r) (left : r.stop.rest = z ++ tail)
    (touches : z = [] → Touches tail tail' r.kind) :
    ∃ r', readToken afterOperand c' first more' = .ok r' ∧ r.Abreast shift tail tail' r' := by
  by_cases line : z = [] ∧ tail = [] ∧ ∃ rest, tail' = '\n' :: rest
  · obtain ⟨rfl, rfl, rest, rfl⟩ := line
    exact readToken_line h crossed script begins begins' found left
  · exact readToken_before h crossed blunt blunt' script begins begins' found left fun none =>
      (touches none).resolve_right fun ends => line ⟨none, ends⟩

end

end Scoping
