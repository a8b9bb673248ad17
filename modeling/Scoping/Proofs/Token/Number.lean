import Scoping.Proofs.Text.Cursor
import Scoping.Token.Literal

/-!
# What numbers are made of

A number is one with a radix, or a decimal one with its fraction, its exponent and the mark of a big
integer. What is read as a number is the text of one (`skipNumber_spells`). Unlike a string, it has no
mark that closes it: it is read as a whole where a gap or the end of the source comes next
(`NumberText.read`), as no gap goes on with any of its parts.
-/

namespace Scoping

/-- The fraction of a decimal number, or none. -/
inductive Fraction : List Char → Prop
  | none : Fraction []
  | point {digits : List Char} : digits.all continuesDigits = true → Fraction ('.' :: digits)

/-- The exponent of a decimal number, or none. -/
inductive Exponent : List Char → Prop
  | none : Exponent []
  | plain {mark x : Char} {digits : List Char} : mark = 'e' ∨ mark = 'E' → isDigit x = true →
    digits.all continuesDigits = true → Exponent (mark :: x :: digits)
  | signed {mark sign x : Char} {digits : List Char} : mark = 'e' ∨ mark = 'E' →
    sign = '+' ∨ sign = '-' → isDigit x = true → digits.all continuesDigits = true →
    Exponent (mark :: sign :: x :: digits)

/-- The text of a number: one with a radix, or a decimal one, which begins with a digit or with a
point before one. -/
inductive NumberText : List Char → Prop
  | radix {mark : Char} {body : List Char} : marksRadix mark = true →
    body.all continuesNumber = true → NumberText ('0' :: mark :: body)
  | whole {x : Char} {digits fraction exponent suffix : List Char} : isDigit x = true →
    digits.all continuesDigits = true → Fraction fraction → Exponent exponent →
    suffix = [] ∨ suffix = ['n'] → NumberText (x :: (digits ++ (fraction ++ (exponent ++ suffix))))
  | point {x : Char} {digits exponent suffix : List Char} : isDigit x = true →
    digits.all continuesDigits = true → Exponent exponent → suffix = [] ∨ suffix = ['n'] →
    NumberText ('.' :: x :: (digits ++ (exponent ++ suffix)))

theorem NumberText.ne_nil {text : List Char} (h : NumberText text) : text ≠ [] := by
  cases h <;> exact nofun

section
variable {c : Cursor} {x : Char} {text more tail : List Char}

/-! ## Characters of names and numbers are none of gaps -/

theorem isGap_of_continuesName (h : continuesName x = true) : isGap x = false := by
  simp only [continuesName, startsName, isLetter, isDigit, Bool.or_eq_true, Bool.and_eq_true,
    decide_eq_true_eq, beq_iff_eq, Char.le_def, UInt32.le_iff_toNat_le] at h
  have printing : 0x21 ≤ x.toNat ∧ x.toNat ≤ 0x7e := by
    rcases h with ((h | rfl) | rfl) | h
    · simp at h
      omega
    · decide
    · decide
    · simp at h
      omega
  exact isGap_of_printing printing.1 printing.2

theorem continuesDigits_of_isDigit (h : isDigit x = true) : continuesDigits x = true := by
  rw [continuesDigits, h, Bool.true_or]

theorem isGap_of_continuesDigits (h : continuesDigits x = true) : isGap x = false := by
  refine isGap_of_continuesName ?_
  unfold continuesDigits at h
  unfold continuesName startsName
  cases digit : isDigit x <;> simp_all

theorem isGap_of_continuesNumber (h : continuesNumber x = true) : isGap x = false := by
  refine isGap_of_continuesName ?_
  unfold continuesNumber at h
  unfold continuesName startsName
  cases letter : isLetter x <;> cases digit : isDigit x <;> simp_all

theorem isGap_of_marksRadix (h : marksRadix x = true) :
    isGap x = false ∧ continuesDigits x = false := by
  simp only [marksRadix, Bool.or_eq_true, beq_iff_eq] at h
  rcases h with ((((rfl | rfl) | rfl) | rfl) | rfl) | rfl <;> exact ⟨rfl, rfl⟩

theorem all_visible {p : Char → Bool} (visible : ∀ x, p x = true → isGap x = false)
    (all : text.all p = true) : (text.all fun x => !isGap x) = true := by
  rw [List.all_eq_true] at all ⊢
  intro x mem
  rw [visible x (all x mem)]
  rfl

/-- There is no gap in a number. -/
theorem NumberText.visible (h : NumberText text) : (text.all fun x => !isGap x) = true := by
  have digit {x : Char} (digit : isDigit x = true) : isGap x = false :=
    isGap_of_continuesDigits (continuesDigits_of_isDigit digit)
  have run {digits : List Char} (all : digits.all continuesDigits = true) :
      (digits.all fun x => !isGap x) = true := all_visible (fun _ => isGap_of_continuesDigits) all
  have fractionVisible {fraction : List Char} (h : Fraction fraction) :
      (fraction.all fun x => !isGap x) = true := by
    cases h with
    | none => rfl
    | point all =>
      rw [List.all_cons, run all]
      rfl
  have exponentVisible {exponent : List Char} (h : Exponent exponent) :
      (exponent.all fun x => !isGap x) = true := by
    cases h with
    | none => rfl
    | plain marks first all =>
      rw [List.all_cons, List.all_cons, run all, digit first]
      rcases marks with rfl | rfl <;> rfl
    | signed marks signs first all =>
      rw [List.all_cons, List.all_cons, List.all_cons, run all, digit first]
      rcases marks with rfl | rfl <;> rcases signs with rfl | rfl <;> rfl
  have suffixVisible {suffix : List Char} (h : suffix = [] ∨ suffix = ['n']) :
      (suffix.all fun x => !isGap x) = true := by
    rcases h with rfl | rfl <;> rfl
  cases h with
  | radix mark all =>
    rw [List.all_cons, List.all_cons, all_visible (fun _ => isGap_of_continuesNumber) all,
      (isGap_of_marksRadix mark).1]
    rfl
  | whole first all fraction exponent suffix =>
    rw [List.all_cons, List.all_append, List.all_append, List.all_append, digit first, run all,
      fractionVisible fraction, exponentVisible exponent, suffixVisible suffix]
    rfl
  | point first all exponent suffix =>
    rw [List.all_cons, List.all_cons, List.all_append, List.all_append, digit first, run all,
      exponentVisible exponent, suffixVisible suffix]
    rfl

/-! ## What is read as a number -/

theorem skipFraction_spells (c : Cursor) :
    ∃ text, Fraction text ∧ c.Spells c.skipFraction text := by
  unfold Cursor.skipFraction
  split
  · next point =>
    obtain ⟨rest, left⟩ := List.head?_eq_some_iff.mp (eq_of_beq point)
    obtain ⟨digits, all, _, spells⟩ := c.next.skipWhile_spells continuesDigits
    exact ⟨_, .point all, (Cursor.Spells.next left).trans spells⟩
  · exact ⟨[], .none, .refl c⟩

theorem skipExponent_spells (c : Cursor) :
    ∃ text, Exponent text ∧ c.Spells c.skipExponent text := by
  unfold Cursor.skipExponent
  split
  · next mark x rest left =>
    have second := Cursor.next_rest left
    have both := (Cursor.Spells.next left).trans (Cursor.Spells.next second)
    split
    · exact ⟨[], .none, .refl c⟩
    · next marks =>
      have marks : mark = 'e' ∨ mark = 'E' := by
        by_cases small : mark = 'e' <;> simp_all
      split
      · next digit =>
        obtain ⟨digits, all, _, spells⟩ := c.next.next.skipWhile_spells continuesDigits
        exact ⟨_, .plain marks digit all, both.trans spells⟩
      · split
        · next signed =>
          simp only [Bool.and_eq_true, Bool.or_eq_true, beq_iff_eq] at signed
          obtain ⟨sign, digit⟩ := signed
          obtain ⟨y, rest, rfl, digit⟩ := exists_cons_of_head?_any digit
          have third := Cursor.next_rest second
          rw [Cursor.skipWhile_next third (continuesDigits_of_isDigit digit)]
          obtain ⟨digits, all, _, spells⟩ := c.next.next.next.skipWhile_spells continuesDigits
          exact ⟨_, .signed marks sign digit all,
            both.trans ((Cursor.Spells.next third).trans spells)⟩
        · exact ⟨[], .none, .refl c⟩
  · exact ⟨[], .none, .refl c⟩

theorem skipIf_spells (x : Char) (c : Cursor) :
    ∃ text, (text = [] ∨ text = [x]) ∧ c.Spells (c.skipIf x) text := by
  unfold Cursor.skipIf
  split
  · next here =>
    obtain ⟨rest, left⟩ := List.head?_eq_some_iff.mp (eq_of_beq here)
    exact ⟨[x], .inr rfl, .next left⟩
  · exact ⟨[], .inl rfl, .refl c⟩

/-- The rest of a number behind its whole part. -/
theorem skipExponent_skipIf_spells (c : Cursor) : ∃ exponent suffix, Exponent exponent ∧
    (suffix = [] ∨ suffix = ['n']) ∧ c.Spells (c.skipExponent.skipIf 'n') (exponent ++ suffix) := by
  obtain ⟨exponent, valid, spells⟩ := skipExponent_spells c
  obtain ⟨suffix, either, spells'⟩ := skipIf_spells 'n' c.skipExponent
  exact ⟨exponent, suffix, valid, either, spells.trans spells'⟩

/-- A number that is read is one. -/
theorem skipNumber_spells (left : c.rest = x :: more)
    (number : isDigit x = true ∨ x = '.' ∧ more.head?.any isDigit = true) :
    ∃ text, NumberText text ∧ c.Spells c.skipNumber text := by
  have second := Cursor.next_rest left
  unfold Cursor.skipNumber
  split
  · next radix =>
    rw [left, second] at radix
    simp only [List.head?_cons, Bool.and_eq_true, beq_iff_eq, Option.some.injEq] at radix
    obtain ⟨rfl, marks⟩ := radix
    obtain ⟨mark, rest, rfl, marks⟩ := exists_cons_of_head?_any marks
    obtain ⟨body, all, _, spells⟩ := c.next.next.skipWhile_spells continuesNumber
    exact ⟨_, .radix marks all,
      (Cursor.Spells.next left).trans ((Cursor.Spells.next second).trans spells)⟩
  · rcases number with digit | ⟨rfl, digit⟩
    · rw [Cursor.skipWhile_next left (continuesDigits_of_isDigit digit)]
      obtain ⟨digits, all, _, spells⟩ := c.next.skipWhile_spells continuesDigits
      obtain ⟨fraction, valid, spellsFraction⟩ :=
        skipFraction_spells (c.next.skipWhile continuesDigits)
      obtain ⟨exponent, suffix, valid', either, spellsRest⟩ :=
        skipExponent_skipIf_spells (c.next.skipWhile continuesDigits).skipFraction
      exact ⟨_, .whole digit all valid valid' either,
        (Cursor.Spells.next left).trans (spells.trans (spellsFraction.trans spellsRest))⟩
    · obtain ⟨y, rest, rfl, digit⟩ := exists_cons_of_head?_any digit
      have fraction : (c.skipWhile continuesDigits).skipFraction =
          c.next.next.skipWhile continuesDigits := by
        rw [Cursor.skipWhile_eq_self (by rw [left]; rfl), Cursor.skipFraction, left]
        exact Cursor.skipWhile_next second (continuesDigits_of_isDigit digit)
      rw [fraction]
      obtain ⟨digits, all, _, spells⟩ := c.next.next.skipWhile_spells continuesDigits
      obtain ⟨exponent, suffix, valid, either, spellsRest⟩ :=
        skipExponent_skipIf_spells (c.next.next.skipWhile continuesDigits)
      exact ⟨_, .point digit all valid either, (Cursor.Spells.next left).trans
        ((Cursor.Spells.next second).trans (spells.trans spellsRest))⟩

/-! ## Which numbers are read -/

theorem Exponent.stops {p : Char → Bool} (h : Exponent text) (small : p 'e' = false)
    (capital : p 'E' = false) : Stops p text := by
  cases h with
  | none => rfl
  | plain marks _ _ => rcases marks with rfl | rfl <;> assumption
  | signed marks _ _ _ => rcases marks with rfl | rfl <;> assumption

theorem Fraction.stops {p : Char → Bool} (h : Fraction text) (point : p '.' = false) :
    Stops p text := by
  cases h with
  | none => rfl
  | point _ => exact point

theorem stops_suffix {p : Char → Bool} (h : text = [] ∨ text = ['n']) (suffix : p 'n' = false) :
    Stops p text := by
  rcases h with rfl | rfl
  · rfl
  · exact suffix

/-- A fraction is read, if no digit and no point comes behind it. -/
theorem Fraction.read (h : Fraction text) (left : c.rest = text ++ more)
    (digits : Stops continuesDigits more) (point : Stops (· == '.') more) :
    c.skipFraction.rest = more := by
  unfold Cursor.skipFraction
  cases h with
  | none =>
    rw [left, List.nil_append, point.head?_ne]
    exact left
  | point all =>
    rw [left, List.cons_append]
    exact Cursor.skipWhile_rest (Cursor.next_rest left) all digits

/-- An exponent is read, if no digit and no mark of an exponent comes behind it. -/
theorem Exponent.read (h : Exponent text) (left : c.rest = text ++ more)
    (digits : Stops continuesDigits more) (mark : Stops (fun x => x == 'e' || x == 'E') more) :
    c.skipExponent.rest = more := by
  unfold Cursor.skipExponent
  cases h with
  | none =>
    rw [left, List.nil_append]
    split
    · next first _ _ =>
      have other : (first != 'e' && first != 'E') = true := by
        simpa [Stops, Bool.or_eq_false_iff] using mark
      rw [if_pos other]
      exact left
    · exact left
  | @plain first x ds marks digit all =>
    have behind := Cursor.next_rest (Cursor.next_rest left)
    have goesOn : (first != 'e' && first != 'E') = false := by
      rcases marks with rfl | rfl <;> rfl
    simp only [left, List.cons_append, goesOn, digit, Bool.false_eq_true, ↓reduceIte]
    exact Cursor.skipWhile_rest behind all digits
  | @signed first sign x ds marks signs digit all =>
    have behind := Cursor.next_rest (Cursor.next_rest left)
    have all := Bool.and_eq_true_iff.mpr ⟨continuesDigits_of_isDigit digit, all⟩
    have goesOn : (first != 'e' && first != 'E') = false := by
      rcases marks with rfl | rfl <;> rfl
    have notDigit : isDigit sign = false := by rcases signs with rfl | rfl <;> rfl
    have signs : (sign == '+' || sign == '-') = true := by rcases signs with rfl | rfl <;> rfl
    simp only [left, List.cons_append, goesOn, notDigit, signs, List.head?_cons, Option.any_some,
      digit, Bool.false_eq_true, Bool.and_true, ↓reduceIte]
    exact Cursor.skipWhile_rest behind all digits

theorem skipIf_rest (h : text = [] ∨ text = [x]) (left : c.rest = text ++ more)
    (other : Stops (· == x) more) : (c.skipIf x).rest = more := by
  unfold Cursor.skipIf
  rcases h with rfl | rfl
  · rw [left, List.nil_append, other.head?_ne]
    exact left
  · rw [left, List.singleton_append, List.head?_cons, beq_self_eq_true]
    exact Cursor.next_rest left

/-- A class that shares no character with gaps, exponents and suffixes is stopped by what stands behind
the digits of a number. -/
theorem stops_behind {p : Char → Bool} {exponent suffix : List Char} (valid : Exponent exponent)
    (either : suffix = [] ∨ suffix = ['n']) (parted : Parted tail)
    (shows : ∀ x, p x = true → isGap x = false) (other : ['e', 'E', 'n'].all (!p ·) = true) :
    Stops p (exponent ++ (suffix ++ tail)) := by
  simp only [List.all_cons, List.all_nil, Bool.and_true, Bool.and_eq_true, Bool.not_eq_true'] at other
  exact (valid.stops other.1 other.2.1).append
    ((stops_suffix either other.2.2).append (parted.stops shows))

theorem skipExponent_skipIf_rest {exponent suffix : List Char} (valid : Exponent exponent)
    (either : suffix = [] ∨ suffix = ['n']) (parted : Parted tail)
    (left : c.rest = exponent ++ (suffix ++ tail)) : (c.skipExponent.skipIf 'n').rest = tail := by
  have digits : Stops continuesDigits (suffix ++ tail) :=
    stops_behind .none either parted (fun _ => isGap_of_continuesDigits) rfl
  have mark : Stops (fun x => x == 'e' || x == 'E') (suffix ++ tail) := by
    refine (stops_suffix either rfl).append (parted.stops fun x h => ?_)
    simp only [Bool.or_eq_true, beq_iff_eq] at h
    rcases h with rfl | rfl <;> rfl
  refine skipIf_rest either (valid.read left digits mark) (parted.stops fun x h => ?_)
  rw [eq_of_beq h]
  rfl

/-- A number is read, if what comes behind it is parted from it. -/
theorem NumberText.read (h : NumberText text) (parted : Parted tail) (left : c.rest = text ++ tail) :
    c.skipNumber.rest = tail := by
  unfold Cursor.skipNumber
  cases h with
  | @radix mark body marks all =>
    have second := Cursor.next_rest left
    have third := Cursor.next_rest second
    rw [left, second, if_pos (by simpa using marks)]
    exact Cursor.skipWhile_rest third all (parted.stops fun _ => isGap_of_continuesNumber)
  | @whole x digits fraction exponent suffix digit all valid valid' either =>
    simp only [List.cons_append, List.append_assoc] at left
    have second := Cursor.next_rest left
    have behind {p : Char → Bool} (shows : ∀ x, p x = true → isGap x = false)
        (other : ['.', 'e', 'E', 'n'].all (!p ·) = true) :
        Stops p (fraction ++ (exponent ++ (suffix ++ tail))) := by
      rw [List.all_cons, Bool.and_eq_true, Bool.not_eq_true'] at other
      exact (valid.stops other.1).append (stops_behind valid' either parted shows other.2)
    have decimal : Stops marksRadix c.next.rest := by
      rw [second]
      refine Stops.append ?_ (behind (fun x h => (isGap_of_marksRadix h).1) rfl)
      exact .of_all all fun x h => (isGap_of_marksRadix h).2
    rw [Stops] at decimal
    rw [decimal, Bool.and_false, if_neg Bool.false_ne_true]
    have all : (x :: digits).all continuesDigits = true :=
      Bool.and_eq_true_iff.mpr ⟨continuesDigits_of_isDigit digit, all⟩
    have leftDigits : (c.skipWhile continuesDigits).rest = _ := Cursor.skipWhile_rest left all
      (behind (fun _ => isGap_of_continuesDigits) rfl)
    refine skipExponent_skipIf_rest valid' either parted (valid.read leftDigits ?_ ?_)
    · exact stops_behind valid' either parted (fun _ => isGap_of_continuesDigits) rfl
    · exact stops_behind valid' either parted (fun x h => by rw [eq_of_beq h]; rfl) rfl
  | @point x digits exponent suffix digit all valid either =>
    simp only [List.cons_append, List.append_assoc] at left
    have second := Cursor.next_rest left
    have point : c.skipWhile continuesDigits = c :=
      Cursor.skipWhile_eq_self (by rw [left]; rfl)
    have all : (x :: digits).all continuesDigits = true :=
      Bool.and_eq_true_iff.mpr ⟨continuesDigits_of_isDigit digit, all⟩
    have stops := stops_behind valid either parted (fun _ => isGap_of_continuesDigits) rfl
    rw [left, point]
    refine skipExponent_skipIf_rest valid either parted ?_
    rw [Cursor.skipFraction, left]
    exact Cursor.skipWhile_rest second all stops

end

end Scoping
