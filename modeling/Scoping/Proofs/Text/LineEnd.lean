import Mathlib.Data.Set.Card
import Mathlib.Order.Interval.Finset.Nat
import Scoping.Proofs.Text.Line

/-!
# Line ends

Where a line of a text ends is said of its characters alone (`LineEndsAt`): behind an LF, whether or
not a CR stands before it, and behind a CR that no LF follows. So the offset between the CR and the LF
of a pair ends no line. Behind the first line, the lines of a source begin exactly at those offsets
(`LineMap.lineStart?_iff`), in order. So the line of an offset counts the line ends at or before it
(`LineMap.position_line`), and from the start of that line the column leads back to the offset
(`LineMap.position_round_trip`).
-/

namespace Scoping

/-- A line of the text ends at the offset: right behind an LF, or right behind a CR that no LF
follows. -/
def LineEndsAt (cs : List Char) (offset : Nat) : Prop :=
  ∃ before x behind, cs = before ++ x :: behind ∧ offset = byteSize before + x.utf8Size ∧
    (x = '\n' ∨ x = '\r' ∧ behind.head? ≠ some '\n')

namespace LineEndsAt

variable {cs : List Char} {offset : Nat}

theorem pos (h : LineEndsAt cs offset) : 0 < offset := by
  obtain ⟨before, x, behind, _, rfl, _⟩ := h
  have := x.utf8Size_pos
  omega

theorem le_size (h : LineEndsAt cs offset) : offset ≤ byteSize cs := by
  obtain ⟨before, x, behind, rfl, rfl, _⟩ := h
  rw [byteSize_append, byteSize_cons]
  omega

/-- One character further on, a line has ended there or none has. -/
theorem step (before : List Char) (x : Char) (behind : List Char) (offset : Nat) :
    (LineEndsAt (before ++ x :: behind) offset ∧ offset ≤ byteSize before + x.utf8Size) ↔
      (LineEndsAt (before ++ x :: behind) offset ∧ offset ≤ byteSize before) ∨
        (offset = byteSize before + x.utf8Size ∧ (x = '\n' ∨ x = '\r' ∧ behind.head? ≠ some '\n')) := by
  constructor
  · rintro ⟨⟨u, y, v, split, rfl, ends⟩, le⟩
    have := y.utf8Size_pos
    rcases Nat.lt_or_ge (byteSize u) (byteSize before) with less | ge
    · -- The character that ends the line stands before, and so does its end.
      left
      refine ⟨⟨u, y, v, split, rfl, ends⟩, ?_⟩
      obtain ⟨between, rfl, rest⟩ := append_of_byteSize_le split (Nat.le_of_lt less)
      cases between with
      | nil => simp at less
      | cons z between =>
        cases rest
        rw [byteSize_append, byteSize_cons]
        omega
    · right
      obtain ⟨between, rfl, rest⟩ := append_of_byteSize_le split.symm ge
      cases between with
      | nil =>
        cases rest
        rw [List.append_nil]
        exact ⟨rfl, ends⟩
      | cons z between =>
        cases rest
        rw [byteSize_append, byteSize_cons] at le
        omega
  · rintro (⟨ended, le⟩ | ⟨rfl, ends⟩)
    · exact ⟨ended, by omega⟩
    · exact ⟨⟨before, x, behind, rfl, rfl, ends⟩, Nat.le_refl _⟩

end LineEndsAt

/-- The lines that begin up to the offset are the first and those behind the line ends passed. -/
def BeginAtEnds (cs : List Char) (offset : Nat) (lines : Array Line) : Prop :=
  ∀ k, (∃ l ∈ lines, l.start = k) ↔ k = 0 ∨ LineEndsAt cs k ∧ k ≤ offset

namespace BeginAtEnds

variable {cs before rest : List Char} {offset next : Nat} {lines : Array Line}

/-- Further on, where a line ends only at the new offset, and a line has been added there. -/
theorem push (h : BeginAtEnds cs offset lines)
    (ended : ∀ k, (LineEndsAt cs k ∧ k ≤ next) ↔ (LineEndsAt cs k ∧ k ≤ offset) ∨ k = next) :
    BeginAtEnds cs next (lines.push ⟨next, rest⟩) := by
  intro k
  rw [ended k, ← or_assoc, ← h k]
  constructor
  · rintro ⟨l, mem, rfl⟩
    rcases Array.mem_push.mp mem with old | rfl
    · exact .inl ⟨l, old, rfl⟩
    · exact .inr rfl
  · rintro (⟨l, mem, rfl⟩ | rfl)
    · exact ⟨l, Array.mem_push.mpr (.inl mem), rfl⟩
    · exact ⟨_, Array.mem_push.mpr (.inr rfl), rfl⟩

/-- Further on, where no line ends. -/
theorem ahead (h : BeginAtEnds cs offset lines)
    (ended : ∀ k, (LineEndsAt cs k ∧ k ≤ next) ↔ (LineEndsAt cs k ∧ k ≤ offset)) :
    BeginAtEnds cs next lines := by
  intro k
  rw [ended k]
  exact h k

theorem linesFrom (h : BeginAtEnds cs offset lines) (split : cs = before ++ rest)
    (here : offset = byteSize before) :
    BeginAtEnds cs (byteSize cs) (linesFrom lines offset rest) := by
  fun_induction Scoping.linesFrom lines offset rest generalizing before with
  | case1 lines offset =>
    rw [List.append_nil] at split
    rw [split, ← here, ← split]
    exact h
  | case2 lines offset rest ih =>
    have split' : cs = (before ++ ['\r', '\n']) ++ rest := by rw [split]; simp
    have here' : offset + 2 = byteSize (before ++ ['\r', '\n']) := by
      rw [here, byteSize_append]
      rfl
    apply ih (h.push _) split' here'
    intro k
    -- The pair is two characters, and a line ends only behind the second.
    have cr := LineEndsAt.step before '\r' ('\n' :: rest) k
    have lf := LineEndsAt.step (before ++ ['\r']) '\n' rest k
    have one : Char.utf8Size '\r' = 1 := rfl
    have one' : Char.utf8Size '\n' = 1 := rfl
    rw [List.append_assoc, List.singleton_append, byteSize_append, byteSize_cons, byteSize_nil,
      Nat.add_zero, one, one', ← split, ← here] at lf
    rw [one, ← split, ← here] at cr
    simp only [List.head?_cons, ne_eq, not_true_eq_false, and_false, or_false] at cr
    simp only [true_or, and_true] at lf
    rw [show offset + 2 = offset + 1 + 1 from rfl, lf, cr]
    simp
  | case3 lines offset c rest lone next =>
    rename_i ih
    have split' : cs = (before ++ [c]) ++ rest := by rw [split]; simp
    have here' : next = byteSize (before ++ [c]) := by
      rw [byteSize_append, ← here]
      rfl
    have ended k := LineEndsAt.step before c rest k
    rw [← split, ← here] at ended
    apply ih _ split' here'
    by_cases newline : isNewline c = true
    · rw [if_pos newline]
      apply h.push
      intro k
      have ends : c = '\n' ∨ c = '\r' ∧ rest.head? ≠ some '\n' := by
        rcases Bool.or_eq_true _ _ ▸ newline with lf | cr
        · exact .inl (eq_of_beq lf)
        · refine .inr ⟨eq_of_beq cr, ?_⟩
          intro follows
          obtain ⟨more, rfl⟩ := List.head?_eq_some_iff.mp follows
          exact lone more (eq_of_beq cr) rfl
      rw [ended k]
      simp only [ends, and_true]
      rfl
    · rw [if_neg newline]
      apply h.ahead
      intro k
      have goes : ¬ (c = '\n' ∨ c = '\r' ∧ rest.head? ≠ some '\n') := by
        rintro (rfl | ⟨rfl, _⟩) <;> exact newline rfl
      rw [ended k]
      simp only [goes, and_false, or_false]

end BeginAtEnds

namespace LineMap

variable {source : String} {offset i j s t : Nat}

/-- The lines of a source begin at its start and where lines end, and nowhere else. -/
theorem lineStart?_iff (source : String) (offset : Nat) :
    (∃ i, (ofSource source).lineStart? i = some offset) ↔
      offset = 0 ∨ LineEndsAt source.toList offset := by
  have first : BeginAtEnds source.toList 0 #[⟨0, source.toList⟩] := by
    intro k
    constructor
    · rintro ⟨l, mem, rfl⟩
      exact .inl (by rw [Array.mem_singleton.mp mem])
    · rintro (rfl | ⟨ended, le⟩)
      · exact ⟨_, Array.mem_singleton.mpr rfl, rfl⟩
      · have := ended.pos
        omega
  have all := first.linesFrom (List.nil_append _).symm rfl offset
  have ended : LineEndsAt source.toList offset ∧ offset ≤ byteSize source.toList ↔
      LineEndsAt source.toList offset := and_iff_left_of_imp LineEndsAt.le_size
  rw [ended] at all
  rw [← all]
  unfold lineStart?
  constructor
  · rintro ⟨i, at_i⟩
    obtain ⟨l, found, start⟩ := Option.map_eq_some_iff.mp at_i
    exact ⟨l, Array.mem_of_getElem? found, start⟩
  · rintro ⟨l, mem, start⟩
    obtain ⟨i, found⟩ := Array.mem_iff_getElem?.mp mem
    refine ⟨i, ?_⟩
    rw [show (ofSource source).lines[i]? = some l from found, Option.map_some, start]

/-- The first line begins at the start, where no line ends. -/
theorem lineStart?_zero (source : String) : (ofSource source).lineStart? 0 = some 0 := by
  unfold lineStart?
  rw [(linesOf source).first]
  rfl

/-- Lines further down begin further on. -/
theorem lineStart?_strict (less : i < j) (at_i : (ofSource source).lineStart? i = some s)
    (at_j : (ofSource source).lineStart? j = some t) : s < t := by
  obtain ⟨l, found, rfl⟩ := Option.map_eq_some_iff.mp at_i
  obtain ⟨m, found', rfl⟩ := Option.map_eq_some_iff.mp at_j
  obtain ⟨inside, rfl⟩ := Array.getElem?_eq_some_iff.mp found
  obtain ⟨inside', rfl⟩ := Array.getElem?_eq_some_iff.mp found'
  have sorted := List.pairwise_iff_getElem.mp (linesOf source).sorted
  simp only [Array.length_toList, Array.getElem_toList] at sorted
  exact sorted i j inside inside' less

/-- A line begins at or before an offset when it is no further down than the line of the offset. -/
theorem lineStart?_le_iff (at_i : (ofSource source).lineStart? i = some s) :
    s ≤ offset ↔ i ≤ (ofSource source).lineOf offset := by
  obtain ⟨l, at_line, le, last⟩ := lineOf_spec source offset
  obtain ⟨m, found, rfl⟩ := Option.map_eq_some_iff.mp at_i
  refine ⟨last i m found, fun above => ?_⟩
  rcases Nat.lt_or_eq_of_le above with less | rfl
  · have line : (ofSource source).lineStart? ((ofSource source).lineOf offset) = some l.start := by
      rw [lineStart?, at_line, Option.map_some]
    have := lineStart?_strict less at_i line
    omega
  · rw [at_line] at found
    cases found
    exact le

/-- The line of an offset counts the line ends at or before it. -/
theorem lineOf_eq (source : String) (offset : Nat) :
    (ofSource source).lineOf offset = {k | LineEndsAt source.toList k ∧ k ≤ offset}.ncard := by
  obtain ⟨l, at_line, _, _⟩ := lineOf_spec source offset
  have inside := (Array.getElem?_eq_some_iff.mp at_line).1
  let start (i : Nat) := ((ofSource source).lineStart? i).getD 0
  have start_eq {i : Nat} (le : i ≤ (ofSource source).lineOf offset) :
      (ofSource source).lineStart? i = some (start i) := by
    have here : i < (ofSource source).lines.size := Nat.lt_of_le_of_lt le inside
    simp only [start, lineStart?, Array.getElem?_eq_getElem here, Option.map_some, Option.getD_some]
  have image : {k | LineEndsAt source.toList k ∧ k ≤ offset} =
      start '' (Finset.Ioc 0 ((ofSource source).lineOf offset)) := by
    ext k
    simp only [Set.mem_ofPred_eq, Set.mem_image, Finset.coe_Ioc, Set.mem_Ioc]
    constructor
    · rintro ⟨ended, le⟩
      obtain ⟨i, at_i⟩ := (lineStart?_iff source k).mpr (.inr ended)
      have above := (lineStart?_le_iff at_i).mp le
      refine ⟨i, ⟨?_, above⟩, ?_⟩
      · apply Nat.pos_of_ne_zero
        rintro rfl
        rw [lineStart?_zero] at at_i
        cases at_i
        exact absurd ended.pos (Nat.lt_irrefl 0)
      · rw [start_eq above] at at_i
        exact Option.some.inj at_i
    · rintro ⟨i, ⟨pos, above⟩, rfl⟩
      have at_i := start_eq above
      have later := lineStart?_strict pos (lineStart?_zero source) at_i
      refine ⟨?_, (lineStart?_le_iff at_i).mpr above⟩
      rcases (lineStart?_iff source (start i)).mp ⟨i, at_i⟩ with zero | ended
      · omega
      · exact ended
  have injective : Set.InjOn start (Finset.Ioc 0 ((ofSource source).lineOf offset)) := by
    intro i mem j mem' same
    rw [Finset.coe_Ioc, Set.mem_Ioc] at mem mem'
    rcases Nat.lt_trichotomy i j with less | rfl | less
    · have := lineStart?_strict less (start_eq mem.2) (start_eq mem'.2)
      omega
    · rfl
    · have := lineStart?_strict less (start_eq mem'.2) (start_eq mem.2)
      omega
  rw [image, injective.ncard_image, Set.ncard_coe_finset, Nat.card_Ioc, Nat.sub_zero]

end LineMap

/-- What a position of a source says of an offset: its line is the number of lines that end at the
offset or before, and so many characters as its column says lead from the start of that line to the
offset. -/
structure Position.Marks (source : String) (offset : Nat) (p : Position) : Prop where
  line : p.line = {k | LineEndsAt source.toList k ∧ k ≤ offset}.ncard
  column : ∃ outer rest, source.toList = outer ++ rest ∧
    (LineMap.ofSource source).lineStart? p.line = some (byteSize outer) ∧
    p.character ≤ rest.length ∧ byteSize (outer ++ rest.take p.character) = offset

namespace LineMap

variable {source : String} {offset : Nat}

/-- Where a character ends, the position marks the offset. -/
theorem position_marks (here : Boundary source.toList offset) :
    ((ofSource source).position offset).Marks source offset := by
  obtain ⟨before, behind, split, rfl⟩ := here
  obtain ⟨l, outer, between, at_line, whole, rfl, start, position⟩ := position_eq split
  rw [position]
  constructor
  case line => exact lineOf_eq source _
  case column =>
    have rest : l.rest = between ++ behind := by
      rw [whole, List.append_assoc] at split
      exact List.append_cancel_left split
    refine ⟨outer, l.rest, whole, ?_, ?_, ?_⟩
    · rw [lineStart?, at_line, Option.map_some, start]
    · rw [rest, List.length_append]
      exact Nat.le_add_right _ _
    · rw [rest, List.take_left]

/-- Offsets and positions of a source agree both ways: where a character ends, the position tells the
line ends passed and leads back to the offset. Positions grow with the offset there, lines further
down begin further on, and past the end every offset has the position of the end. -/
theorem position_round_trip (source : String) :
    (∀ offset, Boundary source.toList offset →
      ((ofSource source).position offset).Marks source offset) ∧
    (∀ offset offset', Boundary source.toList offset → Boundary source.toList offset' →
      offset < offset' → ((ofSource source).position offset).Before
        ((ofSource source).position offset')) ∧
    (∀ i j s t, i < j → (ofSource source).lineStart? i = some s →
      (ofSource source).lineStart? j = some t → s < t) ∧
    ∀ offset, source.utf8ByteSize ≤ offset →
      (ofSource source).position offset = (ofSource source).position source.utf8ByteSize := by
  refine ⟨fun _ => position_marks, fun _ _ => position_before, fun _ _ _ _ => lineStart?_strict, ?_⟩
  intro offset past
  unfold position
  rw [show (ofSource source).size = source.utf8ByteSize from rfl, Nat.min_eq_right past, Nat.min_self]

/-- Between the CR and the LF of a pair, behind a letter of two bytes: still on the first line, two
characters on, and before the start of the second line. -/
theorem position_round_trip_inside_pair :
    ((ofSource "é\r\nb").position 3).Marks "é\r\nb" 3 ∧
      (ofSource "é\r\nb").position 3 = ⟨0, 2⟩ ∧ (ofSource "é\r\nb").position 4 = ⟨1, 0⟩ ∧
      (Position.mk 0 2).Before ⟨1, 0⟩ ∧ (0 : Nat) < 4 ∧
      (ofSource "é\r\nb").position 9 = (ofSource "é\r\nb").position 5 := by
  obtain ⟨marks, grows, strict, past⟩ := position_round_trip "é\r\nb"
  have inside : Boundary "é\r\nb".toList 3 := ⟨['é', '\r'], ['\n', 'b'], rfl, rfl⟩
  have second : Boundary "é\r\nb".toList 4 := ⟨['é', '\r', '\n'], ['b'], rfl, rfl⟩
  exact ⟨marks 3 inside, by decide +kernel, by decide +kernel, grows 3 4 inside second (by decide),
    strict 0 1 0 4 (by decide) (by decide +kernel) (by decide +kernel), past 9 (by decide +kernel)⟩

end LineMap

end Scoping
