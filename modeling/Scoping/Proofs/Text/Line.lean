import Scoping.Proofs.Text.Bisect
import Scoping.Text.Line

/-!
# Positions on a line map

The lines of a source begin one behind the other, and each holds the source from there on
(`LinesOf`). So the line of an offset is the last that begins before it, and between the two stand as
many characters as the column says (`LineMap.position_eq`). Further on in the source positions are
greater (`LineMap.position_before`), where a character ends at both offsets.
-/

namespace Scoping

/-! ## Positions in order -/

/-- The position comes before the other: on an earlier line, or on the same line further left. -/
def Position.Before (p q : Position) : Prop :=
  p.line < q.line ∨ p.line = q.line ∧ p.character < q.character

theorem Position.Before.asymm {p q : Position} (h : p.Before q) : ¬ q.Before p := by
  unfold Before at *
  omega

theorem Position.not_before_self (p : Position) : ¬ p.Before p := fun h => h.asymm h

/-- A character of the text ends at the offset, or the text begins there. -/
def Boundary (cs : List Char) (offset : Nat) : Prop :=
  ∃ before behind, cs = before ++ behind ∧ offset = byteSize before

/-! ## Texts in bytes -/

theorem byteSize_toList (s : String) : byteSize s.toList = s.utf8ByteSize := by
  have ofList (cs : List Char) : (String.ofList cs).utf8ByteSize = byteSize cs := by
    induction cs with
    | nil => rfl
    | cons c cs ih =>
      rw [String.ofList_cons, String.utf8ByteSize_append, String.utf8ByteSize_singleton, ih,
        byteSize_cons]
  rw [← ofList, String.ofList_toList]

/-- Of two beginnings of a text, the one of fewer bytes begins the other. -/
theorem append_of_byteSize_le {u v x y : List Char} (h : u ++ v = x ++ y)
    (le : byteSize x ≤ byteSize u) : ∃ between, u = x ++ between ∧ y = between ++ v := by
  rcases List.append_eq_append_iff.mp h with ⟨between, rfl, rfl⟩ | ⟨between, rfl, rfl⟩
  · -- The longer one has no more bytes, so there is nothing between them.
    cases between with
    | nil => exact ⟨[], by simp, by simp⟩
    | cons c between =>
      have := c.utf8Size_pos
      rw [byteSize_append, byteSize_cons] at le
      omega
  · exact ⟨between, rfl, rfl⟩

/-- The columns of a text are its characters. -/
theorem columnFrom_append (counted : Nat) (between behind : List Char) :
    columnFrom counted (byteSize between) (between ++ behind) = counted + between.length := by
  induction between generalizing counted with
  | nil => cases behind <;> rfl
  | cons c between ih =>
    obtain ⟨n, size⟩ : ∃ n, byteSize (c :: between) = n + 1 :=
      Nat.exists_eq_succ_of_ne_zero (by have := c.utf8Size_pos; rw [byteSize_cons]; omega)
    have left : n + 1 - c.utf8Size = byteSize between := by
      rw [byteSize_cons] at size
      omega
    rw [size, List.cons_append, columnFrom, left, ih, List.length_cons]
    rw [byteSize_cons] at size
    rw [if_pos (by omega)]
    omega

/-! ## Lines -/

/-- Lines of a text that begin up to an offset. -/
structure LinesOf (cs : List Char) (offset : Nat) (lines : Array Line) : Prop where
  first : lines[0]? = some ⟨0, cs⟩
  suffix : ∀ l ∈ lines, ∃ before, cs = before ++ l.rest ∧ l.start = byteSize before
  sorted : lines.toList.Pairwise fun l m => l.start < m.start
  reached : ∀ l ∈ lines, l.start ≤ offset

namespace LinesOf

variable {cs before rest : List Char} {offset next : Nat} {lines : Array Line}

theorem ahead (h : LinesOf cs offset lines) (le : offset ≤ next) : LinesOf cs next lines where
  first := h.first
  suffix := h.suffix
  sorted := h.sorted
  reached l mem := Nat.le_trans (h.reached l mem) le

theorem push (h : LinesOf cs offset lines) (split : cs = before ++ rest) (here : next = byteSize before)
    (less : offset < next) : LinesOf cs next (lines.push ⟨next, rest⟩) := by
  constructor
  case first =>
    have inside := (Array.getElem?_eq_some_iff.mp h.first).1
    rw [Array.getElem?_push_lt inside, ← Array.getElem?_eq_getElem inside]
    exact h.first
  case suffix =>
    intro l mem
    rcases Array.mem_push.mp mem with old | rfl
    · exact h.suffix l old
    · exact ⟨before, split, here⟩
  case sorted =>
    rw [Array.toList_push]
    apply List.pairwise_append.mpr
    refine ⟨h.sorted, List.pairwise_singleton _ _, ?_⟩
    intro l mem m last
    rw [List.mem_singleton.mp last]
    exact Nat.lt_of_le_of_lt (h.reached l (Array.mem_toList_iff.mp mem)) less
  case reached =>
    intro l mem
    rcases Array.mem_push.mp mem with old | rfl
    · exact Nat.le_trans (h.reached l old) (Nat.le_of_lt less)
    · exact Nat.le_refl _

/-- The lines that begin behind an offset are found. -/
theorem linesFrom (h : LinesOf cs offset lines) (split : cs = before ++ rest)
    (here : offset = byteSize before) : LinesOf cs (byteSize cs) (linesFrom lines offset rest) := by
  fun_induction Scoping.linesFrom lines offset rest generalizing before with
  | case1 lines offset =>
    apply h.ahead
    rw [here, split, byteSize_append]
    exact Nat.le_add_right _ _
  | case2 lines offset rest ih =>
    have split' : cs = (before ++ ['\r', '\n']) ++ rest := by rw [split]; simp
    have here' : offset + 2 = byteSize (before ++ ['\r', '\n']) := by
      rw [here, byteSize_append]
      rfl
    exact ih (h.push split' here' (by omega)) split' here'
  | case3 lines offset c rest _ next =>
    rename_i ih
    have split' : cs = (before ++ [c]) ++ rest := by rw [split]; simp
    have here' : offset + c.utf8Size = byteSize (before ++ [c]) := by
      rw [here, byteSize_append]
      rfl
    have := c.utf8Size_pos
    apply ih _ split' here'
    by_cases ends : isNewline c = true
    · rw [if_pos ends]
      exact h.push split' here' (by omega)
    · rw [if_neg ends]
      exact h.ahead (by omega)

end LinesOf

namespace LineMap

variable {source : String} {offset offset' : Nat}

theorem linesOf (source : String) :
    LinesOf source.toList source.utf8ByteSize (ofSource source).lines := by
  have first : LinesOf source.toList 0 #[⟨0, source.toList⟩] := by
    constructor
    case first => rfl
    case suffix =>
      intro l mem
      obtain rfl := Array.mem_singleton.mp mem
      exact ⟨[], rfl, rfl⟩
    case sorted => exact List.pairwise_singleton _ _
    case reached =>
      intro l mem
      obtain rfl := Array.mem_singleton.mp mem
      exact Nat.le_refl 0
  rw [← byteSize_toList]
  exact first.linesFrom (List.nil_append _).symm rfl

/-- The line of an offset is the last that begins at or before it. -/
theorem lineOf_spec (source : String) (offset : Nat) :
    ∃ l, (ofSource source).lines[(ofSource source).lineOf offset]? = some l ∧ l.start ≤ offset ∧
      ∀ (i : Nat) (m : Line), (ofSource source).lines[i]? = some m → m.start ≤ offset →
        i ≤ (ofSource source).lineOf offset := by
  have lines := linesOf source
  have sorted := List.pairwise_iff_getElem.mp lines.sorted
  simp only [Array.length_toList, Array.getElem_toList] at sorted
  unfold lineOf
  generalize (ofSource source).lines = ls at *
  have down : ∀ i j, i ≤ j → j < ls.size → (ls[j]?).any (·.start ≤ offset) = true →
      (ls[i]?).any (·.start ≤ offset) = true := by
    intro i j le inside reached
    have inside' : i < ls.size := Nat.lt_of_le_of_lt le inside
    rw [Array.getElem?_eq_getElem inside, Option.any_some, decide_eq_true_eq] at reached
    rw [Array.getElem?_eq_getElem inside', Option.any_some, decide_eq_true_eq]
    rcases Nat.lt_or_eq_of_le le with less | rfl
    · have := sorted i j inside' inside less
      omega
    · exact reached
  obtain ⟨most, holds⟩ := bisect_spec down
  generalize bisect (fun i => (ls[i]?).any (·.start ≤ offset)) ls.size = count at *
  have some : 0 < count := by
    have inside := (Array.getElem?_eq_some_iff.mp lines.first).1
    apply (holds 0 inside).mp
    rw [lines.first, Option.any_some, decide_eq_true_eq]
    exact Nat.zero_le _
  have inside : count - 1 < ls.size := by omega
  have reached := (holds (count - 1) inside).mpr (by omega)
  rw [Array.getElem?_eq_getElem inside, Option.any_some, decide_eq_true_eq] at reached
  refine ⟨ls[count - 1], Array.getElem?_eq_getElem inside, reached, ?_⟩
  intro i m at_i before
  obtain ⟨inside', _⟩ := Array.getElem?_eq_some_iff.mp at_i
  have := (holds i inside').mp (by rw [at_i, Option.any_some, decide_eq_true_eq]; exact before)
  omega

/-- The position of a place in the source: its line begins at the place or before, and the column
counts the characters between. -/
theorem position_eq {before behind : List Char} (split : source.toList = before ++ behind) :
    ∃ (l : Line) (outer between : List Char),
      (ofSource source).lines[(ofSource source).lineOf (byteSize before)]? = some l ∧
      source.toList = outer ++ l.rest ∧ before = outer ++ between ∧ l.start = byteSize outer ∧
      (ofSource source).position (byteSize before) =
        ⟨(ofSource source).lineOf (byteSize before), between.length⟩ := by
  obtain ⟨l, at_line, le, _⟩ := lineOf_spec source (byteSize before)
  obtain ⟨outer, whole, start⟩ := (linesOf source).suffix l (Array.mem_of_getElem? at_line)
  obtain ⟨between, rfl, rest⟩ := append_of_byteSize_le (split.symm.trans whole) (start ▸ le)
  refine ⟨l, outer, between, at_line, whole, rfl, start, ?_⟩
  have inside : min (byteSize (outer ++ between)) (ofSource source).size =
      byteSize (outer ++ between) := by
    apply Nat.min_eq_left
    show _ ≤ source.utf8ByteSize
    rw [← byteSize_toList, split, byteSize_append _ behind]
    exact Nat.le_add_right _ _
  have column : byteSize (outer ++ between) - l.start = byteSize between := by
    rw [start, byteSize_append, Nat.add_sub_cancel_left]
  unfold position
  dsimp only
  rw [inside, at_line, Option.map_some, Option.getD_some, column, rest, columnFrom_append,
    Nat.zero_add]

/-- Further on in the source positions are greater. -/
theorem position_before (here : Boundary source.toList offset)
    (there : Boundary source.toList offset') (less : offset < offset') :
    ((ofSource source).position offset).Before ((ofSource source).position offset') := by
  obtain ⟨before, behind, split, rfl⟩ := here
  obtain ⟨before', behind', split', rfl⟩ := there
  obtain ⟨l, outer, between, at_line, whole, rfl, start, position⟩ := position_eq split
  obtain ⟨l', outer', between', at_line', whole', rfl, _, position'⟩ := position_eq split'
  obtain ⟨_, _, _, last⟩ := lineOf_spec source (byteSize (outer' ++ between'))
  have le : l.start ≤ byteSize (outer' ++ between') := by
    rw [byteSize_append outer] at less
    omega
  rw [position, position']
  rcases Nat.lt_or_eq_of_le (last _ l at_line le) with above | same
  · exact .inl above
  · -- Both stand on one line, which begins at one place.
    rw [same, at_line'] at at_line
    cases at_line
    have begun : outer = outer' := List.append_cancel_right (whole.symm.trans whole')
    subst begun
    obtain ⟨more, longer, _⟩ := append_of_byteSize_le (split'.symm.trans split) (Nat.le_of_lt less)
    rw [List.append_assoc] at longer
    have longer := List.append_cancel_left longer
    subst longer
    refine .inr ⟨same, ?_⟩
    cases more with
    | nil => simp at less
    | cons c more => simp

end LineMap

end Scoping
