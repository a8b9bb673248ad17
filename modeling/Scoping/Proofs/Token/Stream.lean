import Scoping.Proofs.Text.Line
import Scoping.Proofs.Token.ByteLexer

/-!
# A lexer in use

A lexer can be asked for the next token, asked again behind an error, and put back to the start, in
any order (`Call`). Whatever it was asked, it stands between two characters of its source
(`Stands`), so what it reads next is a piece of the source, and so is every token. Each answer lies
ahead of where the lexer stood, and a token that is not the end of input leaves it further on
(`Proceeds`), so nobody is given tokens without end.

That a lexer which keeps whole characters stands between two of them is no surprise. So the same calls
are made of the lexer over bytes, which keeps an offset and cuts the source there: it is never stuck,
gives the same answers, and its offset is always that of the other (`Alongside`).
-/

namespace Scoping

/-- A cursor that is reached from the start of a source stands between two of its characters. -/
theorem Cursor.Reaches.boundary {source : String} {c : Cursor} (h : (Cursor.start source).Reaches c) :
    Boundary source.toList c.offset := by
  obtain ⟨text, spells⟩ := h
  exact ⟨text, c.rest, spells.rest, spells.offset.trans (Nat.zero_add _)⟩

theorem Boundary.inside {source : String} {offset : Nat} (h : Boundary source.toList offset) :
    offset ≤ source.utf8ByteSize := by
  obtain ⟨before, behind, split, rfl⟩ := h
  rw [← byteSize_toList, split, byteSize_append]
  exact Nat.le_add_right _ _

/-! ## Calls -/

/-- What a lexer can be asked to do. -/
inductive TokenStream.Call where
  | next
  | scan
  | reset
  deriving DecidableEq, Repr, Inhabited

/-- What a call gives of a lexer over bytes, and the lexer behind it; nothing where it is stuck. -/
def ByteLexer.answer? (lx : ByteLexer) :
    TokenStream.Call → Option (Option (Except LexError Token) × ByteLexer)
  | .next => lx.next?
  | .scan => lx.scan?.map fun (answer, behind) => (some answer, behind)
  | .reset => some (none, lx.reset)

/-- The lexer over bytes behind a sequence of calls, if it was never stuck. -/
def ByteLexer.after? (lx : ByteLexer) (calls : List TokenStream.Call) : Option ByteLexer :=
  calls.foldlM (fun lx call => (lx.answer? call).map Prod.snd) lx

namespace TokenStream

/-- What a call gives, and the lexer behind it. -/
def answer (s : TokenStream) : Call → Option (Except LexError Token) × TokenStream
  | .next => s.next
  | .scan => (some s.scan.1, s.scan.2)
  | .reset => (none, s.reset)

/-- The lexer behind a sequence of calls. -/
def after (s : TokenStream) (calls : List Call) : TokenStream :=
  calls.foldl (fun s call => (s.answer call).2) s

/-- Where the lexer stands. -/
def position (s : TokenStream) : Nat := s.lexer.cursor.offset

/-- The lexer stands between two characters of the source, with what comes there still to read, and
so it does once it has skipped the gap before the next token. -/
structure Stands (s : TokenStream) (source : String) : Prop where
  inside : s.position ≤ source.utf8ByteSize
  boundary : Boundary source.toList s.position
  rest : dropBytes? s.position source.toList = some s.lexer.cursor.rest
  ahead : dropBytes? s.lexer.ahead.offset source.toList = some s.lexer.ahead.rest

/-- What a call gives lies between the place where the lexer stood and the one where it then stands.
A token is what is written there. -/
structure Proceeds (s : TokenStream) (source : String) (call : Call) : Prop where
  forwards : call ≠ .reset → s.position ≤ (s.answer call).2.position
  token : ∀ t, (s.answer call).1 = some (.ok t) →
    t.span.text? source.toList = some t.lexeme.toList ∧ s.position ≤ t.span.start ∧
      t.span.stop = (s.answer call).2.position ∧
      (t.isEnd = false → s.position < (s.answer call).2.position)
  error : ∀ e, (s.answer call).1 = some (.error e) →
    Boundary source.toList e.position ∧ s.position ≤ e.position ∧
      e.position ≤ (s.answer call).2.position

/-- The lexer over bytes stands where the other does and is not stuck: each call gives the same of both,
and leaves them at the same place. -/
structure Alongside (s : TokenStream) (b : ByteLexer) : Prop where
  place : b.offset = s.position
  answers : ∀ call, ∃ behind, b.answer? call = some ((s.answer call).1, behind) ∧
    behind.offset = (s.answer call).2.position

/-- The lexer of the stream, as one that keeps its place in bytes. -/
def inBytes (s : TokenStream) : ByteLexer := s.lexer.inBytes s.source s.finished

variable {s : TokenStream} {source : String}

/-- A call that gives nothing needs only not to go back. -/
theorem Proceeds.of_none {call : Call} (nothing : (s.answer call).1 = none)
    (forwards : call ≠ .reset → s.position ≤ (s.answer call).2.position) :
    s.Proceeds source call where
  forwards := forwards
  token t given := by
    rw [nothing] at given
    cases given
  error e given := by
    rw [nothing] at given
    cases given

/-- The lexer is one of the source, and has come from its start to where it stands. -/
structure Of (s : TokenStream) (source : String) : Prop where
  about : s.source = source
  reached : (Cursor.start source).Reaches s.lexer.cursor

namespace Of

theorem start (source : String) (limit : Option Nat) :
    (TokenStream.start source limit).Of source :=
  ⟨rfl, .refl _⟩

/-- Every call keeps to the source. -/
theorem answer (h : s.Of source) (call : Call) : (s.answer call).2.Of source := by
  have scanned : (Cursor.start source).Reaches s.lexer.scan.2.cursor :=
    h.reached.trans s.lexer.scan_reaches
  cases call with
  | next =>
    show s.next.2.Of source
    unfold TokenStream.next
    split
    · exact h
    · exact ⟨h.about, scanned⟩
  | scan => exact ⟨h.about, scanned⟩
  | reset =>
    show s.reset.Of source
    rw [reset, h.about]
    exact start source _

/-- So does every sequence of calls. -/
theorem after (h : s.Of source) (calls : List Call) : (s.after calls).Of source := by
  induction calls generalizing s with
  | nil => exact h
  | cons call calls ih => exact ih (h.answer call)

/-- Over bytes a call gives the same. -/
theorem answer_inBytes (h : s.Of source) (call : Call) :
    s.inBytes.answer? call = some ((s.answer call).1, (s.answer call).2.inBytes) := by
  have scanned : s.inBytes.scan? = some (s.lexer.scan.1, s.lexer.scan.2.inBytes s.source s.finished) :=
    Lexer.scan_inBytes (h.about.symm ▸ h.reached)
  cases call with
  | scan =>
    show s.inBytes.scan?.map _ = _
    rw [scanned]
    rfl
  | reset => rfl
  | next =>
    show s.inBytes.next? = some (s.next.1, s.next.2.inBytes)
    unfold ByteLexer.next? TokenStream.next
    by_cases finished : s.finished = true
    · rw [if_pos finished, if_pos (show s.inBytes.finished = true from finished)]
    · rw [if_neg finished, if_neg (show ¬ s.inBytes.finished = true from finished), scanned]
      rfl

theorem alongside (h : s.Of source) : s.Alongside s.inBytes where
  place := rfl
  answers call := ⟨_, h.answer_inBytes call, rfl⟩

/-- Over bytes every sequence of calls leads to the same place. -/
theorem after_inBytes (h : s.Of source) (calls : List Call) :
    s.inBytes.after? calls = some (s.after calls).inBytes := by
  induction calls generalizing s with
  | nil => rfl
  | cons call calls ih =>
    rw [ByteLexer.after?, List.foldlM_cons, h.answer_inBytes call]
    exact ih (h.answer call)

theorem ahead (h : s.Of source) : (Cursor.start source).Reaches s.lexer.ahead := by
  obtain ⟨gap, _, _, spells⟩ := s.lexer.cursor.skipGap_spells
  exact h.reached.trans ⟨gap, spells⟩

theorem stands (h : s.Of source) : s.Stands source where
  inside := h.reached.boundary.inside
  boundary := h.reached.boundary
  rest := h.reached.dropBytes?
  ahead := h.ahead.dropBytes?

/-- What is read next lies ahead, a token or an error. -/
theorem proceeds_scan (h : s.Of source) : s.Proceeds source .scan := by
  obtain ⟨gap, _, _, skipped⟩ := s.lexer.cursor.skipGap_spells
  have skipped : s.position ≤ s.lexer.ahead.offset := by
    have := skipped.offset
    unfold position Lexer.ahead
    omega
  constructor
  case forwards =>
    obtain ⟨text, spells⟩ := s.lexer.scan_reaches
    intro _
    show s.position ≤ s.lexer.scan.2.cursor.offset
    rw [spells.offset]
    exact Nat.le_add_right _ _
  case token =>
    intro t given
    have scanned : s.lexer.scan = (.ok t, s.lexer.scan.2) := Prod.ext (Option.some.inj given) rfl
    obtain ⟨body, spells, lexeme, span, wide⟩ := Lexer.scan_spells scanned
    refine ⟨?_, ?_, ?_, ?_⟩
    · rw [span, lexeme, spells.text? h.ahead, String.toList_ofList]
    · rw [span]
      exact skipped
    · rw [span]
      rfl
    · intro notEnd
      have some := byteSize_pos (wide notEnd)
      show s.position < s.lexer.scan.2.cursor.offset
      rw [spells.offset]
      omega
  case error =>
    intro e given
    have scanned : s.lexer.scan = (.error e, s.lexer.scan.2) := Prod.ext (Option.some.inj given) rfl
    obtain ⟨d, there, further, place⟩ := Lexer.scan_error scanned
    have boundary := (h.reached.trans there).boundary
    obtain ⟨before, there⟩ := there
    obtain ⟨behind, further⟩ := further
    rw [place]
    refine ⟨boundary, ?_, ?_⟩
    · rw [there.offset]
      exact Nat.le_add_right _ _
    · show d.offset ≤ s.lexer.scan.2.cursor.offset
      rw [further.offset]
      exact Nat.le_add_right _ _

theorem proceeds (h : s.Of source) (call : Call) : s.Proceeds source call := by
  have scans := h.proceeds_scan
  cases call with
  | scan => exact scans
  | reset => exact .of_none rfl (absurd rfl)
  | next =>
    by_cases finished : s.finished = true
    · -- Nothing moves.
      have stays : s.answer .next = (none, s) := if_pos finished
      have place : (s.answer .next).2.position = s.position := congrArg (fun r => r.2.position) stays
      exact .of_none (congrArg Prod.fst stays) fun _ => Nat.le_of_eq place.symm
    · obtain ⟨ended, asked⟩ : ∃ ended, s.answer .next =
          (some s.lexer.scan.1, { s with lexer := s.lexer.scan.2, finished := ended }) :=
        ⟨_, if_neg finished⟩
      constructor <;> rw [asked]
      · exact fun _ => scans.forwards nofun
      · exact scans.token
      · exact scans.error

end Of

/-! ## Every use of a lexer -/

/-- Whatever a lexer was asked before, it stands in its source, and the next call proceeds there. The
lexer over bytes can be asked the same, and stands at the same place. -/
theorem after_start_proceeds (source : String) (limit : Option Nat) (calls : List Call) :
    let s := (start source limit).after calls
    (∃ b, (ByteLexer.start source limit).after? calls = some b ∧ s.Alongside b) ∧
      s.Stands source ∧ ∀ call, s.Proceeds source call := by
  have here := (Of.start source limit).after calls
  exact ⟨⟨_, (Of.start source limit).after_inBytes calls, here.alongside⟩, here.stands, here.proceeds⟩

/-- A string that ends in the line where it was opened is given up behind a character of two bytes, the
first of which was passed with the backslash, and from there the next word is read. -/
example :
    let b := (ByteLexer.start "'\\é\nx" none).after? [.next, .next]
    b.map (·.offset) = some 4 ∧
      (b.bind (·.answer? .scan)).map (·.2.offset) = some 6 := by decide +kernel

end TokenStream

end Scoping
