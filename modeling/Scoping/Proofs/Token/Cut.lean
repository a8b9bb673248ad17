import Scoping.Proofs.Token.Tiling

/-!
# A source and the pieces it is cut into

A tiling is read off a source by the spans of its tokens alone: under each span stands the lexeme, and
under the spans between them (`gapSpans`) stand the gaps. A span has a text only where both its ends
are ends of characters, so none of them cuts a character in two.
-/

namespace Scoping

/-- The span before each token, from where the token before it ends. -/
def gapSpans (offset : Nat) : List Token → List Span
  | [] => []
  | t :: ts => ⟨offset, t.span.start⟩ :: gapSpans t.span.stop ts

/-- Tokens as text, each behind its gap. -/
def layOut (gaps : List (List Char)) (ts : List Token) : List Char :=
  (List.zipWith (fun gap t => gap ++ t.lexeme.toList) gaps ts).flatten

theorem layOut_cons {gap : List Char} {gaps : List (List Char)} {t : Token} {ts : List Token} :
    layOut (gap :: gaps) (t :: ts) = gap ++ (t.lexeme.toList ++ layOut gaps ts) := by
  simp [layOut]

namespace Tiling

variable {cs : List Char} {ts : List Token}

/-- Every token is a piece of the text, whatever is before, and its span is where that piece stands. -/
theorem exists_piece {before : List Char} (h : Tiling (byteSize before) cs ts) :
    ∀ t ∈ ts, ∃ pre post, before ++ cs = pre ++ (t.lexeme.toList ++ post) ∧
      t.span = ⟨byteSize pre, byteSize pre + byteSize t.lexeme.toList⟩ := by
  generalize place : byteSize before = offset at h
  induction h generalizing before with
  | @last offset gap t _ _ lexeme span =>
    intro u mem
    rw [List.mem_singleton.mp mem, lexeme, span, ← place, ← byteSize_append]
    exact ⟨before ++ gap, [], by simp, rfl⟩
  | @token offset gap body rest t ts _ _ _ lexeme span _ ih =>
    subst place
    intro u mem
    rcases List.mem_cons.mp mem with rfl | mem
    · rw [lexeme, span, String.toList_ofList, ← byteSize_append]
      exact ⟨before ++ gap, rest, by simp, rfl⟩
    · obtain ⟨pre, post, split, stands⟩ :=
        @ih (before ++ (gap ++ body)) (by simp [Nat.add_assoc]) u mem
      exact ⟨pre, post, by simpa only [List.append_assoc] using split, stands⟩

/-- So it spells what stands under its span. -/
theorem text? {before : List Char} (h : Tiling (byteSize before) cs ts) :
    ∀ t ∈ ts, t.span.text? (before ++ cs) = some t.lexeme.toList := by
  intro t mem
  obtain ⟨pre, post, split, span⟩ := h.exists_piece t mem
  rw [split, span, Span.text?_append]

/-- Between the tokens stand gaps, and gaps and lexemes make up the text. -/
theorem exists_gaps {before : List Char} (h : Tiling (byteSize before) cs ts) :
    ∃ gaps : List (List Char),
      (gapSpans (byteSize before) ts).map (·.text? (before ++ cs)) = gaps.map some ∧
      (∀ gap ∈ gaps, gap.all isGap = true) ∧ layOut gaps ts = cs := by
  generalize place : byteSize before = offset at h
  induction h generalizing before with
  | @last offset gap t blank _ lexeme span =>
    subst place
    refine ⟨[gap], ?_, by simpa using blank, by simp [layOut, lexeme]⟩
    have text := Span.text?_append before gap []
    rw [List.append_nil] at text
    simp only [gapSpans, span, Span.point, List.map_cons, List.map_nil, text]
  | @token offset gap body rest t ts blank _ _ lexeme span _ ih =>
    subst place
    obtain ⟨gaps, texts, blanks, whole⟩ :=
      @ih (before ++ (gap ++ body)) (by simp [Nat.add_assoc])
    refine ⟨gap :: gaps, ?_, List.forall_mem_cons.mpr ⟨blank, blanks⟩, ?_⟩
    · have text := Span.text?_append before gap (body ++ rest)
      simp only [List.append_assoc] at texts
      simp only [gapSpans, span, List.map_cons, text, texts]
    · rw [layOut_cons, whole, lexeme, String.toList_ofList]

end Tiling

/-- A source that can be cut into tokens is its tokens and the gaps between them. The tokens end with
the only end of input, which takes no room; all others take some, one behind the other. Each spells the
text under its span, and under the spans between them stand blanks and line ends. -/
theorem tokenize_cuts {source : String} {limit : Option Nat} {ts : List Token}
    (h : tokenize source limit = .ok ts) :
    (∃ before final, ts = before ++ [final] ∧
      (∀ t ∈ before, t.isEnd = false ∧ t.span.start < t.span.stop) ∧
      final.isEnd = true ∧ final.lexeme = "" ∧ final.span = .point (byteSize source.toList)) ∧
    ts.Pairwise (fun t u => t.span.stop ≤ u.span.start) ∧
    (∀ t ∈ ts, t.span.text? source.toList = some t.lexeme.toList) ∧
    ∃ gaps : List (List Char),
      (gapSpans 0 ts).map (·.text? source.toList) = gaps.map some ∧
      (∀ gap ∈ gaps, gap.all isGap = true) ∧ layOut gaps ts = source.toList := by
  have tiling : Tiling (byteSize []) source.toList ts := tokenize_tiling h
  have texts : ∀ t ∈ ts, t.span.text? source.toList = some t.lexeme.toList := tiling.text?
  refine ⟨?ends, tiling.apart, texts, tiling.exists_gaps⟩
  case ends =>
    obtain ⟨before, final, rfl, atEnd, span, notEnds⟩ := tiling.exists_final
    rw [byteSize_nil, Nat.zero_add] at span
    refine ⟨before, final, rfl, fun t mem => ?_, atEnd, ?_, span⟩
    · have notEnd := notEnds t mem
      exact ⟨notEnd, tiling.wide t (List.mem_append_left _ mem) notEnd⟩
    · have lexeme := texts final (List.mem_append_right _ (List.mem_singleton_self _))
      rw [span, Span.text?_end, Option.some.injEq] at lexeme
      have none : final.lexeme.toList = [] := lexeme.symm
      exact String.toList_eq_nil_iff.mp none

/-- A string, a comment and a template, with characters of two, three and four bytes. -/
theorem tokenize_cuts_wide : ∃ ts, tokenize "'é' /*∀*/ \x60𝄞$\x7bx\x7d\x60\n" none = .ok ts ∧
    ts.map (·.span) = [⟨0, 4⟩, ⟨5, 12⟩, ⟨13, 23⟩, .point 24] ∧
    (∀ t ∈ ts, t.span.text? "'é' /*∀*/ \x60𝄞$\x7bx\x7d\x60\n".toList = some t.lexeme.toList) ∧
    ∃ gaps : List (List Char), (∀ gap ∈ gaps, gap.all isGap = true) ∧
      layOut gaps ts = "'é' /*∀*/ \x60𝄞$\x7bx\x7d\x60\n".toList := by
  have made : (tokenize "'é' /*∀*/ \x60𝄞$\x7bx\x7d\x60\n" none).toOption.map
      (fun ts => ts.map (·.span)) = some [⟨0, 4⟩, ⟨5, 12⟩, ⟨13, 23⟩, .point 24] := by decide +kernel
  obtain ⟨ts, lexed, spans⟩ := Option.map_eq_some_iff.mp made
  have lexed := ok_of_toOption lexed
  obtain ⟨_, _, texts, gaps, _, blanks, whole⟩ := tokenize_cuts lexed
  exact ⟨ts, lexed, spans, texts, gaps, blanks, whole⟩

end Scoping
