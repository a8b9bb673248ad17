import Std.Data.TreeMap.Lemmas
import Scoping.Resolve.Bound

/-!
# Binding with a memory

A memo that holds only answers of the walk upwards (`Memo.Sound`) gives such answers and goes on
holding only those, so a run of questions to one memo cannot be told from as many walks
(`Memo.resolveAll_walks`). Binding is such a run: it is what it would be with a walk for each
reference (`Tree.bind_eq`), and makes of each, in order, an occurrence with the answer of that walk
(`Tree.bind_occurrences`). None of this asks anything of the tree.
-/

namespace Scoping

variable {t : Tree}

/-! ## Walks -/

/-- The answer that a name has as seen from a scope: what the first scope on the way up that declares
it binds it to, and none when no scope there does. -/
def Tree.Answers (t : Tree) (scope : ScopeId) (name : String) : Option BindingId → Prop
  | none => ∀ s ∈ t.ancestors scope, s.find? name = none
  | some b => ∃ inner s outer, t.ancestors scope = inner ++ s :: outer ∧ s.find? name = some b ∧
      ∀ u ∈ inner, u.find? name = none

/-- A walk finds the one answer that a name has. -/
theorem Tree.lookUp_eq_iff {scope : ScopeId} {name : String} {answer : Option BindingId} :
    t.lookUp scope name = answer ↔ t.Answers scope name answer := by
  unfold Tree.lookUp
  cases answer with
  | none => exact List.findSome?_eq_none_iff
  | some b => exact List.findSome?_eq_some_iff

theorem Tree.mem_of_mem_chainFrom {steps : Nat} {scope : ScopeId} {s : Scope}
    (h : s ∈ t.chainFrom steps scope) : s ∈ t.scopes := by
  induction steps generalizing scope with
  | zero => cases h
  | succ steps ih =>
    unfold Tree.chainFrom at h
    cases here : t.scope? scope with
    | none => simp [here] at h
    | some x =>
      simp only [here] at h
      rcases List.mem_cons.mp h with rfl | above
      · exact Array.mem_of_getElem? here
      · cases parent : x.parent with
        | none => simp [parent] at above
        | some p =>
          rw [parent] at above
          exact ih above

/-- What a walk finds, a scope of the tree declares. -/
theorem Tree.exists_of_lookUp {scope : ScopeId} {name : String} {b : BindingId}
    (found : t.lookUp scope name = some b) : ∃ s ∈ t.scopes, s.find? name = some b := by
  obtain ⟨s, mem, declares⟩ := List.exists_of_findSome?_eq_some found
  refine ⟨s, ?_, declares⟩
  unfold Tree.ancestors at mem
  cases here : t.scope? scope with
  | none => simp [here] at mem
  | some x =>
    rw [here] at mem
    exact Tree.mem_of_mem_chainFrom mem

/-! ## Memory -/

namespace Memo

/-- What is remembered is what a walk finds. -/
def Sound (t : Tree) (m : Memo) : Prop :=
  ∀ (scope : ScopeId) (name : String) (answer : Option BindingId),
    m.find? scope name = some answer → answer = t.lookUp scope name

theorem sound_empty : empty.Sound t := by
  intro scope name answer h
  simp [find?, empty] at h

/-- What is found behind one more answer. -/
theorem find?_record (m : Memo) (scope scope' : ScopeId) (name name' : String)
    (answer : Option BindingId) : (m.record scope name answer).find? scope' name' =
      if scope = scope' ∧ name = name' then some answer else m.find? scope' name' := by
  unfold find? record
  rw [Std.TreeMap.getElem?_insert]
  simp only [Std.compare_eq_iff_eq]
  by_cases same : scope = scope'
  · subst same
    rw [if_pos rfl, Option.bind_some, Std.TreeMap.getElem?_insert]
    simp only [Std.compare_eq_iff_eq, true_and]
    split
    · rfl
    · rw [Std.TreeMap.getD_eq_getD_getElem?]
      cases m.answers[scope]? with
      | none => simp
      | some answers => rfl
  · rw [if_neg same, if_neg fun both => same both.1]

theorem Sound.record {m : Memo} (h : m.Sound t) (scope : ScopeId) (name : String) :
    (m.record scope name (t.lookUp scope name)).Sound t := by
  intro scope' name' answer found
  rw [find?_record] at found
  split at found
  · next same => rw [← Option.some.inj found, same.1, same.2]
  · exact h scope' name' answer found

/-- A sound memo answers as a walk does, and stays sound. -/
theorem Sound.resolve {m : Memo} (h : m.Sound t) (scope : ScopeId) (name : String) :
    (m.resolve t scope name).1 = t.lookUp scope name ∧ (m.resolve t scope name).2.Sound t := by
  unfold Memo.resolve
  split
  · next answer found => exact ⟨h scope name answer found, h⟩
  · exact ⟨rfl, h.record scope name⟩

/-- The answers to a run of questions, and the memory behind them. -/
def resolveAll (t : Tree) (m : Memo) : List (ScopeId × String) → List (Option BindingId) × Memo
  | [] => ([], m)
  | (scope, name) :: questions =>
    let (answer, m) := m.resolve t scope name
    let (answers, m) := m.resolveAll t questions
    (answer :: answers, m)

/-- A sound memo answers a run of questions as that many walks do, and stays sound. -/
theorem Sound.resolveAll {m : Memo} (h : m.Sound t) (questions : List (ScopeId × String)) :
    (m.resolveAll t questions).1 = questions.map (fun q => t.lookUp q.1 q.2) ∧
      (m.resolveAll t questions).2.Sound t := by
  induction questions generalizing m with
  | nil => exact ⟨rfl, h⟩
  | cons q questions ih =>
    obtain ⟨answer, sound⟩ := h.resolve q.1 q.2
    obtain ⟨answers, sound⟩ := ih sound
    refine ⟨?_, sound⟩
    show (m.resolve t q.1 q.2).1 :: ((m.resolve t q.1 q.2).2.resolveAll t questions).1 = _
    rw [answer, answers, List.map_cons]

end Memo

/-! ## Binding -/

/-- What a reference becomes at its place in the order. -/
def Tree.occurrenceOf (t : Tree) (id : OccurrenceId) (r : Reference) : Occurrence :=
  ⟨id, r.name, r.span, r.scope, t.lookUp r.scope r.name⟩

/-- Binds one reference by a walk of its own. -/
def Bound.walk (t : Tree) (b : Bound) (r : Reference) : Bound := b.push r (t.lookUp r.scope r.name)

/-- With a sound memo one more reference is bound as by a walk of its own. -/
theorem Bound.step_eq {m : Memo} (h : m.Sound t) (b : Bound) (r : Reference) :
    (Bound.step t (m, b) r).1.Sound t ∧ (Bound.step t (m, b) r).2 = b.walk t r := by
  obtain ⟨answer, sound⟩ := h.resolve r.scope r.name
  refine ⟨sound, ?_⟩
  simp only [Bound.step, Bound.walk, answer]

theorem Bound.foldl_step {m : Memo} (h : m.Sound t) (b : Bound) (rs : List Reference) :
    (rs.foldl (Bound.step t) (m, b)).2 = rs.foldl (Bound.walk t) b := by
  induction rs generalizing m b with
  | nil => rfl
  | cons r rs ih =>
    obtain ⟨sound, walked⟩ := Bound.step_eq h b r
    rw [List.foldl_cons, List.foldl_cons, ← walked]
    exact ih sound _

/-- With no memory but a sound one, binding makes a walk for each reference. -/
theorem Tree.bindFrom_eq {m : Memo} (h : m.Sound t) : t.bindFrom m =
    t.references.toList.foldl (Bound.walk t) ⟨#[], t.bindings.map fun _ => #[]⟩ := by
  unfold Tree.bindFrom
  rw [← Array.foldl_toList, Bound.foldl_step h]

theorem Tree.bind_eq (t : Tree) : t.bind =
    t.references.toList.foldl (Bound.walk t) ⟨#[], t.bindings.map fun _ => #[]⟩ :=
  t.bindFrom_eq Memo.sound_empty

theorem Bound.foldl_occurrences (b : Bound) (rs : List Reference) :
    (rs.foldl (Bound.walk t) b).occurrences.toList =
      b.occurrences.toList ++ rs.mapIdx fun i => t.occurrenceOf (b.occurrences.size + i) := by
  induction rs generalizing b with
  | nil => simp
  | cons r rs ih =>
    have pushed : (b.walk t r).occurrences =
        b.occurrences.push (t.occurrenceOf b.occurrences.size r) := rfl
    rw [List.foldl_cons, ih, pushed]
    simp [List.mapIdx_cons, Nat.add_assoc, Nat.add_comm 1]

/-- Every reference becomes an occurrence, in order, with the answer of a walk. -/
theorem Tree.bind_occurrences (t : Tree) :
    t.bind.occurrences.toList = t.references.toList.mapIdx t.occurrenceOf := by
  rw [Tree.bind_eq, Bound.foldl_occurrences]
  simp

theorem Tree.exists_of_mem_occurrences {o : Occurrence} (h : o ∈ t.bind.occurrences) :
    ∃ r ∈ t.references, ∃ id, o = t.occurrenceOf id r := by
  rw [← Array.mem_toList_iff, bind_occurrences, List.mem_mapIdx] at h
  obtain ⟨id, inside, rfl⟩ := h
  exact ⟨_, Array.mem_toList_iff.mp (List.getElem_mem inside), id, rfl⟩

/-- No memory is seen from outside, whatever the tree: a run of questions to one memo is answered as
by a walk for each, which finds the one answer that the name has; and binding, also after such a run,
makes of each reference, in order, an occurrence with the answer of its walk. -/
theorem Memo.resolveAll_walks (t : Tree) (questions : List (ScopeId × String)) :
    (Memo.empty.resolveAll t questions).1 = questions.map (fun q => t.lookUp q.1 q.2) ∧
      (∀ scope name answer, t.lookUp scope name = answer ↔ t.Answers scope name answer) ∧
      t.bindFrom (Memo.empty.resolveAll t questions).2 = t.bind ∧
      t.bind.occurrences.toList = t.references.toList.mapIdx fun id r =>
        ⟨id, r.name, r.span, r.scope, t.lookUp r.scope r.name⟩ := by
  obtain ⟨answers, sound⟩ := Memo.sound_empty.resolveAll (t := t) questions
  refine ⟨answers, ?_, ?_, t.bind_occurrences⟩
  · intro scope name answer
    exact Tree.lookUp_eq_iff
  · rw [Tree.bindFrom_eq sound, Tree.bind_eq]

end Scoping
