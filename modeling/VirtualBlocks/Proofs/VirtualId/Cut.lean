import VirtualBlocks.VirtualId

/-!
Contract: where the query of an id starts.

Owns:
- the names that a query may follow: they end in the extension of components, in
  any letter case, or in that and one more extension of letters;
- a cut of an id into such a name, a question mark and a query;
- the query of an id is the one of its first cut, and an id without a cut has
  none.
-/

namespace VirtualBlocks.VirtualId

open VirtualBlocks.Text

/-! ## Names that a query may follow -/

/-- The extension of components in some letter case. -/
def IsExtension (mark : List Char) : Prop :=
  mark.map Char.toLower = extension

instance (mark : List Char) : Decidable (IsExtension mark) :=
  inferInstanceAs (Decidable (mark.map Char.toLower = extension))

/-- Nothing, or a dot and at least one letter. -/
def IsSecondExtension (second : List Char) : Prop :=
  second = [] ∨
    ∃ letters, letters ≠ [] ∧ (∀ c ∈ letters, isExtensionLetter c = true) ∧
      second = '.' :: letters

/-- A name that ends in the extension of components, or in that and a second
extension. -/
def EndsInExtension (name : List Char) : Prop :=
  ∃ stem mark second, IsExtension mark ∧ IsSecondExtension second ∧
    name = stem ++ (mark ++ second)

theorem eq_dot_of_toLower {c : Char} (lower : c.toLower = '.') : c = '.' := by
  unfold Char.toLower at lower
  split at lower
  · rename_i isUpper
    have value := congrArg (fun d : Char => d.val.toNat) lower
    have first := UInt32.le_iff_toNat_le.1 isUpper.1
    have last := UInt32.le_iff_toNat_le.1 isUpper.2
    simp at value first last
    omega
  · exact lower

theorem isExtension_iff {mark : List Char} :
    IsExtension mark ↔ ∃ v u e, mark = ['.', v, u, e] ∧
      v.toLower = 'v' ∧ u.toLower = 'u' ∧ e.toLower = 'e' := by
  unfold IsExtension extension
  constructor
  · intro lower
    obtain ⟨dot, afterDot, rfl, isDot, lower⟩ := List.map_eq_cons_iff.1 lower
    obtain ⟨v, afterV, rfl, isV, lower⟩ := List.map_eq_cons_iff.1 lower
    obtain ⟨u, afterU, rfl, isU, lower⟩ := List.map_eq_cons_iff.1 lower
    obtain ⟨e, afterE, rfl, isE, lower⟩ := List.map_eq_cons_iff.1 lower
    rw [eq_dot_of_toLower isDot, List.map_eq_nil_iff.1 lower]
    exact ⟨v, u, e, rfl, isV, isU, isE⟩
  · rintro ⟨v, u, e, rfl, isV, isU, isE⟩
    simp only [List.map_cons, List.map_nil, isV, isU, isE]
    rfl

theorem length_of_isExtension {mark : List Char} (isMark : IsExtension mark) :
    mark.length = 4 := by
  have lengths := congrArg List.length isMark
  rw [List.length_map] at lengths
  exact lengths

theorem extensions_ne_nil {mark : List Char} (isMark : IsExtension mark) (second : List Char) :
    mark ++ second ≠ [] := by
  intro empty
  have length := length_of_isExtension isMark
  rw [(List.append_eq_nil_iff.1 empty).1] at length
  contradiction

/-- Only the letters of the extension, dots and the letters of a second extension
stand in the two. -/
theorem notMem_extensions {c : Char} (foreign : c.toLower ∉ extension)
    (noLetter : isExtensionLetter c = false) {mark second : List Char}
    (isMark : IsExtension mark) (isSecond : IsSecondExtension second) : c ∉ mark ++ second := by
  rw [List.mem_append, not_or]
  constructor
  · intro member
    have lowered := @List.mem_map_of_mem Char Char mark c Char.toLower member
    rw [isMark] at lowered
    exact foreign lowered
  · intro member
    rcases isSecond with rfl | ⟨letters, _, allLetters, rfl⟩
    · exact List.not_mem_nil member
    · rcases List.mem_cons.1 member with isDot | inLetters
      · rw [isDot] at foreign
        exact foreign (by decide)
      · rw [allLetters c inLetters] at noLetter
        contradiction

theorem mark_notMem_extensions {mark second : List Char} (isMark : IsExtension mark)
    (isSecond : IsSecondExtension second) : '?' ∉ mark ++ second :=
  notMem_extensions (by decide) (by decide) isMark isSecond

/-! ## One place -/

theorem afterExtension?_eq_some_iff {text rest : List Char} :
    afterExtension? text = some rest ↔ ∃ mark, IsExtension mark ∧ text = mark ++ rest := by
  constructor
  · intro found
    unfold afterExtension? at found
    split at found
    · rename_i v u e remaining
      split at found
      · rename_i lower
        obtain rfl := Option.some.inj found
        exact ⟨['.', v, u, e], isExtension_iff.2 ⟨v, u, e, rfl, lower⟩, rfl⟩
      · contradiction
    · contradiction
  · rintro ⟨mark, isMark, rfl⟩
    obtain ⟨v, u, e, rfl, lower⟩ := isExtension_iff.1 isMark
    exact if_pos lower

theorem isQuery_iff {query : List Char} : isQuery query = true ↔ query ≠ [] ∧ '\n' ∉ query := by
  unfold isQuery
  simp

theorem queryAfterMark?_eq_some_iff {text query : List Char} :
    queryAfterMark? text = some query ↔ isQuery query = true ∧ text = '?' :: query := by
  constructor
  · intro found
    unfold queryAfterMark? at found
    split at found
    · split at found
      · rename_i valid
        obtain rfl := Option.some.inj found
        exact ⟨valid, rfl⟩
      · contradiction
    · contradiction
  · rintro ⟨valid, rfl⟩
    exact if_pos valid

theorem queryAfterExtension?_eq_some_iff {text query : List Char} :
    queryAfterExtension? text = some query ↔
      isQuery query = true ∧ ∃ second, IsSecondExtension second ∧
        text = second ++ '?' :: query := by
  constructor
  · intro found
    unfold queryAfterExtension? at found
    split at found
    · rename_i rest
      split at found
      · contradiction
      · rename_i nonempty
        obtain ⟨valid, behind⟩ := queryAfterMark?_eq_some_iff.1 found
        refine ⟨valid, '.' :: rest.takeWhile isExtensionLetter, Or.inr ?_, ?_⟩
        · refine ⟨rest.takeWhile isExtensionLetter, ?_, ?_, rfl⟩
          · simpa using nonempty
          · exact List.all_eq_true.1 List.all_takeWhile
        · rw [List.cons_append, ← behind, List.takeWhile_append_dropWhile]
    · obtain ⟨valid, behind⟩ := queryAfterMark?_eq_some_iff.1 found
      exact ⟨valid, [], Or.inl rfl, behind⟩
  · rintro ⟨valid, second, isSecond, rfl⟩
    rcases isSecond with rfl | ⟨letters, nonempty, allLetters, rfl⟩
    · exact if_pos valid
    · have taken : (letters ++ '?' :: query).takeWhile isExtensionLetter = letters := by
        rw [List.takeWhile_append_of_pos allLetters, List.takeWhile_cons_of_neg (by decide),
          List.append_nil]
      have dropped : (letters ++ '?' :: query).dropWhile isExtensionLetter = '?' :: query := by
        rw [List.dropWhile_append_of_pos allLetters, List.dropWhile_cons_of_neg (by decide)]
      show (if ((letters ++ '?' :: query).takeWhile isExtensionLetter).isEmpty then none
        else queryAfterMark? ((letters ++ '?' :: query).dropWhile isExtensionLetter)) = some query
      rw [taken, dropped, if_neg (by simpa using nonempty)]
      exact if_pos valid

/-- A query is found at a place exactly when the place starts with an extension
and the query follows. -/
theorem queryHere?_eq_some_iff {text query : List Char} :
    (afterExtension? text).bind queryAfterExtension? = some query ↔
      isQuery query = true ∧ ∃ mark second, IsExtension mark ∧ IsSecondExtension second ∧
        text = (mark ++ second) ++ '?' :: query := by
  rw [Option.bind_eq_some_iff]
  constructor
  · rintro ⟨rest, found, behind⟩
    obtain ⟨mark, isMark, rfl⟩ := afterExtension?_eq_some_iff.1 found
    obtain ⟨valid, second, isSecond, rfl⟩ := queryAfterExtension?_eq_some_iff.1 behind
    exact ⟨valid, mark, second, isMark, isSecond, (List.append_assoc ..).symm⟩
  · rintro ⟨valid, mark, second, isMark, isSecond, rfl⟩
    refine ⟨second ++ '?' :: query, ?_, ?_⟩
    · exact afterExtension?_eq_some_iff.2 ⟨mark, isMark, List.append_assoc ..⟩
    · exact queryAfterExtension?_eq_some_iff.2 ⟨valid, second, isSecond, rfl⟩

/-! ## The first place -/

/-- A cut of an id into a name and a query. -/
structure IsCut (id name query : List Char) : Prop where
  whole : id = name ++ '?' :: query
  extended : EndsInExtension name
  valid : isQuery query = true

theorem IsCut.cons {id name query : List Char} (cut : IsCut id name query) (c : Char) :
    IsCut (c :: id) (c :: name) query := by
  obtain ⟨stem, mark, second, isMark, isSecond, ends⟩ := cut.extended
  exact
    { whole := by rw [cut.whole, List.cons_append]
      extended := ⟨c :: stem, mark, second, isMark, isSecond, by rw [ends, List.cons_append]⟩
      valid := cut.valid }

theorem EndsInExtension.append {name : List Char} (extended : EndsInExtension name)
    (front : List Char) : EndsInExtension (front ++ name) := by
  obtain ⟨stem, mark, second, isMark, isSecond, rfl⟩ := extended
  exact ⟨front ++ stem, mark, second, isMark, isSecond, (List.append_assoc ..).symm⟩

theorem endsInExtension_of_suffix {name : List Char} (extended : extension <:+ name) :
    EndsInExtension name := by
  obtain ⟨stem, rfl⟩ := extended
  exact ⟨stem, extension, [], by decide, .inl rfl, by rw [List.append_nil]⟩

theorem query?_cons (c : Char) (rest : List Char) :
    query? (c :: rest) =
      match (afterExtension? (c :: rest)).bind queryAfterExtension? with
      | some query => some query
      | none => query? rest :=
  rfl

/-- The query that is found belongs to a cut. -/
theorem exists_isCut_of_query? {id query : List Char} (found : query? id = some query) :
    ∃ name, IsCut id name query := by
  induction id with
  | nil => contradiction
  | cons c rest inductionHypothesis =>
      rw [query?_cons] at found
      cases here : (afterExtension? (c :: rest)).bind queryAfterExtension? with
      | some first =>
          rw [here] at found
          obtain rfl := Option.some.inj found
          obtain ⟨valid, mark, second, isMark, isSecond, whole⟩ := queryHere?_eq_some_iff.1 here
          exact ⟨mark ++ second, whole, ⟨[], mark, second, isMark, isSecond, rfl⟩, valid⟩
      | none =>
          rw [here] at found
          obtain ⟨name, cut⟩ := inductionHypothesis found
          exact ⟨c :: name, cut.cons c⟩

/-- An extension that a query follows reaches no further than any name that
another query follows. -/
theorem length_le_of_extension_first {extensions name query other : List Char}
    (noMark : '?' ∉ extensions)
    (same : name ++ '?' :: query = extensions ++ '?' :: other) : query.length ≤ other.length := by
  have lengths := congrArg List.length same
  rw [List.length_append, List.length_append, List.length_cons, List.length_cons] at lengths
  by_cases beyond : extensions.length ≤ name.length
  · omega
  · have inside : (name ++ '?' :: query)[name.length]? = some '?' := by simp
    rw [same, List.getElem?_append_left (by omega)] at inside
    exact absurd (List.mem_of_getElem? inside) noMark

/-- An id with a cut has a query, and none of its cuts has a longer one. -/
theorem IsCut.query? {id name query : List Char} (cut : IsCut id name query) :
    ∃ first, VirtualId.query? id = some first ∧ query.length ≤ first.length := by
  induction id generalizing name with
  | nil =>
      have whole := cut.whole
      simp at whole
  | cons c rest inductionHypothesis =>
      rw [query?_cons]
      cases here : (afterExtension? (c :: rest)).bind queryAfterExtension? with
      | some first =>
          obtain ⟨_, mark, second, isMark, isSecond, whole⟩ := queryHere?_eq_some_iff.1 here
          have noMark := mark_notMem_extensions isMark isSecond
          exact ⟨first, rfl, length_le_of_extension_first noMark (cut.whole ▸ whole)⟩
      | none =>
          obtain ⟨stem, mark, second, isMark, isSecond, ends⟩ := cut.extended
          cases stem with
          | nil =>
              have whole : c :: rest = (mark ++ second) ++ '?' :: query := by
                rw [cut.whole, ends, List.nil_append]
              have found := queryHere?_eq_some_iff.2
                ⟨cut.valid, mark, second, isMark, isSecond, whole⟩
              rw [here] at found
              contradiction
          | cons first others =>
              have whole := cut.whole
              rw [ends, List.cons_append, List.cons_append, List.cons.injEq] at whole
              exact inductionHypothesis
                ⟨whole.2, ⟨others, mark, second, isMark, isSecond, rfl⟩, cut.valid⟩

/-- The query of an id is that of the cut with the longest one. -/
theorem query?_eq_some_iff {id query : List Char} :
    query? id = some query ↔
      (∃ name, IsCut id name query) ∧
        ∀ name other, IsCut id name other → other.length ≤ query.length := by
  constructor
  · intro found
    refine ⟨exists_isCut_of_query? found, ?_⟩
    intro name other cut
    obtain ⟨first, alsoFound, bound⟩ := cut.query?
    rw [found] at alsoFound
    rw [Option.some.inj alsoFound]
    exact bound
  · rintro ⟨⟨name, cut⟩, longest⟩
    obtain ⟨first, found, bound⟩ := cut.query?
    obtain ⟨other, firstCut⟩ := exists_isCut_of_query? found
    have atMost := longest other first firstCut
    have same := cut.whole.symm.trans firstCut.whole
    have sameQuery := List.append_inj_right' same (by simp; omega)
    rw [found, (List.cons.inj sameQuery).2]

/-- A name without a question mark is all that stands before the query. -/
theorem query?_append_cons {name query : List Char} (noMark : '?' ∉ name)
    (extended : EndsInExtension name) (valid : isQuery query = true) :
    query? (name ++ '?' :: query) = some query := by
  rw [query?_eq_some_iff]
  refine ⟨⟨name, rfl, extended, valid⟩, ?_⟩
  intro stem other cut
  exact length_le_of_extension_first noMark cut.whole.symm

theorem query?_eq_none_iff {id : List Char} :
    query? id = none ↔ ∀ name query, ¬ IsCut id name query := by
  constructor
  · intro missing name query cut
    obtain ⟨first, found, _⟩ := cut.query?
    rw [missing] at found
    contradiction
  · intro noCut
    cases found : query? id with
    | none => rfl
    | some query =>
        obtain ⟨name, cut⟩ := exists_isCut_of_query? found
        exact absurd cut (noCut name query)

/-- An id without a question mark has no query. -/
theorem query?_eq_none_of_notMem {id : List Char} (noMark : '?' ∉ id) : query? id = none := by
  rw [query?_eq_none_iff]
  intro name query cut
  rw [cut.whole] at noMark
  exact noMark (List.mem_append_right name List.mem_cons_self)

/-- The name before the query. -/
theorem withoutQuery_of_query? {id name query : List Char} (found : query? id = some query)
    (whole : id = name ++ '?' :: query) : withoutQuery id = name := by
  unfold withoutQuery
  rw [found]
  show id.take (id.length - query.length - 1) = name
  have length : id.length - query.length - 1 = name.length := by
    rw [whole, List.length_append, List.length_cons]
    omega
  rw [length, whole, List.take_left']
  rfl

theorem withoutQuery_of_none {id : List Char} (missing : query? id = none) :
    withoutQuery id = id := by
  unfold withoutQuery
  rw [missing]

theorem parameters_of_none {id : List Char} (missing : query? id = none) :
    parameters id = [] := by
  unfold parameters
  rw [missing]

end VirtualBlocks.VirtualId
