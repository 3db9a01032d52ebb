import VirtualBlocks.Proofs.Address
import VirtualBlocks.Proofs.Uri.Query
import VirtualBlocks.Proofs.VirtualId.Cut

/-!
Contract: the grammar of block ids.

Owns:
- the places of an id where a query can start, and that the query of an id is the
  one of the leftmost place;
- which ids have an address, and which one: the first part of the query with the
  reserved key has a value that denotes it.

Does not own: the parts of a query (`Proofs.Uri.Query`) and the texts that denote
an address (`Proofs.Address`).
-/

namespace VirtualBlocks.VirtualId

/-! ## Where the query starts -/

/-- A place of an id where a query can start: the extension of components, with or
without a second one, a question mark, and a query on one line to the end. -/
structure IsPlace (id before extensions query : List Char) : Prop where
  whole : id = before ++ (extensions ++ '?' :: query)
  extended : ∃ mark second, IsExtension mark ∧ IsSecondExtension second ∧
    extensions = mark ++ second
  nonempty : query ≠ []
  oneLine : '\n' ∉ query

/-- The leftmost of these places. -/
structure IsFirstPlace (id before extensions query : List Char) : Prop
    extends IsPlace id before extensions query where
  first : ∀ otherBefore otherExtensions other,
    IsPlace id otherBefore otherExtensions other → before.length ≤ otherBefore.length

theorem queryHere?_eq_some_iff_place {text query : List Char} :
    (afterExtension? text).bind queryAfterExtension? = some query ↔
      ∃ extensions, IsPlace text [] extensions query := by
  rw [queryHere?_eq_some_iff, isQuery_iff]
  constructor
  · intro found
    obtain ⟨⟨nonempty, oneLine⟩, mark, second, isMark, isSecond, whole⟩ := found
    exact ⟨mark ++ second, whole, ⟨mark, second, isMark, isSecond, rfl⟩, nonempty, oneLine⟩
  · intro found
    obtain ⟨extensions, place⟩ := found
    obtain ⟨mark, second, isMark, isSecond, rfl⟩ := place.extended
    exact ⟨⟨place.nonempty, place.oneLine⟩, mark, second, isMark, isSecond, place.whole⟩

theorem isPlace_cons_iff {c : Char} {rest before extensions query : List Char} :
    IsPlace (c :: rest) (c :: before) extensions query ↔ IsPlace rest before extensions query := by
  constructor
  · intro place
    exact { place with whole := (List.cons.inj place.whole).2 }
  · intro place
    exact { place with whole := congrArg (c :: ·) place.whole }

/-- The query of an id is that of the leftmost place where one can start. -/
theorem query?_eq_some_iff_firstPlace {id query : List Char} :
    query? id = some query ↔ ∃ before extensions, IsFirstPlace id before extensions query := by
  induction id with
  | nil =>
      constructor
      · intro found
        contradiction
      · intro ⟨before, extensions, place⟩
        have whole := place.whole
        simp at whole
  | cons c rest inductionHypothesis =>
      rw [query?_cons]
      cases here : (afterExtension? (c :: rest)).bind queryAfterExtension? with
      | some found =>
          obtain ⟨extensions, place⟩ := queryHere?_eq_some_iff_place.1 here
          constructor
          · intro same
            obtain rfl := Option.some.inj same
            exact ⟨[], extensions, place, fun _ _ _ _ => Nat.zero_le _⟩
          · intro ⟨before, otherExtensions, firstPlace⟩
            have atStart := firstPlace.first [] extensions found place
            obtain rfl := List.length_eq_zero_iff.1 (Nat.le_zero.1 atStart)
            have also := queryHere?_eq_some_iff_place.2 ⟨otherExtensions, firstPlace.toIsPlace⟩
            rw [here] at also
            exact also
      | none =>
          -- every place lies behind the first character, and keeps its distance to the others
          have notHere : ∀ extensions other, ¬ IsPlace (c :: rest) [] extensions other := by
            intro extensions other place
            have found := queryHere?_eq_some_iff_place.2 ⟨extensions, place⟩
            rw [here] at found
            contradiction
          have inRest : ∀ {before extensions other}, IsPlace (c :: rest) before extensions other →
              ∃ further, before = c :: further ∧ IsPlace rest further extensions other := by
            intro before extensions other place
            cases before with
            | nil => exact absurd place (notHere extensions other)
            | cons first further =>
                obtain rfl := (List.cons.inj place.whole).1
                exact ⟨further, rfl, isPlace_cons_iff.1 place⟩
          apply inductionHypothesis.trans
          constructor
          · intro ⟨before, extensions, place⟩
            refine ⟨c :: before, extensions, isPlace_cons_iff.2 place.toIsPlace, ?_⟩
            intro otherBefore otherExtensions other otherPlace
            obtain ⟨further, rfl, placeInRest⟩ := inRest otherPlace
            exact Nat.succ_le_succ (place.first further otherExtensions other placeInRest)
          · intro ⟨before, extensions, place⟩
            obtain ⟨further, rfl, placeInRest⟩ := inRest place.toIsPlace
            refine ⟨further, extensions, placeInRest, ?_⟩
            intro otherBefore otherExtensions other otherPlace
            have behind := place.first (c :: otherBefore) otherExtensions other
              (isPlace_cons_iff.2 otherPlace)
            exact Nat.le_of_succ_le_succ behind

/-! ## The address of an id -/

/-- An id has an address exactly when the query at its leftmost place has a part
with the reserved key, and the value of the first such part denotes the address.
All other ids have none. -/
theorem address?_eq_some_iff {languages : Languages} (filled : languages.Filled) (id : String)
    (address : Address) :
    address? languages id = some address ↔
      ∃ before extensions query value,
        IsFirstPlace id.toList before extensions query ∧
          Uri.Query.IsValueOf query parameter value ∧
          Address.Denotes languages (Uri.unescape value) address := by
  unfold address?
  simp only [Option.bind_eq_bind, Option.bind_eq_some_iff]
  constructor
  · intro ⟨query, found, text, isText, read⟩
    obtain ⟨before, extensions, place⟩ := query?_eq_some_iff_firstPlace.1 found
    obtain ⟨value, isValue, rfl⟩ := Uri.Query.get?_ofText_eq_some_iff.1 isText
    rw [String.toList_ofList] at read
    exact ⟨before, extensions, query, value, place, isValue, Address.denotes_of_ofText? read⟩
  · intro ⟨before, extensions, query, value, place, isValue, denotes⟩
    refine ⟨query, query?_eq_some_iff_firstPlace.2 ⟨before, extensions, place⟩,
      String.ofList (Uri.unescape value), ?_, ?_⟩
    · exact Uri.Query.get?_ofText_eq_some_iff.2 ⟨value, isValue, rfl⟩
    · rw [String.toList_ofList]
      exact Address.ofText?_of_denotes filled denotes

/-- An id with an earlier place that a line feed spoils, an empty part, an escape
that is none, an escaped key, a position with zeros and a second reserved part. -/
theorem address?_eq_some_escaped :
    Languages.builtin.Filled ∧
      ∃ before extensions query value,
        IsFirstPlace "a.vue?\n/App.VUE.ts?x=%zz&&vuepar%74=styles.007.s%63ss&vuepart=script".toList
            before extensions query ∧
          Uri.Query.IsValueOf query parameter value ∧
          Address.Denotes Languages.builtin (Uri.unescape value)
            { kind := .styles, lang := "scss", index := some 7 } := by
  have addressed : address? Languages.builtin
      "a.vue?\n/App.VUE.ts?x=%zz&&vuepar%74=styles.007.s%63ss&vuepart=script" =
        some { kind := .styles, lang := "scss", index := some 7 } := by
    decide +kernel
  exact ⟨Languages.filled_builtin,
    (address?_eq_some_iff Languages.filled_builtin _ _).1 addressed⟩

end VirtualBlocks.VirtualId
