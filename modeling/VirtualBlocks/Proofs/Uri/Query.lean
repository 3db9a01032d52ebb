import VirtualBlocks.Proofs.Text.Occurrence
import VirtualBlocks.Proofs.Uri.Percent
import VirtualBlocks.Uri.Query

/-!
Contract: a written query is read back as the parameters it was written from.

Owns:
- the parts of a query as keys and values, and which of them gives the value of a
  key;
- the alphabet of a written query;
- the round trip of one parameter and of a whole query, whatever the keys and
  values are;
- what a query holds after one of its parameters was set, once or twice.
-/

namespace VirtualBlocks.Uri

/-! ## One parameter -/

/-- A part of a query as a key and a value, both as they are written: cut at the
first `=`, or a key alone. -/
inductive IsPart : List Char → List Char → List Char → Prop
  | flag {key : List Char} (noEquals : '=' ∉ key) : IsPart key key []
  | pair {key : List Char} (noEquals : '=' ∉ key) (value : List Char) :
      IsPart (key ++ '=' :: value) key value

theorem takeWhile_key {key : List Char} (noEquals : '=' ∉ key) (rest : List Char) :
    (key ++ rest).takeWhile (· != '=') = key ++ rest.takeWhile (· != '=') := by
  apply List.takeWhile_append_of_pos
  intro c member
  rw [bne_iff_ne]
  exact fun same => noEquals (same ▸ member)

theorem dropWhile_key {key : List Char} (noEquals : '=' ∉ key) (rest : List Char) :
    (key ++ rest).dropWhile (· != '=') = rest.dropWhile (· != '=') := by
  apply List.dropWhile_append_of_pos
  intro c member
  rw [bne_iff_ne]
  exact fun same => noEquals (same ▸ member)

theorem readParameter_of_isPart {part key value : List Char} (isPart : IsPart part key value) :
    readParameter part = (String.ofList (unescape key), String.ofList (unescape value)) := by
  unfold readParameter
  cases isPart with
  | flag noEquals =>
      have taken := takeWhile_key noEquals []
      have dropped := dropWhile_key noEquals []
      rw [List.append_nil] at taken dropped
      rw [taken, dropped]
      simp
  | pair noEquals value =>
      rw [takeWhile_key noEquals, dropWhile_key noEquals]
      simp

theorem exists_isPart (part : List Char) : ∃ key value, IsPart part key value := by
  by_cases member : '=' ∈ part
  · obtain ⟨key, value, rfl, noEquals⟩ := List.eq_append_cons_of_mem member
    exact ⟨key, value, .pair noEquals value⟩
  · exact ⟨part, [], .flag member⟩

theorem unescape_encode (text : List Char) : unescape (encode text) = text := by
  have noPlus : ∀ c ∈ encode text, (if c = '+' then ' ' else c) = c := by
    intro c member
    have differs : c ≠ '+' := by
      rintro rfl
      exact notMem_encode (by decide) text member
    exact if_neg differs
  have spaced : (encode text).map (fun c => if c = '+' then ' ' else c) = encode text := by
    rw [List.map_congr_left noPlus, List.map_id']
  show (decode? ((encode text).map (fun c => if c = '+' then ' ' else c))).getD _ = text
  rw [spaced, decode?_encode]
  rfl

theorem readParameter_writeParameter (parameter : String × String) :
    readParameter (writeParameter parameter) = parameter := by
  have keyEnds : ∀ c ∈ encode parameter.1.toList, (c != '=') = true := by
    intro c member
    rw [bne_iff_ne]
    rintro rfl
    exact notMem_encode (by decide) parameter.1.toList member
  have stop : ('=' :: encode parameter.2.toList).takeWhile (· != '=') = [] := rfl
  have behind : ('=' :: encode parameter.2.toList).dropWhile (· != '=') =
      '=' :: encode parameter.2.toList := rfl
  unfold readParameter writeParameter
  rw [List.takeWhile_append_of_pos keyEnds, List.dropWhile_append_of_pos keyEnds, stop, behind,
    List.append_nil, List.drop_one, List.tail_cons, unescape_encode, unescape_encode,
    String.ofList_toList, String.ofList_toList]

theorem writeParameter_ne_nil (parameter : String × String) : writeParameter parameter ≠ [] := by
  unfold writeParameter
  exact List.append_ne_nil_of_right_ne_nil _ (List.cons_ne_nil _ _)

/-- The characters that a written query is made of. -/
def isQueryChar (c : Char) : Bool :=
  isCoded c || c == '=' || c == '&'

theorem isQueryChar_iff {c : Char} :
    isQueryChar c = true ↔
      c.isAlphanum = true ∨ c ∈ ['-', '_', '.', '~', '%', '=', '&'] := by
  unfold isQueryChar isCoded isUnreserved
  simp only [Bool.or_eq_true, beq_iff_eq, List.mem_cons, List.not_mem_nil, or_false, or_assoc]

theorem notMem_writeParameter {c : Char} (foreign : isCoded c = false) (other : c ≠ '=')
    (parameter : String × String) : c ∉ writeParameter parameter := by
  unfold writeParameter
  rw [List.mem_append, List.mem_cons, not_or, not_or]
  exact ⟨notMem_encode foreign _, other, notMem_encode foreign _⟩

namespace Query

/-! ## The whole query -/

theorem notMem_toText {c : Char} (foreign : isQueryChar c = false) (query : Query) :
    c ∉ query.toText := by
  unfold isQueryChar at foreign
  simp only [Bool.or_eq_false_iff, beq_eq_false_iff_ne] at foreign
  obtain ⟨⟨notCoded, notEquals⟩, notJoint⟩ := foreign
  refine Text.notMem_intercalate notJoint ?_
  intro part member
  obtain ⟨parameter, -, rfl⟩ := List.mem_map.1 member
  exact notMem_writeParameter notCoded notEquals parameter

/-- Reading undoes writing. -/
theorem ofText_toText (query : Query) : ofText query.toText = query := by
  have parts : ((query.toText).splitOn '&').filter (fun part => !part.isEmpty) =
      query.map writeParameter := by
    apply Text.filter_splitOn_intercalate
    · intro part member
      obtain ⟨source, _, rfl⟩ := List.mem_map.1 member
      exact writeParameter_ne_nil source
    · intro part member
      obtain ⟨source, _, rfl⟩ := List.mem_map.1 member
      exact notMem_writeParameter (by decide) (by decide) source
  have same : readParameter ∘ writeParameter = id := funext readParameter_writeParameter
  unfold ofText
  rw [parts, List.map_map, same, List.map_id]

theorem toText_ne_nil {query : Query} (nonempty : query ≠ []) : query.toText ≠ [] := by
  intro empty
  have read := ofText_toText query
  rw [empty] at read
  exact nonempty read.symm

/-- A query of any keys and values is read back from what is written, which is made of
ASCII letters and digits and of seven marks. What was read from any text, escapes that are
none and bytes that are no UTF-8 included, is read again from its written form. -/
theorem toText_readsBack :
    (∀ query : Query, ofText query.toText = query ∧
      ∀ c ∈ query.toText, c.isAlphanum = true ∨ c ∈ ['-', '_', '.', '~', '%', '=', '&']) ∧
    ∀ text : List Char, ofText (ofText text).toText = ofText text := by
  refine ⟨fun query => ⟨ofText_toText query, ?_⟩, fun text => ofText_toText (ofText text)⟩
  intro c member
  cases isChar : isQueryChar c with
  | true => exact isQueryChar_iff.1 isChar
  | false => exact absurd member (notMem_toText isChar query)

example : (ofText "a=1+2&&b=%zz&%FF".toList) = [("a", "1 2"), ("b", "%zz"), ("%FF", "")] := by
  decide +kernel

/-! ## Finding a parameter -/

/-- The written value of a key in a query: that of the first part, of those that
are not empty, whose key reads as this one. -/
def IsValueOf (query : List Char) (key : String) (value : List Char) : Prop :=
  ∃ before part after written,
    (query.splitOn '&').filter (fun part => !part.isEmpty) = before ++ part :: after ∧
      IsPart part written value ∧ unescape written = key.toList ∧
      ∀ earlier ∈ before, ∀ other content, IsPart earlier other content →
        unescape other ≠ key.toList

/-- The first parameter of a key is read from the first part with this key. -/
theorem get?_ofText_eq_some_iff {query : List Char} {key value : String} :
    (ofText query).get? key = some value ↔
      ∃ written, IsValueOf query key written ∧ value = String.ofList (unescape written) := by
  unfold get? ofText IsValueOf
  rw [List.lookup_eq_some_iff]
  constructor
  · intro found
    obtain ⟨_, _, divided, others⟩ := found
    obtain ⟨before, remaining, parts, rfl, isRemaining⟩ := List.map_eq_append_iff.1 divided
    obtain ⟨part, after, rfl, read, -⟩ := List.map_eq_cons_iff.1 isRemaining
    obtain ⟨written, content, isPart⟩ := exists_isPart part
    rw [readParameter_of_isPart isPart] at read
    obtain ⟨isKey, isValue⟩ := Prod.mk.inj read
    refine ⟨content, ⟨before, part, after, written, parts, isPart, ?_, ?_⟩, isValue.symm⟩
    · rw [← isKey, String.toList_ofList]
    · intro earlier member other inner isEarlier same
      have differs := others _ (List.mem_map_of_mem member)
      rw [readParameter_of_isPart isEarlier, same, String.ofList_toList] at differs
      simp at differs
  · intro found
    obtain ⟨content, ⟨before, part, after, written, parts, isPart, isKey, others⟩, rfl⟩ := found
    refine ⟨before.map readParameter, after.map readParameter, ?_, ?_⟩
    · rw [parts, List.map_append, List.map_cons, readParameter_of_isPart isPart, isKey,
        String.ofList_toList]
    · intro parameter member
      obtain ⟨earlier, inBefore, rfl⟩ := List.mem_map.1 member
      obtain ⟨other, inner, isEarlier⟩ := exists_isPart earlier
      have differs := others earlier inBefore other inner isEarlier
      rw [readParameter_of_isPart isEarlier, bne_iff_ne]
      intro same
      rw [same, String.toList_ofList] at differs
      exact differs rfl

/-! ## Setting a parameter -/

/-- A query with a key set: the first parameter of that key has the value, or one
more parameter with it stands at the end when there is none, and all else is as
before. -/
inductive IsSetTo (key value : String) : Query → Query → Prop
  | replaced {before after : Query} {old : String}
      (others : ∀ parameter ∈ before, parameter.1 ≠ key) :
      IsSetTo key value (before ++ (key, old) :: after) (before ++ (key, value) :: after)
  | appended {query : Query} (absent : ∀ parameter ∈ query, parameter.1 ≠ key) :
      IsSetTo key value query (query ++ [(key, value)])

theorem IsSetTo.cons {key value : String} {query result : Query} {parameter : String × String}
    (other : parameter.1 ≠ key) (isSet : IsSetTo key value query result) :
    IsSetTo key value (parameter :: query) (parameter :: result) := by
  cases isSet with
  | replaced others => exact .replaced (List.forall_mem_cons.2 ⟨other, others⟩)
  | appended absent => exact .appended (List.forall_mem_cons.2 ⟨other, absent⟩)

theorem isSetTo_set (key value : String) (query : Query) :
    IsSetTo key value query (set key value query) := by
  induction query with
  | nil => exact .appended (List.forall_mem_nil _)
  | cons parameter rest inductionHypothesis =>
      unfold set
      by_cases same : parameter.1 = key
      · rw [if_pos same, ← same]
        exact .replaced (List.forall_mem_nil _)
      · rw [if_neg same]
        exact inductionHypothesis.cons same

/-- The second of two values stays. -/
theorem set_set (key first second : String) (query : Query) :
    set key second (set key first query) = set key second query := by
  induction query with
  | nil => simp [set]
  | cons parameter rest inductionHypothesis =>
      by_cases same : parameter.1 = key
      · simp [set, same]
      · simp [set, same, inductionHypothesis]

theorem get?_set (query : Query) (key value : String) :
    (set key value query).get? key = some value := by
  unfold get?
  induction query with
  | nil => simp [set]
  | cons parameter rest inductionHypothesis =>
      unfold set
      by_cases same : parameter.1 = key
      · rw [if_pos same]
        simp
      · have differs : (key == parameter.1) = false :=
          beq_eq_false_iff_ne.2 fun equal => same equal.symm
        rw [if_neg same, List.lookup_cons, differs]
        exact inductionHypothesis

theorem set_ne_nil (query : Query) (key value : String) : set key value query ≠ [] := by
  cases query with
  | nil => exact List.cons_ne_nil _ _
  | cons parameter rest =>
      unfold set
      split
      · exact List.cons_ne_nil _ _
      · exact List.cons_ne_nil _ _

end Query

end VirtualBlocks.Uri
