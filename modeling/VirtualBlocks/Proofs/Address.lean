import VirtualBlocks.Address
import VirtualBlocks.Proofs.Text.Occurrence

/-!
Contract: which texts give an address, and which addresses are read back from
their text.

Owns:
- the segments of an address text, and what each of them decides;
- the exact condition under which reading undoes writing: the language is not
  empty and, without a position, does not start with a segment that reads as
  one;
- that two blocks do not share a text, whatever their languages;
- the grammar of address texts: a text is read exactly when it denotes an address,
  and as that address.

Does not own: the id that carries the text (`Proofs.VirtualId`).
-/

namespace VirtualBlocks

/-- A table without empty languages. -/
def Languages.Filled (languages : Languages) : Prop :=
  ∀ key lang, languages.get? key = some lang → lang ≠ ""

theorem Languages.filled_builtin : Languages.builtin.Filled := by
  intro key lang found
  obtain ⟨before, after, entries, -⟩ := List.lookup_eq_some_iff.1 found
  have all : ∀ entry ∈ Languages.builtin.entries, entry.2 ≠ "" := by decide +kernel
  apply all (key, lang)
  rw [entries]
  exact List.mem_append_right before List.mem_cons_self

/-- A kind has a language even when none is declared. -/
theorem Languages.Filled.forKind_ne_empty {languages : Languages} (filled : languages.Filled)
    (kind : BlockKind) : languages.forKind kind none ≠ "" := by
  unfold Languages.forKind
  rw [Option.getD_none]
  cases found : languages.get? kind.name with
  | none => cases kind <;> decide
  | some lang => exact filled kind.name lang found

namespace Address

open VirtualBlocks.Text

/-! ## Segments -/

/-- The text before the first dot, the whole text when there is none. -/
def leadingSegment (text : List Char) : List Char :=
  text.takeWhile (· != '.')

theorem splitOn_eq_leadingSegment_cons (text : List Char) :
    ∃ others, text.splitOn '.' = leadingSegment text :: others := by
  induction text with
  | nil => exact ⟨[], rfl⟩
  | cons c rest inductionHypothesis =>
      obtain ⟨others, restSplit⟩ := inductionHypothesis
      rw [List.splitOn_cons_eq_if_modifyHead, restSplit]
      unfold leadingSegment
      by_cases isDot : c = '.'
      · rw [if_pos (beq_iff_eq.2 isDot), List.takeWhile_cons_of_neg (by simp [isDot])]
        exact ⟨_, rfl⟩
      · rw [if_neg (fun same => isDot (beq_iff_eq.1 same)),
          List.takeWhile_cons_of_pos (by simp [isDot])]
        exact ⟨others, rfl⟩

theorem dot_notMem_name (kind : BlockKind) : '.' ∉ kind.name.toList := by
  cases kind <;> decide

theorem dot_notMem_of_isIndex {digits : List Char} (isPosition : isIndex digits = true) :
    '.' ∉ digits := by
  intro member
  unfold isIndex at isPosition
  rw [Bool.and_eq_true, List.all_eq_true] at isPosition
  exact absurd (isPosition.2 '.' member) (by decide)

theorem isIndex_toDigits (position : Nat) : isIndex (Nat.toDigits 10 position) = true := by
  unfold isIndex
  rw [Bool.and_eq_true, List.all_eq_true]
  constructor
  · simp
  · intro c member
    exact Nat.isDigit_of_mem_toDigits (by decide) (by decide) member

theorem dot_notMem_toDigits (position : Nat) : '.' ∉ Nat.toDigits 10 position :=
  dot_notMem_of_isIndex (isIndex_toDigits position)

/-! ## What the segments decide -/

theorem index?_eq_some_iff {digits : List Char} {position : Nat} :
    index? digits = some position ↔
      Nat.ofDigitChars 10 digits 0 = position ∧ position < indexBound := by
  unfold index?
  rw [Option.filter_eq_some_iff, Option.some.injEq, decide_eq_true_eq]

section Leading

variable {segment : List Char} (others : List (List Char))

theorem leadingIndex?_of_position (isPosition : isIndex segment = true)
    (bounded : Nat.ofDigitChars 10 segment 0 < indexBound) :
    leadingIndex? (segment :: others) = some (some (Nat.ofDigitChars 10 segment 0), others) := by
  simp only [leadingIndex?, isPosition, if_true, index?_eq_some_iff.2 ⟨rfl, bounded⟩,
    Option.map_some]

theorem leadingIndex?_of_noPosition (noPosition : isIndex segment = false) :
    leadingIndex? (segment :: others) = some (none, segment :: others) := by
  simp only [leadingIndex?, noPosition, Bool.false_eq_true, if_false]

theorem bounded_of_leadingIndex? (isPosition : isIndex segment = true)
    {read : Option Nat × List (List Char)}
    (leading : leadingIndex? (segment :: others) = some read) :
    Nat.ofDigitChars 10 segment 0 < indexBound := by
  simp only [leadingIndex?, isPosition, if_true] at leading
  obtain ⟨position, isValue, -⟩ := Option.map_eq_some_iff.1 leading
  obtain ⟨rfl, bounded⟩ := index?_eq_some_iff.1 isValue
  exact bounded

end Leading

section Reading

variable (languages : Languages) (kind : BlockKind)

/-- The language of the segments of a text is the text. -/
theorem langOfSegments_eq_ofList {text : List Char} {segments : List (List Char)}
    (split : text.splitOn '.' = segments) :
    langOfSegments languages kind segments = String.ofList text := by
  obtain ⟨others, also⟩ := splitOn_eq_leadingSegment_cons text
  rw [← split, also]
  change String.ofList (['.'].intercalate (leadingSegment text :: others)) = String.ofList text
  rw [← also, List.intercalate_splitOn]

/-- What stands behind the kind decides the position and the language. -/
theorem ofText?_of_splitOn {text : List Char} {segments : List (List Char)}
    (split : text.splitOn '.' = kind.name.toList :: segments) :
    ofText? languages text =
      (leadingIndex? segments).bind (fun read =>
        if langOfSegments languages kind read.2 = "" then none
        else some
          { kind, lang := langOfSegments languages kind read.2, index := read.1 }) := by
  unfold ofText?
  rw [split]
  simp only [String.ofList_toList, BlockKind.ofName?_name, Option.bind_eq_bind,
    Option.bind_some]

/-- A text that is read starts with a kind. -/
theorem exists_kind_of_ofText? {text : List Char} {address : Address}
    (read : ofText? languages text = some address) :
    ∃ (kind : BlockKind) (segments : List (List Char)),
      text.splitOn '.' = kind.name.toList :: segments := by
  unfold ofText? at read
  cases split : text.splitOn '.' with
  | nil => exact absurd split (List.splitOn_ne_nil '.' text)
  | cons first segments =>
      rw [split] at read
      obtain ⟨kind, named, -⟩ := Option.bind_eq_some_iff.1 read
      refine ⟨kind, segments, ?_⟩
      rw [BlockKind.name_of_ofName? named, String.toList_ofList]

/-- A position and a language behind the kind. -/
theorem ofText?_of_position {digits : List Char} (isPosition : isIndex digits = true)
    (bounded : Nat.ofDigitChars 10 digits 0 < indexBound) (lang : List Char) :
    ofText? languages (kind.name.toList ++ '.' :: (digits ++ '.' :: lang)) =
      if String.ofList lang = "" then none
      else some
        { kind, lang := String.ofList lang, index := some (Nat.ofDigitChars 10 digits 0) } := by
  have split : (kind.name.toList ++ '.' :: (digits ++ '.' :: lang)).splitOn '.' =
      kind.name.toList :: digits :: lang.splitOn '.' := by
    rw [List.splitOn_append_cons_self_of_not_mem (dot_notMem_name kind),
      List.splitOn_append_cons_self_of_not_mem (dot_notMem_of_isIndex isPosition)]
  rw [ofText?_of_splitOn languages kind split, leadingIndex?_of_position _ isPosition bounded,
    Option.bind_some, langOfSegments_eq_ofList languages kind rfl]

/-- A language right behind the kind. -/
theorem ofText?_of_noPosition {lang : List Char}
    (noPosition : isIndex (leadingSegment lang) = false) :
    ofText? languages (kind.name.toList ++ '.' :: lang) =
      if String.ofList lang = "" then none
      else some { kind, lang := String.ofList lang, index := none } := by
  obtain ⟨others, langSplit⟩ := splitOn_eq_leadingSegment_cons lang
  have split : (kind.name.toList ++ '.' :: lang).splitOn '.' =
      kind.name.toList :: leadingSegment lang :: others := by
    rw [List.splitOn_append_cons_self_of_not_mem (dot_notMem_name kind), langSplit]
  rw [ofText?_of_splitOn languages kind split, leadingIndex?_of_noPosition others noPosition,
    Option.bind_some, langOfSegments_eq_ofList languages kind langSplit]

end Reading

/-! ## Reading what was written -/

theorem toText_none (kind : BlockKind) (lang : String) :
    toText kind none lang = kind.name.toList ++ '.' :: lang.toList := by
  unfold toText segments
  simp [List.intercalate_cons_cons]

theorem toText_some (kind : BlockKind) (position : Nat) (lang : String) :
    toText kind (some position) lang =
      kind.name.toList ++ '.' :: (Nat.toDigits 10 position ++ '.' :: lang.toList) := by
  unfold toText segments
  simp [List.intercalate_cons_cons]

section Written

variable (languages : Languages) (kind : BlockKind)

theorem ofText?_toText_some {position : Nat} (bounded : position < indexBound) (lang : String) :
    ofText? languages (toText kind (some position) lang) =
      if lang = "" then none else some { kind, lang, index := some position } := by
  have value : Nat.ofDigitChars 10 (Nat.toDigits 10 position) 0 = position :=
    Nat.ofDigitChars_ten_toDigits
  have read := ofText?_of_position languages kind (isIndex_toDigits position)
    (value.symm ▸ bounded) lang.toList
  rw [value, String.ofList_toList] at read
  rw [toText_some, read]

theorem ofText?_toText_none {lang : String}
    (noPosition : isIndex (leadingSegment lang.toList) = false) :
    ofText? languages (toText kind none lang) =
      if lang = "" then none else some { kind, lang, index := none } := by
  have read := ofText?_of_noPosition languages kind noPosition
  rw [String.ofList_toList] at read
  rw [toText_none, read]

/-- A leading segment of digits is taken for a position. -/
theorem index_of_ofText?_toText_none {lang : String} {address : Address}
    (isPosition : isIndex (leadingSegment lang.toList) = true)
    (read : ofText? languages (toText kind none lang) = some address) :
    address.index ≠ none := by
  obtain ⟨others, langSplit⟩ := splitOn_eq_leadingSegment_cons lang.toList
  have split : (toText kind none lang).splitOn '.' =
      kind.name.toList :: leadingSegment lang.toList :: others := by
    rw [toText_none, List.splitOn_append_cons_self_of_not_mem (dot_notMem_name kind), langSplit]
  rw [ofText?_of_splitOn languages kind split] at read
  obtain ⟨leading, found, finished⟩ := Option.bind_eq_some_iff.1 read
  have bounded := bounded_of_leadingIndex? others isPosition found
  rw [leadingIndex?_of_position others isPosition bounded] at found
  obtain rfl := Option.some.inj found
  rw [Option.ite_none_left_eq_some, Option.some.injEq] at finished
  rw [← finished.2]
  exact Option.some_ne_none _

/-- An address is read back from its text exactly when its language is not empty
and no part of the language is taken for a position that is not there. -/
theorem ofText?_toText_iff {index : Option Nat}
    (bounded : ∀ position ∈ index, position < indexBound) (lang : String) :
    ofText? languages (toText kind index lang) = some { kind, lang, index } ↔
      lang ≠ "" ∧ (index.isSome = true ∨ isIndex (leadingSegment lang.toList) = false) := by
  cases index with
  | some position =>
      rw [ofText?_toText_some languages kind (bounded position rfl), Option.ite_none_left_eq_some]
      simp
  | none =>
      cases isPosition : isIndex (leadingSegment lang.toList) with
      | false =>
          rw [ofText?_toText_none languages kind isPosition, Option.ite_none_left_eq_some]
          simp
      | true =>
          constructor
          · intro read
            exact absurd rfl (index_of_ofText?_toText_none languages kind isPosition read)
          · intro condition
            simp at condition

end Written

/-! ## Texts of different addresses -/

theorem leadingSegment_append_cons {front : List Char} (outside : '.' ∉ front)
    (rest : List Char) : leadingSegment (front ++ '.' :: rest) = front := by
  have plain : ∀ c ∈ front, (c != '.') = true := by
    intro c member
    have other : c ≠ '.' := fun isDot => outside (isDot ▸ member)
    simpa using other
  unfold leadingSegment
  rw [List.takeWhile_append_of_pos plain, List.takeWhile_cons_of_neg (by decide),
    List.append_nil]

theorem append_dot_inj {front other rest otherRest : List Char} (outside : '.' ∉ front)
    (otherOutside : '.' ∉ other) (same : front ++ '.' :: rest = other ++ '.' :: otherRest) :
    front = other ∧ rest = otherRest := by
  have fronts := congrArg leadingSegment same
  rw [leadingSegment_append_cons outside, leadingSegment_append_cons otherOutside] at fronts
  subst fronts
  exact ⟨rfl, (List.cons.inj (List.append_cancel_left same)).2⟩

theorem exists_toText_eq (kind : BlockKind) (index : Option Nat) (lang : String) :
    ∃ rest, toText kind index lang = kind.name.toList ++ '.' :: rest := by
  cases index with
  | none => exact ⟨_, toText_none kind lang⟩
  | some position => exact ⟨_, toText_some kind position lang⟩

/-- When lists and nothing else have positions, one text does not stand for two blocks,
whatever their languages. -/
theorem toText_inj {kind other : BlockKind} {index otherIndex : Option Nat}
    {lang otherLang : String} (positioned : index.isSome = kind.isList)
    (otherPositioned : otherIndex.isSome = other.isList)
    (same : toText kind index lang = toText other otherIndex otherLang) :
    kind = other ∧ index = otherIndex := by
  have sameKind : kind = other := by
    obtain ⟨rest, written⟩ := exists_toText_eq kind index lang
    obtain ⟨otherRest, otherWritten⟩ := exists_toText_eq other otherIndex otherLang
    rw [written, otherWritten] at same
    have names := (append_dot_inj (dot_notMem_name kind) (dot_notMem_name other) same).1
    have read := congrArg BlockKind.ofName? (String.toList_inj.1 names)
    rw [BlockKind.ofName?_name, BlockKind.ofName?_name] at read
    exact Option.some.inj read
  subst sameKind
  refine ⟨rfl, ?_⟩
  cases index with
  | none =>
      rw [← positioned] at otherPositioned
      exact (Option.isNone_iff_eq_none.1 (Option.isSome_eq_false_iff.1 otherPositioned)).symm
  | some position =>
      rw [← positioned] at otherPositioned
      obtain ⟨otherPosition, rfl⟩ := Option.isSome_iff_exists.1 otherPositioned
      rw [toText_some, toText_some] at same
      have behind := (append_dot_inj (dot_notMem_name kind) (dot_notMem_name kind) same).2
      have digits := (append_dot_inj (dot_notMem_toDigits position)
        (dot_notMem_toDigits otherPosition) behind).1
      have values := congrArg (fun digits => Nat.ofDigitChars 10 digits 0) digits
      rw [Nat.ofDigitChars_ten_toDigits, Nat.ofDigitChars_ten_toDigits] at values
      exact congrArg some values

/-! ## The grammar of address texts -/

/-- The texts that denote an address: a kind, with or without a position behind
it, with or without a language behind that. A language right behind the kind does
not start with a segment that reads as a position. -/
inductive Denotes (languages : Languages) : List Char → Address → Prop
  | kind (kind : BlockKind) :
      Denotes languages kind.name.toList
        { kind, lang := (languages.get? kind.name).getD kind.name, index := none }
  | position (kind : BlockKind) {digits : List Char} (isPosition : isIndex digits = true)
      (bounded : Nat.ofDigitChars 10 digits 0 < indexBound) :
      Denotes languages (kind.name.toList ++ '.' :: digits)
        { kind
          lang := (languages.get? kind.name).getD kind.name
          index := some (Nat.ofDigitChars 10 digits 0) }
  | positionAndLang (kind : BlockKind) {digits : List Char} (isPosition : isIndex digits = true)
      (bounded : Nat.ofDigitChars 10 digits 0 < indexBound) {lang : List Char}
      (nonempty : lang ≠ []) :
      Denotes languages (kind.name.toList ++ '.' :: (digits ++ '.' :: lang))
        { kind, lang := String.ofList lang, index := some (Nat.ofDigitChars 10 digits 0) }
  | lang (kind : BlockKind) {lang : List Char} (nonempty : lang ≠ [])
      (noPosition : isIndex (leadingSegment lang) = false) :
      Denotes languages (kind.name.toList ++ '.' :: lang)
        { kind, lang := String.ofList lang, index := none }

/-- A text that is read denotes the address that is read. -/
theorem denotes_of_ofText? {languages : Languages} {text : List Char} {address : Address}
    (read : ofText? languages text = some address) : Denotes languages text address := by
  obtain ⟨kind, segments, split⟩ := exists_kind_of_ofText? languages read
  rw [ofText?_of_splitOn languages kind split] at read
  obtain ⟨⟨index, parts⟩, leading, finished⟩ := Option.bind_eq_some_iff.1 read
  rw [Option.ite_none_left_eq_some, Option.some.injEq] at finished
  obtain ⟨nonempty, rfl⟩ := finished
  rcases splitOn_eq_or '.' text with ⟨-, single⟩ | ⟨first, tail, -, whole, divided⟩
  · -- no dot: the kind alone
    obtain ⟨rfl, rfl⟩ := List.cons.inj (single.symm.trans split)
    cases leading
    exact .kind kind
  · obtain ⟨rfl, rfl⟩ := List.cons.inj (divided.symm.trans split)
    rw [whole]
    obtain ⟨others, tailSplit⟩ := splitOn_eq_leadingSegment_cons tail
    rw [tailSplit] at leading
    cases isPosition : isIndex (leadingSegment tail) with
    | true =>
        have bounded := bounded_of_leadingIndex? others isPosition leading
        rw [leadingIndex?_of_position others isPosition bounded] at leading
        obtain ⟨rfl, rfl⟩ := Prod.mk.inj (Option.some.inj leading)
        rcases splitOn_eq_or '.' tail with
          ⟨-, tailSingle⟩ | ⟨digits, lang, -, tailWhole, tailDivided⟩
        · -- digits to the end
          obtain ⟨isTail, rfl⟩ := List.cons.inj (tailSplit.symm.trans tailSingle)
          rw [isTail] at isPosition bounded ⊢
          exact .position kind isPosition bounded
        · obtain ⟨isDigits, rfl⟩ := List.cons.inj (tailSplit.symm.trans tailDivided)
          rw [isDigits] at isPosition bounded ⊢
          rw [langOfSegments_eq_ofList languages kind rfl] at nonempty ⊢
          rw [tailWhole]
          exact .positionAndLang kind isPosition bounded (by simpa using nonempty)
    | false =>
        rw [leadingIndex?_of_noPosition others isPosition] at leading
        obtain ⟨rfl, rfl⟩ := Prod.mk.inj (Option.some.inj leading)
        rw [langOfSegments_eq_ofList languages kind tailSplit] at nonempty ⊢
        exact .lang kind (by simpa using nonempty) isPosition

/-- A text is read as the address that it denotes. -/
theorem ofText?_of_denotes {languages : Languages} (filled : languages.Filled)
    {text : List Char} {address : Address} (denotes : Denotes languages text address) :
    ofText? languages text = some address := by
  cases denotes with
  | kind kind =>
      rw [ofText?_of_splitOn languages kind (List.splitOn_eq_singleton (dot_notMem_name kind))]
      exact if_neg (filled.forKind_ne_empty kind)
  | @position kind digits isPosition bounded =>
      have split : (kind.name.toList ++ '.' :: digits).splitOn '.' =
          [kind.name.toList, digits] := by
        rw [List.splitOn_append_cons_self_of_not_mem (dot_notMem_name kind),
          List.splitOn_eq_singleton (dot_notMem_of_isIndex isPosition)]
      rw [ofText?_of_splitOn languages kind split,
        leadingIndex?_of_position [] isPosition bounded]
      exact if_neg (filled.forKind_ne_empty kind)
  | positionAndLang kind isPosition bounded nonempty =>
      rw [ofText?_of_position languages kind isPosition bounded]
      exact if_neg (by simpa using nonempty)
  | lang kind nonempty noPosition =>
      rw [ofText?_of_noPosition languages kind noPosition]
      exact if_neg (by simpa using nonempty)

end Address

end VirtualBlocks
