import VirtualBlocks.Text.Search

/-!
Contract: where a marker occurs in a text.

Owns:
- occurrences in a text that is put together from parts: none starts in a part
  without the first character of the marker, and a separator that is not in the
  marker lies in none;
- the cut at the first separator of a text, and the cut at all of them;
- the cut behind a marker that ends a text and is nowhere else in it, and what
  follows the first of a single character;
- the text through the last occurrence of a marker, found or not.
-/

namespace VirtualBlocks.Text

variable {marker : List Char}

/-! ## Parts of a text -/

/-- A character in none of the parts is not in the parts joined by another one. -/
theorem notMem_intercalate {c separator : Char} (other : c ≠ separator)
    {parts : List (List Char)} (outside : ∀ part ∈ parts, c ∉ part) :
    c ∉ [separator].intercalate parts := by
  induction parts with
  | nil => exact List.not_mem_nil
  | cons part rest inductionHypothesis =>
      have notInRest := inductionHypothesis
        (fun later member => outside later (List.mem_cons_of_mem _ member))
      have notInPart := outside part List.mem_cons_self
      cases rest with
      | nil =>
          rw [List.intercalate_singleton]
          exact notInPart
      | cons next further =>
          rw [List.intercalate_cons_cons]
          simp only [List.mem_append, List.mem_singleton, not_or]
          exact ⟨⟨notInPart, other⟩, notInRest⟩

/-- No occurrence starts in text without the first character of the marker. -/
theorem infix_append_iff {first : Char} {others front : List Char} (outside : first ∉ front)
    (text : List Char) : first :: others <:+: front ++ text ↔ first :: others <:+: text := by
  induction front with
  | nil => exact Iff.rfl
  | cons c rest inductionHypothesis =>
      rw [List.mem_cons, not_or] at outside
      rw [List.cons_append, List.infix_cons_iff, inductionHypothesis outside.2]
      constructor
      · rintro (starts | inside)
        · exact absurd (List.cons_prefix_cons.1 starts).1 outside.1
        · exact inside
      · exact Or.inr

section Separated

variable {separator : Char} (outside : separator ∉ marker)
include outside

/-- A start of a text that does not hold the separator ends before it. -/
theorem prefix_append_cons_iff (left right : List Char) :
    marker <+: left ++ separator :: right ↔ marker <+: left := by
  constructor
  · intro starts
    have throughSeparator : left ++ [separator] <+: left ++ separator :: right := by
      rw [List.prefix_append_right_inj]
      exact List.prefix_append [separator] right
    rcases List.prefix_or_prefix_of_prefix starts throughSeparator with short | long
    · rcases List.prefix_concat_iff.1 short with whole | within
      · exact absurd (whole ▸ List.mem_append_right left (List.mem_singleton_self separator)) outside
      · exact within
    · have inMarker := long.subset (List.mem_append_right left (List.mem_singleton_self separator))
      exact absurd inMarker outside
  · intro starts
    exact starts.trans (List.prefix_append left (separator :: right))

/-- An occurrence lies on one side of a separator that the marker does not
hold. -/
theorem infix_append_cons_iff (markerNonempty : marker ≠ []) (left right : List Char) :
    marker <:+: left ++ separator :: right ↔ marker <:+: left ∨ marker <:+: right := by
  induction left with
  | nil =>
      obtain ⟨first, others, rfl⟩ := List.exists_cons_of_ne_nil markerNonempty
      have notFirst : first ∉ [separator] := by
        intro member
        rw [List.mem_singleton.1 member] at outside
        exact outside List.mem_cons_self
      have notInNil : ¬ first :: others <:+: [] := fun inside =>
        markerNonempty (List.infix_nil.1 inside)
      have behind := @infix_append_iff first others [separator] notFirst right
      rw [List.singleton_append] at behind
      rw [List.nil_append, behind]
      exact ⟨Or.inr, fun inside => inside.elim (fun inNil => absurd inNil notInNil) id⟩
  | cons c rest inductionHypothesis =>
      have starts := prefix_append_cons_iff outside (c :: rest) right
      rw [List.cons_append] at starts
      rw [List.cons_append, List.infix_cons_iff, starts, inductionHypothesis,
        List.infix_cons_iff, or_assoc]

end Separated

/-! ## The first occurrence -/

/-- A text is cut at its first separator, if it holds one. -/
theorem splitOn_eq_or (separator : Char) (text : List Char) :
    (separator ∉ text ∧ text.splitOn separator = [text]) ∨
      ∃ first rest, separator ∉ first ∧ text = first ++ separator :: rest ∧
        text.splitOn separator = first :: rest.splitOn separator := by
  by_cases member : separator ∈ text
  · obtain ⟨first, rest, whole, notInFirst⟩ := List.eq_append_cons_of_mem member
    refine .inr ⟨first, rest, notInFirst, whole, ?_⟩
    rw [whole]
    exact List.splitOn_append_cons_self_of_not_mem notInFirst rest
  · exact .inl ⟨member, List.splitOn_eq_singleton member⟩

/-- Parts that are not empty are what remains of the text that they are joined to,
when it is cut at its separators. -/
theorem filter_splitOn_intercalate {separator : Char} {parts : List (List Char)}
    (nonempty : ∀ part ∈ parts, part ≠ []) (outside : ∀ part ∈ parts, separator ∉ part) :
    (([separator].intercalate parts).splitOn separator).filter (fun part => !part.isEmpty) =
      parts := by
  have kept : parts.filter (fun part => !part.isEmpty) = parts := by
    apply List.filter_eq_self.2
    intro part member
    simpa using nonempty part member
  cases parts with
  | nil => rfl
  | cons part rest => rw [List.splitOn_intercalate separator outside (List.cons_ne_nil part rest), kept]

/-- A text whose only occurrence of a marker is its end is cut behind it. -/
theorem cutThrough?_append {through : List Char} (markerNonempty : marker ≠ [])
    (ends : marker <:+ through) (notBefore : ¬ marker <:+: through.dropLast)
    (rest : List Char) : cutThrough? marker (through ++ rest) = some (through, rest) := by
  induction through with
  | nil => exact absurd (List.suffix_nil.1 ends) markerNonempty
  | cons c inner inductionHypothesis =>
      rw [List.cons_append, cutThrough?]
      rcases List.suffix_cons_iff.1 ends with whole | inInner
      · subst whole
        have starts : c :: inner <+: c :: (inner ++ rest) := List.prefix_append (c :: inner) rest
        rw [if_pos (List.isPrefixOf_iff_prefix.2 starts), ← List.cons_append,
          List.take_left, List.drop_left]
      · -- an occurrence here would end before the last character
        have notHere : ¬ marker <+: c :: (inner ++ rest) := by
          intro starts
          have whole : (c :: inner).dropLast <+: c :: (inner ++ rest) :=
            (List.dropLast_prefix _).trans (List.prefix_append (c :: inner) rest)
          have short := inInner.length_le
          have within := List.prefix_of_prefix_length_le starts whole (by simpa using short)
          exact notBefore within.isInfix
        have innerNonempty : inner ≠ [] := by
          intro empty
          rw [empty] at inInner
          exact markerNonempty (List.suffix_nil.1 inInner)
        rw [List.dropLast_cons_of_ne_nil innerNonempty] at notBefore
        have notInInner : ¬ marker <:+: inner.dropLast := fun inside =>
          notBefore (inside.trans (List.suffix_cons c _).isInfix)
        rw [if_neg (by rwa [List.isPrefixOf_iff_prefix]), inductionHypothesis inInner notInInner]
        rfl

/-- A text that is cut behind a marker has it at its end and nowhere before. -/
theorem onlyEnd_of_cutThrough? {text through rest : List Char} (markerNonempty : marker ≠ [])
    (cut : cutThrough? marker text = some (through, rest)) :
    marker <:+ through ∧ ¬ marker <:+: through.dropLast := by
  induction text generalizing through with
  | nil =>
      rw [cutThrough?, if_neg markerNonempty] at cut
      contradiction
  | cons c tail inductionHypothesis =>
      rw [cutThrough?] at cut
      split at cut
      · rename_i starts
        have taken := List.prefix_iff_eq_take.1 (List.isPrefixOf_iff_prefix.1 starts)
        obtain ⟨isThrough, -⟩ := Prod.mk.inj (Option.some.inj cut)
        rw [← isThrough, ← taken]
        refine ⟨List.suffix_refl marker, ?_⟩
        intro inside
        have short := inside.length_le
        have positive := List.length_pos_iff.2 markerNonempty
        rw [List.length_dropLast] at short
        omega
      · rename_i notHere
        obtain ⟨⟨front, back⟩, innerCut, isThrough⟩ := Option.map_eq_some_iff.1 cut
        obtain ⟨rfl, rfl⟩ := Prod.mk.inj isThrough
        obtain ⟨ends, notBefore⟩ := inductionHypothesis innerCut
        refine ⟨ends.trans (List.suffix_cons c front), ?_⟩
        have nonempty : front ≠ [] := by
          rintro rfl
          exact markerNonempty (List.suffix_nil.1 ends)
        rw [List.dropLast_cons_of_ne_nil nonempty, List.infix_cons_iff]
        rintro (starts | inside)
        · have whole : c :: front.dropLast <+: c :: tail := by
            rw [← append_of_cutThrough? innerCut, List.cons_prefix_cons]
            exact ⟨rfl, (List.dropLast_prefix front).trans (List.prefix_append front back)⟩
          exact notHere (List.isPrefixOf_iff_prefix.2 (starts.trans whole))
        · exact notBefore inside

/-- The last character of a text, nowhere else in it, is a marker that ends it. -/
theorem cutThrough?_concat {mark : Char} {front : List Char} (notBefore : mark ∉ front)
    (rest : List Char) :
    cutThrough? [mark] (front ++ mark :: rest) = some (front ++ [mark], rest) := by
  have cut := @cutThrough?_append [mark] (front ++ [mark]) (List.cons_ne_nil _ _)
    (List.suffix_append front [mark])
    (by rw [List.dropLast_concat]
        exact fun inside => notBefore (inside.subset List.mem_cons_self)) rest
  rw [List.append_assoc] at cut
  exact cut

theorem cutThrough?_of_notMem {mark : Char} {text : List Char} (outside : mark ∉ text) :
    cutThrough? [mark] text = none := by
  induction text with
  | nil => rfl
  | cons c rest inductionHypothesis =>
      rw [List.mem_cons, not_or] at outside
      have notHere : ¬ [mark].isPrefixOf (c :: rest) = true := by
        rw [List.isPrefixOf_iff_prefix]
        exact fun starts => outside.1 (List.cons_prefix_cons.1 starts).1
      rw [cutThrough?, if_neg notHere, inductionHypothesis outside.2]
      rfl

/-- What follows the first mark of a text, or nothing if there is none. -/
theorem afterFirst_singleton_eq_or (mark : Char) (text : List Char) :
    (mark ∉ text ∧ afterFirst [mark] text = []) ∨
      ∃ front, mark ∉ front ∧ text = front ++ mark :: afterFirst [mark] text := by
  unfold afterFirst
  by_cases member : mark ∈ text
  · obtain ⟨front, rest, whole, notInFront⟩ := List.eq_append_cons_of_mem member
    have cut := cutThrough?_concat notInFront rest
    rw [← whole] at cut
    rw [cut]
    exact .inr ⟨front, notInFront, whole⟩
  · rw [cutThrough?_of_notMem member]
    exact .inl ⟨member, rfl⟩

/-! ## The last occurrence -/

theorem throughLast?_nil (markerNonempty : marker ≠ []) : throughLast? marker [] = none :=
  if_neg markerNonempty

/-- The text through the last occurrence ends with the marker and starts the
text. -/
theorem suffix_of_throughLast? {text found : List Char}
    (through : throughLast? marker text = some found) : marker <:+ found ∧ found <+: text := by
  induction text generalizing found with
  | nil =>
      simp only [throughLast?] at through
      split at through
      · rename_i empty
        obtain rfl := Option.some.inj through
        rw [empty]
        exact ⟨List.suffix_refl [], List.prefix_refl []⟩
      · contradiction
  | cons c rest inductionHypothesis =>
      simp only [throughLast?] at through
      split at through
      · rename_i inner innerThrough
        obtain ⟨ends, starts⟩ := inductionHypothesis innerThrough
        obtain rfl := Option.some.inj through
        exact ⟨ends.trans (List.suffix_cons c inner), (List.cons_prefix_cons).2 ⟨rfl, starts⟩⟩
      · split at through
        · rename_i starts
          have taken := List.prefix_iff_eq_take.1 (List.isPrefixOf_iff_prefix.1 starts)
          obtain rfl := Option.some.inj through
          rw [← taken]
          exact ⟨List.suffix_refl marker, List.isPrefixOf_iff_prefix.1 starts⟩
        · contradiction

/-- There is a last occurrence when there is one at all. -/
theorem throughLast?_eq_none_iff (markerNonempty : marker ≠ []) (text : List Char) :
    throughLast? marker text = none ↔ ¬ marker <:+: text := by
  induction text with
  | nil =>
      rw [throughLast?_nil markerNonempty, List.infix_nil]
      exact ⟨fun _ => markerNonempty, fun _ => rfl⟩
  | cons c rest inductionHypothesis =>
      rw [List.infix_cons_iff, not_or, ← inductionHypothesis, ← List.isPrefixOf_iff_prefix]
      simp only [throughLast?]
      cases throughLast? marker rest with
      | some inner => simp
      | none => simp

/-- A text that ends with the marker is a text through its last occurrence, and
no other text is. -/
theorem throughLast?_eq_self_iff (markerNonempty : marker ≠ []) (text : List Char) :
    throughLast? marker text = some text ↔ marker <:+ text := by
  constructor
  · intro through
    exact (suffix_of_throughLast? through).1
  · intro ends
    induction text with
    | nil => exact absurd (List.suffix_nil.1 ends) markerNonempty
    | cons c rest inductionHypothesis =>
        simp only [throughLast?]
        rcases List.suffix_cons_iff.1 ends with whole | inRest
        · have tooLong : ¬ marker <:+: rest := by
            intro inside
            have shorter := inside.length_le
            rw [whole, List.length_cons] at shorter
            omega
          rw [(throughLast?_eq_none_iff markerNonempty rest).2 tooLong, whole]
          simp
        · rw [inductionHypothesis inRest]

/-- With a separator that the marker does not hold, the last occurrence is the
one behind the separator if there is one there, else the one before it. -/
theorem throughLast?_append_cons {separator : Char} (markerNonempty : marker ≠ [])
    (outside : separator ∉ marker) (left right : List Char) :
    throughLast? marker (left ++ separator :: right) =
      match throughLast? marker right with
      | some found => some (left ++ separator :: found)
      | none => throughLast? marker left := by
  induction left with
  | nil =>
      have noStart : ¬ marker <+: separator :: right := by
        have starts := prefix_append_cons_iff outside [] right
        rw [List.nil_append, List.prefix_nil] at starts
        exact fun found => markerNonempty (starts.1 found)
      rw [← List.isPrefixOf_iff_prefix] at noStart
      rw [throughLast?_nil markerNonempty, List.nil_append, throughLast?]
      cases throughLast? marker right with
      | some found => rfl
      | none => exact if_neg noStart
  | cons c rest inductionHypothesis =>
      rw [List.cons_append, throughLast?, inductionHypothesis]
      cases throughLast? marker right with
      | some found => rfl
      | none =>
          rw [throughLast?]
          cases throughLast? marker rest with
          | some found => rfl
          | none =>
              have starts := prefix_append_cons_iff outside (c :: rest) right
              rw [List.cons_append, ← List.isPrefixOf_iff_prefix, ← List.isPrefixOf_iff_prefix]
                at starts
              by_cases found : marker.isPrefixOf (c :: rest) = true
              · have foundBeyond := starts.2 found
                have short := (List.isPrefixOf_iff_prefix.1 found).length_le
                simp only [foundBeyond, found, if_true]
                rw [← List.cons_append, List.take_append_of_le_length short]
              · have notBeyond := fun beyond => found (starts.1 beyond)
                simp only [if_neg notBeyond, if_neg found]

end VirtualBlocks.Text
