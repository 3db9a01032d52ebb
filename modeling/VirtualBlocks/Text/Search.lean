/-!
Contract: plain substring search over a list of characters.

Owns:
- the cut behind the first occurrence of a marker;
- the cut behind the last occurrence of a marker;
- the replacement of every occurrence, leftmost first and without overlap.

Every cut gives back the whole text: the two parts concatenate to it.
-/

namespace VirtualBlocks.Text

/-- The text through the first occurrence of `marker`, and what follows it. -/
def cutThrough? (marker : List Char) : List Char → Option (List Char × List Char)
  | [] => if marker = [] then some ([], []) else none
  | c :: rest =>
      if marker.isPrefixOf (c :: rest) then
        some ((c :: rest).take marker.length, (c :: rest).drop marker.length)
      else
        (cutThrough? marker rest).map (fun cut => (c :: cut.1, cut.2))

/-- What follows the first occurrence of `marker`; nothing if there is none. -/
def afterFirst (marker text : List Char) : List Char :=
  match cutThrough? marker text with
  | some (_, rest) => rest
  | none => []

/-- The text through the last occurrence of `marker`. -/
def throughLast? (marker : List Char) : List Char → Option (List Char)
  | [] => if marker = [] then some [] else none
  | c :: rest =>
      match throughLast? marker rest with
      | some found => some (c :: found)
      | none =>
          if marker.isPrefixOf (c :: rest) then some ((c :: rest).take marker.length)
          else none

private def replaceSkipping (old new : List Char) : Nat → List Char → List Char
  | _, [] => []
  | skipped + 1, _ :: rest => replaceSkipping old new skipped rest
  | 0, c :: rest =>
      if old.isPrefixOf (c :: rest) then
        new ++ replaceSkipping old new (old.length - 1) rest
      else
        c :: replaceSkipping old new 0 rest

/-- The text with every occurrence of the non-empty `old` replaced by `new`,
read from the left, so that occurrences do not overlap and nothing that was
written is searched again. -/
def replaceAll (old new text : List Char) : List Char :=
  replaceSkipping old new 0 text

private theorem replaceSkipping_eq (old new : List Char) (skipped : Nat) (text : List Char) :
    replaceSkipping old new skipped text = replaceAll old new (text.drop skipped) := by
  induction text generalizing skipped with
  | nil =>
      rw [List.drop_nil]
      cases skipped <;> rfl
  | cons c rest inductionHypothesis =>
      cases skipped with
      | zero => rfl
      | succ skipped => exact inductionHypothesis skipped

/-- An occurrence at the start is replaced. -/
theorem replaceAll_append {old : List Char} (nonempty : old ≠ []) (new rest : List Char) :
    replaceAll old new (old ++ rest) = new ++ replaceAll old new rest := by
  obtain ⟨first, others, rfl⟩ := List.exists_cons_of_ne_nil nonempty
  have found : (first :: others).isPrefixOf (first :: (others ++ rest)) = true :=
    List.isPrefixOf_iff_prefix.2 (List.prefix_append (first :: others) rest)
  have skipped := replaceSkipping_eq (first :: others) new others.length (others ++ rest)
  rw [List.drop_left] at skipped
  rw [List.cons_append, replaceAll, replaceSkipping, if_pos found, List.length_cons,
    Nat.add_sub_cancel, skipped]

/-- A character that no occurrence starts with stays. -/
theorem replaceAll_cons {old : List Char} (new : List Char) {c : Char} {rest : List Char}
    (notHere : ¬ old <+: c :: rest) :
    replaceAll old new (c :: rest) = c :: replaceAll old new rest := by
  have notFound : ¬ old.isPrefixOf (c :: rest) = true := fun found =>
    notHere (List.isPrefixOf_iff_prefix.1 found)
  rw [replaceAll, replaceSkipping, if_neg notFound]
  rfl

/-- Dropping leading characters never lengthens a text. -/
theorem length_dropWhile_le (p : Char → Bool) (text : List Char) :
    (text.dropWhile p).length ≤ text.length :=
  (List.dropWhile_suffix p).length_le

/-- The two parts of a cut concatenate to the text. -/
theorem append_of_cutThrough? {marker text through rest : List Char}
    (cut : cutThrough? marker text = some (through, rest)) :
    through ++ rest = text := by
  induction text generalizing through with
  | nil =>
      simp only [cutThrough?] at cut
      split at cut <;> simp_all
  | cons c tail inductionHypothesis =>
      simp only [cutThrough?] at cut
      split at cut
      · simp only [Option.some.injEq, Prod.mk.injEq] at cut
        rw [← cut.1, ← cut.2, List.take_append_drop]
      · obtain ⟨⟨front, back⟩, innerCut, equal⟩ := Option.map_eq_some_iff.1 cut
        simp only [Prod.mk.injEq] at equal
        obtain ⟨rfl, rfl⟩ := equal
        exact congrArg (c :: ·) (inductionHypothesis innerCut)

/-- The marker stands inside the first part of a cut. -/
theorem length_le_of_cutThrough? {marker text through rest : List Char}
    (cut : cutThrough? marker text = some (through, rest)) :
    marker.length ≤ through.length := by
  induction text generalizing through with
  | nil =>
      simp only [cutThrough?] at cut
      split at cut <;> simp_all
  | cons c tail inductionHypothesis =>
      simp only [cutThrough?] at cut
      split at cut
      · rename_i found
        have within := (List.isPrefixOf_iff_prefix.1 found).length_le
        simp only [Option.some.injEq, Prod.mk.injEq] at cut
        rw [← cut.1, List.length_take]
        omega
      · obtain ⟨⟨front, back⟩, innerCut, equal⟩ := Option.map_eq_some_iff.1 cut
        simp only [Prod.mk.injEq] at equal
        obtain ⟨rfl, rfl⟩ := equal
        have inner := inductionHypothesis innerCut
        rw [List.length_cons]
        omega

/-- What follows a non-empty marker is shorter than the text it was found in. -/
theorem length_lt_of_cutThrough? {marker text through rest : List Char}
    (markerNonempty : marker ≠ [])
    (cut : cutThrough? marker text = some (through, rest)) :
    rest.length < text.length := by
  have whole := congrArg List.length (append_of_cutThrough? cut)
  have within := length_le_of_cutThrough? cut
  have positive : 0 < marker.length := List.length_pos_iff.2 markerNonempty
  rw [List.length_append] at whole
  omega

/-- Skipping past a non-empty marker shortens every non-empty text. -/
theorem length_afterFirst_lt {marker text : List Char}
    (markerNonempty : marker ≠ []) (textNonempty : text ≠ []) :
    (afterFirst marker text).length < text.length := by
  unfold afterFirst
  split
  · rename_i cut
    exact length_lt_of_cutThrough? markerNonempty cut
  · simpa using List.length_pos_iff.2 textNonempty

end VirtualBlocks.Text
