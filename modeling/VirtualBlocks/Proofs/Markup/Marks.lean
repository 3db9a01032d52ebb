import Mathlib.Data.List.Infix
import VirtualBlocks.Proofs.Markup.Turns
import VirtualBlocks.Proofs.Text.Occurrence

/-!
Contract: what stands at a place of a content, and the turn that the search for its end
takes there.

Owns:
- tag names, and the same name in other letters;
- complete comments, and texts that start with a comment or with a tag of a name;
- the turn of the search at a comment, at an opening and a closing tag of the name, and at
  any other character.

Does not own: whole contents (`Proofs.Markup.Nesting`, `Proofs.Markup.RawText` and
`Proofs.Markup.Balance`).
-/

namespace VirtualBlocks.Markup

open VirtualBlocks.Text

/-! ## Names -/

/-- A tag name: an ASCII letter, then characters of tag names. -/
def IsTagName (name : List Char) : Prop :=
  ∃ first others, name = first :: others ∧ first.isAlpha = true ∧
    ∀ c ∈ others, isTagNameChar c = true

/-- The same name up to ASCII letter case. -/
def SameName (name spelled : List Char) : Prop :=
  spelled.map Char.toLower = name.map Char.toLower

instance (name spelled : List Char) : Decidable (SameName name spelled) :=
  inferInstanceAs (Decidable (spelled.map Char.toLower = name.map Char.toLower))

theorem SameName.length_eq {name spelled : List Char} (same : SameName name spelled) :
    spelled.length = name.length := by
  have lengths := congrArg List.length same
  rwa [List.length_map, List.length_map] at lengths

theorem isTagNameChar_of_isAlpha {c : Char} (letter : c.isAlpha = true) :
    isTagNameChar c = true := by
  unfold isTagNameChar Char.isAlphanum
  rw [letter]
  rfl

theorem toNat_lt_of_isTagNameChar {c : Char} (inName : isTagNameChar c = true) :
    c.toNat < 128 := by
  simp only [isTagNameChar, Bool.or_eq_true, beq_iff_eq] at inName
  rcases inName with (((alphanumeric | rfl) | rfl) | rfl) | rfl
  · exact toNat_lt_of_isAlphanum alphanumeric
  all_goals decide

theorem isTagNameChar_toLower {c : Char} (inName : isTagNameChar c = true) :
    isTagNameChar c.toLower = true := by
  have table : ∀ code ∈ List.range 128, isTagNameChar (Char.ofNat code) = true →
      isTagNameChar (Char.ofNat code).toLower = true := by decide +kernel
  have entry := table c.toNat (List.mem_range.2 (toNat_lt_of_isTagNameChar inName))
  rw [Char.ofNat_toNat] at entry
  exact entry inName

namespace IsTagName

variable {name spelled : List Char}

theorem all (isName : IsTagName name) : ∀ c ∈ name, isTagNameChar c = true := by
  obtain ⟨first, others, rfl, letter, rest⟩ := isName
  exact List.forall_mem_cons.2 ⟨isTagNameChar_of_isAlpha letter, rest⟩

theorem ne_nil (isName : IsTagName name) : name ≠ [] := by
  obtain ⟨first, others, rfl, -, -⟩ := isName
  exact List.cons_ne_nil first others

theorem toLower_of_mem (isName : IsTagName name) (same : SameName name spelled) {c : Char}
    (member : c ∈ spelled) : isTagNameChar c.toLower = true := by
  have lowered : c.toLower ∈ name.map Char.toLower := same ▸ List.mem_map_of_mem member
  obtain ⟨original, inName, equal⟩ := List.mem_map.1 lowered
  rw [← equal]
  exact isTagNameChar_toLower (isName.all original inName)

/-- A character that is no letter and in no tag name is in no spelling of one. -/
theorem notMem (isName : IsTagName name) (same : SameName name spelled) {c : Char}
    (foreign : isTagNameChar c.toLower = false) : c ∉ spelled := by
  intro member
  have inName := isName.toLower_of_mem same member
  rw [foreign] at inName
  contradiction

end IsTagName

/-! ## Comments and tags -/

/-- A comment whose only end is the end of the text. -/
structure IsComment (text : List Char) : Prop where
  starts : commentStart <+: text
  ends : commentEnd <:+ text
  onlyEnd : ¬ commentEnd <:+: text.dropLast

instance (text : List Char) : Decidable (IsComment text) :=
  decidable_of_iff
    (commentStart <+: text ∧ commentEnd <:+ text ∧ ¬ commentEnd <:+: text.dropLast)
    ⟨fun ⟨starts, ends, onlyEnd⟩ => ⟨starts, ends, onlyEnd⟩,
      fun comment => ⟨comment.starts, comment.ends, comment.onlyEnd⟩⟩

/-- A text starts with an opening tag: its mark, a name in any ASCII letter case, and a
character at which the name ends or the end of the text. -/
def StartsOpening (name text : List Char) : Prop :=
  ∃ spelled following, text = '<' :: (spelled ++ following) ∧ SameName name spelled ∧
    isNameBoundary following = true

/-- A text starts with a closing tag: its mark, a name in any ASCII letter case, and a
character at which the name ends or the end of the text. -/
def StartsClosing (name text : List Char) : Prop :=
  ∃ spelled following, text = '<' :: '/' :: (spelled ++ following) ∧ SameName name spelled ∧
    isNameBoundary following = true

/-- A text starts with a comment or with a tag of a name. -/
def StartsMarkup (name text : List Char) : Prop :=
  commentStart <+: text ∨ StartsOpening name text ∨ StartsClosing name text

section Starts

variable {name spelled following text rest left : List Char}

theorem startsWithTag_append (same : SameName name spelled)
    (boundary : isNameBoundary following = true) :
    startsWithTag name (spelled ++ following) = true := by
  unfold startsWithTag
  rw [← same.length_eq, List.take_left, List.drop_left, boundary, Bool.and_true, beq_iff_eq]
  exact same

theorem startsWithTag_iff (name text : List Char) :
    startsWithTag name text = true ↔
      ∃ spelled following, text = spelled ++ following ∧ SameName name spelled ∧
        isNameBoundary following = true := by
  constructor
  · intro starts
    unfold startsWithTag at starts
    rw [Bool.and_eq_true, beq_iff_eq] at starts
    exact ⟨text.take name.length, text.drop name.length,
      (List.take_append_drop name.length text).symm, starts.1, starts.2⟩
  · rintro ⟨spelled, following, rfl, same, boundary⟩
    exact startsWithTag_append same boundary

theorem startsClosing_iff (name text : List Char) :
    StartsClosing name text ↔
      ∃ inner, text = '<' :: '/' :: inner ∧ startsWithTag name inner = true := by
  constructor
  · intro ⟨spelled, following, whole, tag⟩
    exact ⟨_, whole, (startsWithTag_iff name _).2 ⟨spelled, following, rfl, tag⟩⟩
  · intro ⟨inner, whole, starts⟩
    obtain ⟨spelled, following, rfl, tag⟩ := (startsWithTag_iff name inner).1 starts
    exact ⟨spelled, following, whole, tag⟩

theorem startsOpening_iff (name rest : List Char) :
    StartsOpening name ('<' :: rest) ↔ startsWithTag name rest = true := by
  rw [startsWithTag_iff]
  constructor
  · intro ⟨spelled, following, whole, tag⟩
    exact ⟨spelled, following, (List.cons.inj whole).2, tag⟩
  · intro ⟨spelled, following, whole, tag⟩
    exact ⟨spelled, following, congrArg ('<' :: ·) whole, tag⟩

theorem StartsOpening.exists_rest (opens : StartsOpening name text) :
    ∃ rest, text = '<' :: rest := by
  obtain ⟨spelled, following, rfl, -⟩ := opens
  exact ⟨_, rfl⟩

theorem StartsMarkup.exists_rest (starts : StartsMarkup name text) :
    ∃ rest, text = '<' :: rest := by
  rcases starts with ⟨further, divided⟩ | opens | ⟨_, _, divided, -⟩
  · exact ⟨_, divided.symm⟩
  · exact opens.exists_rest
  · exact ⟨_, divided⟩

theorem StartsMarkup.head_eq {c : Char} (starts : StartsMarkup name (c :: rest)) : c = '<' := by
  obtain ⟨_, divided⟩ := starts.exists_rest
  exact (List.cons.inj divided).1

/-- The name of an opening tag starts neither a comment nor a closing tag. -/
theorem StartsOpening.exists_letter (isName : IsTagName name)
    (opens : StartsOpening name ('<' :: rest)) :
    ∃ first further, rest = first :: further ∧ first ≠ '!' ∧ first ≠ '/' := by
  obtain ⟨spelled, following, divided, same, -⟩ := opens
  have nonempty : spelled ≠ [] := by
    rintro rfl
    exact isName.ne_nil (List.map_eq_nil_iff.1 same.symm)
  obtain ⟨first, others, rfl⟩ := List.exists_cons_of_ne_nil nonempty
  refine ⟨first, others ++ following, (List.cons.inj divided).2, ?_, ?_⟩
  · rintro rfl
    exact @IsTagName.notMem name _ isName same '!' (by decide) List.mem_cons_self
  · rintro rfl
    exact @IsTagName.notMem name _ isName same '/' (by decide) List.mem_cons_self

/-- A marker is found at the end of what it is cut behind, and nowhere before. -/
theorem isComment_of_cutThrough? {comment : List Char} (starts : commentStart <+: text)
    (cut : cutThrough? commentEnd text = some (comment, left)) : IsComment comment := by
  obtain ⟨ends, onlyEnd⟩ := onlyEnd_of_cutThrough? (by decide) cut
  refine ⟨?_, ends, onlyEnd⟩
  have whole : comment <+: text := ⟨left, append_of_cutThrough? cut⟩
  rcases List.prefix_or_prefix_of_prefix starts whole with within | short
  · exact within
  · -- the start of a comment holds no `>`
    have inStart : '>' ∈ commentStart := short.subset (ends.subset (by decide))
    exact absurd inStart (by decide)

end Starts

/-! ## The turns of the search -/

section Turns

variable {name text rest left : List Char} {raw : Bool} {depth : Nat}

theorem bodyTurn_of_commentStart (starts : commentStart <+: text) (depth : Nat) :
    bodyTurn name false depth text =
      match cutThrough? commentEnd text with
      | none => .ends none
      | some (comment, left) => .goesOn depth left (prepend comment) := by
  obtain ⟨further, rfl⟩ := starts
  have test : commentStart.isPrefixOf (commentStart ++ further) = true :=
    List.isPrefixOf_iff_prefix.2 (List.prefix_append commentStart further)
  have mark : commentStart ++ further = '<' :: (['!', '-', '-'] ++ further) := rfl
  rw [mark] at test ⊢
  rw [bodyTurn.eq_def]
  dsimp only
  rw [if_neg (fun other => other rfl), Bool.not_false, Bool.true_and]
  refine (if_pos test).trans ?_
  cases cutThrough? commentEnd ('<' :: (['!', '-', '-'] ++ further)) <;> rfl

theorem bodyTurn_of_comment {comment : List Char} (isComment : IsComment comment) (depth : Nat)
    (left : List Char) :
    bodyTurn name false depth (comment ++ left) = .goesOn depth left (prepend comment) := by
  rw [bodyTurn_of_commentStart (isComment.starts.trans (List.prefix_append comment left)),
    cutThrough?_append (by decide) isComment.ends isComment.onlyEnd]

theorem bodyTurn_of_opening (isName : IsTagName name) (opens : StartsOpening name ('<' :: rest))
    (depth : Nat) :
    bodyTurn name false depth ('<' :: rest) =
      match cutThrough? ['>'] ('<' :: rest) with
      | none => .ends none
      | some (tag, left) =>
          .goesOn (if endsSelfClosing tag then depth else depth + 1) left (prepend tag) := by
  have isOpening := (startsOpening_iff name rest).1 opens
  obtain ⟨first, further, rfl, notComment, notClosing⟩ := opens.exists_letter isName
  have commentTest : ¬ commentStart.isPrefixOf ('<' :: first :: further) = true := by
    rw [List.isPrefixOf_iff_prefix]
    intro starts
    exact notComment (List.cons_prefix_cons.1 (List.cons_prefix_cons.1 starts).2).1.symm
  rw [bodyTurn.eq_def]
  dsimp only
  rw [if_neg (fun other => other rfl), Bool.not_false, Bool.true_and, Bool.true_and,
    if_neg commentTest, List.head?_cons, if_neg (fun same => notClosing (Option.some.inj same))]
  refine (if_pos isOpening).trans ?_
  cases cutThrough? ['>'] ('<' :: first :: further) with
  | none => rfl
  | some cut =>
      dsimp only
      split <;> rfl

/-- A closing tag ends the element it stands in, raw or not, or one inside it. -/
theorem bodyTurn_of_closing (closes : StartsClosing name ('<' :: rest)) :
    bodyTurn name raw depth ('<' :: rest) =
      match depth with
      | 0 => .ends (some ([], afterFirst ['>'] ('<' :: rest)))
      | outer + 1 => .goesOn outer rest (prepend ['<']) := by
  obtain ⟨inner, divided, starts⟩ := (startsClosing_iff name _).1 closes
  obtain ⟨-, rfl⟩ := List.cons.inj divided
  have noComment : ¬ (!raw && commentStart.isPrefixOf ('<' :: '/' :: inner)) = true := by
    rw [Bool.and_eq_true, List.isPrefixOf_iff_prefix]
    intro test
    have second := (List.cons_prefix_cons.1 (List.cons_prefix_cons.1 test.2).2).1
    contradiction
  rw [bodyTurn.eq_def]
  dsimp only
  rw [if_neg (fun other => other rfl), if_neg noComment, List.head?_cons, if_pos rfl,
    List.tail_cons]
  refine (if_pos starts).trans ?_
  cases depth <;> rfl

/-- In raw text nothing but a closing tag is looked at. -/
theorem bodyTurn_of_character {c : Char} (noClosing : ¬ StartsClosing name (c :: rest))
    (notRaw : raw = false → ¬ commentStart <+: c :: rest ∧ ¬ StartsOpening name (c :: rest))
    (depth : Nat) :
    bodyTurn name raw depth (c :: rest) = .goesOn depth rest (prepend [c]) := by
  rw [bodyTurn.eq_def]
  dsimp only
  by_cases mark : c = '<'
  · subst mark
    have commentTest : ¬ (!raw && commentStart.isPrefixOf ('<' :: rest)) = true := by
      rw [Bool.and_eq_true, Bool.not_eq_true', List.isPrefixOf_iff_prefix]
      exact fun test => (notRaw test.1).1 test.2
    have openingTest : ¬ (!raw && startsWithTag name rest) = true := by
      rw [Bool.and_eq_true, Bool.not_eq_true', ← startsOpening_iff]
      exact fun test => (notRaw test.1).2 test.2
    rw [if_neg (fun other => other rfl), if_neg commentTest]
    by_cases closes : rest.head? = some '/'
    · obtain ⟨inner, rfl⟩ := List.head?_eq_some_iff.1 closes
      have closingTest : ¬ startsWithTag name inner = true :=
        fun starts => noClosing ((startsClosing_iff name _).2 ⟨inner, rfl, starts⟩)
      rw [if_pos closes, List.tail_cons, if_neg closingTest]
    · rw [if_neg closes, if_neg openingTest]
  · rw [if_pos mark]

theorem body?_of_startsClosing (raw : Bool) (closes : StartsClosing name text) :
    body? name raw 0 text = some ([], afterFirst ['>'] text) := by
  obtain ⟨rest, rfl⟩ := (StartsMarkup.exists_rest (.inr (.inr closes)))
  rw [body?_eq_turn, bodyTurn_of_closing closes]
  rfl

theorem body?_of_character {c : Char} (noClosing : ¬ StartsClosing name (c :: rest))
    (notRaw : raw = false → ¬ commentStart <+: c :: rest ∧ ¬ StartsOpening name (c :: rest))
    (depth : Nat) :
    body? name raw depth (c :: rest) = prepend [c] (body? name raw depth rest) := by
  rw [body?_eq_turn, bodyTurn_of_character noClosing notRaw]
  rfl

end Turns

end VirtualBlocks.Markup
