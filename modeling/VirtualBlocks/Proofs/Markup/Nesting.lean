import VirtualBlocks.Proofs.Markup.Marks

/-!
Contract: contents that end where they are meant to.

Owns:
- texts that hold no tag of a name;
- contents in which elements of the name they stand in are balanced;
- that looking for the end of a content passes over each of them as a whole.

Does not own: single tags and comments (`Proofs.Markup.Marks`) and what stands around a
content (`Proofs.Markup.Written`).
-/

namespace VirtualBlocks

namespace Markup

open VirtualBlocks.Text

/-! ## Tags and comments in a text -/

/-- Somewhere a text has a mark, behind it a name in any letter case, and behind that
a character at which a name can end. -/
def HoldsTag (mark name text : List Char) : Prop :=
  ∃ before spelled c after, text = before ++ (mark ++ (spelled ++ c :: after)) ∧
    SameName name spelled ∧ isNameBoundary [c] = true

/-- A text starts with a name, and with a character of its own at which the name
ends. -/
theorem startsWithTag_and_lt_iff (name text : List Char) :
    startsWithTag name text = true ∧ name.length < text.length ↔
      ∃ spelled c after, text = spelled ++ c :: after ∧ SameName name spelled ∧
        isNameBoundary [c] = true := by
  unfold startsWithTag
  rw [Bool.and_eq_true, beq_iff_eq]
  constructor
  · rintro ⟨⟨same, boundary⟩, inside⟩
    have nonempty : text.drop name.length ≠ [] := by
      rw [ne_eq, List.drop_eq_nil_iff]
      omega
    obtain ⟨c, after, divided⟩ := List.exists_cons_of_ne_nil nonempty
    rw [divided] at boundary
    refine ⟨text.take name.length, c, after, ?_, same, boundary⟩
    rw [← divided, List.take_append_drop]
  · rintro ⟨spelled, c, after, rfl, same, boundary⟩
    rw [← same.length_eq, List.take_left, List.drop_left, List.length_append, List.length_cons]
    exact ⟨⟨same, boundary⟩, by omega⟩

theorem HoldsTag.cons {mark name text : List Char} (holds : HoldsTag mark name text) (c : Char) :
    HoldsTag mark name (c :: text) := by
  obtain ⟨before, spelled, last, after, rfl, tag⟩ := holds
  exact ⟨c :: before, spelled, last, after, rfl, tag⟩

/-- Whether a text holds a tag, found by looking from each of its characters on. -/
def holdsTag (mark name : List Char) : List Char → Bool
  | [] => false
  | c :: rest =>
      let behind := (c :: rest).drop mark.length
      mark.isPrefixOf (c :: rest) && (startsWithTag name behind && name.length < behind.length) ||
        holdsTag mark name rest

theorem holdsTag_iff (mark name text : List Char) :
    holdsTag mark name text = true ↔ HoldsTag mark name text := by
  induction text with
  | nil =>
      constructor
      · exact nofun
      · intro ⟨before, spelled, last, after, divided, _⟩
        have lengths := congrArg List.length divided
        simp at lengths
  | cons c rest inductionHypothesis =>
      rw [holdsTag, Bool.or_eq_true, inductionHypothesis, Bool.and_eq_true, Bool.and_eq_true,
        List.isPrefixOf_iff_prefix, decide_eq_true_eq, startsWithTag_and_lt_iff]
      constructor
      · rintro (⟨⟨behind, divided⟩, tag⟩ | holds)
        · rw [← divided, List.drop_left] at tag
          obtain ⟨spelled, last, after, rfl, tag⟩ := tag
          exact ⟨[], spelled, last, after, divided.symm, tag⟩
        · exact holds.cons c
      · intro ⟨before, spelled, last, after, divided, tag⟩
        cases before with
        | nil =>
            rw [List.nil_append] at divided
            rw [divided, List.drop_left]
            exact .inl ⟨List.prefix_append mark _, spelled, last, after, rfl, tag⟩
        | cons first others =>
            exact .inr ⟨others, spelled, last, after, (List.cons.inj divided).2, tag⟩

instance (mark name text : List Char) : Decidable (HoldsTag mark name text) :=
  decidable_of_iff _ (holdsTag_iff mark name text)

/-- A text without a closing tag of a name, and if it is not raw without a comment
and an opening tag of the name either. -/
structure IsPlain (name : List Char) (raw : Bool) (text : List Char) : Prop where
  noClosing : ¬ HoldsTag ['<', '/'] name text
  noOpening : raw = false → ¬ HoldsTag ['<'] name text
  noComment : raw = false → ¬ commentStart <:+: text

instance (name : List Char) (raw : Bool) (text : List Char) :
    Decidable (IsPlain name raw text) :=
  decidable_of_iff
    (¬ HoldsTag ['<', '/'] name text ∧ (raw = false → ¬ HoldsTag ['<'] name text) ∧
      (raw = false → ¬ commentStart <:+: text))
    ⟨fun ⟨closing, opening, comment⟩ => ⟨closing, opening, comment⟩,
      fun plain => ⟨plain.noClosing, plain.noOpening, plain.noComment⟩⟩

/-- What can stand between a name and the end of its tag. -/
structure IsTagText (text : List Char) : Prop where
  separated : isNameBoundary text = true
  noEnd : '>' ∉ text

instance (text : List Char) : Decidable (IsTagText text) :=
  decidable_of_iff (isNameBoundary text = true ∧ '>' ∉ text)
    ⟨fun ⟨separated, noEnd⟩ => ⟨separated, noEnd⟩, fun tag => ⟨tag.separated, tag.noEnd⟩⟩

/-- A tag that opens an element, or is all of it. -/
def openingTag (name text : List Char) : List Char :=
  '<' :: (name ++ (text ++ ['>']))

def closingTag (name : List Char) : List Char :=
  '<' :: '/' :: (name ++ ['>'])

/-- A content in which the elements of a name are balanced: plain texts with
complete comments and whole elements of that name between them. -/
inductive Balanced (name : List Char) : List Char → Prop where
  | plain {text : List Char} (isPlain : IsPlain name false text) : Balanced name text
  | comment {text comment rest : List Char} (isPlain : IsPlain name false text)
      (isComment : IsComment comment) (further : Balanced name rest) :
      Balanced name (text ++ (comment ++ rest))
  | selfClosing {text spelled inTag rest : List Char} (isPlain : IsPlain name false text)
      (same : SameName name spelled) (isTagText : IsTagText inTag)
      (further : Balanced name rest) :
      Balanced name (text ++ (openingTag spelled (inTag ++ ['/']) ++ rest))
  | element {text spelled inTag inner closing rest : List Char}
      (isPlain : IsPlain name false text) (same : SameName name spelled)
      (isTagText : IsTagText inTag) (opens : inTag.getLast? ≠ some '/')
      (balanced : Balanced name inner) (sameClosing : SameName name closing)
      (further : Balanced name rest) :
      Balanced name
        (text ++ (openingTag spelled inTag ++ (inner ++ (closingTag closing ++ rest))))

/-! ## Passing over a text -/

section Passing

variable {name spelled text rest following : List Char} {raw : Bool}

theorem prepend_nil (read : Option (List Char × List Char)) : prepend [] read = read := by
  cases read <;> rfl

theorem prepend_prepend (first second : List Char) (read : Option (List Char × List Char)) :
    prepend first (prepend second read) = prepend (first ++ second) read := by
  cases read with
  | none => rfl
  | some found =>
      simp only [prepend, Option.map_some, List.append_assoc]

theorem body?_cons_of_ne {c : Char} (other : c ≠ '<') (depth : Nat) :
    body? name raw depth (c :: rest) = prepend [c] (body? name raw depth rest) := by
  have plain : ¬ StartsMarkup name (c :: rest) := fun starts => other starts.head_eq
  unfold StartsMarkup at plain
  rw [not_or, not_or] at plain
  exact body?_of_character plain.2.2 (fun _ => ⟨plain.1, plain.2.1⟩) depth

/-- A text without `<` is passed over. -/
theorem body?_append_of_notMem (notIn : '<' ∉ text) (depth : Nat) :
    body? name raw depth (text ++ rest) = prepend text (body? name raw depth rest) := by
  induction text with
  | nil => exact (prepend_nil _).symm
  | cons c inner inductionHypothesis =>
      rw [List.mem_cons, not_or] at notIn
      rw [List.cons_append, body?_cons_of_ne (Ne.symm notIn.1), inductionHypothesis notIn.2,
        prepend_prepend]
      rfl

theorem startsWithTag_append_of_lt (inside : name.length < text.length) :
    startsWithTag name (text ++ following) = startsWithTag name text := by
  unfold startsWithTag
  rw [List.take_append_of_le_length (Nat.le_of_lt inside),
    List.drop_append_of_le_length (Nat.le_of_lt inside)]
  cases left : text.drop name.length with
  | nil =>
      rw [List.drop_eq_nil_iff] at left
      omega
  | cons c further => rfl

/-- Before a `<` a name ends in the text itself or not at all. -/
theorem exists_spelled_of_append (isName : IsTagName name)
    (starts : startsWithTag name (text ++ '<' :: rest) = true) :
    ∃ spelled c after, text = spelled ++ c :: after ∧ SameName name spelled ∧
      isNameBoundary [c] = true := by
  have inside : name.length < text.length := by
    unfold startsWithTag at starts
    rw [Bool.and_eq_true, beq_iff_eq] at starts
    obtain ⟨same, boundary⟩ := starts
    rcases Nat.lt_trichotomy name.length text.length with inside | atEnd | beyond
    · exact inside
    · rw [atEnd, List.drop_left] at boundary
      contradiction
    · -- a longer name would have the `<` in it
      have taken : '<' ∈ (text ++ '<' :: rest).take name.length := by
        obtain ⟨further, many⟩ : ∃ further, name.length - text.length = further + 1 :=
          ⟨name.length - text.length - 1, by omega⟩
        rw [List.take_append, many, List.take_succ_cons]
        exact List.mem_append_right _ List.mem_cons_self
      exact absurd taken (@IsTagName.notMem name _ isName same '<' (by decide))
  rw [startsWithTag_append_of_lt inside] at starts
  exact (startsWithTag_and_lt_iff name text).1 ⟨starts, inside⟩

/-- A plain text before a `<` is passed over. -/
theorem body?_append_of_isPlain (isName : IsTagName name) (isPlain : IsPlain name raw text)
    (starts : following.head? = some '<') (depth : Nat) :
    body? name raw depth (text ++ following) = prepend text (body? name raw depth following) := by
  obtain ⟨rest, rfl⟩ := List.head?_eq_some_iff.1 starts
  induction text with
  | nil => exact (prepend_nil _).symm
  | cons c inner inductionHypothesis =>
      have innerPlain : IsPlain name raw inner :=
        ⟨fun holds => isPlain.noClosing (holds.cons c),
          fun notRaw holds => isPlain.noOpening notRaw (holds.cons c),
          fun notRaw inside =>
            isPlain.noComment notRaw (inside.trans (List.suffix_cons c inner).isInfix)⟩
      have further := inductionHypothesis innerPlain
      by_cases mark : c = '<'
      · subst mark
        rw [List.cons_append, body?_of_character, further, prepend_prepend]
        · rfl
        · intro closes
          obtain ⟨behind, divided, named⟩ := (startsClosing_iff name _).1 closes
          cases inner with
          | nil => cases divided
          | cons first others =>
              cases divided
              obtain ⟨spelled, c, after, rfl, tag⟩ := exists_spelled_of_append isName named
              exact isPlain.noClosing ⟨[], spelled, c, after, rfl, tag⟩
        · intro notRaw
          constructor
          · intro startsComment
            have startsInner := (List.cons_prefix_cons.1 startsComment).2
            rw [prefix_append_cons_iff (by decide)] at startsInner
            exact isPlain.noComment notRaw (List.cons_prefix_cons.2 ⟨rfl, startsInner⟩).isInfix
          · intro opens
            obtain ⟨spelled, c, after, rfl, tag⟩ :=
              exists_spelled_of_append isName ((startsOpening_iff name _).1 opens)
            exact isPlain.noOpening notRaw ⟨[], spelled, c, after, rfl, tag⟩
      · rw [List.cons_append, body?_cons_of_ne mark, further, prepend_prepend]
        rfl

/-- A complete comment is passed over, unless the text is raw. -/
theorem body?_append_of_isComment {comment : List Char} (isComment : IsComment comment)
    (depth : Nat) :
    body? name false depth (comment ++ rest) =
      prepend comment (body? name false depth rest) := by
  rw [body?_eq_turn, bodyTurn_of_comment isComment]
  rfl

theorem IsTagText.isNameBoundary_append {inTag : List Char} (isTagText : IsTagText inTag)
    (rest : List Char) : isNameBoundary (inTag ++ '>' :: rest) = true := by
  cases inTag with
  | nil => rfl
  | cons c further => exact isTagText.separated

theorem openingTag_append (spelled inTag rest : List Char) :
    openingTag spelled inTag ++ rest = '<' :: (spelled ++ (inTag ++ '>' :: rest)) := by
  rw [openingTag, List.cons_append, List.append_assoc, List.append_assoc]
  rfl

theorem cutThrough?_openingTag (isName : IsTagName name) (same : SameName name spelled)
    {inTag : List Char} (isTagText : IsTagText inTag) (rest : List Char) :
    cutThrough? ['>'] (openingTag spelled inTag ++ rest) =
      some (openingTag spelled inTag, rest) := by
  have notBefore : '>' ∉ '<' :: (spelled ++ inTag) := by
    rw [List.mem_cons, List.mem_append, not_or, not_or]
    exact ⟨by decide, @IsTagName.notMem name _ isName same '>' (by decide), isTagText.noEnd⟩
  have cut := cutThrough?_concat notBefore rest
  rw [List.cons_append, List.cons_append, List.append_assoc, List.append_assoc] at cut
  rw [openingTag_append]
  exact cut

/-- The last character before the end of a tag, which is not one of its name, tells
whether the tag closes itself. -/
theorem endsSelfClosing_openingTag (isName : IsTagName name) (same : SameName name spelled)
    (inTag : List Char) :
    endsSelfClosing (openingTag spelled inTag) = (inTag.getLast? == some '/') := by
  have divided : openingTag spelled inTag = ('<' :: spelled ++ inTag) ++ ['>'] := by
    rw [openingTag, List.append_assoc]
    rfl
  unfold endsSelfClosing
  rw [divided, List.dropLast_concat, List.getLast?_append]
  cases inTag.getLast? with
  | some c => rfl
  | none =>
      rw [Option.none_or, Bool.eq_iff_iff, beq_iff_eq, beq_iff_eq]
      constructor
      · intro endsName
        rcases List.mem_cons.1 (List.mem_of_getLast? endsName) with isMark | inName
        · contradiction
        · exact absurd inName (@IsTagName.notMem name _ isName same '/' (by decide))
      · exact nofun

/-- A tag of the name opens an element, unless it closes itself. -/
theorem body?_append_openingTag (isName : IsTagName name) (same : SameName name spelled)
    {inTag : List Char} (isTagText : IsTagText inTag) (depth : Nat) :
    body? name false depth (openingTag spelled inTag ++ rest) =
      prepend (openingTag spelled inTag)
        (body? name false (if inTag.getLast? == some '/' then depth else depth + 1) rest) := by
  have opens : StartsOpening name ('<' :: (spelled ++ (inTag ++ '>' :: rest))) :=
    ⟨spelled, _, rfl, same, isTagText.isNameBoundary_append rest⟩
  have cut := cutThrough?_openingTag isName same isTagText rest
  rw [openingTag_append] at cut ⊢
  rw [body?_eq_turn, bodyTurn_of_opening isName opens, cut]
  dsimp only
  rw [endsSelfClosing_openingTag isName same]
  rfl

/-- A closing tag of the name closes the element, or an element inside it. -/
theorem body?_closingTag_eq (isName : IsTagName name) (same : SameName name spelled)
    (depth : Nat) :
    body? name raw depth (closingTag spelled ++ rest) =
      match depth with
      | 0 => some ([], rest)
      | outer + 1 =>
          prepend ['<'] (body? name raw outer ('/' :: (spelled ++ '>' :: rest))) := by
  have whole : closingTag spelled ++ rest = '<' :: '/' :: (spelled ++ '>' :: rest) := by
    rw [closingTag, List.cons_append, List.cons_append, List.append_assoc]
    rfl
  have closes : StartsClosing name ('<' :: '/' :: (spelled ++ '>' :: rest)) :=
    ⟨spelled, _, rfl, same, rfl⟩
  have behind : afterFirst ['>'] ('<' :: '/' :: (spelled ++ '>' :: rest)) = rest := by
    have notBefore : '>' ∉ '<' :: '/' :: spelled := by
      rw [List.mem_cons, List.mem_cons, not_or, not_or]
      exact ⟨by decide, by decide, @IsTagName.notMem name _ isName same '>' (by decide)⟩
    have cut := cutThrough?_concat notBefore rest
    rw [List.cons_append, List.cons_append] at cut
    rw [afterFirst, cut]
  rw [whole, body?_eq_turn, bodyTurn_of_closing closes]
  cases depth with
  | zero => exact congrArg (fun left => some ([], left)) behind
  | succ outer => rfl

theorem body?_append_closingTag (isName : IsTagName name) (same : SameName name spelled)
    (depth : Nat) :
    body? name raw (depth + 1) (closingTag spelled ++ rest) =
      prepend (closingTag spelled) (body? name raw depth rest) := by
  have noMark : '<' ∉ '/' :: (spelled ++ ['>']) := by
    rw [List.mem_cons, List.mem_append, List.mem_singleton, not_or, not_or]
    exact ⟨by decide, @IsTagName.notMem name _ isName same '<' (by decide), by decide⟩
  have passed := @body?_append_of_notMem name _ rest raw noMark depth
  rw [List.cons_append, List.append_assoc] at passed
  rw [body?_closingTag_eq isName same]
  dsimp only
  rw [List.singleton_append] at passed
  rw [passed, prepend_prepend]
  rfl

/-- A content with balanced elements is passed over, in whichever element of its
name it stands. -/
theorem Balanced.body?_append (isName : IsTagName name) {content : List Char}
    (balanced : Balanced name content) (starts : following.head? = some '<') (depth : Nat) :
    body? name false depth (content ++ following) =
      prepend content (body? name false depth following) := by
  -- a content inside is followed by its closing tag and stands one level deeper, so both vary
  induction balanced generalizing following depth with
  | plain isPlain => exact body?_append_of_isPlain isName isPlain starts depth
  | @comment text comment rest isPlain isComment _ inductionHypothesis =>
      have commentStarts : (comment ++ (rest ++ following)).head? = some '<' := by
        obtain ⟨further, rfl⟩ := isComment.starts
        rfl
      rw [List.append_assoc, List.append_assoc, body?_append_of_isPlain isName isPlain commentStarts,
        body?_append_of_isComment isComment, inductionHypothesis starts, prepend_prepend,
        prepend_prepend, List.append_assoc]
  | @selfClosing text spelled inTag rest isPlain same isTagText _ inductionHypothesis =>
      have selfClosing : IsTagText (inTag ++ ['/']) := by
        constructor
        · cases inTag with
          | nil => rfl
          | cons c further => exact isTagText.separated
        · rw [List.mem_append, List.mem_singleton, not_or]
          exact ⟨isTagText.noEnd, by decide⟩
      rw [List.append_assoc, List.append_assoc, body?_append_of_isPlain isName isPlain rfl,
        body?_append_openingTag isName same selfClosing, List.getLast?_concat,
        if_pos (beq_self_eq_true _), inductionHypothesis starts, prepend_prepend, prepend_prepend,
        List.append_assoc]
  | @element text spelled inTag inner closing rest isPlain same isTagText opens _ sameClosing _
      innerHypothesis inductionHypothesis =>
      rw [List.append_assoc, List.append_assoc, List.append_assoc, List.append_assoc,
        body?_append_of_isPlain isName isPlain rfl, body?_append_openingTag isName same isTagText,
        if_neg (by rw [beq_iff_eq]; exact opens), innerHypothesis rfl,
        body?_append_closingTag isName sameClosing, inductionHypothesis starts]
      rw [prepend_prepend, prepend_prepend, prepend_prepend, prepend_prepend, List.append_assoc,
        List.append_assoc, List.append_assoc]

end Passing

/-! ## Contents -/

/-- What can be the content of an element: raw text without the closing tag of the
element, or a text in which elements of its name are balanced. -/
def IsContent (name : List Char) (raw : Bool) (content : List Char) : Prop :=
  if raw then IsPlain name true content else Balanced name content

/-- A content is read up to the closing tag that is written behind it. -/
theorem body?_of_isContent {name content : List Char} {raw : Bool} (isName : IsTagName name)
    (isContent : IsContent name raw content) (rest : List Char) :
    body? name raw 0 (content ++ (closingTag name ++ rest)) = some (content, rest) := by
  have closes : body? name raw 0 (closingTag name ++ rest) = some ([], rest) :=
    body?_closingTag_eq isName rfl 0
  have passed : body? name raw 0 (content ++ (closingTag name ++ rest)) =
      prepend content (body? name raw 0 (closingTag name ++ rest)) := by
    cases raw with
    | true => exact body?_append_of_isPlain isName isContent rfl 0
    | false => exact Balanced.body?_append isName isContent rfl 0
  rw [passed, closes]
  exact congrArg (fun whole => some (whole, rest)) (List.append_nil content)

end Markup

end VirtualBlocks
