import Mathlib.Data.List.Basic
import VirtualBlocks.Text.Search
import VirtualBlocks.Text.TemplateLiteral

/-!
Contract: text inside backquotes, read as a module script has it.

Owns:
- where the reading of a template literal stops, and what it passes over before;
- a text without its escapes;
- escaping as three replacements, one after the other;
- an escaped text is passed over as a whole whatever follows it, unless the two make a
  substitution, and stands for the text itself.

Does not own: the value of a line end or of any other escape in a template literal.
-/

namespace VirtualBlocks.Text

/-! ## Reading -/

/-- Where reading from inside backquotes stops: behind the closing backquote or the start of
a substitution, which some text follows, or at the end of the text, inside an escape or
not. -/
inductive TemplateStop where
  | closing (after : List Char)
  | substitution (after : List Char)
  | textEnd
  | insideEscape
deriving DecidableEq

/-- What is passed over from inside backquotes, and where reading stops. A backslash takes
the next character with it. -/
def readTemplate : List Char → List Char × TemplateStop
  | [] => ([], .textEnd)
  | ['\\'] => (['\\'], .insideEscape)
  | '\\' :: c :: rest => ('\\' :: c :: (readTemplate rest).1, (readTemplate rest).2)
  | '`' :: rest => ([], .closing rest)
  | '$' :: '{' :: rest => ([], .substitution rest)
  | c :: rest => (c :: (readTemplate rest).1, (readTemplate rest).2)

/-- A text without its escapes: each backslash and the character behind it give way to that
character. -/
def removeEscapes : List Char → List Char
  | '\\' :: c :: rest => c :: removeEscapes rest
  | c :: rest => c :: removeEscapes rest
  | [] => []

theorem readTemplate_cons {c : Char} (ordinary : ¬ (c = '\\' ∨ c = '`')) {rest : List Char}
    (apart : c = '$' → rest.head? ≠ some '{') :
    readTemplate (c :: rest) = (c :: (readTemplate rest).1, (readTemplate rest).2) := by
  rw [not_or] at ordinary
  rw [readTemplate]
  · exact fun same _ => ordinary.1 same
  · exact fun _ _ same _ => ordinary.1 same
  · exact ordinary.2
  · rintro tail isDollar rfl
    exact apart isDollar rfl

theorem removeEscapes_cons {c : Char} (notBackslash : c ≠ '\\') (rest : List Char) :
    removeEscapes (c :: rest) = c :: removeEscapes rest := by
  rw [removeEscapes]
  exact fun _ _ same _ => notBackslash same

/-! ## Escaping -/

/-- Induction along the escaping of a text. -/
theorem escaping_induction {motive : List Char → Prop} (nil : motive [])
    (substitution : ∀ rest, motive rest → motive ('$' :: '{' :: rest))
    (marked : ∀ c rest, c = '\\' ∨ c = '`' → motive rest → motive (c :: rest))
    (ordinary : ∀ c rest, ¬ (c = '\\' ∨ c = '`') → (c = '$' → rest.head? ≠ some '{') →
      motive rest → motive (c :: rest))
    (text : List Char) : motive text := by
  fun_induction escapeTemplateLiteral text with
  | case1 => exact nil
  | case2 rest inductionHypothesis => exact substitution rest inductionHypothesis
  | case3 c rest _ isMarked inductionHypothesis => exact marked c rest isMarked inductionHypothesis
  | case4 c rest noSubstitution notMarked inductionHypothesis =>
      refine ordinary c rest notMarked ?_ inductionHypothesis
      intro isDollar isBrace
      obtain ⟨tail, rfl⟩ := List.head?_eq_some_iff.1 isBrace
      exact noSubstitution tail isDollar rfl

theorem escapeTemplateLiteral_of_marked {c : Char} (marked : c = '\\' ∨ c = '`')
    (rest : List Char) :
    escapeTemplateLiteral (c :: rest) = '\\' :: c :: escapeTemplateLiteral rest := by
  rw [escapeTemplateLiteral, if_pos marked]
  rintro tail rfl
  exact absurd marked (by decide)

theorem escapeTemplateLiteral_of_ordinary {c : Char} (ordinary : ¬ (c = '\\' ∨ c = '`'))
    {rest : List Char} (apart : c = '$' → rest.head? ≠ some '{') :
    escapeTemplateLiteral (c :: rest) = c :: escapeTemplateLiteral rest := by
  rw [escapeTemplateLiteral, if_neg ordinary]
  rintro tail isDollar rfl
  exact apart isDollar rfl

/-! ### Three replacements -/

theorem replaceAll_singleton (old : Char) (new text : List Char) :
    replaceAll [old] new text = text.flatMap (fun c => if c = old then new else [c]) := by
  induction text with
  | nil => rfl
  | cons c rest inductionHypothesis =>
      rw [List.flatMap_cons, ← inductionHypothesis]
      by_cases same : c = old
      · rw [if_pos same, same]
        exact replaceAll_append (List.cons_ne_nil old []) new rest
      · have notHere : ¬ [old] <+: c :: rest := by
          intro starts
          exact same (List.cons_prefix_cons.1 starts).1.symm
        rw [if_neg same, replaceAll_cons new notHere]
        rfl

/-- A text with a backslash before each backslash and each backquote. -/
def withBackslashes (text : List Char) : List Char :=
  text.flatMap (fun c => if c = '\\' ∨ c = '`' then ['\\', c] else [c])

theorem replaceAll_backquotes (text : List Char) :
    replaceAll ['`'] ['\\', '`'] (replaceAll ['\\'] ['\\', '\\'] text) = withBackslashes text := by
  unfold withBackslashes
  rw [replaceAll_singleton, replaceAll_singleton, List.flatMap_assoc]
  refine List.flatMap_congr fun c _ => ?_
  by_cases isBackslash : c = '\\'
  · subst isBackslash
    rfl
  · by_cases isBackquote : c = '`'
    · subst isBackquote
      rfl
    · simp [isBackslash, isBackquote]

theorem withBackslashes_of_marked {c : Char} (marked : c = '\\' ∨ c = '`') (rest : List Char) :
    withBackslashes (c :: rest) = '\\' :: c :: withBackslashes rest := by
  unfold withBackslashes
  rw [List.flatMap_cons, if_pos marked]
  rfl

theorem withBackslashes_of_ordinary {c : Char} (ordinary : ¬ (c = '\\' ∨ c = '`'))
    (rest : List Char) : withBackslashes (c :: rest) = c :: withBackslashes rest := by
  unfold withBackslashes
  rw [List.flatMap_cons, if_neg ordinary]
  rfl

theorem head?_withBackslashes {text : List Char} (brace : (withBackslashes text).head? = some '{') :
    text.head? = some '{' := by
  cases text with
  | nil => exact brace
  | cons c rest =>
      by_cases marked : c = '\\' ∨ c = '`'
      · rw [withBackslashes_of_marked marked] at brace
        exact absurd (Option.some.inj brace) (by decide)
      · rw [withBackslashes_of_ordinary marked] at brace
        exact brace

theorem not_prefix_of_apart {c : Char} {text : List Char}
    (apart : c = '$' → text.head? ≠ some '{') : ¬ ['$', '{'] <+: c :: text := by
  intro starts
  obtain ⟨isDollar, brace⟩ := List.cons_prefix_cons.1 starts
  obtain ⟨tail, rfl⟩ := brace
  exact apart isDollar.symm rfl

/-- Escaping is the replacement of all backslashes, then of all backquotes, then of all
starts of a substitution. -/
theorem escapeTemplateLiteral_eq_replaceAll (text : List Char) :
    escapeTemplateLiteral text =
      replaceAll ['$', '{'] ['\\', '$', '{']
        (replaceAll ['`'] ['\\', '`'] (replaceAll ['\\'] ['\\', '\\'] text)) := by
  rw [replaceAll_backquotes]
  -- the backslashes that were written neither make nor break a start of a substitution
  induction text using escaping_induction with
  | nil => rfl
  | substitution rest inductionHypothesis =>
      have opening : withBackslashes ('$' :: '{' :: rest) =
          ['$', '{'] ++ withBackslashes rest := rfl
      rw [opening, replaceAll_append (List.cons_ne_nil _ _), ← inductionHypothesis]
      rfl
  | marked c rest isMarked inductionHypothesis =>
      have notDollar : c ≠ '$' := by
        rintro rfl
        exact absurd isMarked (by decide)
      rw [escapeTemplateLiteral_of_marked isMarked, withBackslashes_of_marked isMarked,
        replaceAll_cons _ (not_prefix_of_apart (absurd · (by decide))),
        replaceAll_cons _ (not_prefix_of_apart (absurd · notDollar)), inductionHypothesis]
  | ordinary c rest isOrdinary apart inductionHypothesis =>
      have stillApart : c = '$' → (withBackslashes rest).head? ≠ some '{' :=
        fun isDollar brace => apart isDollar (head?_withBackslashes brace)
      rw [escapeTemplateLiteral_of_ordinary isOrdinary apart,
        withBackslashes_of_ordinary isOrdinary,
        replaceAll_cons _ (not_prefix_of_apart stillApart), inductionHypothesis]

/-! ## Reading escaped text -/

/-- A dollar sign at the end of a text and a brace at the start of what follows it. -/
def MakesSubstitution (text after : List Char) : Prop :=
  text.getLast? = some '$' ∧ after.head? = some '{'

section

variable {text after : List Char}

theorem not_makesSubstitution (noBrace : after.head? ≠ some '{') :
    ¬ MakesSubstitution text after :=
  fun makes => noBrace makes.2

theorem MakesSubstitution.cons (c : Char) (makes : MakesSubstitution text after) :
    MakesSubstitution (c :: text) after := by
  refine ⟨?_, makes.2⟩
  rw [List.getLast?_cons, makes.1]
  rfl

/-- Induction along the escaping of a text that makes no substitution with what follows. -/
@[elab_as_elim]
theorem escaping_induction_before {motive : List Char → Prop} (nil : motive [])
    (substitution : ∀ rest, motive rest → motive ('$' :: '{' :: rest))
    (marked : ∀ c rest, c = '\\' ∨ c = '`' → motive rest → motive (c :: rest))
    (ordinary : ∀ c rest, ¬ (c = '\\' ∨ c = '`') → (c = '$' → rest.head? ≠ some '{') →
      (c = '$' → (rest ++ after).head? ≠ some '{') → motive rest → motive (c :: rest))
    (joint : ¬ MakesSubstitution text after) : motive text := by
  induction text using escaping_induction with
  | nil => exact nil
  | substitution rest inductionHypothesis =>
      have restJoint := fun makes => joint (MakesSubstitution.cons '$' (.cons '{' makes))
      exact substitution rest (inductionHypothesis restJoint)
  | marked c rest isMarked inductionHypothesis =>
      have restJoint := fun makes => joint (MakesSubstitution.cons c makes)
      exact marked c rest isMarked (inductionHypothesis restJoint)
  | ordinary c rest isOrdinary apart inductionHypothesis =>
      have restJoint := fun makes => joint (MakesSubstitution.cons c makes)
      refine ordinary c rest isOrdinary apart ?_ (inductionHypothesis restJoint)
      rintro rfl brace
      -- only at the end of the text can the brace be the one that follows it
      cases rest with
      | nil => exact joint ⟨rfl, brace⟩
      | cons next others => exact apart rfl brace

/-- A brace at the start of an escaped text and what follows it was there before. -/
theorem head?_escapeTemplateLiteral_append
    (brace : (escapeTemplateLiteral text ++ after).head? = some '{') :
    (text ++ after).head? = some '{' := by
  induction text using escaping_induction with
  | nil => exact brace
  | substitution rest => exact absurd (Option.some.inj brace) (by decide)
  | marked c rest isMarked =>
      rw [escapeTemplateLiteral_of_marked isMarked] at brace
      exact absurd (Option.some.inj brace) (by decide)
  | ordinary c rest isOrdinary apart =>
      rw [escapeTemplateLiteral_of_ordinary isOrdinary apart] at brace
      exact brace

theorem escapeTemplateLiteral_append (joint : ¬ MakesSubstitution text after) :
    escapeTemplateLiteral (text ++ after) =
      escapeTemplateLiteral text ++ escapeTemplateLiteral after := by
  refine escaping_induction_before ?nil ?substitution ?marked ?ordinary joint
  case nil => rfl
  case substitution =>
    intro rest inductionHypothesis
    rw [List.cons_append, List.cons_append, escapeTemplateLiteral, inductionHypothesis]
    rfl
  case marked =>
    intro c rest isMarked inductionHypothesis
    rw [List.cons_append, escapeTemplateLiteral_of_marked isMarked,
      escapeTemplateLiteral_of_marked isMarked, inductionHypothesis]
    rfl
  case ordinary =>
    intro c rest isOrdinary apart stillApart inductionHypothesis
    rw [List.cons_append, escapeTemplateLiteral_of_ordinary isOrdinary stillApart,
      escapeTemplateLiteral_of_ordinary isOrdinary apart, inductionHypothesis]
    rfl

/-- Reading passes over the whole of an escaped text and goes on with what follows. -/
theorem readTemplate_escapeTemplateLiteral_append (joint : ¬ MakesSubstitution text after) :
    readTemplate (escapeTemplateLiteral text ++ after) =
      (escapeTemplateLiteral text ++ (readTemplate after).1, (readTemplate after).2) := by
  refine escaping_induction_before ?nil ?substitution ?marked ?ordinary joint
  case nil => rfl
  case substitution =>
    intro rest inductionHypothesis
    have brace := @readTemplate_cons '{' (by decide) (escapeTemplateLiteral rest ++ after)
      (absurd · (by decide))
    rw [escapeTemplateLiteral, List.cons_append, List.cons_append, List.cons_append,
      readTemplate, brace, inductionHypothesis]
    rfl
  case marked =>
    intro c rest isMarked inductionHypothesis
    rw [escapeTemplateLiteral_of_marked isMarked, List.cons_append, List.cons_append,
      readTemplate, inductionHypothesis]
    rfl
  case ordinary =>
    intro c rest isOrdinary apart stillApart inductionHypothesis
    have escapedApart : c = '$' → (escapeTemplateLiteral rest ++ after).head? ≠ some '{' :=
      fun isDollar brace => stillApart isDollar (head?_escapeTemplateLiteral_append brace)
    rw [escapeTemplateLiteral_of_ordinary isOrdinary apart, List.cons_append,
      readTemplate_cons isOrdinary escapedApart, inductionHypothesis]
    rfl

end

theorem escapeTemplateLiteral_concat_dollar (front : List Char) :
    escapeTemplateLiteral (front ++ ['$']) = escapeTemplateLiteral front ++ ['$'] :=
  escapeTemplateLiteral_append (not_makesSubstitution (by decide))

/-- Behind a dollar sign at the end of a text, a brace is taken for the start of a
substitution. -/
theorem readTemplate_of_makesSubstitution (front rest : List Char) :
    readTemplate (escapeTemplateLiteral (front ++ ['$']) ++ '{' :: rest) =
      (escapeTemplateLiteral front, .substitution rest) := by
  have behind : ('$' :: '{' :: rest).head? ≠ some '{' := by simp
  rw [escapeTemplateLiteral_concat_dollar, List.append_assoc, List.singleton_append,
    readTemplate_escapeTemplateLiteral_append (not_makesSubstitution behind), readTemplate,
    List.append_nil]

theorem readTemplate_escapeTemplateLiteral_append_iff (text after : List Char) :
    readTemplate (escapeTemplateLiteral text ++ after) =
        (escapeTemplateLiteral text ++ (readTemplate after).1, (readTemplate after).2) ↔
      ¬ MakesSubstitution text after := by
  constructor
  · rintro read ⟨dollar, brace⟩
    obtain ⟨front, rfl⟩ := List.getLast?_eq_some_iff.1 dollar
    obtain ⟨rest, rfl⟩ := List.head?_eq_some_iff.1 brace
    rw [readTemplate_of_makesSubstitution, escapeTemplateLiteral_concat_dollar] at read
    have lengths := congrArg (fun passed => passed.1.length) read
    simp at lengths
  · exact readTemplate_escapeTemplateLiteral_append

theorem removeEscapes_escapeTemplateLiteral_append (text after : List Char) :
    removeEscapes (escapeTemplateLiteral text ++ after) = text ++ removeEscapes after := by
  induction text using escaping_induction with
  | nil => rfl
  | substitution rest inductionHypothesis =>
      rw [escapeTemplateLiteral, List.cons_append, List.cons_append, List.cons_append,
        removeEscapes, removeEscapes_cons (by decide), inductionHypothesis]
      rfl
  | marked c rest isMarked inductionHypothesis =>
      rw [escapeTemplateLiteral_of_marked isMarked, List.cons_append, List.cons_append,
        removeEscapes, inductionHypothesis]
      rfl
  | ordinary c rest isOrdinary apart inductionHypothesis =>
      rw [not_or] at isOrdinary
      rw [escapeTemplateLiteral_of_ordinary (not_or.2 isOrdinary) apart, List.cons_append,
        removeEscapes_cons isOrdinary.1, inductionHypothesis]
      rfl

theorem removeEscapes_escapeTemplateLiteral (text : List Char) :
    removeEscapes (escapeTemplateLiteral text) = text := by
  have read := removeEscapes_escapeTemplateLiteral_append text []
  rw [List.append_nil, removeEscapes, List.append_nil] at read
  exact read

/-- Escaping, which replaces backslashes, backquotes and starts of a substitution one after
the other, is exact. From inside backquotes an escaped text is passed over as a whole, and
reading goes on behind it as it would without it, unless a dollar sign at its end and a
brace that follows make a substitution; a closing backquote that follows is read as one.
Without its escapes it is the text. -/
theorem escapeTemplateLiteral_exact (text : List Char) :
    escapeTemplateLiteral text =
        replaceAll ['$', '{'] ['\\', '$', '{']
          (replaceAll ['`'] ['\\', '`'] (replaceAll ['\\'] ['\\', '\\'] text)) ∧
      readTemplate (escapeTemplateLiteral text) = (escapeTemplateLiteral text, .textEnd) ∧
      (∀ after, readTemplate (escapeTemplateLiteral text ++ after) =
          (escapeTemplateLiteral text ++ (readTemplate after).1, (readTemplate after).2) ↔
        ¬ MakesSubstitution text after) ∧
      (∀ after, readTemplate (escapeTemplateLiteral text ++ '`' :: after) =
        (escapeTemplateLiteral text, .closing after)) ∧
      removeEscapes (escapeTemplateLiteral text) = text ∧
      ∀ other, escapeTemplateLiteral text = escapeTemplateLiteral other ↔ text = other := by
  refine ⟨escapeTemplateLiteral_eq_replaceAll text, ?_,
    readTemplate_escapeTemplateLiteral_append_iff text, ?_,
    removeEscapes_escapeTemplateLiteral text, ?_⟩
  · have nothing : ¬ MakesSubstitution text [] := not_makesSubstitution nofun
    have read := readTemplate_escapeTemplateLiteral_append nothing
    rw [List.append_nil, readTemplate, List.append_nil] at read
    exact read
  · intro after
    have behind : ('`' :: after).head? ≠ some '{' := by simp
    rw [readTemplate_escapeTemplateLiteral_append (not_makesSubstitution behind), readTemplate,
      List.append_nil]
  · intro other
    constructor
    · intro same
      rw [← removeEscapes_escapeTemplateLiteral text, same, removeEscapes_escapeTemplateLiteral]
    · exact congrArg escapeTemplateLiteral

example :
    escapeTemplateLiteral "a`b$\x7bc\x7d\\".toList = "a\\`b\\$\x7bc\x7d\\\\".toList := by
  decide

end VirtualBlocks.Text
