import VirtualBlocks.Proofs.Assets.Binding

/-!
Contract: the binding of a literal as a name of a module script.

Owns:
- the maximal runs of a text as a grammar, and that every text has one list of them;
- the identifiers of a module script that are made of ASCII characters;
- the one form of a binding, and which literals share it.

Does not own: how often a binding is imported (`Proofs.Assets.Imports`).
-/

namespace VirtualBlocks.Assets

/-! ## Maximal runs -/

/-- A text has these runs, from left to right: each is a stretch of letters from `a` to `z`
and digits that is not empty and that cannot be made longer, and all else are other
characters. -/
inductive HasRuns : List Char → List (List Char) → Prop
  | nothing {gap : List Char} (others : ∀ c ∈ gap, ¬ IsSmallOrDigit c) : HasRuns gap []
  | run {gap run rest : List Char} {further : List (List Char)}
      (others : ∀ c ∈ gap, ¬ IsSmallOrDigit c) (all : ∀ c ∈ run, IsSmallOrDigit c)
      (nonempty : run ≠ []) (ends : ∀ c ∈ rest.head?, ¬ IsSmallOrDigit c)
      (behind : HasRuns rest further) : HasRuns (gap ++ run ++ rest) (run :: further)

theorem isBindingChar_eq_false {c : Char} (other : ¬ IsSmallOrDigit c) :
    isBindingChar c = false :=
  Bool.eq_false_iff.2 (mt isBindingChar_iff.1 other)

theorem runs_append_of_others {gap : List Char} (others : ∀ c ∈ gap, ¬ IsSmallOrDigit c)
    (rest : List Char) : runs (gap ++ rest) = runs rest := by
  induction gap with
  | nil => rfl
  | cons c further inductionHypothesis =>
      obtain ⟨other, othersBehind⟩ := List.forall_mem_cons.1 others
      rw [List.cons_append, ← inductionHypothesis othersBehind]
      exact runs_append_cons (isBindingChar_eq_false other) [] (further ++ rest)

theorem runs_append_of_all {run rest : List Char} (all : ∀ c ∈ run, IsSmallOrDigit c)
    (nonempty : run ≠ []) (ends : ∀ c ∈ rest.head?, ¬ IsSmallOrDigit c) :
    runs (run ++ rest) = run :: runs rest := by
  have allBinding : ∀ c ∈ run, isBindingChar c = true := fun c member =>
    isBindingChar_iff.2 (all c member)
  cases rest with
  | nil =>
      rw [List.append_nil]
      exact runs_of_all allBinding nonempty
  | cons c further =>
      have other := isBindingChar_eq_false (ends c rfl)
      have same : runs (c :: further) = runs further := runs_append_cons other [] further
      rw [runs_append_cons other, runs_of_all allBinding nonempty, same]
      rfl

theorem HasRuns.eq_runs {text : List Char} {parts : List (List Char)}
    (hasRuns : HasRuns text parts) : parts = runs text := by
  induction hasRuns with
  | nothing others =>
      have nothingLeft := runs_append_of_others others []
      rw [List.append_nil] at nothingLeft
      rw [nothingLeft]
      rfl
  | run others all nonempty ends behind inductionHypothesis =>
      rw [List.append_assoc, runs_append_of_others others, runs_append_of_all all nonempty ends,
        inductionHypothesis]

theorem HasRuns.cons_other {c : Char} (other : ¬ IsSmallOrDigit c) {text : List Char}
    {parts : List (List Char)} (hasRuns : HasRuns text parts) : HasRuns (c :: text) parts := by
  cases hasRuns with
  | nothing others => exact .nothing (List.forall_mem_cons.2 ⟨other, others⟩)
  | run others all nonempty ends behind =>
      exact .run (List.forall_mem_cons.2 ⟨other, others⟩) all nonempty ends behind

theorem exists_hasRuns (text : List Char) : ∃ parts, HasRuns text parts := by
  induction text with
  | nil => exact ⟨[], .nothing (List.forall_mem_nil _)⟩
  | cons c rest inductionHypothesis =>
      obtain ⟨parts, hasRuns⟩ := inductionHypothesis
      by_cases inRun : IsSmallOrDigit c
      · have alone : ∀ d ∈ [c], IsSmallOrDigit d := List.forall_mem_singleton.2 inRun
        have noGap : ∀ d ∈ ([] : List Char), ¬ IsSmallOrDigit d := List.forall_mem_nil _
        cases hasRuns with
        | nothing others =>
            refine ⟨[[c]], .run noGap alone (List.cons_ne_nil c []) ?_ (.nothing others)⟩
            exact fun d isHead => others d (List.mem_of_mem_head? isHead)
        | @run gap run tail further others all nonempty ends behind =>
            cases gap with
            | nil =>
                -- the run that follows begins with this character
                exact ⟨(c :: run) :: further, .run noGap (List.forall_mem_cons.2 ⟨inRun, all⟩)
                  (List.cons_ne_nil c run) ends behind⟩
            | cons first gap =>
                refine ⟨[c] :: run :: further, .run noGap alone (List.cons_ne_nil c []) ?_
                  (.run others all nonempty ends behind)⟩
                rintro d ⟨⟩
                exact others first List.mem_cons_self
      · exact ⟨parts, hasRuns.cons_other inRun⟩

/-- Every text has exactly one list of maximal runs. -/
theorem hasRuns_iff {text : List Char} {parts : List (List Char)} :
    HasRuns text parts ↔ parts = runs text := by
  constructor
  · exact HasRuns.eq_runs
  · rintro rfl
    obtain ⟨parts, hasRuns⟩ := exists_hasRuns text
    exact hasRuns.eq_runs ▸ hasRuns

/-! ## Identifiers -/

def isIdentifierStart (c : Char) : Bool :=
  c.isAlpha || c == '$' || c == '_'

def isIdentifierChar (c : Char) : Bool :=
  isIdentifierStart c || c.isDigit

/-- The words of a module script that name no binding. -/
def reservedWords : List String :=
  ["arguments", "await", "break", "case", "catch", "class", "const", "continue", "debugger",
    "default", "delete", "do", "else", "enum", "eval", "export", "extends", "false", "finally",
    "for", "function", "if", "implements", "import", "in", "instanceof", "interface", "let",
    "new", "null", "package", "private", "protected", "public", "return", "static", "super",
    "switch", "this", "throw", "true", "try", "typeof", "var", "void", "while", "with", "yield"]

/-- A name of ASCII characters that a module script can bind. -/
structure IsIdentifier (name : List Char) : Prop where
  start : ∃ c ∈ name.head?, isIdentifierStart c = true
  all : ∀ c ∈ name, isIdentifierChar c = true
  notReserved : String.ofList name ∉ reservedWords

theorem isIdentifierChar_of_isBindingChar {c : Char} (isBinding : isBindingChar c = true) :
    isIdentifierChar c = true := by
  unfold isBindingChar at isBinding
  unfold isIdentifierChar isIdentifierStart Char.isAlpha
  rcases Bool.or_eq_true_iff.1 isBinding with isLower | isDigit
  · simp [isLower]
  · simp [isDigit]

theorem notMem_joinedRuns {c : Char} (foreign : isIdentifierChar c = false)
    (literal : List Char) : c ∉ joinedRuns literal := by
  have notUnderscore : c ≠ '_' := by
    rintro rfl
    exact absurd foreign (by decide)
  refine Text.notMem_intercalate notUnderscore ?_
  intro run isRun member
  have isChar := isIdentifierChar_of_isBindingChar ((of_mem_runs isRun).2 c member)
  rw [foreign] at isChar
  contradiction

/-- What no identifier has is in no binding. -/
theorem notMem_binding {c : Char} (foreign : isIdentifierChar c = false) (literal : List Char) :
    c ∉ binding literal := by
  have fixed : ("__$_require_".toList ++ ['_', '_']).all isIdentifierChar = true := by decide
  rw [binding_eq]
  intro member
  have inFixed : c ∈ "__$_require_".toList ++ ['_', '_'] := by
    rw [List.append_assoc, List.mem_append, List.mem_append] at member
    rcases member with inFront | inRuns | inBack
    · exact List.mem_append_left _ inFront
    · exact absurd inRuns (notMem_joinedRuns foreign literal)
    · exact List.mem_append_right _ inBack
  rw [List.all_eq_true.1 fixed c inFixed] at foreign
  contradiction

theorem isIdentifier_binding (literal : List Char) : IsIdentifier (binding literal) := by
  have starts : binding literal = '_' :: (binding literal).tail := rfl
  constructor
  · exact ⟨'_', by rw [starts]; rfl, by decide⟩
  · intro c member
    cases isChar : isIdentifierChar c with
    | true => rfl
    | false => exact absurd member (notMem_binding isChar literal)
  · have noDollar : ∀ word ∈ reservedWords, '$' ∉ word.toList := by decide
    have dollar : '$' ∈ binding literal := by
      have front : '$' ∈ "__$_require_".toList := by decide
      rw [binding_eq, List.append_assoc]
      exact List.mem_append_left _ front
    intro isReserved
    have absent := noDollar _ isReserved
    rw [String.toList_ofList] at absent
    exact absent dollar

/-! ## The form of a binding -/

/-- A binding is made of the maximal runs of its literal with one underscore between each
two. It is an identifier, without quotes and parentheses, and two literals have one binding
exactly when they have the same runs. -/
theorem binding_canonical (literal : List Char) :
    (∀ parts, HasRuns literal parts ↔ parts = runs literal) ∧
      binding literal =
        "__$_require_".toList ++ ['_'].intercalate (runs literal) ++ "__".toList ∧
      IsIdentifier (binding literal) ∧
      (∀ c ∈ ['"', '\'', '`', '(', ')'], c ∉ binding literal) ∧
      ∀ other, binding literal = binding other ↔ runs literal = runs other := by
  refine ⟨fun parts => hasRuns_iff, binding_eq literal, isIdentifier_binding literal, ?_,
    fun other => binding_eq_iff⟩
  intro c isMark
  have noneIsChar : ['"', '\'', '`', '(', ')'].all (isIdentifierChar · == false) = true := by
    decide
  have foreign := List.all_eq_true.1 noneIsChar c isMark
  exact notMem_binding (beq_iff_eq.1 foreign) literal

example : binding "\"@/Img.PNG\"".toList = "__$_require_mg__".toList := by
  decide

end VirtualBlocks.Assets
