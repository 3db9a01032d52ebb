import Mathlib.Data.List.Nodup
import VirtualBlocks.Proofs.Assets.Binding

/-!
Contract: the imports that take the place of asset references.

Owns:
- the text of the pieces that code is cut into;
- the different members of a list in the order of first occurrence;
- the imports of code, one for each literal that occurs in it;
- the exact condition under which no two imports declare one binding, and each
  binding stands for the literal that it was put in place of.

Does not own: the form of a binding (`Proofs.Assets.Binding`).
-/

namespace VirtualBlocks.Assets

/-! ## Code and its pieces -/

theorem append_of_literalBody? {quote : Char} {text body rest : List Char}
    (read : literalBody? quote text = some (body, rest)) : text = body ++ rest := by
  fun_induction literalBody? quote text generalizing body rest with
  | case1 => contradiction
  | case2 => contradiction
  | case3 escaped tail allowed inductionHypothesis =>
      obtain ⟨⟨inner, remaining⟩, innerRead, equal⟩ := Option.map_eq_some_iff.1 read
      obtain ⟨rfl, rfl⟩ := Prod.mk.inj equal
      rw [inductionHypothesis innerRead]
      rfl
  | case4 tail =>
      cases read
      rfl
  | case5 => contradiction
  | case6 c tail notEscape notQuote notBackslash inductionHypothesis =>
      obtain ⟨⟨inner, remaining⟩, innerRead, equal⟩ := Option.map_eq_some_iff.1 read
      obtain ⟨rfl, rfl⟩ := Prod.mk.inj equal
      rw [inductionHypothesis innerRead]
      rfl

theorem append_of_literal? {text literal rest : List Char}
    (read : literal? text = some (literal, rest)) : text = literal ++ rest := by
  unfold literal? at read
  split at read
  · split at read
    · obtain ⟨⟨inner, remaining⟩, innerRead, equal⟩ := Option.map_eq_some_iff.1 read
      obtain ⟨rfl, rfl⟩ := Prod.mk.inj equal
      rw [append_of_literalBody? innerRead]
      rfl
    · contradiction
  · contradiction

theorem append_of_call? {text literal rest : List Char}
    (read : call? text = some (literal, rest)) :
    text = callStart ++ (literal ++ ')' :: rest) := by
  unfold call? at read
  split at read
  · rename_i starts
    obtain ⟨behind, rfl⟩ := List.isPrefixOf_iff_prefix.1 starts
    rw [List.drop_left] at read
    split at read
    · rename_i literalRead
      cases read
      rw [append_of_literal? literalRead]
    · contradiction
  · contradiction

/-- The text of a piece of code. -/
def Piece.text : Piece → List Char
  | .plain c => [c]
  | .call literal => callStart ++ (literal ++ [')'])

/-- Code is cut into pieces without a loss. -/
theorem flatMap_text_pieces (code : List Char) : (pieces code).flatMap Piece.text = code := by
  fun_induction pieces code with
  | case1 => rfl
  | case2 c rest literal after read inductionHypothesis =>
      rw [List.flatMap_cons, inductionHypothesis, append_of_call? read]
      simp [Piece.text]
  | case3 c rest read inductionHypothesis =>
      rw [List.flatMap_cons, inductionHypothesis]
      rfl

theorem call_mem_iff {code : List Piece} {literal : List Char} :
    .call literal ∈ code ↔ literal ∈ literals code := by
  unfold literals
  rw [List.mem_filterMap]
  constructor
  · intro member
    exact ⟨.call literal, member, rfl⟩
  · intro ⟨piece, member, isLiteral⟩
    cases piece with
    | plain c => contradiction
    | call other =>
        cases isLiteral
        exact member

/-! ## Order of first occurrence -/

/-- The different members of a list, in the order in which they first occur in it. -/
structure ListsFirst (distinct all : List (List Char)) : Prop where
  mem_iff : ∀ text, text ∈ distinct ↔ text ∈ all
  inOrder : distinct.Pairwise (fun former latter => all.idxOf former < all.idxOf latter)

theorem idxOf_lt_of_filter {keep : List Char → Bool} {former latter : List Char}
    (formerKept : keep former = true) (latterKept : keep latter = true)
    {texts : List (List Char)}
    (before : (texts.filter keep).idxOf former < (texts.filter keep).idxOf latter) :
    texts.idxOf former < texts.idxOf latter := by
  induction texts with
  | nil => exact before
  | cons text rest inductionHypothesis =>
      rw [List.filter_cons] at before
      rw [List.idxOf_cons, List.idxOf_cons]
      split at before
      · rw [List.idxOf_cons, List.idxOf_cons] at before
        grind
      · grind

theorem listsFirst_eraseDups (texts : List (List Char)) : ListsFirst texts.eraseDups texts where
  mem_iff _ := List.mem_eraseDups
  inOrder := by
    induction length : texts.length using Nat.strongRecOn generalizing texts with
    | ind size inductionHypothesis =>
        cases texts with
        | nil => exact List.Pairwise.nil
        | cons text rest =>
            have shorter := List.length_filter_le (fun other => !other == text) rest
            rw [List.length_cons] at length
            have further := inductionHypothesis _ (by omega)
              (rest.filter (fun other => !other == text)) rfl
            rw [List.eraseDups_cons, List.pairwise_cons]
            have kept : ∀ other ∈ (rest.filter (fun other => !other == text)).eraseDups,
                (!other == text) = true := by
              intro other member
              exact (List.mem_filter.1 (List.mem_eraseDups.1 member)).2
            constructor
            · intro other member
              have different := kept other member
              grind
            · refine further.imp_of_mem ?_
              intro former latter formerMember latterMember before
              have later := idxOf_lt_of_filter (kept former formerMember)
                (kept latter latterMember) before
              grind

theorem nodup_eraseDups (texts : List (List Char)) : texts.eraseDups.Nodup :=
  (listsFirst_eraseDups texts).inOrder.imp (fun before same => by rw [same] at before; omega)

/-! ## Imports -/

/-- An import declares a binding for what stands at a specifier. -/
structure Import where
  binding : List Char
  specifier : List Char
deriving DecidableEq

namespace Import

def line (entry : Import) : List Char :=
  "import ".toList ++ entry.binding ++ " from ".toList ++ entry.specifier ++ ['\n']

/-- The import of a literal. -/
def ofLiteral (literal : List Char) : Import :=
  ⟨Assets.binding literal, literal⟩

end Import

/-- The imports of code: one for each literal, in the order of first occurrence. -/
def imports (code : List Piece) : List Import :=
  (literals code).eraseDups.map Import.ofLiteral

/-- The result is the lines of the imports, and the code with the binding in place of
each call. -/
theorem toList_requireToImport (code : String) :
    (requireToImport code).toList =
      (imports (pieces code.toList)).flatMap Import.line ++
        (pieces code.toList).flatMap Piece.withBinding := by
  unfold requireToImport imports
  rw [String.toList_ofList, List.flatMap_map]
  rfl

/-! ## One binding for each literal -/

/-- No two imports of code declare the same binding. -/
def DeclaresOnce (code : List Piece) : Prop :=
  ((imports code).map Import.binding).Nodup

instance (code : List Piece) : Decidable (DeclaresOnce code) :=
  inferInstanceAs (Decidable (List.Nodup _))

/-- The binding in place of each call is imported once, from the literal of the
call. -/
def BindsEachCall (code : List Piece) : Prop :=
  ∀ literal, .call literal ∈ code →
    (imports code).filter (fun entry => entry.binding = binding literal) =
      [Import.ofLiteral literal]

/-- Literals that are the same if they have the same runs. -/
def KeptApart (literals : List (List Char)) : Prop :=
  ∀ first ∈ literals, ∀ second ∈ literals, runs first = runs second → first = second

variable {code : List Piece}

/-- Bindings are declared once exactly when the literals are kept apart. -/
theorem declaresOnce_iff : DeclaresOnce code ↔ KeptApart (literals code) := by
  have bindings : (imports code).map Import.binding = (literals code).eraseDups.map binding := by
    unfold imports
    rw [List.map_map]
    rfl
  unfold DeclaresOnce KeptApart
  rw [bindings, List.nodup_map_iff_inj_on (nodup_eraseDups _)]
  simp only [List.mem_eraseDups, binding_eq_iff]

/-- The imports of the binding of a literal are those of the literals that have the
same runs. -/
theorem filter_imports_eq (literal : List Char) :
    (imports code).filter (fun entry => entry.binding = binding literal) =
      ((literals code).eraseDups.filter (fun other => runs other = runs literal)).map
        Import.ofLiteral := by
  unfold imports
  rw [List.filter_map]
  apply congrArg
  apply List.filter_congr
  intro other _
  exact decide_eq_decide.2 binding_eq_iff

/-- Calls are bound to what they name exactly when the literals are kept apart. -/
theorem bindsEachCall_iff : BindsEachCall code ↔ KeptApart (literals code) := by
  unfold BindsEachCall
  simp only [call_mem_iff]
  constructor
  · intro once first isFirst second isSecond same
    -- both literals have the same list of imports, and it names one specifier
    have fromFirst := once first isFirst
    have fromSecond := once second isSecond
    rw [filter_imports_eq, same] at fromFirst
    rw [filter_imports_eq, fromFirst] at fromSecond
    exact congrArg Import.specifier (List.singleton_inj.1 fromSecond)
  · intro apart literal isLiteral
    have only : (literals code).eraseDups.filter (fun other => runs other = runs literal) =
        (literals code).eraseDups.filter (fun other => other == literal) := by
      apply List.filter_congr
      intro other member
      rw [Bool.eq_iff_iff, decide_eq_true_eq, beq_iff_eq]
      constructor
      · exact apart other (List.mem_eraseDups.1 member) literal isLiteral
      · exact congrArg runs
    rw [filter_imports_eq, only, List.filter_beq,
      List.count_eq_one_of_mem (nodup_eraseDups _) (List.mem_eraseDups.2 isLiteral)]
    rfl

/-- Code becomes the lines of its imports and the code with a binding in place of each
call. No two of the lines declare one binding exactly when no two different literals
have the same runs, and exactly then each binding in the code is imported once, from
the literal of its call. -/
theorem requireToImport_binds_iff (code : String) :
    code.toList = (pieces code.toList).flatMap Piece.text ∧
      (requireToImport code).toList =
        (imports (pieces code.toList)).flatMap Import.line ++
          (pieces code.toList).flatMap Piece.withBinding ∧
      (DeclaresOnce (pieces code.toList) ↔ KeptApart (literals (pieces code.toList))) ∧
      (BindsEachCall (pieces code.toList) ↔ KeptApart (literals (pieces code.toList))) :=
  ⟨(flatMap_text_pieces code.toList).symm, toList_requireToImport code, declaresOnce_iff,
    bindsEachCall_iff⟩

/-- Two files whose names differ in one separator get one binding, which is declared
twice. -/
theorem requireToImport_collision :
    requireToImport "require(\"./a-b.png\"); require(\"./a_b.png\")" =
        "import __$_require_a_b_png__ from \"./a-b.png\"\n" ++
          "import __$_require_a_b_png__ from \"./a_b.png\"\n" ++
          "__$_require_a_b_png__; __$_require_a_b_png__" ∧
      ¬ DeclaresOnce (pieces "require(\"./a-b.png\"); require(\"./a_b.png\")".toList) := by
  constructor
  · decide +kernel
  · decide +kernel

end VirtualBlocks.Assets
