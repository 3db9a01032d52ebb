import VirtualBlocks.Proofs.Assembly.Styles
import VirtualBlocks.Proofs.Text.Lines
import VirtualBlocks.Proofs.Text.Replacement

/-!
Contract: the declarations of a component module.

Owns:
- the bindings that the sections of a module share, and the declaration of one that
  a line starts with;
- the lines of the script in a module: the first default export is bound, all other
  lines stay;
- the lines of a module: those in front of the call that joins the parts, and the
  call with what it receives;
- that in front of the call each shared binding is declared once, and the injector of
  the platform if there are styles.

Does not own: what the declared bindings are (`Proofs.Assembly.Styles` for styles).
-/

namespace VirtualBlocks.Assembly

open VirtualBlocks.Text VirtualBlocks.Json

/-! ## Declarations -/

/-- What the names of all shared bindings start with. -/
def sharedMark : List Char := "__vue_".toList

def injectorOf (server : Bool) : String :=
  if server then "__vue_create_injector_ssr__" else "__vue_create_injector__"

/-- The bindings that one section of a module declares and another one uses. -/
def sharedBindings : List String :=
  ["__vue_normalize__", injectorOf false, injectorOf true, "__vue_script__",
    "__vue_inject_styles__", "__vue_scope_id__", "__vue_module_identifier__",
    "__vue_is_functional_template__"]

theorem injectorOf_mem_sharedBindings (server : Bool) : injectorOf server ∈ sharedBindings := by
  cases server <;> decide

/-- The declaration of a binding, by an import or by its value. -/
structure Declaration where
  binding : String
  imported : Bool := false
deriving DecidableEq

namespace Declaration

/-- What a line with a declaration starts with. -/
def start (declaration : Declaration) : List Char :=
  if declaration.imported then
    "import ".toList ++ declaration.binding.toList ++ " from".toList
  else "const ".toList ++ declaration.binding.toList ++ " =".toList

def all : List Declaration :=
  sharedBindings.flatMap (fun binding => [{ binding }, { binding, imported := true }])

/-- The declaration of a shared binding that a line starts with. -/
def ofLine? (line : List Char) : Option Declaration :=
  all.find? (fun declaration => declaration.start.isPrefixOf line)

theorem mk_mem_all {binding : String} (shared : binding ∈ sharedBindings)
    (imported : Bool) : Declaration.mk binding imported ∈ all := by
  unfold all
  refine List.mem_flatMap.2 ⟨binding, shared, ?_⟩
  cases imported <;> simp

/-- No declaration starts like another one. -/
theorem eq_of_starts_within : ∀ left ∈ all, ∀ right ∈ all, left.start <+: right.start →
    left = right := by
  decide +kernel

theorem sharedMark_infix_start : ∀ declaration ∈ all, sharedMark <:+: declaration.start := by
  decide +kernel

theorem start_prefix_of_ofLine? {declaration : Declaration} {line : List Char}
    (found : ofLine? line = some declaration) :
    declaration ∈ all ∧ declaration.start <+: line := by
  unfold ofLine? at found
  have starts := List.find?_some found
  exact ⟨List.mem_of_find?_eq_some found, List.isPrefixOf_iff_prefix.1 starts⟩

theorem ofLine?_eq_none_iff (line : List Char) :
    ofLine? line = none ↔ ∀ declaration ∈ all, ¬ declaration.start <+: line := by
  unfold ofLine?
  simp [List.find?_eq_none, List.isPrefixOf_iff_prefix]

theorem ofLine?_eq_some_iff {declaration : Declaration} (shared : declaration ∈ all)
    (line : List Char) : ofLine? line = some declaration ↔ declaration.start <+: line := by
  refine ⟨fun found => (start_prefix_of_ofLine? found).2, fun starts => ?_⟩
  cases found : ofLine? line with
  | none => exact absurd starts ((ofLine?_eq_none_iff line).1 found declaration shared)
  | some other =>
      obtain ⟨otherShared, otherStarts⟩ := start_prefix_of_ofLine? found
      rcases List.prefix_or_prefix_of_prefix starts otherStarts with within | beyond
      · rw [eq_of_starts_within declaration shared other otherShared within]
      · rw [eq_of_starts_within other otherShared declaration shared beyond]

theorem ofLine?_start {declaration : Declaration} (shared : declaration ∈ all)
    (rest : List Char) : ofLine? (declaration.start ++ rest) = some declaration :=
  (ofLine?_eq_some_iff shared _).2 (List.prefix_append _ _)

/-- A line without the mark of shared names declares none of them. -/
theorem ofLine?_of_unmarked {line : List Char} (unmarked : ¬ sharedMark <:+: line) :
    ofLine? line = none := by
  rw [ofLine?_eq_none_iff]
  intro declaration shared starts
  exact unmarked ((sharedMark_infix_start declaration shared).trans starts.isInfix)

/-- A line that starts with another character than a declaration declares nothing. -/
theorem ofLine?_of_head? {line : List Char} (notConst : line.head? ≠ some 'c')
    (notImport : line.head? ≠ some 'i') : ofLine? line = none := by
  rw [ofLine?_eq_none_iff]
  rintro declaration - ⟨rest, rfl⟩
  unfold start at notConst notImport
  cases imported : declaration.imported with
  | false => simp [imported] at notConst
  | true => simp [imported] at notImport

/-- How many of some lines start with a declaration. -/
def count (declaration : Declaration) (lines : List (List Char)) : Nat :=
  lines.countP (fun line => declaration.start.isPrefixOf line)

theorem count_eq {declaration : Declaration} (shared : declaration ∈ all)
    (lines : List (List Char)) :
    declaration.count lines = (lines.filterMap ofLine?).count declaration := by
  unfold count
  induction lines with
  | nil => rfl
  | cons line rest inductionHypothesis =>
      by_cases here : declaration.start <+: line
      · have found := (ofLine?_eq_some_iff shared line).2 here
        rw [List.countP_cons_of_pos (List.isPrefixOf_iff_prefix.2 here), inductionHypothesis,
          List.filterMap_cons_some found, List.count_cons_self]
      · have notHere : ¬ declaration.start.isPrefixOf line = true := fun isStart =>
          here (List.isPrefixOf_iff_prefix.1 isStart)
        rw [List.countP_cons_of_neg notHere, inductionHypothesis]
        cases found : ofLine? line with
        | none => rw [List.filterMap_cons_none found]
        | some other =>
            have differs : other ≠ declaration := fun same =>
              here (same ▸ (start_prefix_of_ofLine? found).2)
            rw [List.filterMap_cons_some found, List.count_cons_of_ne differs]

end Declaration

/-! ## Helpers -/

def isImported (module : String) : Bool :=
  module.toList.head? == some '~'

theorem ofLine?_helperLine {binding : String} (shared : binding ∈ sharedBindings)
    (module : String) :
    Declaration.ofLine? (helperLine binding module).toList =
      some { binding, imported := isImported module } := by
  unfold helperLine isImported
  split
  · rename_i path text
    rw [text]
    have starts := Declaration.ofLine?_start (Declaration.mk_mem_all shared true)
      (" ".toList ++ (Json.quoted (String.ofList path)).toList)
    have whole : ("import " ++ binding ++ " from " ++ Json.quoted (String.ofList path)).toList =
        (Declaration.mk binding true).start ++
          (" ".toList ++ (Json.quoted (String.ofList path)).toList) := by
      simp [Declaration.start]
    rw [whole, starts]
    rfl
  · rename_i notImported
    have starts := Declaration.ofLine?_start (Declaration.mk_mem_all shared false)
      (" ".toList ++ module.toList)
    have whole : ("const " ++ binding ++ " = " ++ module).toList =
        (Declaration.mk binding false).start ++ (" ".toList ++ module.toList) := by
      simp [Declaration.start]
    rw [whole, starts]
    cases text : module.toList with
    | nil => rfl
    | cons c rest =>
        have otherStart : c ≠ '~' := fun same => notImported rest (same ▸ text)
        simp [otherStart]

/-! ## The script -/

/-- The lines of a script as they stand in a module. The first default export is bound to a
name, all other lines stay. A script without one binds an empty object at its end. -/
inductive Rebinds : List (List Char) → List (List Char) → Prop where
  | found {before after : List (List Char)} {line expression : List Char}
      (first : ∀ earlier ∈ before, ¬ "export default ".toList <+: trimStart earlier)
      (exported : trimStart line = "export default ".toList ++ expression) :
      Rebinds (before ++ line :: after)
        (before ++ ("const __vue_script__ = ".toList ++ expression) :: after)
  | absent {lines : List (List Char)}
      (none : ∀ line ∈ lines, ¬ "export default ".toList <+: trimStart line) :
      Rebinds lines (lines ++ ["const __vue_script__ = \x7b\x7d".toList])

theorem defaultExport?_eq_none_iff (line : List Char) :
    defaultExport? line = none ↔ ¬ "export default ".toList <+: trimStart line := by
  unfold defaultExport?
  dsimp only
  rw [← List.isPrefixOf_iff_prefix]
  split
  · rename_i starts
    exact ⟨fun isNone => absurd isNone (Option.some_ne_none _),
      fun notHere => absurd starts notHere⟩
  · rename_i notHere
    exact ⟨fun _ => notHere, fun _ => rfl⟩

theorem trimStart_of_defaultExport? {line expression : List Char}
    (exported : defaultExport? line = some expression) :
    trimStart line = "export default ".toList ++ expression := by
  unfold defaultExport? at exported
  dsimp only at exported
  split at exported
  · rename_i starts
    obtain ⟨rest, whole⟩ := List.isPrefixOf_iff_prefix.1 starts
    rw [← whole, List.drop_left, Option.some.injEq] at exported
    rw [← whole, exported]
  · cases exported

theorem rebinds_scriptLines (lines : List (List Char)) : Rebinds lines (scriptLines lines) := by
  induction lines with
  | nil => exact .absent (List.forall_mem_nil _)
  | cons line rest inductionHypothesis =>
      unfold scriptLines
      cases exported : defaultExport? line with
      | some expression =>
          exact @Rebinds.found [] rest line expression (List.forall_mem_nil _)
            (trimStart_of_defaultExport? exported)
      | none =>
          have other := (defaultExport?_eq_none_iff line).1 exported
          dsimp only
          generalize scriptLines rest = rebound at inductionHypothesis
          cases inductionHypothesis with
          | @found before after exporting expression first isExport =>
              exact @Rebinds.found (line :: before) after exporting expression
                (List.forall_mem_cons.2 ⟨other, first⟩) isExport
          | absent none => exact .absent (List.forall_mem_cons.2 ⟨other, none⟩)

theorem Rebinds.filterMap_ofLine? {lines rebound : List (List Char)}
    (rebinds : Rebinds lines rebound)
    (unmarked : ∀ line ∈ lines, ¬ sharedMark <:+: line) :
    rebound.filterMap Declaration.ofLine? = [{ binding := "__vue_script__" }] := by
  have none {some : List (List Char)} (within : ∀ line ∈ some, line ∈ lines) :
      some.filterMap Declaration.ofLine? = [] :=
    List.filterMap_eq_nil_iff.2 (fun line member =>
      Declaration.ofLine?_of_unmarked (unmarked line (within line member)))
  have bound (rest : List Char) : Declaration.ofLine? ("const __vue_script__ = ".toList ++ rest) =
      some { binding := "__vue_script__" } :=
    @Declaration.ofLine?_start { binding := "__vue_script__" } (by decide) (' ' :: rest)
  cases rebinds with
  | found first exported =>
      rw [List.filterMap_append, none (fun line member => List.mem_append_left _ member),
        List.filterMap_cons_some (bound _), none (fun line member =>
          List.mem_append_right _ (List.mem_cons_of_mem _ member))]
      rfl
  | absent =>
      rw [List.filterMap_append, none (fun _ member => member), List.nil_append]
      exact List.filterMap_cons_some (bound "\x7b\x7d".toList)

/-! ## The template -/

/-- No replacement of a name makes a line a declaration. -/
theorem ofLine?_renameRender {line : List Char} (unmarked : ¬ sharedMark <:+: line) :
    Declaration.ofLine? (renameRender line) = none := by
  have apart : ∀ declaration ∈ Declaration.all,
      IsApart declaration.start "var __vue_render__ =".toList ∧
        IsApart declaration.start "var __vue_staticRenderFns__ =".toList ∧
        IsApart declaration.start "__vue_render__._withStripped".toList := by
    decide +kernel
  rw [Declaration.ofLine?_eq_none_iff]
  intro declaration shared starts
  obtain ⟨render, static, stripped⟩ := apart declaration shared
  unfold renameRender at starts
  have before := render.prefix_of_replaceAll (by decide)
    (static.prefix_of_replaceAll (by decide) (stripped.prefix_of_replaceAll (by decide) starts))
  exact unmarked ((Declaration.sharedMark_infix_start declaration shared).trans before.isInfix)

theorem filterMap_ofLine?_templateLines {code : List Char} (unmarked : ¬ sharedMark <:+: code) :
    (templateLines code).filterMap Declaration.ofLine? = [] := by
  rw [List.filterMap_eq_nil_iff]
  intro line member
  obtain ⟨original, kept, rfl⟩ := List.mem_map.1 member
  have inside := ((isLines_lines code).of_mem (List.mem_filter.1 kept).1).2
  exact ofLine?_renameRender (fun marked => unmarked (marked.trans inside))

/-! ## The styles -/

theorem ofLine?_stylesFrom (scopeId : String) (production : Bool) (index : Nat)
    (styles : List CompiledStyle) :
    ∀ line ∈ stylesFrom scopeId production index styles,
      Declaration.ofLine? line.toList = none := by
  induction styles generalizing index with
  | nil => exact List.forall_mem_nil _
  | cons style rest inductionHypothesis =>
      rw [stylesFrom, List.forall_mem_append]
      refine ⟨?_, inductionHypothesis (index + 1)⟩
      unfold styleLines
      rw [List.forall_mem_append]
      constructor
      · split
        · exact List.forall_mem_nil _
        · rw [List.forall_mem_singleton]
          unfold injectLine
          exact Declaration.ofLine?_of_head? (by simp) (by simp)
      · split
        · rw [List.forall_mem_singleton]
          unfold moduleLine
          exact Declaration.ofLine?_of_head? (by simp) (by simp)
        · exact List.forall_mem_nil _

theorem filterMap_ofLine?_styleSection (scopeId : String) (production : Bool)
    (styles : List CompiledStyle) :
    ((styleSection scopeId production styles).map String.toList).filterMap Declaration.ofLine? =
      [{ binding := "__vue_inject_styles__" }] := by
  have none : ((stylesFrom scopeId production 0 styles).map String.toList).filterMap
      Declaration.ofLine? = [] := by
    rw [List.filterMap_eq_nil_iff, List.forall_mem_map]
    exact ofLine?_stylesFrom scopeId production 0 styles
  unfold styleSection
  split
  · decide +kernel
  · rw [List.map_append, List.map_append, List.filterMap_append, List.filterMap_append, none,
      List.append_nil]
    decide +kernel

/-! ## The other sections -/

theorem filterMap_ofLine?_helperLines (input : AssemblyInput) (options : AssemblyOptions) :
    ((helperLines input options).map String.toList).filterMap Declaration.ofLine? =
      { binding := "__vue_normalize__", imported := isImported options.normalizer } ::
        (if input.styles.isEmpty then []
        else
          [{ binding := injectorOf options.isServer
             imported := isImported (injectorModule options) }]) := by
  have normalizer := @ofLine?_helperLine "__vue_normalize__" (by decide) options.normalizer
  have binding : injectorBinding options = injectorOf options.isServer := rfl
  have injector := ofLine?_helperLine (injectorOf_mem_sharedBindings options.isServer)
    (injectorModule options)
  unfold helperLines
  rw [List.map_cons, List.filterMap_cons_some normalizer, binding]
  split
  · rfl
  · rw [List.map_singleton, List.filterMap_cons_some injector]
    rfl

theorem ofLine?_const {binding fixed : String}
    (shared : Declaration.mk binding false ∈ Declaration.all)
    (begins : fixed.toList = (Declaration.mk binding false).start ++ [' ']) (value : String) :
    Declaration.ofLine? (fixed ++ value).toList = some { binding } := by
  rw [String.toList_append, begins, List.append_assoc]
  exact Declaration.ofLine?_start shared _

theorem ofLine?_comment (text : String) (begins : text.toList.head? = some '/') :
    Declaration.ofLine? text.toList = none := by
  apply Declaration.ofLine?_of_head?
  · rw [begins]
    decide
  · rw [begins]
    decide

theorem filterMap_ofLine?_identityLines (input : AssemblyInput) (options : AssemblyOptions) :
    ((identityLines input options).map String.toList).filterMap Declaration.ofLine? =
      [{ binding := "__vue_scope_id__" }, { binding := "__vue_module_identifier__" },
        { binding := "__vue_is_functional_template__" }] := by
  have scope := @ofLine?_const "__vue_scope_id__" "const __vue_scope_id__ = " (by decide)
    (by decide)
  have identifier := @ofLine?_const "__vue_module_identifier__"
    "const __vue_module_identifier__ = " (by decide) (by decide)
  have functional := @ofLine?_const "__vue_is_functional_template__"
    "const __vue_is_functional_template__ = " (by decide) (by decide)
  have scopeComment := ofLine?_comment "/* scoped */" (by simp)
  have identifierComment := ofLine?_comment "/* module identifier */" (by simp)
  have functionalComment := ofLine?_comment "/* functional template */" (by simp)
  unfold identityLines
  simp only [List.map_cons, List.map_nil]
  rw [List.filterMap_cons_none scopeComment, List.filterMap_cons_some (scope _),
    List.filterMap_cons_none identifierComment, List.filterMap_cons_some (identifier _),
    List.filterMap_cons_none functionalComment, List.filterMap_cons_some (functional _)]
  rfl

/-! ## The lines of a module -/

/-- The lines in front of the call that joins the parts, of which those of the script are
given. -/
def frontLines (input : AssemblyInput) (options : AssemblyOptions)
    (script : List (List Char)) : List (List Char) :=
  (helperLines input options).map String.toList ++
    ["/* script */".toList] ++ script ++ ["/* template */".toList] ++
    input.template.elim [] (fun template => templateLines template.code.toList) ++
    ["/* style */".toList] ++
    (styleSection input.scopeId options.isProduction input.styles).map String.toList ++
    (identityLines input options).map String.toList ++ ["/* component normalizer */".toList]

/-- What the call receives for a platform: the injector, if there are styles and the module is
for that platform. -/
def injectorArgument (input : AssemblyInput) (options : AssemblyOptions) (server : Bool) :
    String :=
  if input.styles ≠ [] ∧ options.isServer = server then injectorOf server else "undefined"

/-- The call that joins the parts, what it receives, and the export of its result. -/
def callLines (input : AssemblyInput) (options : AssemblyOptions) : List String :=
  ["const __vue_component__ = /*#__PURE__*/__vue_normalize__(",
    if input.template.isSome then
      "  \x7b render: __vue_render__, staticRenderFns: __vue_staticRenderFns__ \x7d,"
    else "  \x7b\x7d,",
    "  __vue_inject_styles__,", "  __vue_script__,", "  __vue_scope_id__,",
    "  __vue_is_functional_template__,", "  __vue_module_identifier__,", "  false,",
    "  " ++ injectorArgument input options false ++ ",",
    "  " ++ injectorArgument input options true ++ ",",
    "  undefined", ")", "", "export default __vue_component__"]

theorem injectorArgument_eq (input : AssemblyInput) (options : AssemblyOptions) (server : Bool) :
    injectorArgument input options server =
      if !input.styles.isEmpty && options.isServer == server then injectorBinding options
      else "undefined" := by
  unfold injectorArgument injectorBinding
  cases input.styles with
  | nil => rfl
  | cons first rest => cases options.isServer <;> cases server <;> rfl

theorem componentLines_eq (input : AssemblyInput) (options : AssemblyOptions) :
    componentLines input options = "/* component normalizer */" :: callLines input options := by
  unfold componentLines arguments callLines
  rw [injectorArgument_eq, injectorArgument_eq]
  cases input.template <;> rfl

theorem moduleLines_eq (input : AssemblyInput) (options : AssemblyOptions) :
    moduleLines input options =
      frontLines input options (scriptLines (lines input.script.code.toList)) ++
        (callLines input options).map String.toList := by
  unfold moduleLines frontLines
  rw [componentLines_eq]
  cases input.template <;> simp

/-- The bindings that the call receives, other than the injector, and that are declared by
their value. -/
def receivedBindings : List String :=
  ["__vue_script__", "__vue_inject_styles__", "__vue_scope_id__",
    "__vue_module_identifier__", "__vue_is_functional_template__"]

/-- What the lines in front of the call declare, in their order: the normalizer and the
injector as an import or by their value, the injector for one of the platforms and only if
there are styles. -/
def declaredInFront (normalizer injector server styled : Bool) : List Declaration :=
  { binding := "__vue_normalize__", imported := normalizer } ::
    (if styled then [{ binding := injectorOf server, imported := injector }] else []) ++
    receivedBindings.map (fun binding => Declaration.mk binding false)

theorem filterMap_ofLine?_frontLines {input : AssemblyInput} (options : AssemblyOptions)
    {script divided : List (List Char)} (rebinds : Rebinds divided script)
    (scriptUnmarked : ∀ line ∈ divided, ¬ sharedMark <:+: line)
    (templateUnmarked : ∀ template ∈ input.template, ¬ sharedMark <:+: template.code.toList) :
    (frontLines input options script).filterMap Declaration.ofLine? =
      declaredInFront (isImported options.normalizer) (isImported (injectorModule options))
        options.isServer (!input.styles.isEmpty) := by
  have scriptComment := ofLine?_comment "/* script */" (by simp)
  have templateComment := ofLine?_comment "/* template */" (by simp)
  have styleComment := ofLine?_comment "/* style */" (by simp)
  have callComment := ofLine?_comment "/* component normalizer */" (by simp)
  have template : (input.template.elim []
      (fun template => templateLines template.code.toList)).filterMap Declaration.ofLine? = [] := by
    cases present : input.template with
    | none => rfl
    | some template => exact filterMap_ofLine?_templateLines (templateUnmarked template present)
  unfold frontLines
  simp only [List.filterMap_append, List.filterMap_cons, List.filterMap_nil, scriptComment,
    templateComment, styleComment, callComment]
  rw [filterMap_ofLine?_helperLines, rebinds.filterMap_ofLine? scriptUnmarked, template,
    filterMap_ofLine?_styleSection, filterMap_ofLine?_identityLines]
  unfold declaredInFront
  cases input.styles.isEmpty <;> rfl

theorem filterMap_ofLine?_callLines (input : AssemblyInput) (options : AssemblyOptions) :
    ((callLines input options).map String.toList).filterMap Declaration.ofLine? = [] := by
  have call : Declaration.ofLine?
      "const __vue_component__ = /*#__PURE__*/__vue_normalize__(".toList = none := by
    decide +kernel
  have template : Declaration.ofLine? (if input.template.isSome then
      "  \x7b render: __vue_render__, staticRenderFns: __vue_staticRenderFns__ \x7d,"
      else "  \x7b\x7d,").toList = none := by
    split <;> exact Declaration.ofLine?_of_head? (by simp) (by simp)
  rw [List.filterMap_eq_nil_iff, List.forall_mem_map]
  unfold callLines
  simp only [List.forall_mem_cons]
  refine ⟨call, template, ?_⟩
  repeat' apply And.intro
  all_goals first
    | exact Declaration.ofLine?_of_head? (by simp) (by simp)
    | exact List.forall_mem_nil _

/-! ## Lines without line feeds -/

theorem lineFeed_notMem_helperLine {binding module : String} (shared : binding ∈ sharedBindings)
    (oneLine : '\n' ∉ module.toList) : '\n' ∉ (helperLine binding module).toList := by
  have bindingOneLine : '\n' ∉ binding.toList := by
    have each : ∀ binding ∈ sharedBindings, '\n' ∉ binding.toList := by decide
    exact each binding shared
  unfold helperLine
  split
  · simp only [String.toList_append, List.mem_append, bindingOneLine,
      (isOneLine_quoted _).lineFeed_notMem]
    decide
  · simp only [String.toList_append, List.mem_append, bindingOneLine, oneLine]
    decide

theorem Rebinds.lineFeed_notMem {divided rebound : List (List Char)}
    (rebinds : Rebinds divided rebound) (oneLine : ∀ line ∈ divided, '\n' ∉ line) :
    ∀ line ∈ rebound, '\n' ∉ line := by
  cases rebinds with
  | @found before after line expression first exported =>
      rw [List.forall_mem_append, List.forall_mem_cons] at oneLine ⊢
      obtain ⟨beforeOneLine, lineOneLine, afterOneLine⟩ := oneLine
      have within : expression <:+ line := by
        have trimmed : trimStart line <:+ line := List.dropWhile_suffix _
        rw [exported] at trimmed
        exact (List.suffix_append _ _).trans trimmed
      refine ⟨beforeOneLine, ?_, afterOneLine⟩
      rw [List.mem_append, not_or]
      exact ⟨by decide, fun member => lineOneLine (within.subset member)⟩
  | absent =>
      rw [List.forall_mem_append, List.forall_mem_singleton]
      exact ⟨oneLine, by decide⟩

theorem lineFeed_notMem_templateLines (code : List Char) :
    ∀ line ∈ templateLines code, '\n' ∉ line := by
  intro line member
  obtain ⟨original, kept, rfl⟩ := List.mem_map.1 member
  have oneLine := ((isLines_lines code).of_mem (List.mem_filter.1 kept).1).1
  unfold renameRender
  exact notMem_replaceAll (by decide) (by decide)
    (notMem_replaceAll (by decide) (by decide) (notMem_replaceAll (by decide) (by decide) oneLine))

theorem isOneLine_identityLines (input : AssemblyInput) (options : AssemblyOptions) :
    ∀ line ∈ identityLines input options, IsOneLine line.toList := by
  have optional (content : Option String) : IsOneLine (optionalText content).toList := by
    rw [StyleStep.optionalText_eq]
    exact isOneLine_elim ReadsBack.string content
  have flag (value : Bool) : IsOneLine (if value then "true" else "false").toList := by
    cases value <;> decide
  unfold identityLines
  simp only [List.forall_mem_cons, String.toList_append, isOneLine_append, optional, flag]
  decide

theorem isOneLine_callLines (input : AssemblyInput) (options : AssemblyOptions) :
    ∀ line ∈ callLines input options, IsOneLine line.toList := by
  have template : IsOneLine (if input.template.isSome then
      "  \x7b render: __vue_render__, staticRenderFns: __vue_staticRenderFns__ \x7d,"
      else "  \x7b\x7d,").toList := by
    split <;> decide
  have argument (server : Bool) : IsOneLine (injectorArgument input options server).toList := by
    unfold injectorArgument
    split
    · cases server <;> decide
    · decide
  unfold callLines
  simp only [List.forall_mem_cons, String.toList_append, isOneLine_append, template, argument]
  decide

/-- The lines in front of the call are lines, if those of the script and the helpers are. -/
theorem lineFeed_notMem_frontLines {input : AssemblyInput} {options : AssemblyOptions}
    {script : List (List Char)} (scriptOneLine : ∀ line ∈ script, '\n' ∉ line)
    (normalizer : '\n' ∉ options.normalizer.toList)
    (injector : '\n' ∉ (injectorModule options).toList) :
    ∀ line ∈ frontLines input options script, '\n' ∉ line := by
  have helpers : ∀ line ∈ (helperLines input options).map String.toList, '\n' ∉ line := by
    have listed : injectorBinding options ∈ sharedBindings :=
      injectorOf_mem_sharedBindings options.isServer
    unfold helperLines
    rw [List.forall_mem_map, List.forall_mem_cons]
    refine ⟨lineFeed_notMem_helperLine (by decide) normalizer, ?_⟩
    split
    · exact List.forall_mem_nil _
    · exact List.forall_mem_singleton.2 (lineFeed_notMem_helperLine listed injector)
  have template : ∀ line ∈ input.template.elim []
      (fun template => templateLines template.code.toList), '\n' ∉ line := by
    cases input.template with
    | none => exact List.forall_mem_nil _
    | some template => exact lineFeed_notMem_templateLines template.code.toList
  have styles : ∀ line ∈ (styleSection input.scopeId options.isProduction input.styles).map
      String.toList, '\n' ∉ line := by
    rw [List.forall_mem_map]
    exact fun line member => (isOneLine_styleSection _ _ _ line member).lineFeed_notMem
  have identity : ∀ line ∈ (identityLines input options).map String.toList, '\n' ∉ line := by
    rw [List.forall_mem_map]
    exact fun line member => (isOneLine_identityLines input options line member).lineFeed_notMem
  unfold frontLines
  simp only [List.forall_mem_append, List.forall_mem_singleton]
  refine ⟨⟨⟨⟨⟨⟨⟨⟨helpers, ?_⟩, scriptOneLine⟩, ?_⟩, template⟩, ?_⟩, styles⟩, identity⟩, ?_⟩
  all_goals decide

theorem splitOn_assemble {input : AssemblyInput} {options : AssemblyOptions}
    (oneLine : ∀ helper ∈ [options.normalizer, options.styleInjector,
      options.serverStyleInjector], '\n' ∉ helper.toList) :
    (assemble input options).code.toList.splitOn '\n' =
      frontLines input options (scriptLines (lines input.script.code.toList)) ++
        ((callLines input options).map String.toList ++ [[]]) := by
  have script : ∀ line ∈ scriptLines (lines input.script.code.toList), '\n' ∉ line :=
    (rebinds_scriptLines _).lineFeed_notMem
      (fun line member => ((isLines_lines input.script.code.toList).of_mem member).1)
  have normalizer := oneLine options.normalizer (by simp)
  have injector : '\n' ∉ (injectorModule options).toList := by
    refine oneLine _ ?_
    unfold injectorModule
    cases options.isServer <;> simp
  have written : ∀ line ∈ moduleLines input options, '\n' ∉ line := by
    rw [moduleLines_eq, List.forall_mem_append, List.forall_mem_map]
    exact ⟨lineFeed_notMem_frontLines script normalizer injector,
      fun line member => (isOneLine_callLines input options line member).lineFeed_notMem⟩
  unfold assemble
  rw [String.toList_ofList, splitOn_writeLines written, moduleLines_eq, List.append_assoc]

/-! ## What a module declares -/

/-- Of the lines in front, one declares a binding, by an import or by its value as told, and
none declares it the other way. No line behind declares it. -/
structure DeclaredOnce (binding : String) (imported : Bool)
    (front behind : List (List Char)) : Prop where
  once : (Declaration.mk binding imported).count front = 1
  noOther : (Declaration.mk binding !imported).count front = 0
  notBehind : ∀ either, (Declaration.mk binding either).count behind = 0

/-- No line declares a binding. -/
def Undeclared (binding : String) (lines : List (List Char)) : Prop :=
  ∀ either, (Declaration.mk binding either).count lines = 0

theorem count_normalizer : ∀ normalizer injector server styled : Bool,
    let declared := declaredInFront normalizer injector server styled
    declared.count { binding := "__vue_normalize__", imported := normalizer } = 1 ∧
      declared.count { binding := "__vue_normalize__", imported := !normalizer } = 0 := by
  decide

theorem count_received : ∀ normalizer injector server styled : Bool,
    let declared := declaredInFront normalizer injector server styled
    ∀ binding ∈ receivedBindings,
      declared.count { binding } = 1 ∧ declared.count { binding, imported := true } = 0 := by
  decide

theorem count_injector : ∀ normalizer injector server : Bool,
    let declared := declaredInFront normalizer injector server true
    declared.count { binding := injectorOf server, imported := injector } = 1 ∧
      declared.count { binding := injectorOf server, imported := !injector } = 0 := by
  decide

theorem count_other_injector : ∀ normalizer injector server styled asked : Bool,
    ¬ (styled = true ∧ server = asked) →
    ∀ imported, (declaredInFront normalizer injector server styled).count
      { binding := injectorOf asked, imported } = 0 := by
  decide

section Counted

variable {front behind : List (List Char)} {normalizer injector server styled : Bool}
  (declares : front.filterMap Declaration.ofLine? =
    declaredInFront normalizer injector server styled)
  (silent : behind.filterMap Declaration.ofLine? = [])
include declares silent

theorem declaredOnce_of_count {binding : String} (shared : binding ∈ sharedBindings)
    {imported : Bool}
    (counted : let declared := declaredInFront normalizer injector server styled
      declared.count { binding, imported } = 1 ∧
        declared.count { binding, imported := !imported } = 0) :
    DeclaredOnce binding imported front behind where
  once := by
    rw [Declaration.count_eq (Declaration.mk_mem_all shared _), declares, counted.1]
  noOther := by
    rw [Declaration.count_eq (Declaration.mk_mem_all shared _), declares, counted.2]
  notBehind either := by
    rw [Declaration.count_eq (Declaration.mk_mem_all shared _), silent, List.count_nil]

theorem declaredOnce_normalizer : DeclaredOnce "__vue_normalize__" normalizer front behind :=
  declaredOnce_of_count declares silent (by decide) (count_normalizer normalizer _ _ _)

theorem declaredOnce_of_received {binding : String} (received : binding ∈ receivedBindings) :
    DeclaredOnce binding false front behind := by
  have shared : receivedBindings ⊆ sharedBindings := by decide
  exact declaredOnce_of_count declares silent (shared received)
    (count_received _ _ _ _ binding received)

theorem declaredOnce_injector (needed : styled = true) :
    DeclaredOnce (injectorOf server) injector front behind := by
  subst needed
  exact declaredOnce_of_count declares silent (injectorOf_mem_sharedBindings server)
    (count_injector normalizer injector server)

theorem undeclared_injector {asked : Bool} (unneeded : ¬ (styled = true ∧ server = asked)) :
    Undeclared (injectorOf asked) (front ++ behind) := by
  intro either
  rw [Declaration.count_eq
      (Declaration.mk_mem_all (injectorOf_mem_sharedBindings asked) either),
    List.filterMap_append, declares, silent, List.append_nil,
    count_other_injector normalizer injector server styled asked unneeded]

end Counted

/-- The lines of a module are those in front of the call that joins its parts, and those of
the call. In front of it each binding that it receives is declared once: the normalizer, if
its helper is a module, by an import, all else by its value. The same holds for the injector
of the platform if there are styles, and no other injector is declared. The lines of
the script stand in front as they are, but that its first default export is bound. -/
theorem assemble_declares_once (input : AssemblyInput) (options : AssemblyOptions)
    (scriptUnmarked : ¬ sharedMark <:+: input.script.code.toList)
    (templateUnmarked : ∀ template ∈ input.template, ¬ sharedMark <:+: template.code.toList)
    (oneLine : ∀ helper ∈ [options.normalizer, options.styleInjector,
      options.serverStyleInjector], '\n' ∉ helper.toList) :
    ∃ divided rebound,
      let front := frontLines input options rebound
      let call := (callLines input options).map String.toList ++ [[]]
      IsLines input.script.code.toList divided ∧ Rebinds divided rebound ∧
        (assemble input options).code.toList.splitOn '\n' = front ++ call ∧
        DeclaredOnce "__vue_normalize__" (isImported options.normalizer) front call ∧
        (∀ binding ∈ receivedBindings, DeclaredOnce binding false front call) ∧
        ∀ server,
          if input.styles ≠ [] ∧ options.isServer = server then
            DeclaredOnce (injectorOf server)
              (isImported
                (if server then options.serverStyleInjector else options.styleInjector))
              front call
          else Undeclared (injectorOf server) (front ++ call) := by
  let divided := lines input.script.code.toList
  have isLines : IsLines input.script.code.toList divided := isLines_lines _
  have rebinds : Rebinds divided (scriptLines divided) := rebinds_scriptLines divided
  have dividedUnmarked : ∀ line ∈ divided, ¬ sharedMark <:+: line := fun line member marked =>
    scriptUnmarked (marked.trans (isLines.of_mem member).2)
  have declares := filterMap_ofLine?_frontLines options rebinds dividedUnmarked templateUnmarked
  have silent : ((callLines input options).map String.toList ++ [[]]).filterMap
      Declaration.ofLine? = [] := by
    rw [List.filterMap_append, filterMap_ofLine?_callLines]
    decide +kernel
  have styled_iff : (!input.styles.isEmpty) = true ↔ input.styles ≠ [] := by simp
  refine ⟨divided, scriptLines divided, isLines, rebinds, splitOn_assemble oneLine,
    declaredOnce_normalizer declares silent,
    fun binding received => declaredOnce_of_received declares silent received, ?_⟩
  intro server
  split
  · rename_i needed
    obtain ⟨styled, rfl⟩ := needed
    exact declaredOnce_injector declares silent (styled_iff.2 styled)
  · rename_i unneeded
    rw [← styled_iff] at unneeded
    exact undeclared_injector declares silent unneeded

/-- Parts with a script, a template and a style. -/
def plainParts : AssemblyInput :=
  { scopeId := "data-v-1"
    styles := [{ code := ".a\x7b\x7d" }]
    template := some { code := "var render = 1" }
    script := { code := "let a = 1\nexport default a" } }

theorem not_sharedMark_infix {text : List Char} (plain : '_' ∉ text) : ¬ sharedMark <:+: text :=
  fun marked => plain (marked.subset List.mem_cons_self)

/-- A module for the browser declares its script, imports the injector of the browser, and has
no other injector. -/
theorem assemble_declares_browser_injector :
    ∃ front call, (assemble plainParts {}).code.toList.splitOn '\n' = front ++ call ∧
      DeclaredOnce "__vue_script__" false front call ∧
      DeclaredOnce "__vue_create_injector__" true front call ∧
      Undeclared "__vue_create_injector_ssr__" (front ++ call) := by
  have scriptUnmarked : ¬ sharedMark <:+: plainParts.script.code.toList :=
    not_sharedMark_infix (by decide)
  have templateUnmarked : ∀ template ∈ plainParts.template,
      ¬ sharedMark <:+: template.code.toList := by
    rintro template ⟨⟩
    exact not_sharedMark_infix (by decide)
  obtain ⟨divided, rebound, -, -, written, -, received, injectors⟩ :=
    assemble_declares_once plainParts {} scriptUnmarked templateUnmarked (by decide +kernel)
  have browser := injectors false
  have server := injectors true
  rw [if_pos (by decide)] at browser
  rw [if_neg (by decide)] at server
  exact ⟨_, _, written, received "__vue_script__" (by decide), browser, server⟩

end VirtualBlocks.Assembly
