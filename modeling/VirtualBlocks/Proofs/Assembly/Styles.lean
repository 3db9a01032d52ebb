import Mathlib.Data.List.Nodup
import VirtualBlocks.Assembly
import VirtualBlocks.Proofs.Json.DataModel
import VirtualBlocks.Proofs.Json.Leading
import VirtualBlocks.Proofs.Text.Lines

/-!
Contract: the style section of a component module as an encoding of its styles.

Owns:
- the steps that the section takes: the injections and the class names of styles;
- a reader of its lines, which knows the fixed parts of a line and reads the JSON
  between them;
- that each line is read back as the step it was written for, in the order of the
  styles, and stands on one line whatever it holds;
- that the keys of injections are distinct, and that sections with other steps
  differ.

Does not own: the other sections of a module.
-/

namespace VirtualBlocks.Assembly

open VirtualBlocks.Json

/-! ## Steps -/

/-- What a line of the section does. -/
inductive StyleStep where
  | inject (key source : String) (map : Option SourceMap) (media : Option String)
  | define (name : String) (modules : Table String)
deriving DecidableEq

/-- The key under which a style is injected. -/
def injectionKey (scopeId : String) (position : Nat) : String :=
  scopeId ++ "_" ++ toString position

/-- A style is injected unless it has no code. Its map stays behind in production. -/
def injection? (scopeId : String) (production : Bool) (position : Nat) (style : CompiledStyle) :
    Option StyleStep :=
  if style.code = "" then none
  else
    some (.inject (injectionKey scopeId position) style.code
      (if production then none else style.map) style.media)

/-- The class names of a style are defined if it has both a name and a table for them. -/
def definition? (style : CompiledStyle) : Option StyleStep :=
  style.moduleName.bind (fun name => style.modules.map (StyleStep.define name))

/-- The steps for styles, of which the first one has the position `index`. -/
def stepsFrom (scopeId : String) (production : Bool) (index : Nat)
    (styles : List CompiledStyle) : List StyleStep :=
  (styles.zipIdx index).flatMap (fun entry =>
    (injection? scopeId production entry.2 entry.1).toList ++ (definition? entry.1).toList)

namespace StyleStep

/-! ## Reading a line -/

/-- A value at the start of a text, or `undefined`. -/
def optional? {α : Type} (read : Json → Option α) (text : List Char) :
    Option (Option α × List Char) :=
  match text.dropPrefix? "undefined".toList with
  | some rest => some (none, rest)
  | none => (leading? read text).map (fun found => (some found.1, found.2))

def inject? (line : List Char) : Option StyleStep := do
  let text ← line.dropPrefix? "  inject(".toList
  let (key, text) ← leading? string? text
  let text ← text.dropPrefix? ", \x7b source: ".toList
  let (source, text) ← leading? string? text
  let text ← text.dropPrefix? ", map: ".toList
  let (map, text) ← optional? SourceMap.ofJson? text
  let text ← text.dropPrefix? ", media: ".toList
  let (media, text) ← optional? string? text
  if text = " \x7d)".toList then some (.inject key source map media) else none

def define? (line : List Char) : Option StyleStep := do
  let text ← line.dropPrefix? "  Object.defineProperty(this, ".toList
  let (name, text) ← leading? string? text
  let text ← text.dropPrefix? ", \x7b value: ".toList
  let (modules, text) ← leading? (table? string?) text
  if text = " \x7d)".toList then some (.define name modules) else none

/-- The step that a line takes. -/
def ofLine? (line : List Char) : Option StyleStep :=
  (inject? line).or (define? line)

theorem dropPrefix?_append (start rest : List Char) :
    (start ++ rest).dropPrefix? start = some rest :=
  List.dropPrefix?_append_of_beq rest (beq_self_eq_true start)

theorem leading?_quoted (content : String) {rest : List Char} (ends : EndsNumber rest) :
    leading? string? ((Json.quoted content).toList ++ rest) = some (content, rest) :=
  ReadsBack.string.leading?_write content ends

/-- No JSON starts like `undefined`. -/
theorem leading?_undefined {α : Type} (read : Json → Option α) (rest : List Char) :
    leading? read ("undefined".toList ++ rest) = none := by
  have noToken : nextToken? (("undefined".toList ++ rest).dropWhile isSpace) = none := rfl
  unfold leading?
  rw [State.read?.eq_2 _ _ (fun _ settled => by cases settled)]
  split
  · rfl
  · rename_i found
    rw [noToken] at found
    cases found

/-- What is written for an optional value is read back. -/
theorem optional?_write {α : Type} {read : Json → Option α} {write : α → Json}
    (back : ReadsBack read write) (value : Option α) {rest : List Char}
    (ends : EndsNumber rest) :
    optional? read
        ((value.elim "undefined" (fun present => (write present).toCompact)).toList ++ rest) =
      some (value, rest) := by
  unfold optional?
  cases value with
  | none => rw [Option.elim_none, dropPrefix?_append]
  | some present =>
      have found := back.leading?_write present ends
      rw [Option.elim_some]
      split
      · rename_i isUndefined
        obtain ⟨start, text, isStart⟩ := List.dropPrefix?_eq_some_iff.1 isUndefined
        rw [text, eq_of_beq isStart, leading?_undefined] at found
        cases found
      · rw [found]
        rfl

/-! ## The lines of a step -/

theorem mapText_eq (production : Bool) (map : Option SourceMap) :
    mapText production map =
      (if production then none else map).elim "undefined" (fun map => map.toJson.toCompact) := by
  cases map <;> cases production <;> rfl

theorem optionalText_eq (content : Option String) :
    optionalText content =
      content.elim "undefined" (fun content => (Json.string content).toCompact) := by
  cases content <;> rfl

theorem inject?_injectLine (scopeId : String) (production : Bool) (position : Nat)
    (style : CompiledStyle) :
    inject? (injectLine scopeId production position style).toList =
      some (.inject (injectionKey scopeId position) style.code
        (if production then none else style.map) style.media) := by
  have source (rest : List Char) : EndsNumber (", \x7b source: ".toList ++ rest) :=
    endsNumber_cons (by decide) _
  have map (rest : List Char) : EndsNumber (", map: ".toList ++ rest) :=
    endsNumber_cons (by decide) _
  have media (rest : List Char) : EndsNumber (", media: ".toList ++ rest) :=
    endsNumber_cons (by decide) _
  have closing : EndsNumber " \x7d)".toList := endsNumber_cons (by decide) _
  unfold inject? injectLine
  simp only [String.toList_append, List.append_assoc, Option.bind_eq_bind]
  rw [dropPrefix?_append, Option.bind_some, leading?_quoted _ (source _), Option.bind_some,
    dropPrefix?_append, Option.bind_some, leading?_quoted _ (map _), Option.bind_some,
    dropPrefix?_append, Option.bind_some, mapText_eq,
    optional?_write SourceMap.readsBack _ (media _), Option.bind_some,
    dropPrefix?_append, Option.bind_some, optionalText_eq,
    optional?_write ReadsBack.string _ closing, Option.bind_some, if_pos rfl]
  rfl

theorem define?_moduleLine (name : String) (modules : Table String) :
    define? (moduleLine name modules).toList = some (.define name modules) := by
  have value (rest : List Char) : EndsNumber (", \x7b value: ".toList ++ rest) :=
    endsNumber_cons (by decide) _
  have closing : EndsNumber " \x7d)".toList := endsNumber_cons (by decide) _
  unfold define? moduleLine
  simp only [String.toList_append, List.append_assoc, Option.bind_eq_bind]
  rw [dropPrefix?_append, Option.bind_some, leading?_quoted _ (value _), Option.bind_some,
    dropPrefix?_append, Option.bind_some, ReadsBack.string.table.leading?_write modules closing,
    Option.bind_some, if_pos rfl]

theorem ofLine?_injectLine (scopeId : String) (production : Bool) (position : Nat)
    (style : CompiledStyle) :
    ofLine? (injectLine scopeId production position style).toList =
      some (.inject (injectionKey scopeId position) style.code
        (if production then none else style.map) style.media) := by
  unfold ofLine?
  rw [inject?_injectLine, Option.some_or]

theorem ofLine?_moduleLine (name : String) (modules : Table String) :
    ofLine? (moduleLine name modules).toList = some (.define name modules) := by
  have otherStart : inject? (moduleLine name modules).toList = none := by
    unfold inject? moduleLine
    simp only [String.toList_append, List.append_assoc]
    rfl
  unfold ofLine?
  rw [otherStart, define?_moduleLine, Option.none_or]

end StyleStep

/-! ## The lines of all styles -/

section Lines

variable (scopeId : String) (production : Bool)

theorem map_ofLine?_styleLines (position : Nat) (style : CompiledStyle) :
    (styleLines scopeId production position style).map (fun line => StyleStep.ofLine? line.toList) =
      ((injection? scopeId production position style).toList ++
        (definition? style).toList).map some := by
  unfold styleLines injection? definition?
  rw [List.map_append, List.map_append]
  congr 1
  · by_cases empty : style.code = ""
    · rw [if_pos empty, if_pos (String.isEmpty_iff.2 empty)]
      rfl
    · rw [if_neg empty, if_neg (fun isEmpty => empty (String.isEmpty_iff.1 isEmpty))]
      rw [List.map_singleton, StyleStep.ofLine?_injectLine]
      rfl
  · cases style.moduleName with
    | none => rfl
    | some name =>
        cases style.modules with
        | none => rfl
        | some modules => exact congrArg List.singleton (StyleStep.ofLine?_moduleLine name modules)

/-- The lines are read back as the steps. -/
theorem map_ofLine?_stylesFrom (index : Nat) (styles : List CompiledStyle) :
    (stylesFrom scopeId production index styles).map (fun line => StyleStep.ofLine? line.toList) =
      (stepsFrom scopeId production index styles).map some := by
  unfold stepsFrom
  induction styles generalizing index with
  | nil => rfl
  | cons style rest inductionHypothesis =>
      rw [stylesFrom, List.map_append, inductionHypothesis, map_ofLine?_styleLines,
        List.zipIdx_cons, List.flatMap_cons, ← List.map_append]

theorem isOneLine_quoted (content : String) : IsOneLine (Json.quoted content).toList := by
  unfold Json.quoted
  rw [String.toList_ofList]
  exact isOneLine_quote content.toList

/-- What is written for an optional value stands on one line. -/
theorem isOneLine_elim {α : Type} {read : Json → Option α} {write : α → Json}
    (back : ReadsBack read write) (value : Option α) :
    IsOneLine
      (value.elim "undefined" (fun present => (write present).toCompact)).toList := by
  cases value with
  | none =>
      show IsOneLine "undefined".toList
      decide
  | some present =>
      unfold Json.toCompact
      rw [Option.elim_some, String.toList_ofList]
      exact isOneLine_compact (back.plain present)

theorem isOneLine_injectLine (position : Nat) (style : CompiledStyle) :
    IsOneLine (injectLine scopeId production position style).toList := by
  have map := isOneLine_elim SourceMap.readsBack (if production then none else style.map)
  have media := isOneLine_elim ReadsBack.string style.media
  unfold injectLine
  rw [StyleStep.mapText_eq, StyleStep.optionalText_eq]
  simp only [String.toList_append, isOneLine_append, isOneLine_quoted, map, media]
  decide

theorem isOneLine_moduleLine (name : String) (modules : Table String) :
    IsOneLine (moduleLine name modules).toList := by
  have table := isOneLine_elim ReadsBack.string.table (some modules)
  rw [Option.elim_some] at table
  unfold moduleLine
  simp only [String.toList_append, isOneLine_append, isOneLine_quoted, table]
  decide

theorem isOneLine_stylesFrom (index : Nat) (styles : List CompiledStyle) :
    ∀ line ∈ stylesFrom scopeId production index styles, IsOneLine line.toList := by
  induction styles generalizing index with
  | nil => exact List.forall_mem_nil _
  | cons style rest inductionHypothesis =>
      rw [stylesFrom, List.forall_mem_append]
      refine ⟨?_, inductionHypothesis (index + 1)⟩
      unfold styleLines
      rw [List.forall_mem_append]
      constructor
      · split
        · exact List.forall_mem_nil _
        · exact List.forall_mem_singleton.2 (isOneLine_injectLine scopeId production index style)
      · split
        · exact List.forall_mem_singleton.2 (isOneLine_moduleLine _ _)
        · exact List.forall_mem_nil _

end Lines

theorem isOneLine_styleSection (scopeId : String) (production : Bool)
    (styles : List CompiledStyle) :
    ∀ line ∈ styleSection scopeId production styles, IsOneLine line.toList := by
  unfold styleSection
  split
  · rw [List.forall_mem_singleton]
    decide
  · rw [List.forall_mem_append, List.forall_mem_append, List.forall_mem_singleton]
    exact ⟨⟨by decide, isOneLine_stylesFrom scopeId production 0 styles⟩, by decide⟩

/-! ## Keys -/

/-- The key of an injection. -/
def StyleStep.key? : StyleStep → Option String
  | .inject key _ _ _ => some key
  | .define _ _ => none

theorem injectionKey_inj {scopeId : String} {left right : Nat}
    (same : injectionKey scopeId left = injectionKey scopeId right) : left = right := by
  unfold injectionKey at same
  have digits := congrArg (fun text => Nat.ofDigitChars 10 text.toList 0)
    ((String.append_right_inj _).1 same)
  have value (position : Nat) :
      Nat.ofDigitChars 10 (toString position).toList 0 = position := by
    have written : (toString position).toList = Nat.toDigits 10 position := Nat.toList_repr
    rw [written, Nat.ofDigitChars_ten_toDigits]
  rw [← value left, digits, value]

/-- The keys are those of the positions of the styles with code. -/
theorem filterMap_key?_stepsFrom (scopeId : String) (production : Bool) (index : Nat)
    (styles : List CompiledStyle) :
    (stepsFrom scopeId production index styles).filterMap StyleStep.key? =
      (((styles.zipIdx index).filter (fun entry => entry.1.code ≠ "")).map Prod.snd).map
        (injectionKey scopeId) := by
  unfold stepsFrom
  induction styles generalizing index with
  | nil => rfl
  | cons style rest inductionHypothesis =>
      have noKey : (definition? style).toList.filterMap StyleStep.key? = [] := by
        unfold definition?
        cases style.moduleName <;> cases style.modules <;> rfl
      rw [List.zipIdx_cons, List.flatMap_cons, List.filterMap_append, List.filterMap_append,
        inductionHypothesis, noKey, List.append_nil, List.filter_cons]
      unfold injection?
      by_cases empty : style.code = ""
      · simp [empty]
      · simp [empty, StyleStep.key?]

theorem nodup_keys (scopeId : String) (production : Bool) (styles : List CompiledStyle) :
    ((stepsFrom scopeId production 0 styles).filterMap StyleStep.key?).Nodup := by
  have positions : (((styles.zipIdx 0).filter (fun entry => entry.1.code ≠ "")).map
      Prod.snd).Nodup := by
    have all : ((styles.zipIdx 0).map Prod.snd).Nodup := by
      rw [List.zipIdx_map_snd]
      exact List.nodup_range'
    exact all.sublist (List.filter_sublist.map Prod.snd)
  rw [filterMap_key?_stepsFrom]
  exact positions.map (fun _ _ => injectionKey_inj)

/-! ## The section -/

/-- The section of one or more styles is a function that takes their steps in order, a line
each: read back, its lines are the steps. No line holds a control character, so that these
are the lines of the text that the section is written as. No two injections have one key,
and sections that are the same have the same steps. -/
theorem styleSection_reads_back (scopeId : String) (production : Bool) (first : CompiledStyle)
    (rest : List CompiledStyle) :
    let written := styleSection scopeId production (first :: rest)
    let steps := stepsFrom scopeId production 0 (first :: rest)
    ∃ lines,
      written =
        ["const __vue_inject_styles__ = function (inject) \x7b", "  if (!inject) return"] ++ lines ++
          ["\x7d"] ∧
      (∀ line ∈ written, IsOneLine line.toList) ∧
      (Text.writeLines (written.map String.toList)).splitOn '\n' =
        written.map String.toList ++ [[]] ∧
      lines.map (fun line => StyleStep.ofLine? line.toList) = steps.map some ∧
      (steps.filterMap StyleStep.key?).Nodup ∧
      ∀ otherScope otherMode otherFirst otherRest,
        styleSection otherScope otherMode (otherFirst :: otherRest) = written →
          stepsFrom otherScope otherMode 0 (otherFirst :: otherRest) = steps := by
  intro written steps
  have oneLine := isOneLine_styleSection scopeId production (first :: rest)
  refine ⟨stylesFrom scopeId production 0 (first :: rest), rfl, oneLine, ?_,
    map_ofLine?_stylesFrom scopeId production 0 (first :: rest),
    nodup_keys scopeId production (first :: rest), ?_⟩
  · apply Text.splitOn_writeLines
    rw [List.forall_mem_map]
    exact fun line member => (oneLine line member).lineFeed_notMem
  · intro otherScope otherMode otherFirst otherRest same
    have sameLines : stylesFrom otherScope otherMode 0 (otherFirst :: otherRest) =
        stylesFrom scopeId production 0 (first :: rest) :=
      List.append_cancel_left (List.append_cancel_right same)
    have sameSteps := map_ofLine?_stylesFrom otherScope otherMode 0 (otherFirst :: otherRest)
    rw [sameLines, map_ofLine?_stylesFrom] at sameSteps
    exact ((List.map_inj_right (fun _ _ => Option.some.inj)).1 sameSteps).symm

end VirtualBlocks.Assembly
