import VirtualBlocks.Plugin.Transform

/-!
Contract: the ids that a component module refers to its blocks by.

Owns:
- the statements of a component module that refer to blocks, and what it means
  that a statement refers to an id;
- the references of a component: its script, its extracted styles and its
  exported custom blocks, each with an id, an address and the block that is to be
  served;
- that the ids in the statements are those of the references.

Does not own: whether the ids are served (`Proofs.Plugin.Served`).
-/

namespace VirtualBlocks.Plugin

variable {σ : Type}

/-! ## Statements -/

/-- The statements of the entry script; none when the component has no script. -/
def entryStatements (plugin : Plugin σ) (file : Path) (descriptor : Descriptor)
    (styles : List CompiledStyle) : List String :=
  match descriptor.script with
  | none => []
  | some script => plugin.entryLines file script styles

theorem toList_entryScript (plugin : Plugin σ) (file : Path) (descriptor : Descriptor)
    (styles : List CompiledStyle) :
    (plugin.entryScript file descriptor styles).toList =
      ['\n'].intercalate ((plugin.entryStatements file descriptor styles).map String.toList) := by
  unfold entryScript entryStatements
  cases descriptor.script with
  | none => rfl
  | some script => exact String.toList_intercalate

/-- The statements of the script: those of the entry script, and the imports of the
extracted styles behind them. -/
def scriptStatements (plugin : Plugin σ) (file : Path) (descriptor : Descriptor)
    (styles : List CompiledStyle) : List String :=
  plugin.entryStatements file descriptor styles ++
    if plugin.extracts styles then plugin.styleImports file 0 (descriptor.styles.zip styles)
    else []

/-- The statements of the script, and the exports behind the assembled module. -/
def statements (plugin : Plugin σ) (file : Path) (descriptor : Descriptor)
    (styles : List CompiledStyle) : List String :=
  plugin.scriptStatements file descriptor styles ++
    plugin.customExports file 0 descriptor.customBlocks

/-- What stands before the specifier of a statement. -/
def keywords : List String :=
  ["export * from ", "import script from ", "import "]

/-- Whether a statement refers to an id. -/
def RefersTo (statement id : String) : Prop :=
  ∃ keyword ∈ keywords, statement = keyword ++ inQuotes id

/-- A block that a component module refers to, with the id it is referred to by
and its address. Extracted styles are to be served as compiled. -/
inductive Reference (plugin : Plugin σ) (file : Path) (descriptor : Descriptor)
    (styles : List CompiledStyle) : String → Address → Block → Prop
  | script {block : Block} (present : descriptor.script = some block) :
      Reference plugin file descriptor styles
        (VirtualId.ofBlock plugin.languages file block .script none)
        { kind := .script, lang := plugin.languages.forBlock .script block, index := none }
        block
  | style {position : Nat} {block : Block} {style : CompiledStyle}
      (extracted : plugin.extracts styles = true)
      (present : descriptor.styles[position]? = some block)
      (compiled : styles[position]? = some style)
      (plain : style.isModule = false ∧ block.isScoped = false) :
      Reference plugin file descriptor styles
        (VirtualId.encode plugin.languages file (some "css") .styles (some position))
        { kind := .styles, lang := "css", index := some position }
        { block with code := some style.code }
  | custom {position : Nat} {block : Block}
      (present : descriptor.customBlocks[position]? = some block)
      (admitted : plugin.exportsTag block.tag = true) :
      Reference plugin file descriptor styles
        (VirtualId.ofBlock plugin.languages file block .customBlocks (some position))
        { kind := .customBlocks
          lang := plugin.languages.forBlock .customBlocks block
          index := some position }
        block

theorem Reference.id_eq {plugin : Plugin σ} {file : Path} {descriptor : Descriptor}
    {styles : List CompiledStyle} {id : String} {address : Address} {block : Block}
    (reference : plugin.Reference file descriptor styles id address block) :
    id = VirtualId.write file address.kind address.index address.lang := by
  cases reference with
  | script present => rfl
  | style extracted present compiled plain => rfl
  | custom present admitted => rfl

/-! ## The id of a statement -/

theorem prefix_of_refersTo {statement id : String} (refers : RefersTo statement id) :
    ∃ keyword ∈ keywords, (keyword ++ "'").toList <+: statement.toList := by
  obtain ⟨keyword, member, rfl⟩ := refers
  refine ⟨keyword, member, (id ++ "'").toList, ?_⟩
  unfold inQuotes
  simp

/-- A statement that starts like none of the keywords refers to nothing. -/
theorem not_refersTo (front : List Char) {statement id : String}
    (starts : front <+: statement.toList)
    (foreign : ∀ keyword ∈ keywords,
      ¬ (keyword ++ "'").toList <+: front ∧ ¬ front <+: (keyword ++ "'").toList) :
    ¬ RefersTo statement id := by
  intro refers
  obtain ⟨keyword, member, also⟩ := prefix_of_refersTo refers
  rcases List.prefix_or_prefix_of_prefix also starts with shorter | longer
  · exact (foreign keyword member).1 shorter
  · exact (foreign keyword member).2 longer

theorem refersTo_keyword_iff {keyword : String} (member : keyword ∈ keywords) {id other : String} :
    RefersTo (keyword ++ inQuotes id) other ↔ id = other := by
  constructor
  · rintro ⟨second, secondMember, same⟩
    have characters := congrArg String.toList same
    unfold inQuotes at characters
    simp only [String.toList_append] at characters
    have quoted (word name : String) : word.toList ++ ("'".toList ++ name.toList ++ "'".toList) =
        (word ++ "'").toList ++ (name.toList ++ "'".toList) := by
      simp
    rw [quoted, quoted] at characters
    have comparable := List.prefix_or_prefix_of_prefix
      (List.prefix_append (keyword ++ "'").toList (id.toList ++ "'".toList))
      (characters ▸ List.prefix_append (second ++ "'").toList (other.toList ++ "'".toList))
    have oneKeyword : ∀ first ∈ keywords, ∀ second ∈ keywords,
        (first ++ "'").toList <+: (second ++ "'").toList → first = second := by
      decide
    have sameKeyword : keyword = second :=
      comparable.elim (oneKeyword keyword member second secondMember)
        (fun longer => (oneKeyword second secondMember keyword member longer).symm)
    rw [sameKeyword] at characters
    exact String.toList_inj.1
      (List.append_cancel_right (List.append_cancel_left characters))
  · rintro rfl
    exact ⟨keyword, member, rfl⟩

/-! ## The ids of the entry script -/

theorem refersTo_entryLines_iff (plugin : Plugin σ) (file : Path) (script : Block)
    (styles : List CompiledStyle) (id : String) :
    (∃ line ∈ plugin.entryLines file script styles, RefersTo line id) ↔
      VirtualId.ofBlock plugin.languages file script .script none = id := by
  have exportIsKeyword : "export * from " ∈ keywords := by decide
  have importIsKeyword : "import script from " ∈ keywords := by decide
  unfold entryLines
  dsimp only
  constructor
  · rintro ⟨line, member, refers⟩
    simp only [List.mem_append, List.mem_singleton, List.mem_ite_nil_right] at member
    rcases member with ((((rfl | ⟨-, rfl⟩) | rfl) | ⟨-, rfl⟩) | rfl) | ⟨-, rfl⟩
    · exact (refersTo_keyword_iff exportIsKeyword).1 refers
    · exact absurd refers (not_refersTo _ (List.prefix_refl _) (by decide))
    · exact (refersTo_keyword_iff importIsKeyword).1 refers
    · refine absurd refers (not_refersTo "script.beforeCreate".toList ?_ (by decide))
      unfold loadStylesLine
      simp
    · exact absurd refers (not_refersTo _ (List.prefix_refl _) (by decide))
    · refine absurd refers (not_refersTo "script.__file".toList ?_ (by decide))
      simp
  · intro same
    refine ⟨_, ?_, (refersTo_keyword_iff exportIsKeyword).2 same⟩
    simp

/-! ## The ids of styles and custom blocks -/

theorem exists_getElem?_cons {α : Type} (holds : Nat → α → Prop) {first : α} {rest : List α} :
    (∃ offset entry, (first :: rest)[offset]? = some entry ∧ holds offset entry) ↔
      holds 0 first ∨ ∃ offset entry, rest[offset]? = some entry ∧ holds (offset + 1) entry := by
  constructor
  · rintro ⟨offset, entry, found, held⟩
    cases offset with
    | zero => exact .inl (Option.some.inj found ▸ held)
    | succ offset => exact .inr ⟨offset, entry, found, held⟩
  · rintro (held | ⟨offset, entry, found, held⟩)
    · exact ⟨0, first, rfl, held⟩
    · exact ⟨offset + 1, entry, found, held⟩

theorem mem_styleImports_iff (plugin : Plugin σ) (file : Path) (first : Nat)
    (paired : List (Block × CompiledStyle)) (line : String) :
    line ∈ plugin.styleImports file first paired ↔
      ∃ offset pair, paired[offset]? = some pair ∧
        isPlain pair.1 pair.2 = true ∧ line = plugin.styleImport file (first + offset) := by
  induction paired generalizing first with
  | nil => simp [styleImports]
  | cons pair rest inductionHypothesis =>
      have behind := inductionHypothesis (first + 1)
      simp only [Nat.add_assoc, Nat.add_comm 1] at behind
      rw [exists_getElem?_cons (fun offset (pair : Block × CompiledStyle) =>
        isPlain pair.1 pair.2 = true ∧ line = plugin.styleImport file (first + offset)),
        ← behind, styleImports]
      by_cases plain : isPlain pair.1 pair.2 = true
      · rw [if_pos plain, List.mem_cons]
        exact or_congr_left ⟨fun same => ⟨plain, same⟩, And.right⟩
      · rw [if_neg plain]
        exact ⟨Or.inr, fun found => found.resolve_left (fun here => plain here.1)⟩

theorem mem_customExports_iff (plugin : Plugin σ) (file : Path) (first : Nat)
    (blocks : List Block) (line : String) :
    line ∈ plugin.customExports file first blocks ↔
      ∃ offset block, blocks[offset]? = some block ∧ plugin.exportsTag block.tag = true ∧
        line = plugin.customExport file (first + offset) block := by
  induction blocks generalizing first with
  | nil => simp [customExports]
  | cons block rest inductionHypothesis =>
      have behind := inductionHypothesis (first + 1)
      simp only [Nat.add_assoc, Nat.add_comm 1] at behind
      rw [exists_getElem?_cons (fun offset (block : Block) =>
        plugin.exportsTag block.tag = true ∧
          line = plugin.customExport file (first + offset) block), ← behind, customExports]
      by_cases admitted : plugin.exportsTag block.tag = true
      · rw [if_pos admitted, List.mem_cons]
        exact or_congr_left ⟨fun same => ⟨admitted, same⟩, And.right⟩
      · rw [if_neg admitted]
        exact ⟨Or.inr, fun found => found.resolve_left (fun here => admitted here.1)⟩

/-- The ids in the statements of a component module are those of its references. -/
theorem refersTo_statements_iff (plugin : Plugin σ) (file : Path) (descriptor : Descriptor)
    (styles : List CompiledStyle) (id : String) :
    (∃ statement ∈ plugin.statements file descriptor styles, RefersTo statement id) ↔
      ∃ address block, plugin.Reference file descriptor styles id address block := by
  have importIsKeyword : "import " ∈ keywords := by decide
  have exportIsKeyword : "export * from " ∈ keywords := by decide
  constructor
  · rintro ⟨statement, member, refers⟩
    unfold statements at member
    rcases List.mem_append.1 member with inScript | inExports
    · unfold scriptStatements at inScript
      rcases List.mem_append.1 inScript with inEntry | inImports
      · unfold entryStatements at inEntry
        cases present : descriptor.script with
        | none =>
            rw [present] at inEntry
            cases inEntry
        | some script =>
            rw [present] at inEntry
            obtain rfl := (refersTo_entryLines_iff plugin file script styles id).1
              ⟨statement, inEntry, refers⟩
            exact ⟨_, _, .script present⟩
      · rw [List.mem_ite_nil_right] at inImports
        obtain ⟨extracted, inImports⟩ := inImports
        obtain ⟨position, ⟨block, style⟩, found, plain, rfl⟩ :=
          (mem_styleImports_iff plugin file 0 _ statement).1 inImports
        obtain ⟨present, compiled⟩ := List.getElem?_zip_eq_some.1 found
        obtain rfl := (refersTo_keyword_iff importIsKeyword).1 refers
        rw [Nat.zero_add]
        exact ⟨_, _, .style extracted present compiled (isPlain_iff.1 plain)⟩
    · obtain ⟨position, block, present, admitted, rfl⟩ :=
        (mem_customExports_iff plugin file 0 _ statement).1 inExports
      obtain rfl := (refersTo_keyword_iff exportIsKeyword).1 refers
      rw [Nat.zero_add]
      exact ⟨_, _, .custom present admitted⟩
  · rintro ⟨address, block, reference⟩
    unfold statements scriptStatements entryStatements
    cases reference with
    | script present =>
        obtain ⟨line, member, refers⟩ :=
          (refersTo_entryLines_iff plugin file block styles _).2 rfl
        refine ⟨line, List.mem_append_left _ (List.mem_append_left _ ?_), refers⟩
        rw [present]
        exact member
    | @style position present style extracted found compiled plain =>
        refine ⟨plugin.styleImport file position,
          List.mem_append_left _ (List.mem_append_right _ ?_),
          (refersTo_keyword_iff importIsKeyword).2 rfl⟩
        rw [if_pos extracted, mem_styleImports_iff]
        exact ⟨position, (present, style), List.getElem?_zip_eq_some.2 ⟨found, compiled⟩,
          isPlain_iff.2 plain, by rw [Nat.zero_add]⟩
    | @custom position _ found admitted =>
        refine ⟨plugin.customExport file position block, List.mem_append_right _ ?_,
          (refersTo_keyword_iff exportIsKeyword).2 rfl⟩
        rw [mem_customExports_iff]
        exact ⟨position, block, found, admitted, by rw [Nat.zero_add]⟩

end VirtualBlocks.Plugin
