import VirtualBlocks.Proofs.Text.Occurrence
import VirtualBlocks.Proofs.VirtualId.RoundTrip

/-!
Contract: the file that a resolved id belongs to.

Owns:
- the text of the id of a block of a plain file, one without a question mark or a
  backslash in its name;
- where the extension of components occurs in the query of such an id: only
  behind the dot before the language, or in the language;
- when the file is read back from the id of one of its blocks, when none is, and
  when the file that is read takes in some of the query.

The address of an id is looked for in any letter case and the file in lower case
only, so that the two disagree on names such as `App.VUE`.
-/

namespace VirtualBlocks.VirtualId

open VirtualBlocks.Text

/-! ## Ids of plain files -/

theorem mark_notMem_extension : '?' ∉ extension := by decide

theorem extension_ne_nil : extension ≠ [] := List.cons_ne_nil _ _

/-- The query of the id of a block of a file without parameters. -/
theorem blockQuery_of_noMark {file : Path} (noMark : '?' ∉ file.text.toList) (kind : BlockKind)
    (index : Option Nat) (lang : String) :
    blockQuery file kind index lang =
      parameter.toList ++ '=' :: Uri.encode (Address.toText kind index lang) := by
  unfold blockQuery
  rw [parameters_of_none (query?_eq_none_of_notMem noMark)]
  have single : Uri.Query.set parameter (String.ofList (Address.toText kind index lang)) [] =
      [(parameter, String.ofList (Address.toText kind index lang))] := rfl
  have itself : Uri.encode parameter.toList = parameter.toList := by decide
  rw [single]
  unfold Uri.Query.toText Uri.writeParameter
  rw [List.map_singleton, List.intercalate_singleton, itself, String.toList_ofList]

/-- The id of a block is the base name of its file and a query. -/
theorem toList_write_of_plain {file : Path} {folder base : List Char} (nonempty : base ≠ [])
    (single : '/' ∉ base) (noMark : '?' ∉ file.text.toList)
    (noBackslash : '\\' ∉ file.text.toList)
    (whole : file.text.toList = folder ++ '/' :: base)
    (kind : BlockKind) (index : Option Nat) (lang : String) :
    (write file kind index lang).toList = base ++ '?' :: blockQuery file kind index lang := by
  have plainBase : ∀ c ∈ base, isSeparator c = false := by
    intro c member
    have inWhole : c ∈ file.text.toList := by
      rw [whole]
      exact List.mem_append_right _ (List.mem_cons_of_mem _ member)
    have notSlash : c ≠ '/' := fun slash => single (slash ▸ member)
    have notBackslash : c ≠ '\\' := fun backslash => noBackslash (backslash ▸ inWhole)
    simp [isSeparator, notSlash, notBackslash]
  rw [toList_write, withoutQuery_of_none (query?_eq_none_of_notMem noMark), whole,
    baseName_append_cons rfl _ nonempty plainBase]

/-- The id of a block behind the folder of its file is the name of the file and
a query. -/
theorem toList_write_in_folder {directory base : String} (nonempty : base ≠ "")
    (single : '/' ∉ base.toList)
    (noMark : '?' ∉ (directory ++ "/" ++ base).toList)
    (noBackslash : '\\' ∉ (directory ++ "/" ++ base).toList)
    (kind : BlockKind) (index : Option Nat) (lang : String) :
    (directory ++ "/" ++ write ⟨directory ++ "/" ++ base⟩ kind index lang).toList =
      (directory ++ "/" ++ base).toList ++
        '?' :: blockQuery ⟨directory ++ "/" ++ base⟩ kind index lang := by
  have whole : (directory ++ "/" ++ base).toList = directory.toList ++ '/' :: base.toList := by
    simp
  rw [String.toList_append,
    toList_write_of_plain (by simpa using nonempty) single noMark noBackslash whole]
  simp

/-! ## The extension in a query -/

theorem extension_infix_toText_iff (kind : BlockKind) (index : Option Nat) (lang : String) :
    extension <:+: Address.toText kind index lang ↔ extension <:+: '.' :: lang.toList := by
  unfold extension
  cases index with
  | none =>
      rw [Address.toText_none, infix_append_iff (Address.dot_notMem_name kind)]
  | some position =>
      rw [Address.toText_some, infix_append_iff (Address.dot_notMem_name kind),
        List.infix_cons_iff, infix_append_iff (Address.dot_notMem_toDigits position)]
      constructor
      · rintro (starts | inside)
        · -- the dot before the position is followed by a digit
          obtain ⟨digit, others, digits⟩ :=
            List.exists_cons_of_ne_nil (@Nat.toDigits_ne_nil position 10)
          rw [digits, List.cons_append, List.cons_prefix_cons, List.cons_prefix_cons] at starts
          have isDigit : digit.isDigit = true :=
            Nat.isDigit_of_mem_toDigits (by decide) (by decide) (digits ▸ List.mem_cons_self)
          rw [← starts.2.1] at isDigit
          exact absurd isDigit (by decide)
        · exact inside
      · exact Or.inr

theorem extension_infix_blockQuery_iff {file : Path} (noMark : '?' ∉ file.text.toList)
    (kind : BlockKind) (index : Option Nat) (lang : String) :
    extension <:+: blockQuery file kind index lang ↔ extension <:+: '.' :: lang.toList := by
  have noDot : '.' ∉ parameter.toList := by decide
  have notInParameter : ¬ extension <:+: parameter.toList := fun inside =>
    noDot (inside.subset List.mem_cons_self)
  have alone : ∀ c ∈ extension, Uri.standsAlone c = true := List.all_eq_true.1 (by decide)
  rw [blockQuery_of_noMark noMark, infix_append_cons_iff (by decide) extension_ne_nil,
    Uri.infix_encode_iff extension_ne_nil alone, extension_infix_toText_iff]
  exact ⟨fun inside => inside.elim (fun found => absurd found notInParameter) id, Or.inr⟩

/-! ## The file of an id -/

theorem request?_of_address? {languages : Languages} {id : String} {address : Address}
    (addressed : address? languages id = some address) :
    request? languages id =
      (throughLast? extension id.toList).map
        (fun file => { file := ⟨String.ofList file⟩, address }) := by
  unfold request?
  rw [addressed]
  cases throughLast? extension id.toList with
  | none => rfl
  | some file => rfl

section Cut

variable (name query : List Char)

theorem throughLast?_append_query :
    throughLast? extension (name ++ '?' :: query) =
      match throughLast? extension query with
      | some found => some (name ++ '?' :: found)
      | none => throughLast? extension name :=
  throughLast?_append_cons extension_ne_nil mark_notMem_extension name query

/-- The name before the query is read back. -/
theorem throughLast?_eq_name_iff :
    throughLast? extension (name ++ '?' :: query) = some name ↔
      extension <:+ name ∧ ¬ extension <:+: query := by
  rw [throughLast?_append_query, ← throughLast?_eq_none_iff extension_ne_nil,
    ← throughLast?_eq_self_iff extension_ne_nil]
  cases throughLast? extension query with
  | none => exact ⟨fun same => ⟨same, rfl⟩, And.left⟩
  | some found =>
      constructor
      · intro same
        have lengths := congrArg List.length (Option.some.inj same)
        simp at lengths
      · intro condition
        exact absurd condition.2 (Option.some_ne_none found)

/-- Nothing is read. -/
theorem throughLast?_eq_none_iff_parts :
    throughLast? extension (name ++ '?' :: query) = none ↔
      ¬ extension <:+: name ∧ ¬ extension <:+: query := by
  rw [throughLast?_eq_none_iff extension_ne_nil,
    infix_append_cons_iff mark_notMem_extension extension_ne_nil, not_or]

/-- What is read goes beyond the name. -/
theorem throughLast?_beyond_iff :
    (∃ found, throughLast? extension (name ++ '?' :: query) = some found ∧
      name.length < found.length) ↔ extension <:+: query := by
  rw [throughLast?_append_query]
  constructor
  · rintro ⟨found, through, longer⟩
    cases inQuery : throughLast? extension query with
    | some inner =>
        obtain ⟨ends, starts⟩ := suffix_of_throughLast? inQuery
        exact ends.isInfix.trans starts.isInfix
    | none =>
        rw [inQuery] at through
        have within := (suffix_of_throughLast? through).2.length_le
        omega
  · intro inside
    cases inQuery : throughLast? extension query with
    | some inner => exact ⟨name ++ '?' :: inner, rfl, by simp⟩
    | none => exact absurd inside ((throughLast?_eq_none_iff extension_ne_nil query).1 inQuery)

end Cut

/-- A name that ends in the lower-case extension is the file of every block id
behind it whose language does not spell the extension. -/
theorem request?_of_extended_name (languages : Languages) {file : Path} {name : List Char}
    (noMark : '?' ∉ file.text.toList) (noMarkInName : '?' ∉ name) (extended : extension <:+ name)
    {kind : BlockKind} {index : Option Nat} {lang : String}
    (unspelled : ¬ extension <:+: '.' :: lang.toList) {address : Address}
    (readable : Address.ofText? languages (Address.toText kind index lang) = some address) :
    request? languages (String.ofList (name ++ '?' :: blockQuery file kind index lang)) =
      some { file := ⟨String.ofList name⟩, address } := by
  have query : query? (name ++ '?' :: blockQuery file kind index lang) =
      some (blockQuery file kind index lang) :=
    query?_append_cons noMarkInName (endsInExtension_of_suffix extended)
      (isQuery_blockQuery file kind index lang)
  have addressed : address? languages
      (String.ofList (name ++ '?' :: blockQuery file kind index lang)) = some address := by
    rw [address?_of_blockQuery ((congrArg query? String.toList_ofList).trans query)]
    exact readable
  have through : throughLast? extension (name ++ '?' :: blockQuery file kind index lang) =
      some name :=
    (throughLast?_eq_name_iff _ _).2
      ⟨extended, mt (extension_infix_blockQuery_iff noMark kind index lang).1 unspelled⟩
  rw [request?_of_address? addressed, String.toList_ofList, through]
  rfl

/-- A name of at least the length of the extension decides whether the whole
path ends in it. -/
theorem extension_suffix_iff (directory : String) {base : String}
    (long : 4 ≤ base.toList.length) :
    extension <:+ (directory ++ "/" ++ base).toList ↔ extension <:+ base.toList := by
  have baseSuffix : base.toList <:+ (directory ++ "/" ++ base).toList := by
    rw [String.toList_append]
    exact List.suffix_append _ _
  constructor
  · intro isSuffix
    exact List.suffix_of_suffix_length_le isSuffix baseSuffix long
  · intro isSuffix
    exact isSuffix.trans baseSuffix

/-- When a block id that has an address gives back its file: exactly when the
name of the file ends in the lower-case extension and the language does not spell
the extension. It gives no file at all when the lower-case extension occurs in
neither, and a file that takes in some of the query when the language spells
it. -/
theorem request?_encode_iff (languages : Languages) {directory base : String}
    (declared : Option String) (kind : BlockKind) (index : Option Nat) {address : Address}
    (extended : ∃ stem mark, IsExtension mark ∧ base.toList = stem ++ mark)
    (single : '/' ∉ base.toList)
    (noMark : '?' ∉ (directory ++ "/" ++ base).toList)
    (noBackslash : '\\' ∉ (directory ++ "/" ++ base).toList)
    (addressed : address? languages
      (directory ++ "/" ++ encode languages ⟨directory ++ "/" ++ base⟩ declared kind index) =
        some address) :
    let file : Path := ⟨directory ++ "/" ++ base⟩
    let found := request? languages
      (directory ++ "/" ++ encode languages file declared kind index)
    let spelled := extension <:+: '.' :: (languages.forKind kind declared).toList
    (found = some { file, address } ↔ extension <:+ base.toList ∧ ¬ spelled) ∧
      (found = none ↔ ¬ extension <:+: file.text.toList ∧ ¬ spelled) ∧
      ((∃ request, found = some request ∧ file.text.length < request.file.text.length) ↔
        spelled) := by
  intro file found spelled
  obtain ⟨stem, mark, isMark, ends⟩ := extended
  have long : 4 ≤ base.toList.length := by
    have length := length_of_isExtension isMark
    rw [ends, List.length_append]
    omega
  have nonempty : base ≠ "" := by
    rintro rfl
    contradiction
  let query := blockQuery file kind index (languages.forKind kind declared)
  have inQuery : extension <:+: query ↔ spelled :=
    extension_infix_blockQuery_iff noMark kind index (languages.forKind kind declared)
  have foundIs : found =
      (throughLast? extension (file.text.toList ++ '?' :: query)).map
        (fun name => { file := ⟨String.ofList name⟩, address }) := by
    have text := toList_write_in_folder nonempty single noMark noBackslash kind index
      (languages.forKind kind declared)
    rw [← text]
    exact request?_of_address? addressed
  have sameSuffix : extension <:+ file.text.toList ↔ extension <:+ base.toList :=
    extension_suffix_iff directory long
  refine ⟨?_, ?_, ?_⟩
  · rw [foundIs, ← sameSuffix, ← inQuery, ← throughLast?_eq_name_iff]
    constructor
    · intro read
      obtain ⟨name, through, same⟩ := Option.map_eq_some_iff.1 read
      have sameText := congrArg (fun request => request.file.text.toList) same
      simp only [String.toList_ofList] at sameText
      rw [sameText] at through
      exact through
    · intro through
      rw [through, Option.map_some, String.ofList_toList]
  · rw [foundIs, Option.map_eq_none_iff, ← inQuery, throughLast?_eq_none_iff_parts]
  · rw [foundIs, ← inQuery, ← throughLast?_beyond_iff file.text.toList]
    constructor
    · rintro ⟨request, read, longer⟩
      obtain ⟨name, through, rfl⟩ := Option.map_eq_some_iff.1 read
      simp only [← String.length_toList, String.toList_ofList] at longer
      exact ⟨name, through, longer⟩
    · rintro ⟨name, through, longer⟩
      refine ⟨_, Option.map_eq_some_iff.2 ⟨name, through, rfl⟩, ?_⟩
      simpa only [← String.length_toList, String.toList_ofList] using longer

/-- A component in upper case has an address and no file. -/
theorem request?_encode_upper_case :
    request? Languages.builtin
        ("/src" ++ "/" ++ encode Languages.builtin ⟨"/src" ++ "/" ++ "App.VUE"⟩ none .script none) =
      none := by
  have addressed : address? Languages.builtin
      ("/src" ++ "/" ++ encode Languages.builtin ⟨"/src" ++ "/" ++ "App.VUE"⟩ none .script none) =
        some { kind := .script, lang := "js", index := none } := by
    decide +kernel
  have parts := request?_encode_iff Languages.builtin none .script none
    ⟨"App".toList, ".VUE".toList, by decide, by decide⟩ (by decide) (by decide) (by decide)
    addressed
  exact parts.2.1.2 (by decide +kernel)

/-- Two ids that have an address and do not give back the file they were written
for: that of a component in upper case, and that of a block whose language spells
the extension. -/
theorem exists_address_without_owner :
    (isBlockRequest Languages.builtin "/src/App.VUE?vuepart=script.js" = true ∧
        request? Languages.builtin "/src/App.VUE?vuepart=script.js" = none) ∧
      encode Languages.builtin ⟨"/src/App.vue"⟩ (some "a.vue") .script none =
          "App.vue?vuepart=script.a.vue" ∧
        request? Languages.builtin "/src/App.vue?vuepart=script.a.vue" =
          some
            { file := ⟨"/src/App.vue?vuepart=script.a.vue"⟩
              address := { kind := .script, lang := "a.vue", index := none } } := by
  refine ⟨⟨?_, ?_⟩, ?_, ?_⟩
  · decide +kernel
  · decide +kernel
  · decide +kernel
  · decide +kernel

end VirtualBlocks.VirtualId
