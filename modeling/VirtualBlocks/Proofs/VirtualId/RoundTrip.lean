import VirtualBlocks.Proofs.Address
import VirtualBlocks.Proofs.Uri.Query
import VirtualBlocks.Proofs.VirtualId.Cut

/-!
Contract: the id of a block carries its address, whatever file, parameters and
language it is made of.

Owns:
- the base name of a file as a part of its name;
- the text of an id, and that its first cut is the one it was written with:
  neither the base name nor the older parameters start a query of their own;
- that no two blocks of a file share an id;
- the address of an id is the one it was written from, exactly when that one can
  be read back.

Does not own: the file that an id belongs to (`Proofs.VirtualId.Owner`).
-/

namespace VirtualBlocks.VirtualId

/-! ## Base names -/

/-- A base name is what remains of a name without a folder and without
separators at its end. -/
theorem exists_baseName_split (name : List Char) :
    ∃ folder closing, name = folder ++ (baseName name ++ closing) ∧
      (∀ c ∈ closing, isSeparator c = true) ∧ ∀ c ∈ baseName name, isSeparator c = false := by
  let remaining := name.reverse.dropWhile isSeparator
  have last : name.reverse = name.reverse.takeWhile isSeparator ++ remaining :=
    List.takeWhile_append_dropWhile.symm
  have base : remaining =
      remaining.takeWhile (fun c => !isSeparator c) ++ remaining.dropWhile (fun c => !isSeparator c) :=
    List.takeWhile_append_dropWhile.symm
  refine ⟨(remaining.dropWhile (fun c => !isSeparator c)).reverse,
    (name.reverse.takeWhile isSeparator).reverse, ?_, ?_, ?_⟩
  · unfold baseName
    rw [← List.reverse_append, ← List.reverse_append, List.append_assoc, ← base, ← last,
      List.reverse_reverse]
  · intro c member
    exact List.all_eq_true.1 List.all_takeWhile c (List.mem_reverse.1 member)
  · intro c member
    have notSeparator := List.all_eq_true.1 List.all_takeWhile c (List.mem_reverse.1 member)
    simpa using notSeparator

/-- A name keeps an end without separators, and what stands before it up to a
separator. -/
theorem baseName_append {ending : List Char} (nonempty : ending ≠ [])
    (plain : ∀ c ∈ ending, isSeparator c = false) (front : List Char) :
    baseName (front ++ ending) =
      (front.reverse.takeWhile (fun c => !isSeparator c)).reverse ++ ending := by
  have plainReversed : ∀ c ∈ ending.reverse, (!isSeparator c) = true := by
    intro c member
    rw [plain c (List.mem_reverse.1 member)]
    rfl
  have noneDropped : (ending.reverse ++ front.reverse).dropWhile isSeparator =
      ending.reverse ++ front.reverse := by
    cases reversed : ending.reverse with
    | nil => exact absurd (List.reverse_eq_nil_iff.1 reversed) nonempty
    | cons c rest =>
        have notSeparator := plain c (List.mem_reverse.1 (reversed ▸ List.mem_cons_self))
        rw [List.cons_append, List.dropWhile_cons_of_neg (by simp [notSeparator])]
  unfold baseName
  rw [List.reverse_append, noneDropped, List.takeWhile_append_of_pos plainReversed,
    List.reverse_append, List.reverse_reverse]

/-- The base name of a file in a folder. -/
theorem baseName_append_cons {separator : Char} (isMark : isSeparator separator = true)
    (folder : List Char) {base : List Char} (nonempty : base ≠ [])
    (plain : ∀ c ∈ base, isSeparator c = false) :
    baseName (folder ++ separator :: base) = base := by
  have divided := baseName_append nonempty plain (folder ++ [separator])
  rw [List.reverse_concat, List.takeWhile_cons_of_neg (by simp [isMark]), List.append_assoc]
    at divided
  exact divided

theorem baseName_of_plain {base : List Char} (plain : ∀ c ∈ base, isSeparator c = false) :
    baseName base = base := by
  cases base with
  | nil => rfl
  | cons c rest => exact baseName_append (List.cons_ne_nil c rest) plain []

theorem baseName_baseName (name : List Char) : baseName (baseName name) = baseName name := by
  obtain ⟨_, _, _, _, plain⟩ := exists_baseName_split name
  exact baseName_of_plain plain

/-- A base name has the extension of its file. -/
theorem EndsInExtension.baseName {name : List Char} (extended : EndsInExtension name) :
    EndsInExtension (VirtualId.baseName name) := by
  obtain ⟨stem, mark, second, isMark, isSecond, rfl⟩ := extended
  have plain : ∀ c ∈ mark ++ second, isSeparator c = false := by
    intro c member
    have notSlash : c ≠ '/' := fun slash =>
      notMem_extensions (by decide) (by decide) isMark isSecond (slash ▸ member)
    have notBackslash : c ≠ '\\' := fun backslash =>
      notMem_extensions (by decide) (by decide) isMark isSecond (backslash ▸ member)
    simp [isSeparator, notSlash, notBackslash]
  rw [baseName_append (extensions_ne_nil isMark second) plain]
  exact ⟨_, mark, second, isMark, isSecond, rfl⟩

/-- The name of an id has an extension when the whole id has one, whether it has a
query or not. -/
theorem EndsInExtension.withoutQuery {id : List Char} (extended : EndsInExtension id) :
    EndsInExtension (VirtualId.withoutQuery id) := by
  cases found : query? id with
  | none =>
      rw [withoutQuery_of_none found]
      exact extended
  | some query =>
      obtain ⟨name, cut⟩ := exists_isCut_of_query? found
      rw [withoutQuery_of_query? found cut.whole]
      exact cut.extended

/-! ## The text of an id -/

variable (file : Path) (kind : BlockKind) (index : Option Nat) (lang : String)

/-- The query of the id of a block. -/
def blockQuery : List Char :=
  ((parameters file.text.toList).set parameter
    (String.ofList (Address.toText kind index lang))).toText

theorem toList_write :
    (write file kind index lang).toList =
      baseName (withoutQuery file.text.toList) ++ '?' :: blockQuery file kind index lang := by
  unfold write blockQuery
  rw [String.toList_ofList]

/-- A character that no query holds is in an id exactly if the base name of the file holds
it. -/
theorem mem_write_iff {c : Char} (notMark : c ≠ '?') (foreign : Uri.isQueryChar c = false) :
    c ∈ (write file kind index lang).toList ↔ c ∈ baseName (withoutQuery file.text.toList) := by
  have notInQuery : c ∉ blockQuery file kind index lang := Uri.Query.notMem_toText foreign _
  rw [toList_write]
  simp [notMark, notInQuery]

theorem notMem_write {c : Char} (notMark : c ≠ '?') (foreign : Uri.isQueryChar c = false)
    (outside : c ∉ file.text.toList) : c ∉ (write file kind index lang).toList := by
  obtain ⟨folder, closing, divided, -, -⟩ := exists_baseName_split (withoutQuery file.text.toList)
  rw [mem_write_iff file kind index lang notMark foreign]
  intro member
  have inName : c ∈ withoutQuery file.text.toList := by
    rw [divided]
    exact List.mem_append_right folder (List.mem_append_left closing member)
  unfold withoutQuery at inName
  split at inName
  · exact outside (List.mem_of_mem_take inName)
  · exact outside inName

theorem isQuery_blockQuery : isQuery (blockQuery file kind index lang) = true := by
  apply isQuery_iff.2
  exact ⟨Uri.Query.toText_ne_nil (Uri.Query.set_ne_nil _ _ _),
    Uri.Query.notMem_toText (by decide) _⟩

/-- No name inside the base name of a file is followed by a query: it would have
been the query of the file. -/
theorem lineFeed_mem_of_baseName {name stem rest : List Char}
    (named : EndsInExtension (baseName (withoutQuery name)))
    (inside : baseName (withoutQuery name) = stem ++ '?' :: rest)
    (extended : EndsInExtension stem) : '\n' ∈ rest := by
  obtain ⟨folder, closing, split, closingSeparators, _⟩ :=
    exists_baseName_split (withoutQuery name)
  have closingOneLine : '\n' ∉ closing := fun member =>
    absurd (closingSeparators '\n' member) (by decide)
  rw [inside] at split
  cases found : query? name with
  | some query =>
      obtain ⟨⟨cutName, cut⟩, longest⟩ := query?_eq_some_iff.1 found
      rw [withoutQuery_of_query? found cut.whole] at split
      have queryOneLine := (isQuery_iff.1 cut.valid).2
      cases Classical.em ('\n' ∈ rest) with
      | inl member => exact member
      | inr restOneLine =>
          have earlier : IsCut name (folder ++ stem) (rest ++ (closing ++ '?' :: query)) :=
            { whole := by
                rw [cut.whole, split]
                simp
              extended := extended.append folder
              valid := by simp [isQuery, restOneLine, closingOneLine, queryOneLine] }
          have bound := longest _ _ earlier
          simp at bound
          omega
  | none =>
      rw [withoutQuery_of_none found] at split
      cases Classical.em ('\n' ∈ rest) with
      | inl member => exact member
      | inr restOneLine =>
          have restNonempty : rest ≠ [] := by
            rintro rfl
            obtain ⟨before, mark, second, isMark, isSecond, ends⟩ := named
            have long := extensions_ne_nil isMark second
            have last := congrArg List.getLast? (inside.symm.trans ends)
            rw [List.getLast?_concat, List.getLast?_append, List.getLast?_eq_some_getLast long,
              Option.some_or] at last
            have isLast := List.getLast_mem long
            rw [← Option.some.inj last] at isLast
            exact mark_notMem_extensions isMark isSecond isLast
          have cut : IsCut name (folder ++ stem) (rest ++ closing) :=
            { whole := by
                rw [split]
                simp
              extended := extended.append folder
              valid := by simp [isQuery, restNonempty, restOneLine, closingOneLine] }
          exact absurd cut (query?_eq_none_iff.1 found _ _)

/-- The query of an id is the one it was written with. -/
theorem query?_write (named : EndsInExtension (baseName (withoutQuery file.text.toList))) :
    query? (write file kind index lang).toList = some (blockQuery file kind index lang) := by
  rw [toList_write, query?_eq_some_iff]
  refine ⟨⟨_, rfl, named, isQuery_blockQuery file kind index lang⟩, ?_⟩
  intro stem other cut
  rcases List.append_eq_append_iff.1 cut.whole with ⟨beyond, stemIs, restIs⟩ | ⟨within, baseIs, restIs⟩
  · have lengths := congrArg List.length restIs
    simp at lengths
    omega
  · cases within with
    | nil =>
        have lengths := congrArg List.length restIs
        simp at lengths
        omega
    | cons c rest =>
        rw [List.cons_append, List.cons.injEq] at restIs
        rw [← restIs.1] at baseIs
        have twoLines := lineFeed_mem_of_baseName named baseIs cut.extended
        have oneLine := (isQuery_iff.1 cut.valid).2
        rw [restIs.2] at oneLine
        exact absurd (List.mem_append_left _ twoLines) oneLine

variable {file kind index lang} in
/-- An id with the query of a block reads as what the address text reads as. -/
theorem address?_of_blockQuery {languages : Languages} {id : String}
    (query : query? id.toList = some (blockQuery file kind index lang)) :
    address? languages id = Address.ofText? languages (Address.toText kind index lang) := by
  unfold address?
  rw [query]
  simp only [Option.bind_eq_bind, Option.bind_some, blockQuery, Uri.Query.ofText_toText,
    Uri.Query.get?_set, String.toList_ofList]

/-- In one file the ids of two blocks differ, whatever their languages: lists and nothing
else have positions. -/
theorem write_inj {file : Path} {kind other : BlockKind} {index otherIndex : Option Nat}
    {lang otherLang : String} (positioned : index.isSome = kind.isList)
    (otherPositioned : otherIndex.isSome = other.isList)
    (same : write file kind index lang = write file other otherIndex otherLang) :
    kind = other ∧ index = otherIndex := by
  have characters := congrArg String.toList same
  rw [toList_write, toList_write] at characters
  have queries := (List.cons.inj (List.append_cancel_left characters)).2
  have values := congrArg (fun query => (Uri.Query.ofText query).get? parameter) queries
  simp only [blockQuery, Uri.Query.ofText_toText, Uri.Query.get?_set] at values
  exact Address.toText_inj positioned otherPositioned
    (String.ofList_inj.1 (Option.some.inj values))

/-! ## The round trip -/

/-- The id of a block of a component reads back as the address of the block
exactly when its language is not empty and, for a block without a position, does
not start with a segment that reads as one. -/
theorem address?_encode_iff (languages : Languages) (file : Path) (declared : Option String)
    (kind : BlockKind) {index : Option Nat}
    (bounded : ∀ position ∈ index, position < Address.indexBound)
    (named : EndsInExtension (baseName (withoutQuery file.text.toList))) :
    address? languages (encode languages file declared kind index) =
        some { kind, lang := languages.forKind kind declared, index } ↔
      languages.forKind kind declared ≠ "" ∧
        (index.isSome = true ∨
          Address.isIndex (Address.leadingSegment (languages.forKind kind declared).toList) =
            false) := by
  unfold encode
  rw [address?_of_blockQuery (query?_write file kind index _ named)]
  exact Address.ofText?_toText_iff languages kind bounded (languages.forKind kind declared)

/-- A dotted language, and a file with a second extension, a parameter of its
own and an older address. -/
theorem address?_encode_dotted :
    EndsInExtension (baseName (withoutQuery "/src/App.VUE.ts?x=%2B&vuepart=old".toList)) ∧
      address? Languages.builtin (encode Languages.builtin
          ⟨"/src/App.VUE.ts?x=%2B&vuepart=old"⟩ (some "d.ts") .script none) =
        some { kind := .script, lang := "d.ts", index := none } := by
  have named :
      EndsInExtension (baseName (withoutQuery "/src/App.VUE.ts?x=%2B&vuepart=old".toList)) := by
    refine ⟨"App".toList, ".VUE".toList, ".ts".toList, by decide, Or.inr ?_, by decide⟩
    exact ⟨"ts".toList, by decide, List.all_eq_true.1 (by decide), by decide⟩
  have readable : "d.ts" ≠ "" ∧
      ((none : Option Nat).isSome = true ∨
        Address.isIndex (Address.leadingSegment "d.ts".toList) = false) :=
    ⟨by decide, Or.inr (by decide)⟩
  refine ⟨named, ?_⟩
  exact (address?_encode_iff Languages.builtin ⟨"/src/App.VUE.ts?x=%2B&vuepart=old"⟩
    (some "d.ts") .script (by simp) named).2 readable

end VirtualBlocks.VirtualId
