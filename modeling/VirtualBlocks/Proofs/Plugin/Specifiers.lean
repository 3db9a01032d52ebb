import VirtualBlocks.Proofs.Plugin.Served
import VirtualBlocks.Proofs.Text.StringLiteral

/-!
Contract: the specifiers in the statements of a component module, as a script reader sees them.

Owns:
- the characters of the base name of a file that end a string literal early;
- that the ids between single quotes read back exactly when the base name has none of them, and
  a file whose ids do not.

Does not own: the code around the ids, and what the ids lead to.
-/

namespace VirtualBlocks.Plugin

open VirtualBlocks.Text

variable {σ : Type}

/-- The base name that the ids of a file start with. -/
def idBase (file : Path) : List Char :=
  VirtualId.baseName (VirtualId.withoutQuery file.text.toList)

theorem backslash_notMem_idBase (file : Path) : '\\' ∉ idBase file := by
  obtain ⟨-, -, -, -, noSeparator⟩ :=
    VirtualId.exists_baseName_split (VirtualId.withoutQuery file.text.toList)
  intro member
  exact absurd (noSeparator '\\' member) (by decide)

/-- Characters of no query are in an id exactly if they are in the base name. -/
theorem forall_mem_id_iff {file : Path} {kind : BlockKind} {index : Option Nat} {lang : String}
    {excluded : List Char} (notMark : '?' ∉ excluded)
    (foreign : excluded.any Uri.isQueryChar = false) :
    (∀ c ∈ (VirtualId.write file kind index lang).toList, c ∉ excluded) ↔
      ∀ c ∈ idBase file, c ∉ excluded := by
  have sameMember (c : Char) (isExcluded : c ∈ excluded) :=
    VirtualId.mem_write_iff file kind index lang
      (fun mark => notMark (mark ▸ isExcluded))
      (Bool.eq_false_iff.2 (List.any_eq_false.1 foreign c isExcluded))
  constructor
  · exact fun free c member isExcluded => free c ((sameMember c isExcluded).2 member) isExcluded
  · exact fun free c member isExcluded => free c ((sameMember c isExcluded).1 member) isExcluded

/-- The id of a statement reads back from between its quotes, and then as itself, exactly if the
base name of the file has no quote and no line break in it. -/
theorem specifier_reads_back_iff (plugin : Plugin σ) {file : Path} {descriptor : Descriptor}
    {styles : List CompiledStyle} {statement id : String}
    (member : statement ∈ plugin.statements file descriptor styles)
    (refers : RefersTo statement id) :
    (∀ value, ReadsLiteral (id.toList ++ ['\'']) value [] ↔
        value = units id.toList ∧ ∀ c ∈ idBase file, c ∉ ['\'', '\n', '\r']) ∧
      '\\' ∉ id.toList ∧
      ((∀ c ∈ id.toList, c ∉ '\'' :: lineTerminators) ↔
        ∀ c ∈ idBase file, c ∉ '\'' :: lineTerminators) := by
  obtain ⟨address, block, reference⟩ :=
    (refersTo_statements_iff plugin file descriptor styles id).1 ⟨statement, member, refers⟩
  rw [reference.id_eq]
  have noBackslash : '\\' ∉
      (VirtualId.write file address.kind address.index address.lang).toList := by
    rw [VirtualId.mem_write_iff _ _ _ _ (by decide) (by decide)]
    exact backslash_notMem_idBase file
  refine ⟨fun value => ?_, noBackslash, forall_mem_id_iff (by decide) (by decide)⟩
  rw [readsLiteral_iff noBackslash, forall_mem_id_iff (by decide) (by decide)]

/-- The script of a file with double quotes and a blank in its name. -/
theorem specifier_reads_back_double_quotes :
    let component : Descriptor := { script := some { tag := "script", content := "" } }
    let id := "My \"App\".vue?vuepart=script.js"
    "export * from '" ++ id ++ "'" ∈
        verbatim.statements ⟨"/src/My \"App\".vue"⟩ component [] ∧
      ReadsLiteral (id.toList ++ ['\'']) (units id.toList) [] := by
  intro component id
  have member : "export * from '" ++ id ++ "'" ∈
      verbatim.statements ⟨"/src/My \"App\".vue"⟩ component [] := by
    decide +kernel
  have refers : RefersTo ("export * from '" ++ id ++ "'") id :=
    ⟨"export * from ", by decide, by decide +kernel⟩
  have free : (idBase ⟨"/src/My \"App\".vue"⟩).any ['\'', '\n', '\r'].contains = false := by
    decide +kernel
  refine ⟨member, ((specifier_reads_back_iff verbatim member refers).1 _).2 ⟨rfl, ?_⟩⟩
  intro c inBase
  simpa using List.any_eq_false.1 free c inBase

/-- A handled file with a single quote in its name: its module imports a specifier that ends at
this quote, in the middle of the id. -/
theorem exists_broken_specifier :
    let id := "it's.vue?vuepart=script.js"
    IdFilter.builtin.accepts "/src/it's.vue" = true ∧
      (verbatim.transform "<script></script>" "/src/it's.vue" { world := () }).1.toOption.join.map
          TransformOutput.code =
        some ("export * from '" ++ id ++ "'\nimport script from '" ++ id ++
          "'\nexport default script") ∧
      ReadsLiteral (id.toList ++ ['\'']) (units "it".toList) ("s.vue?vuepart=script.js'".toList) ∧
      ¬ ∃ value, ReadsLiteral (id.toList ++ ['\'']) value [] := by
  intro id
  refine ⟨by decide +kernel, by decide +kernel, ?_, ?_⟩
  · have whole : id.toList ++ ['\''] =
        "it".toList ++ '\'' :: "s.vue?vuepart=script.js'".toList := by
      decide
    rw [whole]
    exact readsLiteral_of_isLiteral (List.all_eq_true.1 (by decide)) _
  · rintro ⟨value, reads⟩
    have free := ((readsLiteral_iff (by decide) value).1 reads).2
    exact free '\'' (by decide) (by decide)

end VirtualBlocks.Plugin
