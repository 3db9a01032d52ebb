import VirtualBlocks.Proofs.Plugin.References
import VirtualBlocks.Proofs.Text.SolidLines
import VirtualBlocks.Proofs.VirtualId.RoundTrip

/-!
Contract: the script that a component module is assembled from.

Owns:
- the script as its statements in a row, without their indentation;
- that a statement which refers to a block is one line, and stays a line of the
  script.

Does not own: which blocks the statements refer to (`Proofs.Plugin.References`).
-/

namespace VirtualBlocks.Plugin

open Text

variable {σ : Type} {plugin : Plugin σ} {file : Path} {descriptor : Descriptor}
variable {styles : List CompiledStyle}

theorem toList_join_lines (lines : List String) :
    (String.join (lines.map ("\n" ++ ·))).toList = appended (lines.map String.toList) := by
  rw [String.toList_join, List.flatMap_map, appended, List.flatMap_map]
  simp

theorem toList_script (scope : String) (template : Option CompiledTemplate) :
    (plugin.assemblyInput file scope descriptor styles template).script.code.toList =
      unindent (['\n'].intercalate
        ((plugin.scriptStatements file descriptor styles).map String.toList)) := by
  unfold assemblyInput scriptStatements
  dsimp only
  rw [String.toList_ofList, String.toList_append, toList_entryScript, toList_join_lines,
    List.map_append, unindent_append_appended]

theorem lineFeed_notMem_inQuotes {id : String} (oneLine : '\n' ∉ id.toList) :
    '\n' ∉ (inQuotes id).toList := by
  unfold inQuotes
  simp [oneLine]

theorem isFlush_keyword {keyword id : String} (isKeyword : keyword ∈ keywords)
    (oneLine : '\n' ∉ id.toList) : IsFlush (keyword ++ inQuotes id).toList := by
  have starts : ∀ keyword ∈ keywords,
      keyword.toList.head?.any (fun first => !isBlank first) = true ∧ '\n' ∉ keyword.toList := by
    decide
  obtain ⟨solid, keywordOneLine⟩ := starts keyword isKeyword
  have flush : IsFlush keyword.toList := ⟨solid, keywordOneLine⟩
  rw [String.toList_append]
  exact flush.append (lineFeed_notMem_inQuotes oneLine)

/-- A statement that refers to a block starts with a keyword, and has a line feed only if
the name of the file has one. -/
theorem isFlush_of_refersTo (oneLine : '\n' ∉ file.text.toList) {statement id : String}
    (member : statement ∈ plugin.statements file descriptor styles)
    (refers : RefersTo statement id) : IsFlush statement.toList := by
  obtain ⟨address, block, reference⟩ :=
    (refersTo_statements_iff plugin file descriptor styles id).1 ⟨statement, member, refers⟩
  have idOneLine : '\n' ∉ id.toList := by
    rw [reference.id_eq]
    exact VirtualId.notMem_write file _ _ _ (by decide) (by decide) oneLine
  obtain ⟨keyword, isKeyword, rfl⟩ := refers
  exact isFlush_keyword isKeyword idOneLine

/-- A statement of the script that refers to a block is one of its lines. -/
theorem mem_splitOn_script (oneLine : '\n' ∉ file.text.toList) (scope : String)
    (template : Option CompiledTemplate) {statement id : String}
    (member : statement ∈ plugin.scriptStatements file descriptor styles)
    (refers : RefersTo statement id) :
    statement.toList ∈
      (plugin.assemblyInput file scope descriptor styles template).script.code.toList.splitOn
        '\n' := by
  have flush := isFlush_of_refersTo oneLine (List.mem_append_left _ member) refers
  have isPart : statement.toList ∈
      (plugin.scriptStatements file descriptor styles).map String.toList :=
    List.mem_map_of_mem member
  rw [toList_script]
  exact flush.mem_splitOn_unindent (mem_splitOn_intercalate isPart flush.oneLine)

end VirtualBlocks.Plugin
